import LayeredConfig.Node.Basic

/-!
# Cursors

A cursor hands out the entries of a node one by one. It fixes what it will hand out when it is
first advanced, not when it is made; a computation among the entries runs when its turn comes.
A cursor whose computation failed is at its end.
-/

namespace LayeredConfig

/-- A reading of a node in progress. -/
inductive Cursor where
  /-- Not advanced yet. -/
  | fresh (n : NodeId)
  /-- The entries still to be handed out. -/
  | running (rest : Entries Value)
deriving Repr, Inhabited

namespace Cursor

/-- The entries still to be handed out. -/
def pending (f : Forest) : Cursor → Entries Value
  | .fresh n => f.entries n
  | .running rest => rest

/-- The next pair of key and value, `none` at the end, and the cursor behind it. -/
def next (c : Cursor) (m : Memory) :
    Cursor × EStateM.Result Failure Memory (Option (String × Value)) :=
  match c.pending m.forest with
  | [] => (.running [], .ok none m)
  | (key, stored) :: rest =>
    match Node.resolve evaluate stored m with
    | .ok v m => (.running rest, .ok (some (key, v)) m)
    | .error f m => (.running [], .error f m)

end Cursor

end LayeredConfig
