import LayeredConfig.Proofs.Node.Reading

/-!
# Which computations an operation runs

An operation takes the way to run computations as a parameter `call`. What it runs itself, other
than what these computations run in turn, is therefore seen in how it depends on `call`, whatever
the computations do. An operation that does not read is quiet: it makes no use of `call` at all, and
leaves everything but the nodes as it was (`Operation.quiet_of_not_reads`). Reading a key runs the
computation that stands there, and so does a step of a reading in progress. Asking for a path goes
from key to key (`Node.Probes`).
-/

namespace LayeredConfig

namespace Memory

/-- Nothing but nodes differs. No computation has run, since it would have been counted. -/
structure OnlyNodes (m m' : Memory) : Prop where
  computations_eq : m'.computations = m.computations
  names_eq : m'.names = m.names
  trace_eq : m'.trace = m.trace

instance : IsPreorder Memory OnlyNodes where
  refl _ := ⟨rfl, rfl, rfl⟩
  trans _ _ _ h h' := ⟨h'.computations_eq.trans h.computations_eq, h'.names_eq.trans h.names_eq,
    h'.trace_eq.trans h.trace_eq⟩

theorem keeps_onlyNodes_onForest {α : Type} (x : ForestM α) : Keeps OnlyNodes (onForest x) := by
  intro m
  rw [after_onForest]
  exact ⟨rfl, rfl, rfl⟩

/-- The computation that stands under a key of a node. -/
def due? (m : Memory) (n : NodeId) : Value → Option DeferredId
  | .text key =>
    match m.forest.find? n key with
    | some (.deferred d) => some d
    | _ => none
  | _ => none

variable {m : Memory} {n : NodeId} {key : String} {d : DeferredId}

theorem due?_eq_some : m.due? n (.text key) = some d ↔
    m.forest.find? n key = some (.deferred d) := by
  rw [due?]
  split
  · next e he => rw [he, Option.some.injEq, Option.some.injEq, Value.deferred.injEq]
  · next hne => exact iff_of_false nofun fun h ↦ hne d h

theorem exists_of_due? {key : Value} (h : m.due? n key = some d) :
    ∃ name, key = .text name ∧ m.forest.find? n name = some (.deferred d) := by
  unfold due? at h
  split at h
  · next name => exact ⟨name, rfl, due?_eq_some.mp h⟩
  · cases h

end Memory

open Memory (OnlyNodes keeps_onlyNodes_onForest)

/-! ## Operations that do not read -/

namespace Operation

/-- The operation reads values, or runs a computation. -/
def reads : Operation → Bool
  | .get .. | .present .. | .items .. | .export .. | .call .. => true
  | .create .. | .set .. | .hasKey .. | .keys .. | .merge .. | .freeze .. | .copy .. | .equal .. =>
    false

/-- The operation runs no computation: it is the same whatever running one would do, and it changes
nothing but nodes. -/
def Quiet (op : Operation) (m : Memory) : Prop := ∀ call call', op.performWith call m =
  op.performWith call' m ∧ OnlyNodes m (after (op.performWith call) m)

variable {op : Operation}

theorem keeps_onlyNodes (h : op.reads = false) (call : DeferredId → Eval Value) :
    Keeps OnlyNodes (op.performWith call) := by
  cases op with
  | create source => exact (keeps_onlyNodes_onForest _).bind fun _ ↦ .pure _
  | set n key value =>
    exact ((Node.keeps_checkKey key).bind fun _ ↦ keeps_onlyNodes_onForest _).bind fun _ ↦ .pure _
  | hasKey n key => exact (Node.keeps_hasKey n key).bind fun _ ↦ .pure _
  | keys n => exact .bind (.bind .get fun _ ↦ .pure _) fun _ ↦ .pure _
  | merge n other => exact (keeps_onlyNodes_onForest _).bind fun _ ↦ .pure _
  | freeze n => exact .bind (.modify fun _ ↦ ⟨rfl, rfl, rfl⟩) fun _ ↦ .pure _
  | copy n => exact (keeps_onlyNodes_onForest _).bind fun _ ↦ .pure _
  | equal a b => exact .bind (.bind .get fun _ ↦ .pure _) fun _ ↦ .pure _
  | _ => cases h

/-- **What does not read runs no computation.** -/
theorem quiet_of_not_reads (h : op.reads = false) (m : Memory) : op.Quiet m := by
  intro call call'
  refine ⟨?_, keeps_onlyNodes h call m⟩
  cases op with
  | get | present | items | «export» | call => cases h
  | _ => rfl

end Operation

/-! ## Reading a key -/

namespace Node

variable {call : DeferredId → Eval Value} {m m₁ : Memory} {n : NodeId} {name : String}
  {key v stored : Value} {d : DeferredId}

/-- **Reading a key runs the computation that stands there**, once. -/
theorem getWith_of_due? (h : m.due? n key = some d) : getWith call n key m = call d m := by
  obtain ⟨name, rfl, hfind⟩ := Memory.exists_of_due? h
  exact getWith_of_some hfind

/-- Where no computation stands, nothing happens. -/
theorem quiet_get (h : m.due? n key = none) : (Operation.get n key).Quiet m := by
  intro call call'
  by_cases hkey : ∃ name, key = .text name
  · obtain ⟨name, rfl⟩ := hkey
    simp only [Operation.performWith]
    cases hfind : m.forest.find? n name with
    | none =>
      rw [getWith_of_none hfind, getWith_of_none hfind, after_of_error (getWith_of_none hfind)]
      exact ⟨rfl, rfl, rfl, rfl⟩
    | some stored =>
      cases stored with
      | deferred d => cases h.symm.trans (Memory.due?_eq_some.mpr hfind)
      | _ =>
        rw [getWith_of_some hfind, getWith_of_some hfind, after, getWith_of_some hfind]
        exact ⟨rfl, rfl, rfl, rfl⟩
  · cases key with
    | scalar s =>
      cases s with
      | text name => exact absurd ⟨name, rfl⟩ hkey
      | _ => exact ⟨rfl, rfl, rfl, rfl⟩
    | _ => exact ⟨rfl, rfl, rfl, rfl⟩

/-! ## Asking for a path -/

/-- What asking for a path runs, one after the other, and the memory behind it. Each key is looked
up in the node that the last one led to, at the moment when that one has been read. -/
inductive Probes (call : DeferredId → Eval Value) :
    NodeId → List Value → List DeferredId → Memory → Memory → Prop where
  /-- No more keys are read. -/
  | stopped (n : NodeId) (path : List Value) (m : Memory) : Probes call n path [] m m
  /-- A node stands under the key. -/
  | down {n c : NodeId} {key : String} {path : List Value} {ds : List DeferredId} {m m' : Memory}
      (stored : m.forest.find? n key = some (.node c)) (rest : Probes call c path ds m m') :
      Probes call n (.text key :: path) ds m m'
  /-- A computation stands under the key, and no more keys are read. -/
  | ran {n : NodeId} {d : DeferredId} {key : Value} {m : Memory} (stored : m.due? n key = some d)
      (path : List Value) : Probes call n (key :: path) [d] m (after (call d) m)
  /-- A computation stands under the key, and gives a node. -/
  | through {n c : NodeId} {d : DeferredId} {key : Value} {path : List Value}
      {ds : List DeferredId} {m m₁ m' : Memory} (stored : m.due? n key = some d)
      (gave : call d m = .ok (.node c) m₁) (rest : Probes call c path ds m₁ m') :
      Probes call n (key :: path) (d :: ds) m m'

theorem Probes.length_le {path : List Value} {ds : List DeferredId} {m' : Memory}
    (h : Probes call n path ds m m') : ds.length ≤ path.length := by
  induction h with
  | stopped => exact Nat.zero_le _
  | down _ _ ih => exact Nat.le_succ_of_le ih
  | ran => exact Nat.succ_le_succ (Nat.zero_le _)
  | through _ _ _ ih => exact Nat.succ_le_succ ih

/-- A key that can be read is there. -/
theorem isSome_of_getWith (h : getWith call n (.text name) m = .ok v m₁) :
    (m.forest.find? n name).isSome = true := by
  cases hv : m.forest.find? n name with
  | none =>
    rw [getWith_of_none hv] at h
    cases h
  | some stored => rfl

theorem presentWith_of_missing (h : m.forest.find? n name = none) (rest : List Value) :
    presentWith call n (.text name :: rest) m = .ok false m := by
  rw [presentWith, bind_of_ok (hasKey_text n name m), h]
  rfl

/-- The key is there and cannot be read. -/
theorem presentWith_of_error {f : Failure} (hthere : m.forest.find? n name = some stored)
    (h : getWith call n (.text name) m = .error f m₁) (rest : List Value) :
    presentWith call n (.text name :: rest) m = .error f m₁ := by
  rw [presentWith, bind_of_ok (hasKey_text n name m), hthere, Option.isSome_some, Bool.not_true,
    if_neg Bool.false_ne_true, bind_of_error h]

/-- What was read does not count as set. -/
theorem presentWith_of_unset (h : getWith call n (.text name) m = .ok v m₁)
    (hset : m₁.forest.truthy v = false) (rest : List Value) :
    presentWith call n (.text name :: rest) m = .ok false m₁ := by
  rw [presentWith, bind_of_ok (hasKey_text n name m), isSome_of_getWith h, Bool.not_true,
    if_neg Bool.false_ne_true, bind_of_ok h, get_bind, hset, Bool.not_false, if_pos rfl]
  rfl

/-- Asking for a path goes on with what was read under its first key. -/
theorem presentWith_of_read (h : getWith call n (.text name) m = .ok v m₁)
    (hset : m₁.forest.truthy v = true) (rest : List Value) :
    presentWith call n (.text name :: rest) m =
      if rest.isEmpty then .ok true m₁ else
        match v with
        | .node c => presentWith call c rest m₁
        | _ => .ok false m₁ := by
  rw [presentWith, bind_of_ok (hasKey_text n name m), isSome_of_getWith h, Bool.not_true,
    if_neg Bool.false_ne_true, bind_of_ok h, get_bind, hset, Bool.not_true,
    if_neg Bool.false_ne_true]
  cases rest with
  | nil => rfl
  | cons next rest => cases v <;> rfl

/-- Behind what was read nothing else is read, or it is a node and the rest is asked for there. -/
theorem after_presentWith (h : getWith call n (.text name) m = .ok v m₁) (rest : List Value) :
    after (presentWith call n (.text name :: rest)) m = m₁ ∨ ∃ c, v = .node c ∧
      after (presentWith call n (.text name :: rest)) m = after (presentWith call c rest) m₁ := by
  cases hset : m₁.forest.truthy v with
  | false => exact .inl (after_of_ok (presentWith_of_unset h hset rest))
  | true =>
    rw [after, presentWith_of_read h hset]
    cases rest with
    | nil => exact .inl rfl
    | cons next rest =>
      cases v with
      | node c => exact .inr ⟨c, rfl, rfl⟩
      | _ => exact .inl rfl

section Behind

variable {rest : List Value} (hrest : ∀ (c : NodeId) (m : Memory),
  ∃ ds, Probes call c rest ds m (after (presentWith call c rest) m))

include hrest

/-- A computation under the first key runs, and if it gives a node the rest is asked for there. -/
theorem probes_of_deferred (hfind : m.forest.find? n name = some (.deferred d)) :
    ∃ ds, Probes call n (.text name :: rest) ds m
      (after (presentWith call n (.text name :: rest)) m) := by
  have hdue := Memory.due?_eq_some.mpr hfind
  have hread : getWith call n (.text name) m = call d m := getWith_of_due? hdue
  have hran : Probes call n (.text name :: rest) [d] m (after (call d) m) := .ran hdue rest
  cases hv : call d m with
  | error f m₁ =>
    rw [after_of_error hv] at hran
    rw [after_of_error (presentWith_of_error hfind (hread.trans hv) rest)]
    exact ⟨[d], hran⟩
  | ok v m₁ =>
    rw [after_of_ok hv] at hran
    rcases after_presentWith (hread.trans hv) rest with hend | ⟨c, rfl, hbehind⟩
    · rw [hend]
      exact ⟨[d], hran⟩
    · obtain ⟨ds, hds⟩ := hrest c m₁
      rw [hbehind]
      exact ⟨d :: ds, .through hdue hv hds⟩

theorem probes_of_plain (hfind : m.forest.find? n name = some stored)
    (hplain : ∀ d, stored ≠ .deferred d) : ∃ ds, Probes call n (.text name :: rest) ds m
      (after (presentWith call n (.text name :: rest)) m) := by
  have hread : getWith call n (.text name) m = .ok stored m := by
    rw [getWith_of_some hfind]
    cases stored with
    | deferred d => exact absurd rfl (hplain d)
    | _ => rfl
  rcases after_presentWith hread rest with hend | ⟨c, rfl, hbehind⟩
  · rw [hend]
    exact ⟨[], .stopped n _ m⟩
  · obtain ⟨ds, hds⟩ := hrest c m
    rw [hbehind]
    exact ⟨ds, .down hfind hds⟩

end Behind

/-- What is no text leads nowhere, or is refused. -/
theorem after_presentWith_of_not_text (hkey : ∀ name, key ≠ .text name) (rest : List Value) :
    after (presentWith call n (key :: rest)) m = m := by
  rcases hasKey_of_not_text hkey n m with hok | ⟨e, herror⟩
  · rw [after, presentWith, bind_of_ok hok]
    rfl
  · rw [presentWith, after_of_error (bind_of_error herror)]

/-- **Asking for a path** runs at most the computation that stands under each of its keys, once. -/
theorem probes_presentWith (path : List Value) (n : NodeId) (m : Memory) :
    ∃ ds, Probes call n path ds m (after (presentWith call n path) m) := by
  induction path generalizing n m with
  | nil => exact ⟨[], .stopped n [] m⟩
  | cons key rest ih =>
    by_cases hkey : ∃ name, key = .text name
    · obtain ⟨name, rfl⟩ := hkey
      cases hfind : m.forest.find? n name with
      | none =>
        rw [after_of_ok (presentWith_of_missing hfind rest)]
        exact ⟨[], .stopped n _ m⟩
      | some stored =>
        by_cases hd : ∃ d, stored = .deferred d
        · obtain ⟨d, rfl⟩ := hd
          exact probes_of_deferred ih hfind
        · exact probes_of_plain ih hfind (not_exists.mp hd)
    · rw [after_presentWith_of_not_text (not_exists.mp hkey)]
      exact ⟨[], .stopped n _ m⟩

end Node

/-! ## A step of a reading in progress -/

namespace Cursor

variable {c : Cursor} {m : Memory} {key : String} {d : DeferredId} {rest : Entries Value}

/-- **A step runs the computation of the pair whose turn it is**, once. -/
theorem advance_of_deferred (h : c.pending m.forest = (key, .deferred d) :: rest) :
    c.advance m = ((fun v ↦ some (key, v)) <$> evaluate d) m := by
  rw [advance, next, h]
  dsimp only [Node.resolve]
  cases hv : evaluate d m with
  | ok v m₁ => rw [map_of_ok hv]
  | error e m₁ => rw [map_eq_pure_bind, bind_of_error hv]

/-- If the pair holds no computation, or there is none left, the step changes nothing. -/
theorem advance_of_plain (h : ∀ key d rest, c.pending m.forest ≠ (key, .deferred d) :: rest) :
    c.advance m = .ok (c.pending m.forest).head? m := by
  rw [advance, next]
  cases hp : c.pending m.forest with
  | nil => rfl
  | cons e rest =>
    obtain ⟨key, stored⟩ := e
    cases stored with
    | deferred d => exact absurd hp (h key d rest)
    | _ => rfl

end Cursor

end LayeredConfig
