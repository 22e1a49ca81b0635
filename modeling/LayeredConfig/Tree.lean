import LayeredConfig.Value

/-!
# Trees

A value together with everything that it reaches: the contents of a node stand in the tree itself,
beside the node's identity. A tree is a snapshot, so reading, comparing and writing out a value
are plain recursions over its tree and need no forest.
-/

namespace LayeredConfig

/-- A value with the contents of its nodes. -/
inductive Tree where
  | scalar (s : Scalar)
  | seq (kind : SeqKind) (items : List Tree)
  | set (items : List Scalar)
  | mapping (entries : List (Tree × Tree))
  | node (id : NodeId) (frozen : Bool) (entries : List (String × Tree))
  | deferred (id : DeferredId)
deriving Repr, Inhabited

namespace Tree

/-- Induction on a tree through what stands inside it. -/
@[elab_as_elim, induction_eliminator]
theorem induction {motive : Tree → Prop}
    (scalar : ∀ s, motive (.scalar s))
    (seq : ∀ kind items, (∀ t ∈ items, motive t) → motive (.seq kind items))
    (set : ∀ items, motive (.set items))
    (mapping : ∀ entries, (∀ e ∈ entries, motive e.1 ∧ motive e.2) → motive (.mapping entries))
    (node : ∀ id frozen entries, (∀ e ∈ entries, motive e.2) → motive (.node id frozen entries))
    (deferred : ∀ id, motive (.deferred id)) (t : Tree) : motive t :=
  @Tree.rec motive (fun items ↦ ∀ t ∈ items, motive t)
    (fun entries ↦ ∀ e ∈ entries, motive e.1 ∧ motive e.2) (fun fields ↦ ∀ e ∈ fields, motive e.2)
    (fun e ↦ motive e.1 ∧ motive e.2) (fun e ↦ motive e.2)
    scalar seq set mapping node deferred
    (fun _ h ↦ absurd h List.not_mem_nil)
    (fun _ _ ht hrest u hu ↦ (List.mem_cons.mp hu).elim (fun h ↦ h ▸ ht) (hrest u))
    (fun _ h ↦ absurd h List.not_mem_nil)
    (fun _ _ he hrest e h ↦ (List.mem_cons.mp h).elim (fun h ↦ h ▸ he) (hrest e))
    (fun _ h ↦ absurd h List.not_mem_nil)
    (fun _ _ he hrest e h ↦ (List.mem_cons.mp h).elim (fun h ↦ h ▸ he) (hrest e))
    (fun _ _ hk hv ↦ ⟨hk, hv⟩) (fun _ _ hv ↦ hv) t

mutual

/-- Equality as a collection tests it on its items. Mappings and nodes ignore the order of their
keys, a list never equals a tuple, and a computation equals itself only. -/
def itemEqual : Tree → Tree → Bool
  | .scalar a, .scalar b => a.sameOrEqual b
  | .seq j xs, .seq k ys => j == k && itemsEqual xs ys
  | .set xs, .set ys => xs.length == ys.length && xs.all fun x ↦ ys.any x.sameOrEqual
  | .mapping xs, .mapping ys => xs.length == ys.length && entriesWithin xs ys
  | .node _ _ xs, .node _ _ ys => xs.length == ys.length && fieldsWithin xs ys
  | .deferred a, .deferred b => a == b
  | _, _ => false
termination_by structural x => x

private def itemsEqual : List Tree → List Tree → Bool
  | [], [] => true
  | x :: xs, y :: ys => itemEqual x y && itemsEqual xs ys
  | _, _ => false
termination_by structural x => x

private def entriesWithin : List (Tree × Tree) → List (Tree × Tree) → Bool
  | [], _ => true
  | (k, v) :: rest, ys =>
    (ys.any fun (k', v') ↦ itemEqual k k' && itemEqual v v') && entriesWithin rest ys
termination_by structural x => x

private def fieldsWithin : List (String × Tree) → List (String × Tree) → Bool
  | [], _ => true
  | (k, v) :: rest, ys =>
    (ys.any fun (k', v') ↦ k == k' && itemEqual v v') && fieldsWithin rest ys
termination_by structural x => x

end

private theorem itemsEqual_eq (xs ys : List Tree) :
    itemsEqual xs ys
      = (xs.length == ys.length && (xs.zip ys).all fun p ↦ itemEqual p.1 p.2) := by
  induction xs generalizing ys with
  | nil => cases ys <;> rfl
  | cons x xs ih =>
    cases ys with
    | nil => rfl
    | cons y ys =>
      rw [itemsEqual, ih, List.zip_cons_cons, List.all_cons, Bool.and_left_comm]
      simp

private theorem entriesWithin_eq (xs ys : List (Tree × Tree)) :
    entriesWithin xs ys
      = xs.all fun x ↦ ys.any fun y ↦ itemEqual x.1 y.1 && itemEqual x.2 y.2 := by
  induction xs with
  | nil => rfl
  | cons x rest ih => rw [entriesWithin, ih, List.all_cons]

private theorem fieldsWithin_eq (xs ys : List (String × Tree)) :
    fieldsWithin xs ys = xs.all fun x ↦ ys.any fun y ↦ x.1 == y.1 && itemEqual x.2 y.2 := by
  induction xs with
  | nil => rfl
  | cons x rest ih => rw [fieldsWithin, ih, List.all_cons]

theorem itemEqual_seq (j k : SeqKind) (xs ys : List Tree) :
    itemEqual (.seq j xs) (.seq k ys)
      = (j == k && (xs.length == ys.length && (xs.zip ys).all fun p ↦ itemEqual p.1 p.2)) := by
  rw [itemEqual, itemsEqual_eq]

theorem itemEqual_mapping (xs ys : List (Tree × Tree)) :
    itemEqual (.mapping xs) (.mapping ys)
      = (xs.length == ys.length
        && xs.all fun x ↦ ys.any fun y ↦ itemEqual x.1 y.1 && itemEqual x.2 y.2) := by
  rw [itemEqual, entriesWithin_eq]

theorem itemEqual_node (m n : NodeId) (a b : Bool) (xs ys : List (String × Tree)) :
    itemEqual (.node m a xs) (.node n b ys)
      = (xs.length == ys.length
        && xs.all fun x ↦ ys.any fun y ↦ x.1 == y.1 && itemEqual x.2 y.2) := by
  rw [itemEqual, fieldsWithin_eq]

/-- Equality of values. It differs from the equality of items only on a NaN, which equals
nothing. -/
def equal : Tree → Tree → Bool
  | .scalar a, .scalar b => a.equal b
  | a, b => itemEqual a b

/-- Whether two values are of the same kind. -/
def sameKind : Tree → Tree → Bool
  | .scalar a, .scalar b => a.kindName == b.kindName
  | .seq j _, .seq k _ => j == k
  | .set _, .set _ => true
  | .mapping _, .mapping _ => true
  | .node .., .node .. => true
  | .deferred _, .deferred _ => true
  | _, _ => false

/-- Items between brackets. -/
def bracketed (opening closing : String) (items : List String) : String :=
  opening ++ ", ".intercalate items ++ closing

mutual

/-- The written form inside a message, given the written forms of the computations. -/
def quoted (names : DeferredId → String) : Tree → String
  | .scalar s => s.quoted
  | .seq .list items => bracketed "[" "]" (quotedItems names items)
  | .seq .tuple items =>
    match quotedItems names items with
    | [one] => "(" ++ one ++ ",)"
    | several => bracketed "(" ")" several
  | .set [] => "set()"
  | .set items => bracketed "\x7b" "\x7d" (items.map Scalar.quoted)
  | .mapping entries => bracketed "\x7b" "\x7d" (quotedEntries names entries)
  | .node _ _ entries => bracketed "Node(\x7b" "\x7d)" (quotedFields names entries)
  | .deferred id => names id
termination_by structural x => x

private def quotedItems (names : DeferredId → String) : List Tree → List String
  | [] => []
  | t :: rest => quoted names t :: quotedItems names rest
termination_by structural x => x

private def quotedEntries (names : DeferredId → String) : List (Tree × Tree) → List String
  | [] => []
  | (k, v) :: rest => (quoted names k ++ ": " ++ quoted names v) :: quotedEntries names rest
termination_by structural x => x

private def quotedFields (names : DeferredId → String) : List (String × Tree) → List String
  | [] => []
  | (k, v) :: rest => (Quoted.text k ++ ": " ++ quoted names v) :: quotedFields names rest
termination_by structural x => x

end

private theorem quotedItems_eq (names : DeferredId → String) (items : List Tree) :
    quotedItems names items = items.map (quoted names) := by
  induction items with
  | nil => rfl
  | cons t rest ih => rw [quotedItems, ih, List.map_cons]

private theorem quotedFields_eq (names : DeferredId → String) (fields : List (String × Tree)) :
    quotedFields names fields
      = fields.map fun e ↦ Quoted.text e.1 ++ ": " ++ quoted names e.2 := by
  induction fields with
  | nil => rfl
  | cons e rest ih => rw [quotedFields, ih, List.map_cons]

private theorem quotedEntries_eq (names : DeferredId → String) (entries : List (Tree × Tree)) :
    quotedEntries names entries
      = entries.map fun e ↦ quoted names e.1 ++ ": " ++ quoted names e.2 := by
  induction entries with
  | nil => rfl
  | cons e rest ih => rw [quotedEntries, ih, List.map_cons]

theorem quoted_list (names : DeferredId → String) (items : List Tree) :
    quoted names (.seq .list items) = bracketed "[" "]" (items.map (quoted names)) := by
  rw [quoted, quotedItems_eq]

theorem quoted_tuple (names : DeferredId → String) (items : List Tree) :
    quoted names (.seq .tuple items) =
      match items.map (quoted names) with
      | [one] => "(" ++ one ++ ",)"
      | several => bracketed "(" ")" several := by
  rw [quoted, quotedItems_eq]

theorem quoted_mapping (names : DeferredId → String) (entries : List (Tree × Tree)) :
    quoted names (.mapping entries) = bracketed "\x7b" "\x7d"
      (entries.map fun e ↦ quoted names e.1 ++ ": " ++ quoted names e.2) := by
  rw [quoted, quotedEntries_eq]

theorem quoted_node (names : DeferredId → String) (id : NodeId) (frozen : Bool)
    (fields : List (String × Tree)) :
    quoted names (.node id frozen fields) = bracketed "Node(\x7b" "\x7d)"
      (fields.map fun e ↦ Quoted.text e.1 ++ ": " ++ quoted names e.2) := by
  rw [quoted, quotedFields_eq]

/-- The text that the value turns into. -/
def display (names : DeferredId → String) : Tree → String
  | .scalar s => s.display
  | t => t.quoted names

mutual

/-- The value without the contents of its nodes. -/
def toValue : Tree → Value
  | .scalar s => .scalar s
  | .seq kind items => .seq kind (toValues items)
  | .set items => .set items
  | .mapping entries => .mapping (toEntries entries)
  | .node id _ _ => .node id
  | .deferred id => .deferred id
termination_by structural x => x

private def toValues : List Tree → List Value
  | [] => []
  | t :: rest => toValue t :: toValues rest
termination_by structural x => x

private def toEntries : List (Tree × Tree) → List (Value × Value)
  | [] => []
  | (k, v) :: rest => (toValue k, toValue v) :: toEntries rest
termination_by structural x => x

end

mutual

/-- The nodes in the tree, each before what it holds. -/
def nodes : Tree → List NodeId
  | .seq _ items => itemNodes items
  | .mapping entries => entryNodes entries
  | .node id _ entries => id :: fieldNodes entries
  | _ => []
termination_by structural x => x

private def itemNodes : List Tree → List NodeId
  | [] => []
  | t :: rest => nodes t ++ itemNodes rest
termination_by structural x => x

private def entryNodes : List (Tree × Tree) → List NodeId
  | [] => []
  | (k, v) :: rest => nodes k ++ nodes v ++ entryNodes rest
termination_by structural x => x

private def fieldNodes : List (String × Tree) → List NodeId
  | [] => []
  | (_, v) :: rest => nodes v ++ fieldNodes rest
termination_by structural x => x

end

private theorem itemNodes_eq (items : List Tree) : itemNodes items = items.flatMap nodes := by
  induction items with
  | nil => rfl
  | cons t rest ih => rw [itemNodes, ih, List.flatMap_cons]

private theorem entryNodes_eq (entries : List (Tree × Tree)) :
    entryNodes entries = entries.flatMap fun e ↦ nodes e.1 ++ nodes e.2 := by
  induction entries with
  | nil => rfl
  | cons e rest ih => rw [entryNodes, ih, List.flatMap_cons]

private theorem fieldNodes_eq (fields : List (String × Tree)) :
    fieldNodes fields = fields.flatMap fun e ↦ nodes e.2 := by
  induction fields with
  | nil => rfl
  | cons e rest ih => rw [fieldNodes, ih, List.flatMap_cons]

@[simp] theorem nodes_scalar (s : Scalar) : nodes (.scalar s) = [] := rfl

@[simp] theorem nodes_seq (kind : SeqKind) (items : List Tree) :
    nodes (.seq kind items) = items.flatMap nodes := itemNodes_eq items

@[simp] theorem nodes_set (items : List Scalar) : nodes (.set items) = [] := rfl

@[simp] theorem nodes_mapping (entries : List (Tree × Tree)) :
    nodes (.mapping entries) = entries.flatMap fun e ↦ nodes e.1 ++ nodes e.2 :=
  entryNodes_eq entries

@[simp] theorem nodes_node (id : NodeId) (frozen : Bool) (entries : List (String × Tree)) :
    nodes (.node id frozen entries) = id :: entries.flatMap fun e ↦ nodes e.2 :=
  congrArg (id :: ·) (fieldNodes_eq entries)

@[simp] theorem nodes_deferred (id : DeferredId) : nodes (.deferred id) = [] := rfl

end Tree

end LayeredConfig
