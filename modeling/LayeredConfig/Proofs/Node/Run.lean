import LayeredConfig.Node.Cursor
import LayeredConfig.Proofs.Forest.Freezing

/-!
# Runs

A run is any sequence of operations on nodes, of readings in progress, and of what else a program
does to a memory between two operations. A computation that an operation runs may itself perform
any operations, to any depth, so that every law of runs is first shown of a single evaluation, as
`Keeps R x`. It is enough to know that `R` is kept by the few ways in which memories change, which
is what `Memory.Lasting R` says. One such relation is `Memory.Follows`: the forest after the
evaluation may have arisen from the forest before it.
-/

namespace LayeredConfig

namespace Memory

/-- The forest of the second memory may have arisen from that of the first. -/
def Follows (m m' : Memory) : Prop := m.forest.Sound → Forest.Later m.forest m'.forest

instance : IsPreorder Memory Follows where
  refl _ hm := .refl hm
  trans _ _ _ h h' hm := (h hm).trans (h' (h hm).sound)

theorem Follows.of_forest_eq {m m' : Memory} (h : m'.forest = m.forest) : Follows m m' := by
  intro hm
  rw [h]
  exact .refl hm

end Memory

open Memory (Follows)

variable {α : Type}

/-! ## What a single evaluation does to the forest -/

theorem keeps_snapshot (v : Value) : Keeps Eq (snapshot v) := .bind .get fun _ ↦ .pure _

theorem keeps_truthyValue (v : Value) : Keeps Eq (truthyValue v) := .bind .get fun _ ↦ .pure _

theorem keeps_displayValue (v : Value) : Keeps Eq (displayValue v) := .bind .get fun _ ↦ .pure _

theorem onForest_of_ok {x : ForestM α} {m : Memory} {a : α} {g : Forest}
    (h : x m.forest = .ok a g) : onForest x m = .ok a { m with forest := g } := by
  rw [onForest, h]

theorem onForest_of_error {x : ForestM α} {m : Memory} {e : ConfigurationError} {g : Forest}
    (h : x m.forest = .error e g) :
    onForest x m = .error (.configuration e) { m with forest := g } := by
  rw [onForest, h]

theorem onForest_eq_error {x : ForestM α} {m m' : Memory} {f : Failure}
    (h : onForest x m = .error f m') :
    ∃ e g, x m.forest = .error e g ∧ f = .configuration e ∧ m' = { m with forest := g } := by
  cases hx : x m.forest with
  | ok a g =>
    rw [onForest_of_ok hx] at h
    cases h
  | error e g =>
    rw [onForest_of_error hx] at h
    obtain ⟨rfl, rfl⟩ := EStateM.Result.error.inj h
    exact ⟨e, g, rfl, rfl, rfl⟩

theorem after_onForest (x : ForestM α) (m : Memory) :
    after (onForest x) m = { m with forest := after x m.forest } := by
  cases h : x m.forest with
  | ok a g => rw [after_of_ok (onForest_of_ok h), after_of_ok h]
  | error e g => rw [after_of_error (onForest_of_error h), after_of_error h]

theorem forest_after_onForest (x : ForestM α) (m : Memory) :
    (after (onForest x) m).forest = after x m.forest := by rw [after_onForest]

theorem keeps_onForest {x : ForestM α}
    (h : ∀ {f : Forest}, f.Sound → Forest.Later f (after x f)) : Keeps Follows (onForest x) := by
  intro m hm
  rw [forest_after_onForest]
  exact h hm

/-! ## The ways in which memories change -/

namespace Memory

/-- The relation holds between a memory and what any change makes of it. -/
class Lasting (R : Memory → Memory → Prop) : Prop extends IsPreorder Memory R where
  assign : ∀ n key v, Keeps R (onForest (Forest.assign n key v))
  merge : ∀ n v, Keeps R (onForest (Forest.mergeValue n v))
  create : ∀ v, Keeps R (onForest (Forest.create v))
  freeze : ∀ m n, R m { m with forest := m.forest.freeze n }
  define : ∀ m c, R m (m.define c).2
  bind : ∀ m name v, R m (m.bind name v)
  emit : ∀ m e, R m { m with trace := m.trace.push e }
  count : ∀ m d, R m (m.countRun d)

instance : Lasting Follows where
  assign n key v := keeps_onForest fun hf ↦ (hf.edited_assign n key v).toLater
  merge n v := keeps_onForest fun hf ↦ (hf.edited_mergeValue n v).toLater
  create v := by
    refine keeps_onForest fun {f} hf ↦ ?_
    -- a failed conversion leaves the forest as it was
    rcases hf.create_cases v with ⟨n, g, heq, hmade⟩ | ⟨e, heq⟩
    · rw [after_of_ok heq]
      exact hmade.placed.grown.later hmade.placed.sound
    · rw [after_of_error heq]
      exact .refl hf
  freeze _ n hm := (hm.written_freeze n).toLater
  define _ _ := .of_forest_eq rfl
  bind _ _ _ := .of_forest_eq rfl
  emit _ _ := .of_forest_eq rfl
  count _ _ := .of_forest_eq rfl

end Memory

open Memory (Lasting)

variable {R : Memory → Memory → Prop} [Lasting R]

namespace Node

variable {call : DeferredId → Eval Value} (hcall : ∀ d, Keeps R (call d))

/-- Checking a key changes nothing. -/
theorem keeps_checkKey {R : Memory → Memory → Prop} [IsPreorder Memory R] (key : Value) :
    Keeps R (checkKey key) := by
  unfold checkKey
  split
  · exact .pure _
  · exact .bind (.bind .get fun _ ↦ .pure _) fun _ ↦ .throw _

theorem keeps_set (n : NodeId) (key value : Value) : Keeps R (set n key value) := by
  unfold set
  exact (keeps_checkKey key).bind fun name ↦ Lasting.assign n name value

/-- Looking for a key changes nothing. -/
theorem keeps_hasKey {R : Memory → Memory → Prop} [IsPreorder Memory R] (n : NodeId) (key : Value) :
    Keeps R (hasKey n key) := by
  unfold hasKey
  split
  · exact .bind .get fun _ ↦ .pure _
  · split
    · exact .throw _
    · exact .pure _

theorem keeps_merge (n : NodeId) (other : Value) : Keeps R (merge n other) := Lasting.merge n other

theorem keeps_freeze (n : NodeId) : Keeps R (freeze n) := .modify fun m ↦ Lasting.freeze m n

theorem keeps_create (source : Value) : Keeps R (create source) := Lasting.create source

include hcall

theorem keeps_resolve (v : Value) : Keeps R (resolve call v) := by
  unfold resolve
  split
  · exact hcall _
  · exact .pure _

theorem keeps_getWith (n : NodeId) (key : Value) : Keeps R (getWith call n key) := by
  unfold getWith
  refine (keeps_checkKey key).bind fun name ↦ .bind .get fun m ↦ ?_
  split
  · exact keeps_resolve hcall _
  · exact .throw _

theorem keeps_presentWith (path : List Value) (n : NodeId) :
    Keeps R (presentWith call n path) := by
  -- along the path; a segment may run a computation, which may write
  induction path generalizing n with
  | nil => exact .throw _
  | cons key rest ih =>
    rw [presentWith]
    refine (keeps_hasKey n key).bind fun b ↦ ?_
    split
    · exact .pure _
    refine (keeps_getWith hcall n key).bind fun v ↦ .bind .get fun m ↦ ?_
    split
    · exact .pure _
    split
    · exact .pure _
    split
    · exact ih _
    · exact .pure _

theorem keeps_foldEntries {use : String → Value → Eval α}
    (huse : ∀ key v, Keeps R (use key v)) (entries : Entries Value) :
    Keeps R (foldEntries call use entries) := by
  induction entries with
  | nil => exact .pure _
  | cons e rest ih =>
    rw [foldEntries]
    exact (keeps_resolve hcall _).bind fun v ↦ (huse _ v).bind fun _ ↦ ih.bind fun _ ↦ .pure _

theorem keeps_itemsWith (n : NodeId) : Keeps R (itemsWith call n) := by
  unfold itemsWith
  exact .bind .get fun _ ↦ keeps_foldEntries hcall (fun _ _ ↦ .pure _) _

omit hcall in
theorem keeps_exportValue {sub : NodeId → Eval Value} (hsub : ∀ n, Keeps R (sub n))
    (v : Value) : Keeps R (exportValue sub v) := by
  induction v with
  | seq kind items ih =>
    rw [exportValue_seq]
    exact (Keeps.mapM ih).bind fun _ ↦ .pure _
  | node id => exact hsub id
  | _ => exact .pure _

theorem keeps_exportLevels (levels : ℕ) (n : NodeId) :
    Keeps R (exportLevels call levels n) := by
  induction levels generalizing n with
  | zero => exact .throw _
  | succ levels ih =>
    rw [exportLevels]
    exact .bind .get fun _ ↦ .bind (keeps_foldEntries hcall
      (fun _ v ↦ (keeps_exportValue ih v).bind fun _ ↦ .pure _) _) fun _ ↦ .pure _

theorem keeps_exportWith (n : NodeId) : Keeps R (exportWith call n) := by
  unfold exportWith
  exact .bind .get fun _ ↦ keeps_exportLevels hcall _ n

end Node

/-- An operation may change the forest as far as the computations that it runs may. -/
theorem keeps_performWith {call : DeferredId → Eval Value} (hcall : ∀ d, Keeps R (call d))
    (op : Operation) : Keeps R (op.performWith call) := by
  cases op with
  | create source => exact (Node.keeps_create source).bind fun _ ↦ .pure _
  | get n key => exact Node.keeps_getWith hcall n key
  | set n key value => exact (Node.keeps_set n key value).bind fun _ ↦ .pure _
  | hasKey n key => exact (Node.keeps_hasKey n key).bind fun _ ↦ .pure _
  | present n keys => exact (Node.keeps_presentWith hcall keys n).bind fun _ ↦ .pure _
  | keys n => exact .bind (.bind .get fun _ ↦ .pure _) fun _ ↦ .pure _
  | items n => exact (Node.keeps_itemsWith hcall n).bind fun _ ↦ .pure _
  | merge n other => exact (Node.keeps_merge n other).bind fun _ ↦ .pure _
  | freeze n => exact (Node.keeps_freeze n).bind fun _ ↦ .pure _
  | copy n => exact (Node.keeps_create _).bind fun _ ↦ .pure _
  | «export» n => exact Node.keeps_exportWith hcall n
  | equal a b => exact .bind (.bind .get fun _ ↦ .pure _) fun _ ↦ .pure _
  | call d => exact hcall d

theorem keeps_script {perform : Operation → Eval Value} (hp : ∀ op, Keeps R (perform op))
    (s : Script) : Keeps R (s.run perform) := by
  induction s with
  | done v => exact .pure v
  | fail f => exact .throw f
  | note e rest ih => exact .bind (.modify fun m ↦ Lasting.emit m e) fun _ ↦ ih
  | named name rest ih => exact .bind .get fun _ ↦ ih _
  | perform op rest ih => exact .bind (hp op) fun v ↦ ih v

/-- **Running a computation** is made of operations, however deep the computations nest. -/
theorem keeps_evaluateWithin (depth : ℕ) (d : DeferredId) :
    Keeps R (evaluateWithin depth d) := by
  -- the computations that a computation runs have one level less
  induction depth generalizing d with
  | zero => exact .throw _
  | succ depth ih =>
    rw [evaluateWithin]
    exact .bind .get fun _ ↦ .bind (.modify fun m ↦ Lasting.count m d) fun _ ↦
      keeps_script (keeps_performWith ih) _

theorem keeps_evaluate (d : DeferredId) : Keeps R (evaluate d) :=
  keeps_evaluateWithin nestingLimit d

/-- Advancing a cursor, without the cursor behind it. -/
def Cursor.advance (c : Cursor) : Eval (Option (String × Value)) := fun m ↦ (c.next m).2

theorem keeps_advance (c : Cursor) : Keeps R c.advance := by
  intro m
  cases hp : c.pending m.forest with
  | nil =>
    have h : c.advance m = .ok none m := by rw [Cursor.advance, Cursor.next, hp]
    rw [after_of_ok h]
    exact Std.Refl.refl m
  | cons e rest =>
    obtain ⟨key, stored⟩ := e
    have hresolve : Keeps R (Node.resolve evaluate stored) :=
      Node.keeps_resolve keeps_evaluate stored
    cases hv : Node.resolve evaluate stored m with
    | ok v t =>
      have h : c.advance m = .ok (some (key, v)) t := by
        rw [Cursor.advance, Cursor.next, hp]
        dsimp only
        rw [hv]
      rw [after_of_ok h]
      exact hresolve.of_ok hv
    | error f t =>
      have h : c.advance m = .error f t := by
        rw [Cursor.advance, Cursor.next, hp]
        dsimp only
        rw [hv]
      rw [after_of_error h]
      exact hresolve.of_error hv

/-! ## Runs of operations -/

namespace Memory

/-- What a program does to a memory in one step. -/
inductive Step : Memory → Memory → Prop
  /-- An operation is performed, and succeeds or fails; the computations that it runs may nest to
  any depth. -/
  | operation (m : Memory) (op : Operation) (depth : ℕ) :
      Step m (after (op.performWith (evaluateWithin depth)) m)
  /-- A reading in progress hands out its next entry. -/
  | advance (m : Memory) (c : Cursor) : Step m (after c.advance m)
  /-- A computation is made, with any program behind it. -/
  | define (m : Memory) (c : Computation) : Step m (m.define c).2
  /-- An object is given a name that computations find it by. -/
  | bind (m : Memory) (name : String) (v : Value) : Step m (m.bind name v)
  /-- A call that leaves the library is noted. -/
  | emit (m : Memory) (e : Event) : Step m { m with trace := m.trace.push e }
  /-- A run of a computation is counted. So the states between the operations of a computation are
  states of a run, too. -/
  | count (m : Memory) (d : DeferredId) : Step m (m.countRun d)

/-- Any number of steps. -/
def Run : Memory → Memory → Prop := Relation.ReflTransGen Step

/-- A memory that a program can be in. -/
def Reachable (m : Memory) : Prop := Run default m

variable {m m' : Memory}

theorem Step.lasting (h : Step m m') : R m m' := by
  cases h with
  | operation op depth => exact keeps_performWith (keeps_evaluateWithin depth) op m
  | advance c => exact keeps_advance c m
  | define c => exact Lasting.define m c
  | bind name v => exact Lasting.bind m name v
  | emit e => exact Lasting.emit m e
  | count d => exact Lasting.count m d

/-- **What every change keeps, every run keeps.** -/
theorem Run.lasting (h : Run m m') : R m m' := by
  induction h with
  | refl => exact Std.Refl.refl m
  | tail _ hstep ih => exact IsTrans.trans _ _ _ ih hstep.lasting

instance : IsPreorder Memory Run where
  refl _ := .refl
  trans _ _ _ h h' := h.trans h'

/-- The changes are steps themselves, so that runs are the least that they keep. -/
instance : Lasting Run where
  assign n key v m := by
    rw [← after_bind_pure _ fun _ ↦ Value.null]
    exact .single (.operation m (.set n (.text key) v) 0)
  merge n v m := by
    rw [← after_bind_pure _ fun _ ↦ Value.node n]
    exact .single (.operation m (.merge n v) 0)
  create v m := by
    rw [← after_bind_pure _ Value.node]
    exact .single (.operation m (.create v) 0)
  freeze m n := .single (.operation m (.freeze n) 0)
  define m c := .single (.define m c)
  bind m name v := .single (.bind m name v)
  emit m e := .single (.emit m e)
  count m d := .single (.count m d)

theorem Step.follows (h : Step m m') : Follows m m' := h.lasting

theorem Run.follows (h : Run m m') : Follows m m' := h.lasting

/-- **Every forest that arises is sound.** -/
theorem Reachable.sound (h : m.Reachable) : m.forest.Sound :=
  (Run.follows h Forest.sound_empty).sound

end Memory

end LayeredConfig
