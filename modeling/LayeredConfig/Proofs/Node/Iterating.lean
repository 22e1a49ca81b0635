import LayeredConfig.Proofs.Node.Converting
import LayeredConfig.Proofs.Node.Freezing

/-!
# Iterating while the node changes

Several readings of nodes may be in progress at once, and between two of their steps a program may
do anything to the nodes, the computations that a step runs included. A `Session` is a memory with
such readings, each with a record of what it has handed out and in which memory. `Reading.Faithful`
says that a reading hands out the entries that its node had when it was first advanced, and this
holds of every reading of every session that arises (`Session.Reachable.faithful`).

The invariant is what a cursor holds: nothing but its node before the first step, and from then on
the entries that are still to come, which no write can get at.
-/

namespace LayeredConfig

/-- A step of a reading: the memory before it, the pair handed out or `none` at the end, and the
memory after it. -/
structure Handout where
  start : Memory
  pair? : Option (String × Value)
  finish : Memory

/-- The step hands out an entry. A computation runs in the memory in which the step is made. At the
end nothing happens. -/
inductive Handout.HandsOut : Handout → Option (String × Value) → Prop where
  | entry {m m' : Memory} {key : String} {stored v : Value}
      (read : Node.resolve evaluate stored m = .ok v m') :
      HandsOut ⟨m, some (key, v), m'⟩ (some (key, stored))
  | ended (m : Memory) : HandsOut ⟨m, none, m⟩ none

/-- A reading of a node in progress, with its steps so far. -/
structure Reading where
  node : NodeId
  cursor : Cursor
  steps : List Handout

namespace Reading

/-- A reading that was not advanced yet. -/
def fresh (n : NodeId) : Reading := ⟨n, .fresh n, []⟩

/-- The entries that the node had when the reading was first advanced. -/
def snapshot (r : Reading) : Entries Value :=
  (r.steps.head?.map fun first ↦ first.start.forest.entries r.node).getD []

/-- The pairs that were handed out. -/
def handed (r : Reading) : Entries Value := r.steps.filterMap Handout.pair?

/-- The reading with one more step, and the cursor behind it. -/
def advanced (r : Reading) (c : Cursor) (step : Handout) : Reading :=
  ⟨r.node, c, r.steps ++ [step]⟩

/-- The reading hands out the entries of its snapshot one after the other, and is then at its
end. -/
structure Faithful (r : Reading) : Prop where
  waits : r.steps = [] → r.cursor = .fresh r.node
  stands : r.steps ≠ [] → r.cursor = .running (r.snapshot.drop r.steps.length)
  distinct : r.snapshot.keys.Nodup
  handsOut : ∀ (i : ℕ) (h : i < r.steps.length), r.steps[i].HandsOut r.snapshot[i]?

theorem faithful_fresh (n : NodeId) : (fresh n).Faithful where
  waits _ := rfl
  stands h := absurd rfl h
  distinct := List.nodup_nil
  handsOut _ h := absurd h (Nat.not_lt_zero _)

end Reading

/-! ## One step -/

namespace Cursor

variable {c c' : Cursor} {m m' : Memory}

/-- A step hands out the first entry that is still to come. -/
theorem next_of_ok {pair? : Option (String × Value)} (h : c.next m = (c', .ok pair? m')) :
    c' = .running (c.pending m.forest).tail ∧
      Handout.HandsOut ⟨m, pair?, m'⟩ (c.pending m.forest).head? := by
  rw [next] at h
  cases hp : c.pending m.forest with
  | nil =>
    rw [hp] at h
    cases h
    exact ⟨rfl, .ended m⟩
  | cons e rest =>
    obtain ⟨key, stored⟩ := e
    rw [hp] at h
    cases hv : Node.resolve evaluate stored m with
    | ok v t =>
      dsimp only at h
      rw [hv] at h
      cases h
      exact ⟨rfl, .entry hv⟩
    | error f t =>
      dsimp only at h
      rw [hv] at h
      cases h

/-- A step fails only where the computation fails whose turn it is. -/
theorem next_eq_error {f : Failure} (h : c.next m = (c', .error f m')) :
    ∃ key d rest, c.pending m.forest = (key, .deferred d) :: rest ∧
      evaluate d m = .error f m' := by
  rw [next] at h
  cases hp : c.pending m.forest with
  | nil =>
    rw [hp] at h
    cases h
  | cons e rest =>
    obtain ⟨key, stored⟩ := e
    rw [hp] at h
    cases stored with
    | deferred d =>
      refine ⟨key, d, rest, rfl, ?_⟩
      cases hv : evaluate d m with
      | ok v t =>
        dsimp only [Node.resolve] at h
        rw [hv] at h
        cases h
      | error e t =>
        dsimp only [Node.resolve] at h
        rw [hv] at h
        cases h
        rfl
    | _ => cases h

end Cursor

namespace Reading

variable {r : Reading} {c : Cursor} {m m' : Memory} {pair? : Option (String × Value)}

theorem snapshot_advanced (h : r.steps ≠ []) (step : Handout) :
    (r.advanced c step).snapshot = r.snapshot := by
  obtain ⟨first, rest, hsteps⟩ := List.exists_cons_of_ne_nil h
  rw [snapshot, snapshot, advanced, hsteps]
  rfl

/-- **A step keeps a reading faithful**, whatever has happened to the node since the last one. -/
theorem Faithful.advance (h : r.Faithful) (hm : m.forest.Sound)
    (hnext : r.cursor.next m = (c, .ok pair? m')) : (r.advanced c ⟨m, pair?, m'⟩).Faithful := by
  obtain ⟨hc, hstep⟩ := Cursor.next_of_ok hnext
  by_cases hsteps : r.steps = []
  · -- the first step fixes the snapshot
    have hsnapshot : (r.advanced c ⟨m, pair?, m'⟩).snapshot = m.forest.entries r.node := by
      rw [snapshot, advanced, hsteps]
      rfl
    have hlength : (r.advanced c ⟨m, pair?, m'⟩).steps.length = 1 := by
      rw [advanced, hsteps]
      rfl
    rw [h.waits hsteps] at hc hstep
    refine ⟨fun hnil ↦ absurd hnil (List.append_ne_nil_of_right_ne_nil _ (List.cons_ne_nil _ _)),
      fun _ ↦ ?_, ?_, fun i hi ↦ ?_⟩
    · rw [hsnapshot, hlength, List.drop_one]
      exact hc
    · rw [hsnapshot]
      exact hm.distinct r.node
    · obtain rfl : i = 0 := by omega
      rw [hsnapshot, ← List.head?_eq_getElem?]
      simp only [advanced, hsteps]
      exact hstep
  · rw [h.stands hsteps] at hc hstep
    refine ⟨fun hnil ↦ absurd hnil (List.append_ne_nil_of_right_ne_nil _ (List.cons_ne_nil _ _)),
      fun _ ↦ ?_, ?_, fun i hi ↦ ?_⟩
    · rw [snapshot_advanced hsteps]
      change c = _
      rw [hc, advanced, List.length_append, List.length_singleton, Cursor.pending, List.tail_drop]
    · rw [snapshot_advanced hsteps]
      exact h.distinct
    · rw [snapshot_advanced hsteps]
      by_cases hlast : i < r.steps.length
      · simp only [advanced, List.getElem_append_left hlast]
        exact h.handsOut i hlast
      · have hi' : i = r.steps.length := by
          simp only [advanced, List.length_append, List.length_singleton] at hi
          omega
        subst hi'
        simp only [advanced, List.getElem_concat_length]
        rw [← List.head?_drop]
        exact hstep

/-- The keys that were handed out, from what each step handed out. -/
theorem keys_filterMap {steps : List Handout} {entries : Entries Value}
    (h : ∀ (i : ℕ) (hi : i < steps.length), steps[i].HandsOut entries[i]?) :
    Entries.keys (steps.filterMap Handout.pair?) = entries.keys.take steps.length := by
  induction steps generalizing entries with
  | nil => rfl
  | cons step steps ih =>
    have hfirst := h 0 (Nat.zero_lt_succ _)
    have hrest (i : ℕ) (hi : i < steps.length) : steps[i].HandsOut entries.tail[i]? := by
      rw [List.getElem?_tail]
      exact h (i + 1) (Nat.succ_lt_succ hi)
    cases entries with
    | nil =>
      cases hfirst with
      | ended m =>
        rw [List.filterMap_cons_none rfl, ih hrest]
        exact List.take_nil.trans List.take_nil.symm
    | cons e entries =>
      cases hfirst with
      | entry read =>
        exact congrArg _ (ih hrest)

/-- **The keys come in the order of the node**, none twice, and all of them if there were enough
steps. -/
theorem Faithful.keys_handed (h : r.Faithful) :
    r.handed.keys = r.snapshot.keys.take r.steps.length := keys_filterMap h.handsOut

end Reading

/-! ## Sessions -/

/-- A memory, and the readings in progress. -/
structure Session where
  memory : Memory
  readings : List Reading

namespace Session

/-- What a program does in one step: anything to the memory, the beginning of a reading, or a step
of one of the readings that does not fail. -/
inductive Step : Session → Session → Prop where
  | memory {m m' : Memory} (readings : List Reading) (step : Memory.Step m m') :
      Step ⟨m, readings⟩ ⟨m', readings⟩
  | begin (m : Memory) (readings : List Reading) (n : NodeId) :
      Step ⟨m, readings⟩ ⟨m, readings ++ [.fresh n]⟩
  | next {m m' : Memory} {front back : List Reading} {r : Reading} {c : Cursor}
      {pair? : Option (String × Value)} (step : r.cursor.next m = (c, .ok pair? m')) :
      Step ⟨m, front ++ r :: back⟩ ⟨m', front ++ r.advanced c ⟨m, pair?, m'⟩ :: back⟩

/-- A session that arises from nothing. -/
def Reachable (s : Session) : Prop := Relation.ReflTransGen Step ⟨default, []⟩ s

variable {s s' : Session}

/-- The step of a reading is a step of the memory. -/
theorem step_of_next {m m' : Memory} {c c' : Cursor} {pair? : Option (String × Value)}
    (h : c.next m = (c', .ok pair? m')) : Memory.Step m m' := by
  have hadvance : c.advance m = .ok pair? m' := by rw [Cursor.advance, h]
  rw [← after_of_ok hadvance]
  exact .advance m c

theorem Step.run (h : Step s s') : Memory.Run s.memory s'.memory := by
  cases h with
  | memory _ step => exact .single step
  | begin => exact .refl
  | next step => exact .single (step_of_next step)

/-- What is invariant: the memory is one that a program can be in, and all readings are faithful. -/
def Inv (s : Session) : Prop := s.memory.Reachable ∧ ∀ r ∈ s.readings, r.Faithful

/-- A step keeps all readings faithful, those that take no part in it included. -/
theorem Step.inv (h : Step s s') (hs : s.Inv) : s'.Inv := by
  refine ⟨hs.1.trans h.run, ?_⟩
  cases h with
  | memory readings _ => exact hs.2
  | begin m readings n =>
    intro r hr
    rcases List.mem_append.mp hr with hr | hr
    · exact hs.2 r hr
    · rw [List.mem_singleton.mp hr]
      exact Reading.faithful_fresh n
  | @next m m' front back r c pair? step =>
    have hold : ∀ other ∈ front ++ r :: back, other.Faithful := hs.2
    rw [List.forall_mem_append, List.forall_mem_cons] at hold
    obtain ⟨hfront, hr, hback⟩ := hold
    exact List.forall_mem_append.mpr
      ⟨hfront, List.forall_mem_cons.mpr ⟨hr.advance hs.1.sound step, hback⟩⟩

theorem Reachable.inv (h : s.Reachable) : s.Inv := by
  induction h with
  | refl => exact ⟨.refl, fun _ hr ↦ absurd hr List.not_mem_nil⟩
  | tail _ step ih => exact step.inv ih

/-- In every memory that a program can be in, readings may begin. -/
theorem reachable_of_memory {m : Memory} (h : m.Reachable) : Reachable ⟨m, []⟩ := by
  induction h with
  | refl => exact .refl
  | tail _ step ih => exact ih.tail (.memory [] step)

/-- **Every reading is faithful**, in every session that arises. -/
theorem Reachable.faithful (h : s.Reachable) : ∀ r ∈ s.readings, r.Faithful := h.inv.2

end Session

/-! ## What can go wrong -/

theorem error_of_mapM {ε σ α β : Type} {g : α → EStateM ε σ β} {R : σ → σ → Prop} [IsPreorder σ R]
    {l : List α} (hg : ∀ a ∈ l, Keeps R (g a)) {s s' : σ} {e : ε} (h : l.mapM g s = .error e s') :
    ∃ a ∈ l, ∃ t, R s t ∧ g a t = .error e s' := by
  induction l generalizing s with
  | nil => cases h
  | cons a rest ih =>
    rw [List.mapM_cons] at h
    rcases bind_eq_error.mp h with h | ⟨b, t, hb, h⟩
    · exact ⟨a, List.mem_cons_self, s, Std.Refl.refl s, h⟩
    rcases bind_eq_error.mp h with h | ⟨_, _, _, h⟩
    · obtain ⟨c, hc, u, hu, hfail⟩ := ih (fun b hb ↦ hg b (List.mem_cons_of_mem a hb)) h
      have ht := (hg a List.mem_cons_self).of_ok hb
      exact ⟨c, List.mem_cons_of_mem a hc, u, IsTrans.trans _ _ _ ht hu, hfail⟩
    · cases h

open Memory (Run)

namespace Node

/-- From the node one can go down the given number of levels while the program runs on, each time
to a node in a value that was read from an entry of the last one. -/
inductive Deep (call : DeferredId → Eval Value) : ℕ → Memory → NodeId → Prop where
  | zero (m : Memory) (n : NodeId) : Deep call 0 m n
  | succ {levels : ℕ} {n c : NodeId} {e : String × Value} {v : Value} {m m₁ m₂ m₃ : Memory}
      (stored : e ∈ m.forest.entries n) (before : Run m m₁) (read : resolve call e.2 m₁ = .ok v m₂)
      (inside : c ∈ v.nodes) (between : Run m₂ m₃) (deep : Deep call levels m₃ c) :
      Deep call (levels + 1) m n

variable {call : DeferredId → Eval Value} {m m' : Memory} {f : Failure}

/-- The last thing that the program does is to run a computation, which fails in this way. -/
def EndsFailing (call : DeferredId → Eval Value) (m : Memory) (f : Failure) (m' : Memory) : Prop :=
  ∃ d m₁, Run m m₁ ∧ call d m₁ = .error f m'

theorem EndsFailing.of_run {m₀ : Memory} (hrun : Run m₀ m) (h : EndsFailing call m f m') :
    EndsFailing call m₀ f m' := by
  obtain ⟨d, m₁, hm₁, hfail⟩ := h
  exact ⟨d, m₁, hrun.trans hm₁, hfail⟩

theorem endsFailing_of_resolve {v : Value} (h : resolve call v m = .error f m') :
    EndsFailing call m f m' := by
  cases v with
  | deferred d => exact ⟨d, m, .refl, h⟩
  | _ => cases h

/-- Writing out a value fails where one of its nodes cannot be written out. -/
theorem error_of_exportValue {sub : NodeId → Eval Value} (hsub : ∀ n, Keeps Run (sub n)) {v : Value}
    (h : exportValue sub v m = .error f m') :
    ∃ c ∈ v.nodes, ∃ m₁, Run m m₁ ∧ sub c m₁ = .error f m' := by
  induction v generalizing m with
  | node c => exact ⟨c, List.mem_cons_self, m, .refl, h⟩
  | seq kind items ih =>
    rw [exportValue_seq] at h
    rcases bind_eq_error.mp h with h | ⟨_, _, _, h⟩
    · obtain ⟨v, hv, m₁, hm₁, hfail⟩ := error_of_mapM (fun v _ ↦ keeps_exportValue hsub v) h
      obtain ⟨c, hc, m₂, hm₂, hfail⟩ := ih v hv hfail
      rw [Value.nodes_seq]
      exact ⟨c, List.mem_flatMap.mpr ⟨v, hv, hc⟩, m₂, hm₁.trans hm₂, hfail⟩
    · cases h
  | _ => cases h

section Call

variable (hcall : ∀ d, Keeps Run (call d))

include hcall

/-- Reading entries fails where a computation fails, or where what is made of a value does. -/
theorem error_of_foldEntries {α : Type} {use : String → Value → Eval α}
    (huse : ∀ key v, Keeps Run (use key v)) {entries : Entries Value}
    (h : foldEntries call use entries m = .error f m') :
    EndsFailing call m f m' ∨ ∃ e ∈ entries, ∃ v m₁ m₂,
      Run m m₁ ∧ resolve call e.2 m₁ = .ok v m₂ ∧ use e.1 v m₂ = .error f m' := by
  induction entries generalizing m with
  | nil => cases h
  | cons e rest ih =>
    obtain ⟨key, stored⟩ := e
    rw [foldEntries] at h
    rcases bind_eq_error.mp h with h | ⟨v, m₁, hv, h⟩
    · exact .inl (endsFailing_of_resolve h)
    rcases bind_eq_error.mp h with h | ⟨a, m₂, ha, h⟩
    · exact .inr ⟨(key, stored), List.mem_cons_self, v, m, m₁, .refl, hv, h⟩
    rcases bind_eq_error.mp h with h | ⟨_, _, _, h⟩
    · have hm₂ : Run m m₂ := ((keeps_resolve hcall stored).of_ok hv).trans ((huse key v).of_ok ha)
      rcases ih h with hfails | ⟨e, he, v, m₃, m₄, hm₃, hread, hfail⟩
      · exact .inl (hfails.of_run hm₂)
      · exact .inr ⟨e, List.mem_cons_of_mem _ he, v, m₃, m₄, hm₂.trans hm₃, hread, hfail⟩
    · cases h

/-- **Writing out fails only where a computation fails**, or if it goes deeper than it may. -/
theorem error_of_exportLevels {levels : ℕ} {n : NodeId}
    (h : exportLevels call levels n m = .error f m') :
    EndsFailing call m f m' ∨ f = .nestedTooDeep ∧ Deep call levels m n := by
  induction levels generalizing n m with
  | zero =>
    cases h
    exact .inr ⟨rfl, .zero _ n⟩
  | succ levels ih =>
    rw [exportLevels, get_bind] at h
    have hsub : ∀ c, Keeps Run (exportLevels call levels c) := keeps_exportLevels hcall levels
    rcases bind_eq_error.mp h with h | ⟨_, _, _, h⟩
    · rcases error_of_foldEntries hcall
        (fun _ v ↦ (keeps_exportValue hsub v).bind fun _ ↦ .pure _) h with
        hfails | ⟨e, he, v, m₁, m₂, hm₁, hread, hfail⟩
      · exact .inl hfails
      rcases bind_eq_error.mp hfail with hfail | ⟨_, _, _, hfail⟩
      · obtain ⟨c, hc, m₃, hm₃, hfail⟩ := error_of_exportValue hsub hfail
        have hm₂ : Run m m₂ := hm₁.trans ((keeps_resolve hcall e.2).of_ok hread)
        rcases ih hfail with hfails | ⟨rfl, hdeep⟩
        · exact .inl (hfails.of_run (hm₂.trans hm₃))
        · exact .inr ⟨rfl, .succ he hm₁ hread hc hm₃ hdeep⟩
      · cases hfail
    · cases h

end Call

/-- What is made of the entries comes under their keys. -/
theorem keys_of_foldEntries {α β : Type} {use : String → Value → Eval α} {name : α → β}
    {key : String → β} (huse : ∀ k v m a m', use k v m = .ok a m' → name a = key k)
    {entries : Entries Value} {l : List α} (h : foldEntries call use entries m = .ok l m') :
    l.map name = entries.keys.map key := by
  induction entries generalizing m l with
  | nil =>
    cases h
    rfl
  | cons e rest ih =>
    obtain ⟨k, stored⟩ := e
    rw [foldEntries] at h
    obtain ⟨v, m₁, _, h⟩ := bind_eq_ok.mp h
    obtain ⟨a, m₂, ha, h⟩ := bind_eq_ok.mp h
    obtain ⟨l', m₃, hl, h⟩ := bind_eq_ok.mp h
    cases h
    rw [List.map_cons, huse k v m₁ a m₂ ha, ih hl]
    rfl

/-- **Writing out goes by the keys at the start**, whatever the computations change. -/
theorem keys_of_exportWith {n : NodeId} {v : Value} (h : exportWith call n m = .ok v m') :
    ∃ fields, v = .mapping fields ∧ fields.map Prod.fst = (m.forest.entries n).keys.map .text := by
  have hlevels : m.forest.cells.size + nestingLimit = (m.forest.cells.size + 255) + 1 := rfl
  rw [exportWith, get_bind, hlevels, exportLevels, get_bind] at h
  obtain ⟨fields, m₁, hfields, h⟩ := bind_eq_ok.mp h
  cases h
  refine ⟨fields, rfl, keys_of_foldEntries (fun k v m₂ a m₃ ha ↦ ?_) hfields⟩
  obtain ⟨w, m₄, _, ha⟩ := bind_eq_ok.mp ha
  cases ha
  rfl

end Node

/-- A merge fails if it comes to a frozen node, or because of the value given to it. -/
theorem Operation.error_of_merge_of_sound {call : DeferredId → Eval Value} {m m' : Memory}
    {n : NodeId} {v : Value} {f : Failure} (hf : m.forest.Sound)
    (h : (Operation.merge n v).performWith call m = .error f m') :
    f = .configuration (.readOnlyNode (.scalar .null)) ∧
        (∃ c, m.forest.Reaches n c ∧ m.forest.frozen c = true) ∨
      (∃ fault, f = .configuration (.invalidStructure fault)) ∧ (¬v.NodeLike ∨ v.MisKeyed) := by
  cases hn : m.forest.frozen n with
  | true =>
    rw [merge_of_frozen hn] at h
    cases h
    exact .inl ⟨rfl, n, .refl _ _, hn⟩
  | false =>
    by_cases hgood : v.NodeLike ∧ ¬v.MisKeyed
    · exact .inl (Operation.error_of_merge hf hn hgood h)
    · have hbad : ¬v.NodeLike ∨ v.MisKeyed := (not_and_or.mp hgood).imp_right not_not.mp
      obtain ⟨fault, m₁, hfault⟩ : (Operation.merge n v).Malformed call m :=
        (Operation.malformed_merge hf hn).mpr hbad
      rw [hfault] at h
      cases h
      exact .inr ⟨⟨fault, rfl⟩, hbad⟩

namespace Session

variable {s : Session}

/-- **Iteration is over a snapshot.**

However steps of readings are interleaved with each other and with anything else that a program
does, what the computations among the entries write included, every reading is faithful to what its
node held when it was first advanced: the keys come in the order of the node, none twice, each with
the value that was stored then, read at the moment of its step, and afterwards the reading is at its
end. A step fails only if the computation fails whose turn it is. Freezing never fails; merging
fails only at a frozen node or because of its argument; and writing out fails only if a computation
does, or goes too deep, and otherwise gives the keys that the node had at the start. -/
theorem Reachable.iteration (hs : s.Reachable) :
    (∀ r ∈ s.readings, r.Faithful ∧ r.handed.keys = r.snapshot.keys.take r.steps.length ∧
      ∀ c f m', r.cursor.next s.memory = (c, .error f m') → ∃ key d rest,
        r.cursor.pending s.memory.forest = (key, .deferred d) :: rest ∧
          evaluate d s.memory = .error f m') ∧
    ∀ n, (∃ m', Node.freeze n s.memory = .ok () m') ∧
      (∀ v f m', (Operation.merge n v).performWith evaluate s.memory = .error f m' →
        f = .configuration (.readOnlyNode (.scalar .null)) ∧
            (∃ c, s.memory.forest.Reaches n c ∧ s.memory.forest.frozen c = true) ∨
          (∃ fault, f = .configuration (.invalidStructure fault)) ∧ (¬v.NodeLike ∨ v.MisKeyed)) ∧
      (∀ f m', Node.toMapping n s.memory = .error f m' →
        Node.EndsFailing evaluate s.memory f m' ∨ f = .nestedTooDeep ∧
          Node.Deep evaluate (s.memory.forest.cells.size + nestingLimit) s.memory n) ∧
      ∀ v m', Node.toMapping n s.memory = .ok v m' → ∃ fields, v = .mapping fields ∧
        fields.map Prod.fst = (s.memory.forest.entries n).keys.map .text := by
  refine ⟨fun r hr ↦ ?_, fun n ↦ ⟨⟨_, rfl⟩, fun v f m' h ↦ ?_, fun f m' h ↦ ?_, fun v m' h ↦ ?_⟩⟩
  · have hfaithful := hs.faithful r hr
    exact ⟨hfaithful, hfaithful.keys_handed, fun c f m' h ↦ Cursor.next_eq_error h⟩
  · exact Operation.error_of_merge_of_sound hs.inv.1.sound h
  · rw [Node.toMapping, Node.exportWith, get_bind] at h
    exact Node.error_of_exportLevels keeps_evaluate h
  · exact Node.keys_of_exportWith h

/-- The session after a step of its first reading. -/
def advanceFirst (s : Session) : Session :=
  match s.readings with
  | [] => s
  | r :: rest =>
    match r.cursor.next s.memory with
    | (c, .ok pair? m) => ⟨m, r.advanced c ⟨s.memory, pair?, m⟩ :: rest⟩
    | (_, .error ..) => s

theorem Reachable.advanceFirst (h : s.Reachable) : s.advanceFirst.Reachable := by
  obtain ⟨m, readings⟩ := s
  cases readings with
  | nil => exact h
  | cons r rest =>
    cases hnext : r.cursor.next m with
    | mk c result =>
      simp only [Session.advanceFirst, hnext]
      cases result with
      | ok pair? m' =>
        have hstep : Step ⟨m, [] ++ r :: rest⟩ ⟨m', [] ++ r.advanced c ⟨m, pair?, m'⟩ :: rest⟩ :=
          .next hnext
        exact h.tail hstep
      | error f m' => exact h

/-- A node with a computation that writes another key of it. -/
def writingMemory : Memory :=
  let defined := (Memory.define default (.writing "w" "node" (.text "d") (.int 9))).2
  let make := Operation.create (.mapping [(.text "a", .deferred ⟨0⟩), (.text "b", .int 2)])
  (after (make.performWith (evaluateWithin 0)) defined).bind "node" (.node ⟨0⟩)

theorem reachable_writingMemory : writingMemory.Reachable := by
  have hdefined : Memory.Reachable
    (Memory.define default (.writing "w" "node" (.text "d") (.int 9))).2 := .single (.define _ _)
  exact (hdefined.tail (.operation _ _ 0)).tail (.bind _ _ _)

/-- A reading of this node, begun before a key is added and advanced four times after that. -/
def sample : Session :=
  let write := Operation.set ⟨0⟩ (.text "c") (.int 3)
  let begun : Session := ⟨writingMemory, [.fresh ⟨0⟩]⟩
  let added : Session := ⟨after (write.performWith (evaluateWithin 0)) begun.memory, begun.readings⟩
  added.advanceFirst.advanceFirst.advanceFirst.advanceFirst

theorem iteration_sample : sample.Reachable ∧ ∃ r, sample.readings = [r] ∧ r.Faithful ∧
    r.handed = [("a", .int 9), ("b", .int 2), ("c", .int 3)] ∧ r.steps.length = 4 ∧
    (sample.memory.forest.entries ⟨0⟩).keys = ["a", "b", "c", "d"] := by
  have hbegun : Reachable ⟨writingMemory, [.fresh ⟨0⟩]⟩ :=
    (reachable_of_memory reachable_writingMemory).tail (.begin _ [] _)
  have hadded : Reachable ⟨_, [.fresh ⟨0⟩]⟩ :=
    hbegun.tail (.memory _ (.operation _ (.set ⟨0⟩ (.text "c") (.int 3)) 0))
  have hsample : sample.Reachable := hadded.advanceFirst.advanceFirst.advanceFirst.advanceFirst
  obtain ⟨r, hr⟩ : ∃ r, sample.readings = [r] := ⟨_, rfl⟩
  have hmem : r ∈ sample.readings := by rw [hr]; exact List.mem_singleton_self r
  refine ⟨hsample, r, hr, (hsample.iteration.1 r hmem).1, ?_⟩
  cases hr
  with_unfolding_all exact ⟨rfl, rfl, rfl⟩

end Session

end LayeredConfig
