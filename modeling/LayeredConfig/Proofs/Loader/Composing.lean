import LayeredConfig.Collaborator
import LayeredConfig.Proofs.Loader.Keeping

/-!
# Properties that pass from parts to the whole

Reading a file and asking for a version take many small actions after one another. Much of what is
known of them is known of every single one and passes to the whole: that something stays as it was,
or that something else makes no difference. `Composite` says what it takes for a property of actions
to pass on in this way, and the theorems of this file take it through the actions one time for all
such properties.

Whatever actions other than loaders see of the world is the same in two worlds with
`World.SameScene`.
-/

namespace LayeredConfig

open Memory (Follows Lasting)

/-! ## Evaluations as actions -/

section Evaluations

variable {α : Type} {x : Eval α} {w w' : World} {m : Memory} {a : α} {f : Failure}

theorem onMemory_of_ok (h : x w.memory = .ok a m) :
    onMemory x w = .ok a { w with memory := m } := by
  rw [onMemory, h]

theorem onMemory_of_error (h : x w.memory = .error f m) :
    onMemory x w = .error f { w with memory := m } := by
  rw [onMemory, h]

theorem onMemory_eq_ok (h : onMemory x w = .ok a w') :
    ∃ m, x w.memory = .ok a m ∧ w' = { w with memory := m } := by
  cases hx : x w.memory with
  | ok b m =>
    rw [onMemory_of_ok hx] at h
    cases h
    exact ⟨m, rfl, rfl⟩
  | error e m =>
    rw [onMemory_of_error hx] at h
    cases h

theorem onMemory_eq_error (h : onMemory x w = .error f w') : ∃ m, x w.memory = .error f m := by
  cases hx : x w.memory with
  | ok a m =>
    rw [onMemory_of_ok hx] at h
    cases h
  | error e m =>
    rw [onMemory_of_error hx] at h
    cases h
    exact ⟨m, rfl⟩

/-- An evaluation changes the memory and nothing else. -/
theorem after_onMemory (x : Eval α) (w : World) :
    after (onMemory x) w = { w with memory := after x w.memory } := by
  cases h : x w.memory with
  | ok a m => rw [after_of_ok (onMemory_of_ok h), after_of_ok h]
  | error f m => rw [after_of_error (onMemory_of_error h), after_of_error h]

/-- What an evaluation keeps in memory it keeps as an action. -/
theorem keeps_onMemory {R : Memory → Memory → Prop} (hx : Keeps R x) :
    Keeps (fun w w' : World ↦ R w.memory w'.memory) (onMemory x) := by
  intro w
  rw [after_onMemory]
  exact hx w.memory

end Evaluations

/-! ## Composite properties -/

/-- Two worlds that differ at most in the log and in what loaders remember. -/
structure World.SameScene (w w' : World) : Prop where
  memory_eq : w.memory = w'.memory
  files_eq : w.files = w'.files
  environment_eq : w.environment = w'.environment
  host_eq : w.host = w'.host
  tallies_eq : w.tallies = w'.tallies

/-- The events that loading may end with. -/
def Loader.endings : List String := ["config_loaded", "config_validation_failed"]

/-- The property passes from actions to what is composed of them. Evaluations have it if they keep
the relation, and lines in the log if they are none that loading ends with. -/
structure Composite (R : Memory → Memory → Prop) (P : (α : Type) → Action α → Prop) : Prop where
  pure : ∀ {α : Type} (a : α), P α (Pure.pure a)
  throw : ∀ {α : Type} (f : Failure), P α (throw f)
  bind : ∀ {α β : Type} {x : Action α} {k : α → Action β}, P α x → (∀ a, P β (k a)) →
    P β (x >>= k)
  tryCatch : ∀ {α : Type} {x : Action α} {handler : Failure → Action α}, P α x →
    (∀ f, P α (handler f)) → P α (tryCatch x handler)
  look : ∀ {α : Type} {k : World → Action α}, (∀ w, P α (k w)) →
    (∀ {w w'}, World.SameScene w w' → k w = k w') → P α (get >>= k)
  evaluate : ∀ {α : Type} {x : Eval α}, Keeps R x → P α (onMemory x)
  record : ∀ level {event} details, event ∉ Loader.endings → P Unit (record level event details)
  count : ∀ tally, P Nat (countCall tally)

namespace Composite

variable {R : Memory → Memory → Prop} {P : (α : Type) → Action α → Prop}

/-- **Relations between worlds** pass from evaluations, from lines in the log and from the counting
of calls to all that is composed of these. -/
protected theorem keeps {S : World → World → Prop} [IsPreorder World S]
    (memory : ∀ w m, R w.memory m → S w { w with memory := m })
    (log : ∀ w entry, entry.event ∉ Loader.endings → S w { w with log := w.log.push entry })
    (tallies : ∀ w tallies, S w { w with tallies }) : Composite R fun _ x ↦ Keeps S x where
  pure := .pure
  throw := .throw
  bind := .bind
  tryCatch := .tryCatch
  look hk _ := .bind .get hk
  evaluate {_ x} hx w := by
    rw [after_onMemory]
    exact memory w _ (hx w.memory)
  record level event details h := .modify fun w ↦ log w ⟨level, event, details, none⟩ h
  count _ := .modifyGet fun w ↦ tallies w _

theorem ofOutcome (hP : Composite R P) {α : Type} (x : Except Failure α) : P α (ofOutcome x) := by
  cases x with
  | ok a => exact hP.pure a
  | error f => exact hP.throw f

theorem forM (hP : Composite R P) {α : Type} {f : α → Action Unit} {items : List α}
    (h : ∀ a ∈ items, P Unit (f a)) : P Unit (items.forM f) := by
  induction items with
  | nil => exact hP.pure ()
  | cons a rest ih =>
    refine hP.bind (h a List.mem_cons_self) fun _ ↦ ?_
    exact ih fun b hb ↦ h b (List.mem_cons_of_mem _ hb)

end Composite

/-! ## Versions -/

/-- A source that fails is passed over, like one that has no answer. -/
def VersionResolver.answer (package : Value) (source : VersionSource) : Action Value :=
  tryCatch (source.lookup package) fun failure ↦ do
    record .warning "version_source_failed"
      [("source", .text source.kindName), ("package", package),
        ("error", .text (← failureText failure))]
    return .null

namespace Composite

section Versions

variable {R : Memory → Memory → Prop} {P : (α : Type) → Action α → Prop} (hP : Composite R P)
  (hevent : ∀ m e, R m { m with trace := m.trace.push e })

include hP

theorem revisionAnswer (timeout : Scalar) (outcome : RevisionOutcome) :
    P Value (VersionSource.revisionAnswer timeout outcome) := by
  have hnone : ∀ error, P Value (VersionSource.revisionUnavailable error) := fun _ ↦
    hP.bind (hP.record _ _ (by decide)) fun _ ↦ hP.pure _
  cases outcome with
  | output text => exact hP.pure _
  | exitStatus status => exact hnone _
  | timedOut => exact hnone _
  | toolMissing => exact hnone _

include hevent

theorem emit (e : Event) : P Unit (onMemory (emit e)) := hP.evaluate (.modify fun m ↦ hevent m e)

theorem lookup (package : Value) (source : VersionSource) : P Value (source.lookup package) := by
  cases source with
  | metadata =>
    refine hP.bind (hP.emit hevent _) fun _ ↦ hP.look (fun w ↦ ?_) fun h ↦ by rw [h.host_eq]
    dsimp only
    split
    · exact hP.pure _
    · exact hP.throw _
    · exact hP.pure _
  | revision directory timeout =>
    refine hP.bind (hP.emit hevent _) fun _ ↦ hP.look (fun w ↦ ?_) fun h ↦ by rw [h.host_eq]
    exact hP.revisionAnswer timeout _
  | answering label version => exact hP.bind (hP.emit hevent _) fun _ ↦ hP.pure _
  | failing label message => exact hP.bind (hP.emit hevent _) fun _ ↦ hP.throw _

theorem answer (package : Value) (source : VersionSource) :
    P Value (VersionResolver.answer package source) := by
  refine hP.tryCatch (hP.lookup hevent package source) fun failure ↦ ?_
  refine hP.bind (hP.look (fun _ ↦ hP.pure _) fun h ↦ by rw [h.memory_eq]) fun _ ↦ ?_
  exact hP.bind (hP.record _ _ (by decide)) fun _ ↦ hP.pure _

theorem resolveFrom [Std.Refl R] (package : Value) (sources : List VersionSource) :
    P Value (VersionResolver.resolveFrom package sources) := by
  induction sources with
  | nil => exact hP.pure _
  | cons source rest ih =>
    refine hP.bind (hP.answer hevent package source) fun v ↦ ?_
    refine hP.bind (hP.evaluate (keeps_truthyValue v).of_eq) fun set ↦ ?_
    split
    · exact hP.bind (hP.record _ _ (by decide)) fun _ ↦ hP.pure _
    · exact ih

/-- The property holds of **asking for a reply**, whatever the reply is. -/
theorem reply [Std.Refl R] (r : Reply) (question : Value) : P Value (r.run question) := by
  cases r with
  | answer v => exact hP.pure v
  | inTurn tally values => exact hP.bind (hP.count tally) fun _ ↦ hP.pure _
  | failing message => exact hP.throw _
  | upper => exact hP.ofOutcome _
  | echo => exact hP.pure _
  | cipher c => exact hP.ofOutcome _
  | versions r => exact hP.resolveFrom hevent question r.sources

end Versions

/-! ## Reading the file -/

section Loading

variable {P : (α : Type) → Action α → Prop} (hP : Composite Follows P) {l : Loader}

include hP

theorem expand (path text : String) : P String (l.expand path text) := by
  unfold Loader.expand Loader.givenNames
  refine hP.bind (hP.look (fun _ ↦ hP.pure _) fun h ↦ ?_) fun given ↦ ?_
  · rw [h.environment_eq, h.files_eq]
  · split
    · exact hP.throw _
    · exact hP.evaluate (Template.keeps_fill _ _)

theorem readDocument (path : String) : P Value (l.readDocument path) := by
  unfold Loader.readDocument
  refine hP.look (fun w ↦ ?_) fun h ↦ by rw [h.files_eq]
  split
  · exact hP.throw _
  · exact hP.throw _
  · exact hP.pure _
  · split
    · exact hP.throw _
    · refine hP.bind (hP.expand path _) fun text ↦ ?_
      unfold Loader.parse
      split
      · exact hP.pure _
      · exact hP.throw _
      · exact hP.throw _
      · exact hP.throw _

theorem revealPassword (hpassword : ∀ v, P Value (l.password v)) (title : String)
    (content : Value) : P Unit (l.revealPassword title content) := by
  have hpresent : ∀ n path, P Bool (onMemory (Node.present n path)) := fun n path ↦
    hP.evaluate (Node.keeps_presentWith keeps_evaluate path n)
  have hget : ∀ n key, P Value (onMemory (Node.get n key)) := fun n key ↦
    hP.evaluate (Node.keeps_getWith keeps_evaluate n key)
  unfold Loader.revealPassword
  split
  · refine hP.bind (hpresent _ _) fun owned ↦ ?_
    split
    · refine hP.bind (hget _ _) fun v ↦ ?_
      split
      · refine hP.bind (hpresent _ _) fun stored ↦ ?_
        split
        · refine hP.bind (hget _ _) fun stored ↦ hP.bind (hpassword stored) fun password ↦ ?_
          refine hP.bind (hP.evaluate (Node.keeps_set _ _ _)) fun _ ↦ ?_
          exact hP.record _ _ (by decide)
        · exact hP.pure _
      · exact hP.pure _
    · exact hP.pure _
  · exact hP.pure _

/-- The property holds of **reading the file at a path** if it holds of asking for passwords. -/
theorem readFrom (hpassword : ∀ v, P Value (l.password v)) (path : String) :
    P NodeId (l.readFrom path) := by
  unfold Loader.readFrom
  refine hP.bind (hP.readDocument path) fun v ↦ ?_
  refine hP.bind (hP.evaluate (Node.keeps_create v)) fun n ↦ ?_
  refine hP.bind (hP.evaluate (Node.keeps_itemsWith keeps_evaluate n)) fun sections ↦ ?_
  refine hP.bind (hP.forM fun e _ ↦ hP.revealPassword hpassword e.1 e.2) fun _ ↦ ?_
  exact hP.bind (hP.evaluate (Node.keeps_freeze n)) fun _ ↦ hP.pure _

end Loading

/-! ## Deriving values and checking rules -/

section Completing

variable {R : Memory → Memory → Prop} [Lasting R] {P : (α : Type) → Action α → Prop}
  (hP : Composite R P) {l : Loader}

include hP

theorem derive (hversion : ∀ package, P Value (l.version package)) (n : NodeId) :
    P Unit (l.derive n) := by
  refine hP.bind (hP.evaluate (Loader.keeps_deriveValues n)) fun katello ↦ ?_
  refine hP.bind (hversion _) fun version ↦ hP.evaluate (Node.keeps_set n _ _)

/-- A violation is a line in the log that loading ends with. -/
theorem validate
    (hrecord : ∀ level event details, P Unit (LayeredConfig.record level event details))
    (environment : Value) (n : NodeId) : P Unit (l.validate environment n) := by
  refine hP.tryCatch (hP.evaluate (keeps_checkRules _ l.rules)) fun failure ↦ ?_
  dsimp only
  split
  · refine hP.look (fun w ↦ ?_) fun h ↦ by rw [h.memory_eq]
    exact hP.bind (hrecord _ _ _) fun _ ↦ hP.throw _
  · exact hP.throw _

end Completing

end Composite

end LayeredConfig
