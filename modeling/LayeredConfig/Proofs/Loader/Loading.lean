import LayeredConfig.Proofs.Loader.Calm
import LayeredConfig.Proofs.Loader.Deriving
import LayeredConfig.Proofs.Loader.Supply
import LayeredConfig.Proofs.Rule.Checking

/-!
# The outcome of loading

Loading merges the sections of an environment, derives values, checks the rules and freezes. For a
file without computations its outcome is a function of the tree of the file, of the rules, and of
the version that the collaborator tells.
-/

namespace LayeredConfig

open Memory (Beyond)
open World (Calm)

namespace Loader

variable {l : Loader} {w w' w₁ w₂ : World} {n data : NodeId}

/-! ## What loading relies on -/

/-- The loader was made in this world, and if it has read its file it knows where the file is. -/
structure Ready (l : Loader) (w : World) : Prop where
  number_lt : l.number < w.memos.size
  path : (w.memo l.number).data.isSome → (w.memo l.number).path.isSome

/-- A new loader is ready. -/
theorem ready_create {paths : List String} {rules : List Rule}
    {environment : Option (Action Value)} {password version : Value → Action Value}
    {databaseEnvironments : List Value} {context : List (Value × Value)}
    (h : create paths rules environment password version databaseEnvironments context w
      = .ok l w') : l.Ready w' := by
  unfold create at h
  cases paths with
  | nil => cases h
  | cons path rest =>
    cases h
    refine ⟨?_, fun hdata ↦ ?_⟩
    · exact Nat.lt_of_lt_of_eq (Nat.lt_succ_self _) (Array.size_push _).symm
    · rw [show World.memo _ w.memos.size = default from w.memo_push] at hdata
      cases hdata

/-- While loading, the collaborator told this version of a package. -/
def Told (l : Loader) (w : World) (package version : String) : Prop :=
  ∃ wa wb, Beyond w.memory wa.memory ∧ l.version (.text package) wa = .ok (.text version) wb

/-- In this world, but for some more nodes, the collaborator tells this version of a package. -/
def Tells (l : Loader) (w : World) (package version : String) : Prop :=
  ∃ m w', Beyond w.memory m ∧ l.version (.text package) { w with memory := m }
    = .ok (.text version) w'

theorem Tells.told {package version : String} (h : l.Tells w package version) :
    l.Told w package version := by
  obtain ⟨m, w', hmm, hversion⟩ := h
  exact ⟨{ w with memory := m }, w', hmm, hversion⟩

/-! ## Deriving and validating -/

/-- The end of deriving: the version is asked for after all other values are there. -/
def deriveVersion (l : Loader) (katello : Bool) (n : NodeId) : Action Unit := do
  let version ← l.version (.text (packageName katello))
  onMemory (Node.set n (.text "katello_version") version)

theorem derive_eq {m : Memory} {fields : Entries Blueprint} (h : Draft w.memory m n fields)
    (hfields : ∀ e ∈ fields, e.2.Settled) :
    ∃ m₁, ReadsAs w.memory m₁ n (Derived.found fields "app_mode") (Derived.values fields) ∧
      l.derive n { w with memory := m }
        = l.deriveVersion (Derived.inMode (Derived.found fields "app_mode") "katello") n
          { w with memory := m₁ } := by
  obtain ⟨m₁, hvalues, h₁⟩ := (h.readsAs hfields).deriveValues
  have hlift : onMemory (deriveValues n) { w with memory := m } = .ok _ { w with memory := m₁ } :=
    onMemory_of_ok hvalues
  exact ⟨m₁, h₁, bind_of_ok hlift⟩

/-- A version that is told is filled in. -/
theorem deriveVersion_of_told {katello : Bool} {version : String} {mode : Blueprint}
    {fields : Entries Blueprint} (hversion : l.version (.text (packageName katello)) w₁
      = .ok (.text version) w₂) (h : ReadsAs w.memory w₂.memory n mode fields) :
    ∃ m, l.deriveVersion katello n w₁ = .ok () { w₂ with memory := m } ∧
      ReadsAs w.memory m n mode (fields.put "katello_version" (.scalar (.text version))) := by
  obtain ⟨m, hset, hreads⟩ := h.set (by decide : "katello_version" ≠ "app_mode") (.text version)
  exact ⟨m, (bind_of_ok hversion).trans (onMemory_of_ok hset), hreads⟩

theorem derive_of_draft (hl : l.Supplied) {m : Memory} {fields : Entries Blueprint}
    (h : Draft w.memory m n fields) (hfields : ∀ e ∈ fields, e.2.Settled) :
    ∃ version w', l.derive n { w with memory := m } = .ok () w' ∧
      l.Tells w (packageName (Derived.inMode (Derived.found fields "app_mode") "katello")) version ∧
      Calm l.number w w' ∧ ReadsAs w.memory w'.memory n (Derived.found fields "app_mode")
        (Derived.all version fields) := by
  obtain ⟨m₁, h₁, hderive⟩ := derive_eq (l := l) h hfields
  let wa : World := { w with memory := m₁ }
  obtain ⟨version, wb, hversion, hmm, hcalm⟩ := hl.version
    (packageName (Derived.inMode (Derived.found fields "app_mode") "katello")) wa h₁.beyond.sound
  obtain ⟨m₂, hset, h₂⟩ := deriveVersion_of_told hversion (h₁.later hmm)
  refine ⟨version, { wb with memory := m₂ }, hderive.trans hset,
    ⟨m₁, wb, h₁.beyond, hversion⟩, ?_, h₂⟩
  exact IsTrans.trans _ _ _ (w.calm_memory m₁) (IsTrans.trans _ _ _ hcalm (wb.calm_memory m₂))

variable {environment : Value}

theorem validate_of_none {t : Tree}
    (h : Finds (checkRules ⟨n, environment, []⟩ l.rules) w.memory t none) :
    ∃ m, l.validate environment n w = .ok () { w with memory := m } ∧ Beyond w.memory m := by
  obtain ⟨m, hok, hmm⟩ := h
  exact ⟨m, tryCatch_of_ok (onMemory_of_ok hok), hmm⟩

theorem validate_of_some {t : Tree} {v : Violation}
    (h : Finds (checkRules ⟨n, environment, []⟩ l.rules) w.memory t (some v)) :
    ∃ w' problem, l.validate environment n w
        = .error (.configuration (.validationFailure v.keyPath t problem)) w' ∧
      (∀ names, problem.message names = v.problem.message names) ∧ Beyond w.memory w'.memory ∧
      w'.logged "config_loaded" = w.logged "config_loaded" ∧
      w'.logged "config_validation_failed" = w.logged "config_validation_failed" + 1 := by
  obtain ⟨m, problem, herror, hmm, hmessage⟩ := h
  refine ⟨_, problem, tryCatch_of_error (onMemory_of_error herror), hmessage, hmm, ?_, ?_⟩
  · exact World.logged_push _ _ _
  · exact World.logged_push _ _ _

/-! ## The outcome -/

/-- The inspection of what was loaded for an environment. -/
def inspection (m : Memory) (environment : Option String) (fields : Entries Blueprint) :
    Inspection :=
  ⟨m.view, m.view (environmentValue environment), [], fields⟩

/-- A draft that reads as the given fields is described by their inspection. -/
theorem describes_inspection {m₀ m : Memory} {mode : Blueprint} {fields : Entries Blueprint}
    (hm₀ : m₀.forest.Sound) (h : ReadsAs m₀ m n mode fields) (environment : Option String) :
    Describes m₀.Known m n (environmentValue environment) (inspection m₀ environment fields) where
  sound := h.beyond.sound
  known_scalar := m₀.known_scalar
  known_mem hv a ha := h.beyond.grown.mem (hv a ha)
  view_eq hv := h.beyond.view_eq hm₀ hv
  environment_mem a ha := by cases environment <;> exact absurd ha List.not_mem_nil
  environment_eq := by cases environment <;> rfl
  presents := h.presents

/-- What loading leaves: no node that was there has changed, and the log tells how it ended. -/
structure Leaves (data : NodeId) (w w₁ w₂ : World) (loaded failed : ℕ) : Prop where
  beyond : Beyond w₁.memory w₂.memory
  data_eq : w₂.memory.view (.node data) = w₁.memory.view (.node data)
  loaded_eq : w₂.logged "config_loaded" = w.logged "config_loaded" + loaded
  failed_eq : w₂.logged "config_validation_failed"
    = w.logged "config_validation_failed" + failed

variable {environment : Option String}

theorem leaves_of_beyond (hm₁ : w₁.memory.Parsed data) (hmm : Beyond w₁.memory w₂.memory)
    (hcalm : Calm l.number w w') {loaded failed : ℕ}
    (hloaded : w₂.logged "config_loaded" = w'.logged "config_loaded" + loaded)
    (hfailed : w₂.logged "config_validation_failed"
      = w'.logged "config_validation_failed" + failed) : Leaves data w w₁ w₂ loaded failed where
  beyond := hmm
  data_eq := hmm.view_eq hm₁.sound (Memory.known_node hm₁.mem)
  loaded_eq := by rw [hloaded, hcalm.logged_eq _ (by decide)]
  failed_eq := by rw [hfailed, hcalm.logged_eq _ (by decide)]

/-- A section that is refused ends loading. -/
theorem load_of_refused (hl : l.Supplied) (hdata : l.data w = .ok data w₁)
    (hm₁ : w₁.memory.Parsed data) {e : ConfigurationError}
    (he : (w₁.memory.view (.node data)).sections [] (sectionNames environment) = .error e) :
    ∃ w₂, l.load (environmentValue environment) w = .error (.configuration e) w₂ ∧
      Leaves data w w₁ w₂ 0 0 := by
  obtain ⟨m, herror, hmm⟩ := mergeSections_of_error environment hm₁ he
  refine ⟨{ w₁ with memory := m }, ?_,
    leaves_of_beyond hm₁ hmm ((calm_data hl.password).of_ok hdata) rfl rfl⟩
  rw [load, bind_of_ok hdata]
  exact bind_of_error (onMemory_of_error herror)

/-- The end of loading: a configuration that was validated is frozen, noted in the log, and given
out. -/
def giveOut (l : Loader) (environment : Value) (n : NodeId) : Action NodeId := do
  onMemory (Node.freeze n)
  let named ← onMemory (truthyValue environment)
  record .info "config_loaded"
    [("environment", if named then environment else .text "early"), ("path", .text (← l.path))]
  return n

/-- Otherwise it goes on to the rules, with the derived values filled in. -/
theorem load_derives (hl : l.Supplied) (hdata : l.data w = .ok data w₁)
    (hm₁ : w₁.memory.Parsed data) {fields : Entries Blueprint}
    (hok : (w₁.memory.view (.node data)).sections [] (sectionNames environment) = .ok fields) :
    ∃ version n w', l.Tells w₁
        (packageName (Derived.inMode (Derived.found fields "app_mode") "katello")) version ∧
      Calm l.number w₁ w' ∧ ReadsAs w₁.memory w'.memory n (Derived.found fields "app_mode")
        (Derived.all version fields) ∧
      l.load (environmentValue environment) w = (do
        l.validate (environmentValue environment) n
        l.giveOut (environmentValue environment) n) w' := by
  obtain ⟨n, m, hmerge, hdraft⟩ := mergeSections_of_ok environment hm₁ hok
  obtain ⟨version, w', hderive, htells, hcalm, hreads⟩ := derive_of_draft hl hdraft
    (Tree.settled_sections hm₁.settled (fun e he ↦ absurd he List.not_mem_nil) hok)
  refine ⟨version, n, w', htells, hcalm, hreads, ?_⟩
  rw [load, bind_of_ok hdata]
  refine (bind_of_ok (onMemory_of_ok hmerge)).trans ?_
  exact bind_of_ok hderive

theorem load_of_sections (hl : l.Supplied) (hdata : l.data w = .ok data w₁)
    (hm₁ : w₁.memory.Parsed data) {fields : Entries Blueprint}
    (hok : (w₁.memory.view (.node data)).sections [] (sectionNames environment) = .ok fields) :
    ∃ version n w', l.Told w₁
        (packageName (Derived.inMode (Derived.found fields "app_mode") "katello")) version ∧
      Calm l.number w₁ w' ∧ ReadsAs w₁.memory w'.memory n (Derived.found fields "app_mode")
        (Derived.all version fields) ∧
      l.load (environmentValue environment) w = (do
        l.validate (environmentValue environment) n
        l.giveOut (environmentValue environment) n) w' := by
  obtain ⟨version, n, w', htells, hrest⟩ := load_derives hl hdata hm₁ hok
  exact ⟨version, n, w', htells.told, hrest⟩

/-- What the loader remembers of its file, a draft that was validated is frozen and given out. -/
theorem finish_of_path {w' : World} {mode : Blueprint} {fields : Entries Blueprint}
    {environment : Value} {path : String} (hpath : (w'.memo l.number).path = some path)
    (h : ReadsAs w₁.memory w'.memory n mode fields) :
    ∃ w₂, l.giveOut environment n w' = .ok n w₂ ∧
      Beyond w₁.memory w₂.memory ∧ w₂.memory.forest.frozen n = true ∧
      (∃ m, Node.toMapping n w₂.memory = .ok (Blueprint.node fields).plain m) ∧
      w₂.logged "config_loaded" = w'.logged "config_loaded" + 1 ∧
      w₂.logged "config_validation_failed" = w'.logged "config_validation_failed" := by
  obtain ⟨hmm, hfrozen, hmapping⟩ := h.freeze
  let wf : World := { w' with memory := { w'.memory with forest := w'.memory.forest.freeze n } }
  have hfreeze : onMemory (Node.freeze n) w' = .ok () wf := rfl
  have hnamed : onMemory (truthyValue environment) wf
      = .ok (wf.memory.forest.truthy environment) wf := rfl
  have hknown : l.path wf = .ok path wf := remembered_of_known hpath
  refine ⟨_, (bind_of_ok hfreeze).trans ((bind_of_ok hnamed).trans
    ((bind_of_ok hknown).trans rfl)), hmm, hfrozen, hmapping, ?_, ?_⟩
  · exact World.logged_push _ _ _
  · exact World.logged_push _ _ _

end Loader

end LayeredConfig
