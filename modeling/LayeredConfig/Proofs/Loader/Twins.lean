import LayeredConfig.Proofs.Loader.Discretion

/-!
# Two loaders side by side

Two loaders with the same arguments answer alike as long as they see the same, go by the same path
and remember the same beside it. `Loader.Twins` relates their worlds, and everything that a call
does keeps it: discreet actions because they see nothing of what loaders remember, and what is
remembered because both remember the same. The path is compared by what a loader goes by, so that it
makes no difference whether it remembers the path or would find it.
-/

namespace LayeredConfig

open World (SameScene Beside)

namespace World

variable {w w' w'' : World}

theorem SameScene.symm (h : SameScene w w') : SameScene w' w :=
  ⟨h.memory_eq.symm, h.files_eq.symm, h.environment_eq.symm, h.host_eq.symm, h.tallies_eq.symm⟩

theorem SameScene.trans (h : SameScene w w') (h' : SameScene w' w'') : SameScene w w'' :=
  ⟨h.memory_eq.trans h'.memory_eq, h.files_eq.trans h'.files_eq,
    h.environment_eq.trans h'.environment_eq, h.host_eq.trans h'.host_eq,
    h.tallies_eq.trans h'.tallies_eq⟩

theorem Beside.memo_eq (h : Beside w w') (number : ℕ) : w'.memo number = w.memo number := by
  rw [memo, memo, h.memos_eq]

end World

/-- The view has nothing to do with the path. -/
structure View.Pathless {α : Type} (v : View α) : Prop where
  known_eq : ∀ m : Memo, v.known m.pathless = v.known m
  path_keep : ∀ a (m : Memo), (v.keep a m).path = m.path
  pathless_keep : ∀ a (m : Memo), (v.keep a m).pathless = v.keep a m.pathless

namespace Loader

variable {α : Type} {l l' : Loader} {w w' v v' : World} {number : ℕ}

/-! ## The path -/

/-- The path that the loader goes by: the one that it remembers, or else the one that it finds. -/
def sought (l : Loader) (w : World) : Option String :=
  (w.memo l.number).path.or (l.paths.find? w.files.exists?)

theorem path_of_sought (hmade : l.number < w.memos.size) {p : String} (h : l.sought w = some p) :
    ∃ v, l.path w = .ok p v ∧ SameScene w v ∧ v.memos.size = w.memos.size ∧
      v.memo l.number = { w.memo l.number with path := some p } := by
  rw [sought] at h
  cases hknown : (w.memo l.number).path with
  | some q =>
    rw [hknown, Option.some_or] at h
    obtain rfl := Option.some.inj h
    refine ⟨w, remembered_of_known hknown, ⟨rfl, rfl, rfl, rfl, rfl⟩, rfl, ?_⟩
    rw [← hknown]
  | none =>
    rw [hknown, Option.none_or] at h
    have hrun : l.path w = _ := remembered_of_unknown hknown
    rw [discover, bind_assoc, get_bind, h] at hrun
    refine ⟨_, hrun, ⟨rfl, rfl, rfl, rfl, rfl⟩, Array.size_modify, ?_⟩
    exact World.memo_modify { w with log := _ } l.number _ hmade

theorem path_of_not_sought (h : l.sought w = none) :
    l.path w = .error (.configuration (.sourceNotFound l.paths)) w := by
  obtain ⟨hknown, hfind⟩ := Option.or_eq_none_iff.mp h
  have hrun : l.path w = _ := remembered_of_unknown hknown
  rw [discover, bind_assoc, get_bind, hfind] at hrun
  exact hrun

/-! ## Twins -/

/-- The same loader under another number. -/
def renumbered (l : Loader) (number : ℕ) : Loader := { l with number }

/-- What the two loaders see is the same, they go by the same path, and they remember the same
beside it. -/
structure Twins (l l' : Loader) (w w' : World) : Prop where
  scene : SameScene w w'
  made : l.number < w.memos.size
  made' : l'.number < w'.memos.size
  sought_eq : l.sought w = l'.sought w'
  memo_eq : (w.memo l.number).pathless = (w'.memo l'.number).pathless

theorem Twins.beside (h : Twins l l' w w') (hw : Beside w v) (hw' : Beside w' v')
    (hscene : SameScene v v') : Twins l l' v v' where
  scene := hscene
  made := by
    rw [hw.memos_eq]
    exact h.made
  made' := by
    rw [hw'.memos_eq]
    exact h.made'
  sought_eq := by
    have hsought := h.sought_eq
    rw [sought, sought] at hsought ⊢
    rw [hw.memo_eq, hw.files_eq, hw'.memo_eq, hw'.files_eq, hsought]
  memo_eq := by rw [hw.memo_eq, hw'.memo_eq, h.memo_eq]

/-- Discreet actions come to the same for both loaders. -/
theorem agrees_of_discreet {x : Action α} (hx : Discreet x) : Agrees (Twins l l') x x := by
  intro w w' h
  have hkeeps := hx.keeps w
  have hkeeps' := hx.keeps w'
  have halike := hx.agrees w w' h.scene
  generalize hr : x w = r at halike
  generalize hr' : x w' = r' at halike
  cases halike with
  | ok a hscene =>
    rw [after_of_ok hr] at hkeeps
    rw [after_of_ok hr'] at hkeeps'
    exact .ok a (h.beside hkeeps hkeeps' hscene)
  | error e hscene =>
    rw [after_of_error hr] at hkeeps
    rw [after_of_error hr'] at hkeeps'
    exact .error e (h.beside hkeeps hkeeps' hscene)

theorem agrees_path : Agrees (Twins l (l.renumbered number)) l.path (l.renumbered number).path := by
  intro w w' h
  have hsought := h.sought_eq
  cases hs : l.sought w with
  | some p =>
    rw [hs] at hsought
    obtain ⟨v, hv, hscene, hsize, hmemo⟩ := path_of_sought h.made hs
    obtain ⟨v', hv', hscene', hsize', hmemo'⟩ := path_of_sought h.made' hsought.symm
    rw [hv, hv']
    refine .ok p ⟨(hscene.symm.trans h.scene).trans hscene', ?_, ?_, ?_, ?_⟩
    · rw [hsize]
      exact h.made
    · rw [hsize']
      exact h.made'
    · rw [sought, sought, hmemo, hmemo', Option.some_or, Option.some_or]
    · rw [hmemo, hmemo']
      exact h.memo_eq
  | none =>
    rw [hs] at hsought
    rw [path_of_not_sought hs, path_of_not_sought hsought.symm]
    exact .error _ h

theorem Twins.keep (h : Twins l l' w w') {view : View α} (hview : view.Pathless) (a : α) :
    Twins l l' { w with memos := w.memos.modify l.number (view.keep a) }
      { w' with memos := w'.memos.modify l'.number (view.keep a) } := by
  have hmemo := w.memo_modify l.number (view.keep a) h.made
  have hmemo' := w'.memo_modify l'.number (view.keep a) h.made'
  refine ⟨⟨h.scene.memory_eq, h.scene.files_eq, h.scene.environment_eq, h.scene.host_eq,
    h.scene.tallies_eq⟩, ?_, ?_, ?_, ?_⟩
  · rw [Array.size_modify]
    exact h.made
  · rw [Array.size_modify]
    exact h.made'
  · have hsought := h.sought_eq
    rw [sought, sought] at hsought ⊢
    rw [hmemo, hmemo', hview.path_keep, hview.path_keep]
    exact hsought
  · rw [hmemo, hmemo', hview.pathless_keep, hview.pathless_keep, h.memo_eq]

/-- A view comes to the same if both remember it, and if both compute it. -/
theorem agrees_remembered {view : View α} (hview : view.Pathless) {x y : Action α}
    (h : Agrees (Twins l l') x y) :
    Agrees (Twins l l') (l.remembered view x) (l'.remembered view y) := by
  intro w w' hw
  have hknown : view.known (w.memo l.number) = view.known (w'.memo l'.number) := by
    rw [← hview.known_eq, hw.memo_eq, hview.known_eq]
  cases hk : view.known (w.memo l.number) with
  | some a =>
    rw [remembered_of_known hk, remembered_of_known (hknown.symm.trans hk)]
    exact .ok a hw
  | none =>
    rw [remembered_of_unknown hk, remembered_of_unknown (hknown.symm.trans hk)]
    exact h.bind (fun a u u' hu ↦ .ok a (hu.keep hview a)) w w' hw

/-- The views that may be asked for. -/
inductive Call where
  | data
  | config
  | early
  | databases
deriving DecidableEq, Repr

/-- What a view gives. -/
inductive Product where
  | tree (n : NodeId)
  | settings (all : DatabaseSettings)
deriving Repr

/-- Asks a loader for a view. -/
def call (l : Loader) : Call → Action Product
  | .data => .tree <$> l.data
  | .config => .tree <$> l.config
  | .early => .tree <$> l.earlyConfig
  | .databases => .settings <$> l.databases

/-! ## The steps of a call -/

theorem discreet_currentEnvironment (hl : l.SelfContained) : Discreet l.currentEnvironment := by
  unfold currentEnvironment
  split
  · next ask hask => exact hl.environment ask hask
  · exact composite_discreet.throw _

/-- The property passes from the steps of two calls to the whole, if it holds of discreet steps and
of those that are remembered on their own. -/
structure Paired (l l' : Loader) (P : (α : Type) → Action α → Action α → Prop) : Prop where
  bind : ∀ {α β : Type} {x y : Action α} {k k' : α → Action β}, P α x y →
    (∀ a, P β (k a) (k' a)) → P β (x >>= k) (y >>= k')
  discreet : ∀ {α : Type} {x : Action α}, Discreet x → P α x x
  path : P String l.path l'.path
  data : P NodeId l.data l'.data

namespace Paired

variable {P : (α : Type) → Action α → Action α → Prop} (h : Paired l (l.renumbered number) P)
  (hl : l.SelfContained)

include h hl

theorem load (environment : Value) :
    P NodeId (l.load environment) ((l.renumbered number).load environment) := by
  refine h.bind h.data fun data ↦ ?_
  refine h.bind (h.discreet (discreet_onMemory (keeps_mergeSections environment data))) fun n ↦ ?_
  refine h.bind (h.discreet (composite_discreet.derive hl.version n)) fun _ ↦ ?_
  refine h.bind (h.discreet (composite_discreet.validate discreet_record environment n)) fun _ ↦ ?_
  refine h.bind (h.discreet (discreet_onMemory (Node.keeps_freeze n))) fun _ ↦ ?_
  refine h.bind (h.discreet (discreet_onMemory (keeps_truthyValue environment).of_eq))
    fun named ↦ ?_
  refine h.bind h.path fun path ↦ h.bind (h.discreet (discreet_record _ _ _)) fun _ ↦ ?_
  exact h.discreet (composite_discreet.pure n)

theorem loadCurrent : P NodeId (l.currentEnvironment >>= l.load)
    ((l.renumbered number).currentEnvironment >>= (l.renumbered number).load) :=
  h.bind (h.discreet (discreet_currentEnvironment hl)) (h.load hl)

omit hl in
theorem readDatabases : P DatabaseSettings l.readDatabases (l.renumbered number).readDatabases := by
  refine h.bind h.data fun data ↦ ?_
  refine h.bind (h.discreet (discreet_onMemory (keeps_databaseBlock data _))) fun common ↦ ?_
  exact h.discreet (discreet_onMemory (keeps_collectDatabases data common [] _))

end Paired

theorem agrees_data (hl : l.SelfContained) :
    Agrees (Twins l (l.renumbered number)) l.data (l.renumbered number).data := by
  refine agrees_remembered ⟨fun _ ↦ rfl, fun _ _ ↦ rfl, fun _ _ ↦ rfl⟩ ?_
  exact agrees_path.bind fun path ↦
    agrees_of_discreet (composite_discreet.readFrom hl.password path)

theorem paired_agrees (hl : l.SelfContained) : Paired l (l.renumbered number)
    fun _ x y ↦ Agrees (Twins l (l.renumbered number)) x y where
  bind := .bind
  discreet := agrees_of_discreet
  path := agrees_path
  data := agrees_data hl

/-- **Both loaders answer alike.** -/
theorem agrees_call (hl : l.SelfContained) (c : Call) :
    Agrees (Twins l (l.renumbered number)) (l.call c) ((l.renumbered number).call c) := by
  have hview : ∀ {α : Type} {view : View α} {x y : Action α} (f : α → Product), view.Pathless →
      Agrees (Twins l (l.renumbered number)) x y →
        Agrees (Twins l (l.renumbered number)) (f <$> l.remembered view x)
          (f <$> (l.renumbered number).remembered view y) := fun f hpathless hxy ↦
    (agrees_remembered hpathless hxy).map f
  have hpaired : Paired l (l.renumbered number)
      fun _ x y ↦ Agrees (Twins l (l.renumbered number)) x y := paired_agrees hl
  cases c with
  | data => exact (agrees_data hl).map _
  | config => exact hview _ ⟨fun _ ↦ rfl, fun _ _ ↦ rfl, fun _ _ ↦ rfl⟩ (hpaired.loadCurrent hl)
  | early => exact hview _ ⟨fun _ ↦ rfl, fun _ _ ↦ rfl, fun _ _ ↦ rfl⟩ (hpaired.load hl .null)
  | databases => exact hview _ ⟨fun _ ↦ rfl, fun _ _ ↦ rfl, fun _ _ ↦ rfl⟩ hpaired.readDatabases

end Loader

end LayeredConfig
