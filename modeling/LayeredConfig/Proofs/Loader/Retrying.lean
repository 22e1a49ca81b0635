import LayeredConfig.Proofs.Loader.Promises
import LayeredConfig.Proofs.Loader.Twins

/-!
# Calling a loader again

A call that fails may have found the file, and it may have read it, before it failed. Both are
remembered on their own, so a later call neither looks for the file nor reads it again, even if the
files have changed. Nothing else stays: the call that failed is not remembered, and the tree that
was read is frozen and has not changed since. So a loader that failed goes on like a new one that
was handed the path and the tree, and like any new one if it has read nothing and would find the
same path again.

What a call leaves behind before it remembers its own result is `Loader.Attempt`.
-/

namespace LayeredConfig

open World (Beside SameScene)

namespace World

/-- The loader of the given number is made to remember this. -/
def handed (w : World) (number : ℕ) (m : Memo) : World :=
  { w with memos := w.memos.modify number fun _ ↦ m }

/-- Other files and another process environment. -/
def changed (w : World) (files : FileSystem) (environment : Entries String) : World :=
  { w with files, environment }

end World

/-- What is remembered of the merged views. -/
def Memo.merged (m : Memo) : Memo := { m with path := none, data := none }

namespace Loader

variable {α : Type} {l l' : Loader} {w w' w₁ w₂ : World} {n : NodeId}

/-! ## The tree that was read -/

/-- Reading gives a frozen node. -/
theorem frozen_of_readFrom (hl : l.Uncalled) {path : String} (hw : w.memory.forest.Sound)
    (h : l.readFrom path w = .ok n w') :
    w'.memory.forest.Sound ∧ n ∈ w'.memory.forest ∧ w'.memory.forest.frozen n = true := by
  rw [readFrom] at h
  obtain ⟨v, w₁, hread, h⟩ := bind_eq_ok.mp h
  have hsound₁ := (((composite_discreet.readDocument path).keeps.of_ok hread).follows hw).sound
  obtain ⟨c, w₂, hcreate, h⟩ := bind_eq_ok.mp h
  obtain ⟨m, hnew, rfl⟩ := onMemory_eq_ok (x := Node.create v) hcreate
  have hmade : m.forest.Sound ∧ c ∈ m.forest := by
    rcases hsound₁.create_cases v with ⟨d, g, heq, hmade⟩ | ⟨e, heq⟩
    · rw [Node.create, onForest_of_ok heq] at hnew
      cases hnew
      exact ⟨hmade.placed.sound, hmade.placed.mem _ List.mem_cons_self⟩
    · rw [Node.create, onForest_of_error heq] at hnew
      cases hnew
  obtain ⟨sections, w₃, hitems, h⟩ := bind_eq_ok.mp h
  obtain ⟨_, w₄, hreveal, h⟩ := bind_eq_ok.mp h
  have hkeeps : Keeps Beside (onMemory (Node.items c)) :=
    (discreet_onMemory (Node.keeps_itemsWith keeps_evaluate c)).keeps
  have hlater := (hkeeps.of_ok hitems).follows hmade.1
  have hreveals : Keeps (World.Elsewhere l.number)
      (sections.forM fun e ↦ l.revealPassword e.1 e.2) :=
    (composite_elsewhere _).forM fun e _ ↦
      (composite_elsewhere _).revealPassword hl.password e.1 e.2
  have hrevealed := (hreveals.of_ok hreveal).follows hlater.sound
  cases h
  exact ⟨hrevealed.sound.freeze n, Forest.mem_freeze.mpr (hrevealed.mem (hlater.mem hmade.2)),
    hrevealed.sound.frozen_freeze_of_reaches (.refl _ n)⟩

/-- The node is a frozen tree that the loader read from these files, and it is as it was read. -/
structure Stands (l : Loader) (files : FileSystem) (n : NodeId) (m : Memory) : Prop where
  exists_reading : ∃ u u', u.files = files ∧ l.readData u = .ok n u' ∧
    m.view (.node n) = u'.memory.view (.node n)
  mem : n ∈ m.forest
  frozen : m.forest.frozen n = true

theorem Stands.follows {files : FileSystem} {m m' : Memory} (h : l.Stands files n m)
    (hm : m.forest.Sound) (hmm : m.Follows m') : l.Stands files n m' := by
  obtain ⟨u, u', hfiles, hread, hview⟩ := h.exists_reading
  have hlater := hmm hm
  refine ⟨⟨u, u', hfiles, hread, ?_⟩, hlater.mem h.mem, ?_⟩
  · exact (hlater.view_of_frozen hm h.mem h.frozen).trans hview
  · rw [Forest.frozen, hlater.frozen h.mem h.frozen]
    exact h.frozen

/-! ## Attempts -/

/-- What a call leaves behind before it remembers its own result: nodes were used through their
operations only, no merged view is remembered, and a tree that is remembered stands as it was
read. -/
structure Attempt (l : Loader) (w w' : World) : Prop where
  follows : w.memory.Follows w'.memory
  sound : w'.memory.forest.Sound
  made : l.number < w'.memos.size
  files_eq : w'.files = w.files
  merged_eq : (w'.memo l.number).merged = (w.memo l.number).merged
  stands : (∀ n, (w.memo l.number).data = some n → l.Stands w.files n w.memory) →
    ∀ n, (w'.memo l.number).data = some n → l.Stands w'.files n w'.memory

/-- An attempt, if the loader was made in this world. -/
def Attempts (l : Loader) (w w' : World) : Prop :=
  w.memory.forest.Sound → l.number < w.memos.size → l.Attempt w w'

instance (l : Loader) : IsPreorder World l.Attempts where
  refl w hw hmade := ⟨Std.Refl.refl w.memory, hw, hmade, rfl, rfl, fun h ↦ h⟩
  trans w w₁ w₂ h h' hw hmade := by
    obtain ⟨hfollows, hsound, hmade₁, hfiles, hmerged, hstands⟩ := h hw hmade
    obtain ⟨hfollows', hsound', hmade₂, hfiles', hmerged', hstands'⟩ := h' hsound hmade₁
    exact ⟨IsTrans.trans _ _ _ hfollows hfollows', hsound', hmade₂, hfiles'.trans hfiles,
      hmerged'.trans hmerged, fun hs ↦ hstands' (hstands hs)⟩

theorem attempts_of_beside (h : Beside w w') : l.Attempts w w' := by
  intro hw hmade
  refine ⟨h.follows, (h.follows hw).sound, ?_, h.files_eq, ?_, fun hs n hn ↦ ?_⟩
  · rw [h.memos_eq]
    exact hmade
  · rw [h.memo_eq]
  · rw [h.memo_eq] at hn
    rw [h.files_eq]
    exact (hs n hn).follows hw h.follows

theorem attempts_of_discreet {x : Action α} (hx : Discreet x) : Keeps l.Attempts x :=
  fun w ↦ attempts_of_beside (hx.keeps w)

theorem attempts_path : Keeps l.Attempts l.path := by
  intro w hw hmade
  cases hs : l.sought w with
  | none =>
    rw [after_of_error (path_of_not_sought hs)]
    exact Std.Refl.refl (r := l.Attempts) w hw hmade
  | some p =>
    obtain ⟨v, hv, hscene, hsize, hmemo⟩ := path_of_sought hmade hs
    rw [after_of_ok hv]
    refine ⟨.of_forest_eq ?_, ?_, ?_, hscene.files_eq.symm, ?_, fun h n hn ↦ ?_⟩
    · rw [hscene.memory_eq]
    · rw [← hscene.memory_eq]
      exact hw
    · rw [hsize]
      exact hmade
    · rw [hmemo]
      rfl
    · rw [hmemo] at hn
      rw [← hscene.files_eq, ← hscene.memory_eq]
      exact h n hn

section SelfContained

variable (hl : l.SelfContained)

include hl

theorem attempts_readData : Keeps l.Attempts l.readData :=
  attempts_path.bind fun path ↦
    attempts_of_discreet (composite_discreet.readFrom hl.password path)

/-- **The tree that is remembered** stands as it was read. -/
theorem attempts_data : Keeps l.Attempts l.data := by
  intro w
  cases hknown : (w.memo l.number).data with
  | some n =>
    have hok : l.data w = .ok n w := remembered_of_known hknown
    rw [after_of_ok hok]
    exact Std.Refl.refl w
  | none =>
    have hdata : l.data w = _ := remembered_of_unknown hknown
    cases hread : l.readData w with
    | error e w₁ =>
      rw [after, hdata, bind_of_error hread]
      exact (attempts_readData hl).of_error hread
    | ok n w₁ =>
      rw [after, hdata, bind_of_ok hread]
      intro hw hmade
      obtain ⟨hfollows, hsound, hmade₁, hfiles, hmerged, _⟩ :=
        (attempts_readData hl).of_ok hread hw hmade
      have hmemo := w₁.memo_modify l.number (View.data.keep n) hmade₁
      refine ⟨hfollows, hsound, ?_, hfiles, ?_, fun _ d hd ↦ ?_⟩
      · exact Nat.lt_of_lt_of_eq hmade₁ Array.size_modify.symm
      · exact (congrArg Memo.merged hmemo).trans hmerged
      · obtain rfl : n = d := Option.some.inj ((congrArg Memo.data hmemo).symm.trans hd)
        obtain ⟨p, w₀, hpath, hfrom⟩ := bind_eq_ok.mp hread
        have hsound₀ := (attempts_path.of_ok hpath hw hmade).sound
        obtain ⟨_, hmem, hfrozen⟩ := frozen_of_readFrom hl.uncalled hsound₀ hfrom
        exact ⟨⟨w, w₁, hfiles.symm, hread, rfl⟩, hmem, hfrozen⟩

theorem paired_attempts : Paired l (l.renumbered l.number) fun _ x _ ↦ Keeps l.Attempts x where
  bind := .bind
  discreet := attempts_of_discreet
  path := attempts_path
  data := attempts_data hl

omit hl in
/-- A view that fails leaves an attempt behind. -/
theorem attempts_of_remembered {view : View α} {compute : Action α}
    (hcompute : Keeps l.Attempts compute) (hknown : view.known (w.memo l.number) = none)
    {failure : Failure} (h : l.remembered view compute w = .error failure w') :
    l.Attempts w w' := by
  rw [remembered_of_unknown hknown] at h
  cases hrun : compute w with
  | error e w₁ =>
    rw [bind_of_error hrun] at h
    cases h
    exact hcompute.of_error hrun
  | ok a w₁ =>
    rw [bind_of_ok hrun] at h
    cases h

/-- **A first call that fails** leaves an attempt behind. -/
theorem attempts_of_failed (hfresh : w.memo l.number = default) {c : Call} {failure : Failure}
    (h : l.call c w = .error failure w') : l.Attempts w w' := by
  have hunknown : ∀ {α : Type} {view : View α} {compute : Action α},
      view.known default = none → Keeps l.Attempts compute →
        l.remembered view compute w = .error failure w' → l.Attempts w w' := by
    intro α view compute hview hcompute hrun
    rw [← hfresh] at hview
    exact attempts_of_remembered hcompute hview hrun
  cases c with
  | data => exact hunknown rfl (attempts_readData hl) (error_of_map h)
  | config => exact hunknown rfl ((paired_attempts hl).loadCurrent hl) (error_of_map h)
  | early => exact hunknown rfl ((paired_attempts hl).load hl .null) (error_of_map h)
  | databases => exact hunknown rfl (paired_attempts hl).readDatabases (error_of_map h)

end SelfContained

/-! ## The next call -/

/-- A new loader with the same arguments is the same under a new number. -/
theorem of_create (h : create l.paths l.rules l.environment l.password l.version
      l.databaseEnvironments l.context w = .ok l' w') :
    l' = l.renumbered w.memos.size ∧ w' = { w with memos := w.memos.push default } := by
  unfold create at h
  cases hpaths : l.paths with
  | nil =>
    rw [hpaths] at h
    cases h
  | cons path rest =>
    rw [hpaths] at h
    cases h
    rw [← hpaths]
    exact ⟨rfl, rfl⟩

/-- The loader and a new one that is handed what it remembers. -/
theorem twins_handed (hmade : l.number < w.memos.size) :
    Twins l (l.renumbered w.memos.size) w
      (World.handed { w with memos := w.memos.push default } w.memos.size (w.memo l.number)) := by
  have hsize : w.memos.size < (w.memos.push default).size := by simp
  have hmemo : (World.handed { w with memos := w.memos.push default } w.memos.size
      (w.memo l.number)).memo w.memos.size = w.memo l.number :=
    World.memo_modify { w with memos := w.memos.push default } _ (fun _ ↦ w.memo l.number) hsize
  refine ⟨⟨rfl, rfl, rfl, rfl, rfl⟩, hmade, ?_, ?_, ?_⟩
  · exact Nat.lt_of_lt_of_eq hsize Array.size_modify.symm
  · rw [sought, sought, renumbered, hmemo]
    rfl
  · rw [renumbered, hmemo]

/-- The loader and any new one, if it remembers nothing but a path that is found again. -/
theorem twins_new (hmade : l.number < w.memos.size) (hmemo : (w.memo l.number).pathless = default)
    (hsought : l.sought w = l.paths.find? w.files.exists?) :
    Twins l (l.renumbered w.memos.size) w { w with memos := w.memos.push default } := by
  refine ⟨⟨rfl, rfl, rfl, rfl, rfl⟩, hmade, ?_, ?_, ?_⟩
  · simp [renumbered]
  · rw [hsought, sought, renumbered, w.memo_push]
    rfl
  · rw [hmemo, renumbered, w.memo_push]
    rfl

/-- Whether a second call goes through after a first one has failed and the files have changed: on
the same loader, and on a new one. -/
def retried (l : Loader) (c : Call) (w : World) (files : FileSystem) : Option (Bool × Bool) :=
  match l.call c w with
  | .ok _ _ => none
  | .error _ w₁ =>
    let w₂ := w₁.changed files w₁.environment
    match create l.paths l.rules l.environment l.password l.version l.databaseEnvironments
      l.context w₂ with
    | .ok l' w₃ => some (succeeds (l.call c) w₂, succeeds (l'.call c) w₃)
    | .error _ _ => none

/-- A loader with a second file to look for. -/
def fallbackLoader : Loader :=
  { Katello.sampleLoader with paths := ["katello.yml", "fallback.yml"] }

end Loader

end LayeredConfig
