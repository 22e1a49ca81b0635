import LayeredConfig.Proofs.Loader.Snapshot
import LayeredConfig.Proofs.Server.Answering

/-!
# The stages of a server's loader

The loader of a server has not read its file yet, or it has read it but gives no configuration so
far, or it gives a configuration that it keeps (`Loader.Stage`). Asking for the configuration takes
it from one stage to the same or a later one, whatever it comes to (`Loader.Stage.outcome`), and so
does all that only writes the log. Files and the process environment may change in between.
-/

namespace LayeredConfig

open World (Elsewhere Still)

/-- The documents that are known to stand in files are plain. -/
def FileSystem.Plain (fs : FileSystem) : Prop :=
  ∀ place v, (place, .document v) ∈ fs.files → v.Plain

theorem World.Still.elsewhere {w w' : World} (h : Still w w') (number : ℕ) :
    Elsewhere number w w' where
  follows _ := h.beyond.grown.later h.beyond.sound
  size_le := Nat.le_of_eq (congrArg Array.size h.memos_eq).symm
  memo_eq := by rw [h.memo_eq]

namespace Loader

variable {l : Loader} {d : Deployment} {environment : Option String} {w w' w'' w₁ : World}
  {c data : NodeId} {t : Tree}

/-! ## Stages -/

/-- How far the loader of a server has come. -/
inductive Stage (l : Loader) (w : World) : Prop
  | unread (h : l.Unread w)
  /-- The tree of the file stands, and nothing else is known. -/
  | read {data : NodeId} {t : Tree} (h : l.HasRead [] data t w) (settled : t.content.Settled)
  /-- A configuration is given out, and the status can be read in it. -/
  | loaded {c : NodeId} {version mode : String} (sound : w.memory.forest.Sound)
      (known : (w.memo l.number).config = some c) (introduces : w.memory.Introduces c version mode)

theorem HasRead.config_eq (h : l.HasRead [] data t w) : (w.memo l.number).config = none := by
  cases hknown : (w.memo l.number).config with
  | none => rfl
  | some c =>
    obtain ⟨x, hx, _⟩ := h.stems .config (.tree c) (by decide) (congrArg (Option.map _) hknown)
    cases hx

namespace Stage

theorem sound (h : l.Stage w) : w.memory.forest.Sound := by
  cases h with
  | unread h => exact h.sound
  | read h _ => exact h.sound
  | loaded sound _ _ => exact sound

/-- What the status needs can be read in a configuration that is known. -/
theorem introduces (h : l.Stage w) (hc : (w.memo l.number).config = some c) :
    ∃ version mode, w.memory.Introduces c version mode := by
  cases h with
  | unread h =>
    rw [Option.map_eq_none_iff.mp (h.recalled_eq .config)] at hc
    cases hc
  | read h _ =>
    rw [h.config_eq] at hc
    cases hc
  | @loaded _ version mode _ known introduces =>
    obtain rfl := Option.some.inj (known.symm.trans hc)
    exact ⟨version, mode, introduces⟩

theorem still (h : l.Stage w) (hw : Still w w') : l.Stage w' := by
  cases h with
  | unread h => exact .unread (h.elsewhere (hw.elsewhere _))
  | read h settled => exact .read (h.elsewhere (hw.elsewhere _)) settled
  | loaded _ known introduces =>
    exact .loaded hw.beyond.sound ((congrArg Memo.config (hw.memo_eq _)).trans known)
      (introduces.beyond hw.beyond)

/-- Files and the process environment make no difference. -/
theorem changed (h : l.Stage w) (files : FileSystem) (environment : Entries String) :
    l.Stage (w.changed files environment) := by
  cases h with
  | unread h => exact .unread (h.elsewhere (World.elsewhere_changed _ _ _ _))
  | read h settled => exact .read (h.elsewhere (World.elsewhere_changed _ _ _ _)) settled
  | loaded sound known introduces => exact .loaded sound known introduces

end Stage

/-- The loader has come to the same or a later stage, and what it gives out it still gives out. -/
structure Advance (l : Loader) (w w' : World) : Prop where
  files_eq : w'.files = w.files
  stage : l.Stage w'
  known : ∀ c, (w.memo l.number).config = some c → (w'.memo l.number).config = some c

theorem Advance.refl (h : l.Stage w) : l.Advance w w := ⟨rfl, h, fun _ hc ↦ hc⟩

/-- Where nothing has been given out there is nothing to keep. -/
theorem Advance.of_unknown (hunknown : (w.memo l.number).config = none)
    (hfiles : w'.files = w.files) (h : l.Stage w') : l.Advance w w' :=
  ⟨hfiles, h, fun c hc ↦ by
    rw [hunknown] at hc
    cases hc⟩

theorem Advance.still (h : l.Advance w w') (hw : Still w' w'') : l.Advance w w'' where
  files_eq := hw.files_eq.trans h.files_eq
  stage := h.stage.still hw
  known c hc := (congrArg Memo.config (hw.memo_eq _)).trans (h.known c hc)

/-- An advance, if the loader has come to some stage. -/
def Advances (l : Loader) (w w' : World) : Prop := w.files.Plain → l.Stage w → l.Advance w w'

instance : IsPreorder World l.Advances where
  refl _ _ h := .refl h
  trans w w₁ w₂ h h' hplain hw := by
    obtain ⟨hfiles, hstage, hknown⟩ := h hplain hw
    obtain ⟨hfiles', hstage', hknown'⟩ := h' (hfiles ▸ hplain) hstage
    exact ⟨hfiles'.trans hfiles, hstage', fun c hc ↦ hknown' c (hknown c hc)⟩

theorem advances_record (level : LogLevel) (event : String) (details : Entries Value) :
    Keeps l.Advances (record level event details) :=
  .modify fun _ _ h ↦ (Advance.refl h).still ((Still.refl h.sound).logged _)

/-! ## Asking for the configuration -/

/-- What asking for the configuration comes to: a configuration, which is known from then on, or a
failure that says something if it is an error of the configuration. -/
inductive Outcome (l : Loader) (w : World) : Prop
  | given {c : NodeId} {w' : World} (config : l.config w = .ok c w') (advance : l.Advance w w')
      (known : (w'.memo l.number).config = some c)
  | failed {f : Failure} {w' : World} (config : l.config w = .error f w')
      (advance : l.Advance w w') (worded : f.Worded)

section Serves

variable (hl : l.Serves d) (henvironment : d.environment = environmentValue environment)

include hl henvironment

/-- Once the tree of the file is there, a configuration is built of it or refused. -/
theorem outcome_of_data (hready : d.ready = true) (hw : w.memory.forest.Sound)
    (hmade : l.number < w.memos.size) (hunknown : (w.memo l.number).config = none)
    (hdata : l.data w = .ok data w₁) (h₁ : l.HasRead [] data t w₁)
    (hsettled : t.content.Settled) : l.Outcome w := by
  have hself := hl.selfContained
  have hparsed : w₁.memory.Parsed data := ⟨h₁.sound, h₁.mem, h₁.view_eq ▸ hsettled⟩
  have hasked := hl.currentEnvironment_of_ready hready w
  rw [henvironment] at hasked
  have hload : l.load (environmentValue environment) w
      = l.loadFrom (environmentValue environment) data w₁ := by
    rw [load_eq, bind_of_ok hdata]
  have hattempts := (paired_attempts hself).load hself (environmentValue environment)
  have helsewhere := elsewhere_loadFrom hself.uncalled (environmentValue environment) data
  have hconfig : l.config w = _ := remembered_of_unknown hunknown
  rw [bind_assoc, bind_of_ok hasked] at hconfig
  cases hrun : l.loadFrom (environmentValue environment) data w₁ with
  | error f w₂ =>
    rw [hrun] at hload
    refine .failed (hconfig.trans (bind_of_error hload)) (.of_unknown hunknown ?_ ?_)
      (hl.worded_loadFrom hparsed environment f w₂ hrun)
    · exact (hattempts.of_error hload hw hmade).files_eq
    · exact .read (h₁.elsewhere (helsewhere.of_error hrun)) hsettled
  | ok n w₂ =>
    rw [hrun] at hload
    obtain ⟨merged, version, _, _, hviolation, hbeyond, _, hshows⟩ :=
      of_load hl.telling hdata hparsed hload
    rw [hl.rules_eq] at hviolation
    have hpassed := Katello.passed_of_firstViolation? (fun _ ↦ rfl)
      (hviolation (Katello.overTexts_rules w₁.memory))
    obtain ⟨mode, hintroduces⟩ := Katello.introduces_of_passed hshows hpassed
    have hmemo := congrArg Memo.config (w₂.memo_modify l.number (View.config.keep n)
      (Nat.lt_of_lt_of_le h₁.made (helsewhere.of_ok hrun).size_le))
    refine .given (hconfig.trans (bind_of_ok hload)) (.of_unknown hunknown ?_ ?_) hmemo
    · exact (hattempts.of_ok hload hw hmade).files_eq
    · exact .loaded hbeyond.sound hmemo hintroduces

/-- **What asking for the configuration comes to**, at each stage. -/
theorem Stage.outcome (hplain : w.files.Plain) (h : l.Stage w) : l.Outcome w := by
  cases hknown : (w.memo l.number).config with
  | some c => exact .given (remembered_of_known hknown) (.refl h) hknown
  | none =>
    have hself := hl.selfContained
    have hconfig : l.config w = _ := remembered_of_unknown hknown
    rw [bind_assoc] at hconfig
    cases hready : d.ready with
    | false =>
      obtain ⟨f, hasked⟩ : ∃ f, l.currentEnvironment w = .error f w := by
        rw [hl.currentEnvironment_eq, Deployment.currentEnvironment, hready]
        exact ⟨_, rfl⟩
      exact .failed (hconfig.trans (bind_of_error hasked)) (.refl h)
        (hl.worded_currentEnvironment w _ _ hasked)
    | true =>
      cases h with
      | loaded _ known _ =>
        rw [hknown] at known
        cases known
      | read h settled =>
        exact outcome_of_data hl henvironment hready h.sound h.made hknown h.data h settled
      | unread h =>
        have hreadable : l.Readable w := ⟨h.sound, hplain, fun data hdata ↦ by
          rw [h.data_eq] at hdata
          cases hdata⟩
        rcases h.data hself.uncalled with ⟨f, w₁, hdata, h₁⟩ | ⟨data, w₁, hdata, h₁⟩
        · rw [bind_of_ok (hl.currentEnvironment_of_ready hready w), load_eq, bind_assoc,
            bind_of_error hdata] at hconfig
          have hfiles := ((attempts_data hself).of_error hdata h.sound h.made).files_eq
          exact .failed hconfig (.of_unknown hknown hfiles (.unread h₁))
            (hl.worded_data hreadable f w₁ hdata)
        · have hparsed := parsed_of_data hl.reveals hreadable hdata
          exact outcome_of_data hl henvironment hready h.sound h.made hknown hdata h₁
            hparsed.settled

theorem advances_config : Keeps l.Advances l.config := by
  intro w hplain h
  cases h.outcome hl henvironment hplain with
  | given config advance _ =>
    rw [after_of_ok config]
    exact advance
  | failed config advance _ =>
    rw [after_of_error config]
    exact advance

end Serves

end Loader

/-! ## The start -/

/-- A server that has started has a loader at some stage, whether or not the configuration was to be
loaded right away and whether or not it could be. -/
theorem Deployment.stage_of_startUp {d : Deployment} {environment : Option String}
    (henvironment : d.environment = environmentValue environment) {u w₀ : World}
    (hu : u.memory.forest.Sound) (hfiles : u.files.Plain) {l : Loader} {failure : Option Failure}
    (hstart : d.startUp u = .ok (l, failure) w₀) : l.Serves d ∧ l.Stage w₀ := by
  obtain ⟨l', u₀, hbuild, hstart⟩ := bind_eq_ok.mp hstart
  obtain ⟨⟨cipher, rfl⟩, rfl⟩ := eq_of_buildLoader hbuild
  have hserves : (d.loader d.configPaths cipher u.memos.size).Serves d := ⟨_, _, _, rfl⟩
  have hnew : (d.loader d.configPaths cipher u.memos.size).Stage
      { u with memos := u.memos.push default } := by
    refine .unread ⟨hu, ?_, congrArg Memo.pathless u.memo_push⟩
    change u.memos.size < (u.memos.push default).size
    simp
  split at hstart
  · cases hstart
    exact ⟨hserves, hnew⟩
  cases Loader.Stage.outcome hserves henvironment (by exact hfiles) hnew with
  | given config advance _ =>
    cases hstart.symm.trans (tryCatch_of_ok (bind_of_ok (discard_of_ok config)))
    exact ⟨hserves, advance.stage⟩
  | failed config advance _ =>
    cases hstart.symm.trans (tryCatch_of_error (bind_of_error (discard_of_error config)))
    exact ⟨hserves, advance.stage⟩

end LayeredConfig
