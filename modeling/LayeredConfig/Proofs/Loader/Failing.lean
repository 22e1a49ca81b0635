import LayeredConfig.Proofs.Loader.Parsing
import LayeredConfig.Proofs.Loader.Visiting

/-!
# Failures on the way to a configuration

Finding the file, making a tree of its document, revealing passwords, merging, deriving and
validating raise errors of the configuration with a wording of their own, and nothing else, as long
as the collaborators do not. So a property of failures that all such errors have holds of whatever a
loader fails with, if it holds of the failures of the collaborators and of what comes from between
the bytes and the document (`OnlyFails`).
-/

namespace LayeredConfig

/-! ## Errors with a wording of their own -/

namespace ConfigurationError

/-- The wording is that of the kind of the error; whoever raised it has not worded it. -/
def Fixed : ConfigurationError → Prop
  | .general _ => False
  | .invalidStructure (.stated _) => False
  | .secretDecryption (.stated _) => False
  | _ => True

private theorem append_ne_empty {s : String} (h : s ≠ "") (t : String) : s ++ t ≠ "" := by
  simp [h]

private theorem ne_empty_append {t : String} (h : t ≠ "") (s : String) : s ++ t ≠ "" := by
  simp [h]

/-- Each kind of error says something, whatever it is about. -/
theorem Fixed.message_ne_empty {e : ConfigurationError} (h : e.Fixed)
    (names : DeferredId → String) : e.message names ≠ "" := by
  cases e with
  | general arguments => exact h.elim
  | notFound key => exact ne_empty_append (by decide) _
  | invalidKeyType key => exact ne_empty_append (by decide) _
  | invalidStructure fault =>
    cases fault with
    | notMapping found => exact ne_empty_append (by decide) _
    | keyNotText key => exact ne_empty_append (by decide) _
    | invalidMarkup path => exact ne_empty_append (by decide) _
    | invalidTemplate path => exact ne_empty_append (by decide) _
    | databaseNotMapping place found =>
      exact append_ne_empty (append_ne_empty (append_ne_empty (by decide) _) _) _
    | stated arguments => exact h.elim
  | validationFailure keyPath environment problem =>
    exact append_ne_empty (ne_empty_append (by decide) _) _
  | sourceNotFound candidates => exact append_ne_empty (by decide) _
  | secretDecryption fault =>
    cases fault with
    | keyLength bytes => exact append_ne_empty (by decide) _
    | stated arguments => exact h.elim
    | _ => exact ne_of_beq_false rfl
  | readOnlyNode key =>
    have hnamed : "configuration is read-only, cannot set '" ++ key.display names ++ "'" ≠ "" :=
      ne_empty_append (by decide) _
    cases key with
    | scalar s =>
      cases s with
      | null => exact ne_of_beq_false rfl
      | _ => exact hnamed
    | _ => exact hnamed

end ConfigurationError

theorem Tree.fixed_of_sections {data : Tree} {fields : Entries Blueprint} {keys : List String}
    {e : ConfigurationError} (h : data.sections fields keys = .error e) : e.Fixed := by
  induction keys generalizing fields with
  | nil => cases h
  | cons key rest ih =>
    rw [sections] at h
    cases hsection : data.section? key with
    | error e' =>
      rw [hsection] at h
      cases h
      unfold section? at hsection
      split at hsection
      · cases hsection
        trivial
      · cases hsection
      · split at hsection
        · cases hsection
        · cases hsection
          trivial
    | ok incoming =>
      rw [hsection] at h
      exact ih h

namespace Forest

variable {f g : Forest} {n : NodeId} {key : String} {v : Value} {e : ConfigurationError}

theorem Sound.fixed_of_create (hf : f.Sound) (h : create v f = .error e g) : e.Fixed := by
  cases hb : (f.view v).nodeBlueprint with
  | error fault =>
    rw [create, get_bind, hb] at h
    cases h
    rcases Tree.fault_of_nodeBlueprint hb with ⟨key, rfl⟩ | ⟨found, rfl⟩ <;> trivial
  | ok plan =>
    obtain ⟨_, _, hok, _⟩ := create_of_nodeBlueprint hb hf
    cases hok.symm.trans h

theorem fixed_of_assign (h : assign n key v f = .error e g) : e.Fixed := by
  cases hn : f.frozen n with
  | true =>
    rw [assign_of_frozen hn] at h
    cases h
    trivial
  | false =>
    rw [assign_of_writable hn, write] at h
    obtain hconvert | ⟨_, _, _, hstore⟩ := bind_eq_error.mp h
    · rw [convert, get_bind] at hconvert
      cases hb : (f.view v).blueprint with
      | error fault =>
        rw [hb] at hconvert
        cases hconvert
        obtain ⟨key, rfl⟩ := Tree.keyNotText_of_blueprint hb
        trivial
      | ok plan =>
        rw [hb] at hconvert
        cases hconvert
    · cases hstore

end Forest

/-! ## What an outcome may fail with -/

/-- Whatever the outcome fails with, if it does, has the property. -/
def OnlyFails {σ α : Type} (P : Failure → Prop) (r : EStateM.Result Failure σ α) : Prop :=
  ∀ f t, r = .error f t → P f

namespace OnlyFails

variable {σ α β : Type} {P : Failure → Prop} {x : EStateM Failure σ α} {k : α → EStateM Failure σ β}
  {s t : σ} {a : α} {f : Failure}

theorem error_iff : OnlyFails P (.error f t : EStateM.Result Failure σ α) ↔ P f :=
  ⟨fun h ↦ h f t rfl, fun h _ _ heq ↦ (EStateM.Result.error.inj heq).1 ▸ h⟩

theorem of_ok (h : x s = .ok a t) : OnlyFails P (x s) := by
  intro f u hf
  rw [h] at hf
  cases hf

theorem of_error (h : x s = .error f t) (hf : P f) : OnlyFails P (x s) := by
  rw [h, error_iff]
  exact hf

/-- A sequence fails with what its first part fails with, or its second part after it. -/
theorem bind_iff : OnlyFails P ((x >>= k) s) ↔
    OnlyFails P (x s) ∧ ∀ a t, x s = .ok a t → OnlyFails P (k a t) := by
  cases h : x s with
  | ok a t =>
    rw [bind_of_ok h]
    constructor
    · intro hk
      refine ⟨h ▸ of_ok h, fun b u heq ↦ ?_⟩
      cases heq
      exact hk
    · exact fun hk ↦ hk.2 a t rfl
  | error f t =>
    rw [bind_of_error h]
    exact ⟨fun hf ↦ ⟨error_iff.mpr (error_iff.mp hf), fun _ _ heq ↦ by cases heq⟩,
      fun hf ↦ error_iff.mpr (error_iff.mp hf.1)⟩

theorem bind (hx : OnlyFails P (x s)) (hk : ∀ a t, x s = .ok a t → OnlyFails P (k a t)) :
    OnlyFails P ((x >>= k) s) := bind_iff.mpr ⟨hx, hk⟩

theorem after (hx : x s = .ok a t) (hk : OnlyFails P (k a t)) : OnlyFails P ((x >>= k) s) := by
  rwa [bind_of_ok hx]

theorem map_iff {g : α → β} : OnlyFails P ((g <$> x) s) ↔ OnlyFails P (x s) := by
  rw [map_eq_pure_bind, bind_iff]
  exact and_iff_left fun _ _ _ ↦ of_ok rfl

theorem onMemory_iff {y : Eval α} {w : World} :
    OnlyFails P (onMemory y w) ↔ OnlyFails P (y w.memory) := by
  cases h : y w.memory with
  | ok a m => exact iff_of_true (of_ok (onMemory_of_ok h)) (h ▸ of_ok h)
  | error f m => rw [onMemory_of_error h, error_iff, error_iff]

end OnlyFails

/-! ## Reading a file -/

/-- The property holds of the errors that have a wording of their own. -/
def CoversFixed (P : Failure → Prop) : Prop :=
  ∀ e : ConfigurationError, e.Fixed → P (.configuration e)

namespace Loader

open Memory (Beyond)

variable {P : Failure → Prop} {l : Loader} {w w₁ : World} {m₀ : Memory} {n data : NodeId}
  {path : String} (hP : CoversFixed P)

include hP

theorem onlyFails_set (n : NodeId) (key : String) (v : Value) (w : World) :
    OnlyFails P (onMemory (Node.set n (.text key) v) w) := by
  refine OnlyFails.onMemory_iff.mpr fun f m h ↦ ?_
  obtain ⟨e, g, herror, rfl, _⟩ := onForest_eq_error (x := Forest.assign n key v) h
  exact hP e (Forest.fixed_of_assign herror)

theorem onlyFails_create (hw : w.memory.forest.Sound) (v : Value) :
    OnlyFails P (onMemory (Node.create v) w) := by
  refine OnlyFails.onMemory_iff.mpr fun f m h ↦ ?_
  obtain ⟨e, g, herror, rfl, _⟩ := onForest_eq_error (x := Forest.create v) h
  exact hP e (hw.fixed_of_create herror)

/-- The only way not to find a file is that there is none. -/
theorem onlyFails_path (l : Loader) (w : World) : OnlyFails P (l.path w) := by
  cases hknown : (w.memo l.number).path with
  | some p => exact .of_ok (remembered_of_known hknown)
  | none =>
    rw [Loader.path, remembered_of_unknown hknown, discover, bind_assoc, get_bind]
    cases l.paths.find? w.files.exists? with
    | none => exact .of_error rfl (hP _ trivial)
    | some p => exact .of_ok rfl

section Reading

variable (hreveals : l.Reveals) (hpassword : ∀ v w, OnlyFails P (l.password v w))

include hpassword

theorem onlyFails_revealPassword {title : String} {content : Value} (h : Drafted m₀ w.memory n)
    (hcontent : w.memory.forest.find? n title = some content) :
    OnlyFails P (l.revealPassword title content w) := by
  rw [revealPassword_eq fun a ha ↦ h.parsed.child (ha ▸ hcontent)]
  cases w.memory.secret? title content with
  | none => exact .of_ok rfl
  | some s =>
    refine .bind (hpassword s.stored w) fun p w₂ _ ↦ ?_
    exact .bind (onlyFails_set hP s.holder "password" p w₂) fun _ _ _ ↦ .of_ok rfl

include hreveals

theorem onlyFails_revealPasswords {sections : Entries Value} (h : Drafted m₀ w.memory n)
    (hsections : ∀ e ∈ sections, w.memory.forest.find? n e.1 = some e.2) :
    OnlyFails P ((sections.forM fun e ↦ l.revealPassword e.1 e.2 : Action Unit) w) := by
  induction sections generalizing w with
  | nil => exact .of_ok rfl
  | cons e rest ih =>
    obtain ⟨hfirst, hrest⟩ := List.forall_mem_cons.mp hsections
    refine .bind (onlyFails_revealPassword hP hpassword h hfirst) fun _ w₂ hreveal ↦ ?_
    obtain ⟨hentries, h₂⟩ := drafted_revealPassword hreveals h hfirst hreveal
    refine ih h₂ fun e he ↦ ?_
    rw [Forest.find?, hentries, ← Forest.find?]
    exact hrest e he

/-- **Reading a file** fails in another way only if its document cannot be had. -/
theorem onlyFails_readFrom_iff (hw : w.memory.forest.Sound)
    (hfiles : ∀ v, w.files.find? path = some (.document v) → v.Plain) :
    OnlyFails P (l.readFrom path w) ↔ OnlyFails P (l.readDocument path w) := by
  rw [readFrom, OnlyFails.bind_iff]
  refine and_iff_left fun v w₂ hread ↦ ?_
  have hsound := (((composite_discreet.readDocument path).keeps.of_ok hread).follows hw).sound
  have hplain := plain_readDocument hfiles hread
  refine .bind (onlyFails_create hP hsound v) fun c w₃ hmade ↦ ?_
  have hdrafted : Drafted w₂.memory w₃.memory c := by
    obtain ⟨m, hrun, rfl⟩ := onMemory_eq_ok (x := Node.create v) hmade
    exact drafted_create hsound hplain hrun
  refine .after (onMemory_of_ok hdrafted.parsed.items) (.bind ?_ fun _ _ _ ↦ .of_ok rfl)
  refine onlyFails_revealPasswords hP hreveals hpassword hdrafted fun e he ↦ ?_
  exact Entries.find?_of_mem (hdrafted.parsed.sound.distinct c) he

/-- Asking for the contents of the file fails in another way only if the file is still to be read
and its document cannot be had. -/
theorem onlyFails_data_iff (hw : l.Readable w) : OnlyFails P (l.data w) ↔
    ((w.memo l.number).data = none →
      ∀ path w', l.path w = .ok path w' → OnlyFails P (l.readDocument path w')) := by
  cases hknown : (w.memo l.number).data with
  | some d => exact iff_of_true (.of_ok (remembered_of_known hknown)) fun hnone ↦ by cases hnone
  | none =>
    rw [Loader.data, remembered_of_unknown hknown, OnlyFails.bind_iff, readData, OnlyFails.bind_iff,
      and_iff_left fun _ _ _ ↦ .of_ok rfl, and_iff_right (onlyFails_path hP l w)]
    refine ⟨fun h _ p w' hp ↦ ?_, fun h p w' hp ↦ ?_⟩
    · obtain ⟨hsound, hplain⟩ := hw.of_path hp
      exact (onlyFails_readFrom_iff hP hreveals hpassword hsound hplain).mp (h p w' hp)
    · obtain ⟨hsound, hplain⟩ := hw.of_path hp
      exact (onlyFails_readFrom_iff hP hreveals hpassword hsound hplain).mpr (h rfl p w' hp)

end Reading

/-! ## Building a configuration -/

theorem onlyFails_giveOut (environment : Value) (w : World) :
    OnlyFails P (l.giveOut environment n w) := by
  refine .bind (.of_ok rfl) fun _ _ _ ↦ .bind (.of_ok rfl) fun _ _ _ ↦ ?_
  exact .bind (onlyFails_path hP l _) fun _ _ _ ↦ .of_ok rfl

/-- A configuration is built of the contents of the file, or it is refused. -/
theorem onlyFails_loadFrom (hinforms : l.Informs)
    (hversion : ∀ package w, OnlyFails P (l.version (.text package) w)) (hp : w.memory.Parsed data)
    (hrules : ∀ rule ∈ l.rules, rule.OverTexts w.memory.Known) (environment : Option String) :
    OnlyFails P (l.loadFrom (environmentValue environment) data w) := by
  rw [loadFrom]
  cases hsections : (w.memory.view (.node data)).sections [] (sectionNames environment) with
  | error e =>
    obtain ⟨m, herror, _⟩ := mergeSections_of_error environment hp hsections
    exact .of_error (bind_of_error (onMemory_of_error herror))
      (hP e (Tree.fixed_of_sections hsections))
  | ok merged =>
    obtain ⟨n, m, hmerged, hdraft⟩ := mergeSections_of_ok environment hp hsections
    obtain ⟨m₁, h₁, hderive⟩ := derive_eq (l := l) hdraft
      (Tree.settled_sections hp.settled (fun e he ↦ absurd he List.not_mem_nil) hsections)
    refine .after (onMemory_of_ok hmerged) (.bind ?_ fun _ w₃ hfilled ↦ ?_)
    · rw [hderive]
      exact .bind (hversion _ _) fun v w₂ _ ↦ onlyFails_set hP n "katello_version" v w₂
    rw [hderive] at hfilled
    obtain ⟨v, w', _, hreads⟩ := of_deriveVersion hinforms h₁ hfilled
    refine .bind ?_ fun _ w₄ _ ↦ onlyFails_giveOut hP _ w₄
    -- what the rules find is an error of the configuration, and they end in no other way
    have hfinds := (describes_inspection hp.sound hreads environment).finds_checkRules hrules
    cases hviolation : firstViolation? (inspection w.memory environment _) l.rules with
    | none =>
      rw [hviolation] at hfinds
      obtain ⟨_, hvalid, _⟩ := validate_of_none hfinds
      exact .of_ok hvalid
    | some violation =>
      rw [hviolation] at hfinds
      obtain ⟨_, _, herror, _⟩ := validate_of_some hfinds
      exact .of_error herror (hP _ trivial)

end Loader

end LayeredConfig
