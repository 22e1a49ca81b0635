import LayeredConfig.Proofs.Loader.Functional
import LayeredConfig.Proofs.Loader.Promises
import LayeredConfig.Proofs.Loader.Rebuilding

/-!
# The order of calls makes no difference

In a world that does not change, what a call gives depends on what is asked for and not on the calls
before it, be they many or none, and whether they succeeded or failed. The main theorem compares two
runs of the same loader that start from the same world; each is compared with the call on the loader
as it was at the start.

The invariant is `Loader.Truthful`: whatever the loader remembers is what a call at the start would
give. A call that remembers its result keeps it, since its result is compared with the same call at
the start first.
-/

namespace LayeredConfig

open Memory (Beyond Counterparts)
open World (Steady Still)

namespace Loader

/-- The loader has just been made, among files with plain documents, and its rules mention only what
is there. -/
structure Fresh (l : Loader) (w : World) : Prop where
  sound : w.memory.forest.Sound
  made : l.number < w.memos.size
  blank : w.memo l.number = default
  plain : ∀ place v, (place, .document v) ∈ w.files.files → v.Plain
  rules : ∀ rule ∈ l.rules, rule.Knows w.memory.Known

/-- A server that is deployed among such files begins with a fresh loader. -/
theorem fresh_of_buildLoader {d : Deployment} {paths : List String} {key : Value} {l : Loader}
    {w w' : World} (h : d.buildLoader paths key w = .ok l w') (hw : w.memory.forest.Sound)
    (hplain : ∀ place v, (place, .document v) ∈ w.files.files → v.Plain) : l.Fresh w' := by
  rw [Deployment.buildLoader, get_bind] at h
  obtain ⟨c, u, hcipher, hcreate⟩ := bind_eq_ok.mp h
  obtain rfl := (of_ofOutcome hcipher).2
  cases paths with
  | nil => cases hcreate
  | cons path rest =>
    cases hcreate
    exact
      { sound := hw
        made := Nat.lt_of_lt_of_eq (Nat.lt_succ_self _) (Array.size_push _).symm
        blank := u.memo_push
        plain := hplain
        rules := fun rule hrule ↦ (Katello.overTexts_rules _ rule hrule).knows }

/-- Two answers in two memories come to the same: they are the same path, the same settings, or
frozen trees that are written out alike. -/
inductive Answer.Matches (m m' : Memory) : Answer → Answer → Prop
  | path (p : String) : Matches m m' (.path p) (.path p)
  | tree {n n' : NodeId} {v : Value} (h : m.Exports n v) (h' : m'.Exports n' v) :
      Matches m m' (.product (.tree n)) (.product (.tree n'))
  | settings (all : DatabaseSettings) :
      Matches m m' (.product (.settings all)) (.product (.settings all))

namespace Answer.Matches

variable {m m' m'' t : Memory} {a a' a'' : Answer}

theorem symm (h : Matches m m' a a') : Matches m' m a' a := by
  cases h with
  | path p => exact .path p
  | tree h h' => exact .tree h' h
  | settings all => exact .settings all

theorem trans (h : Matches m m' a a') (h' : Matches m' m'' a' a'') : Matches m m'' a a'' := by
  cases h with
  | path p => cases h' with | path => exact .path p
  | tree hv hv' =>
    cases h' with
    | tree hu hu' =>
      rw [hu.unique hv'] at hu'
      exact .tree hv hu'
  | settings all => cases h' with | settings => exact .settings all

theorem later (h : Matches m m' a a') (ht : Beyond m t) : Matches t m' a a' := by
  cases h with
  | path p => exact .path p
  | tree h h' => exact .tree (h.later ht) h'
  | settings all => exact .settings all

end Answer.Matches

theorem matches_of_counterparts {m m' : Memory} {d d' : NodeId} (h : Counterparts m d m' d') :
    Answer.Matches m m' (.product (.tree d)) (.product (.tree d')) := by
  refine .tree (h.parsed.exports h.frozen) ?_
  rw [h.content_eq]
  exact h.parsed'.exports h.frozen'

/-! ## What is remembered -/

/-- What is remembered is what a call in the world `w₀` gives. -/
structure Truthful (l : Loader) (w₀ : World) (m : Memory) (memo : Memo) : Prop where
  path : ∀ p, memo.path = some p → l.paths.find? w₀.files.exists? = some p
  data : ∀ d, memo.data = some d → memo.path.isSome = true ∧
    ∃ d₀ t₀, l.data w₀ = .ok d₀ t₀ ∧ Counterparts m d t₀.memory d₀
  views : ∀ c p, c ≠ .data → recalled memo c = some p →
    ∃ a t₀, l.ask (.view c) w₀ = .ok a t₀ ∧ Answer.Matches m t₀.memory (.product p) a

/-- The world is as it was but for more nodes, and the loader remembers what a call at that time
gives. -/
structure Faithful (l : Loader) (w₀ w : World) : Prop where
  steady : Steady w₀ w
  made : l.number < w.memos.size
  truthful : l.Truthful w₀ w.memory (w.memo l.number)

/-- What has happened between the two worlds is no more than what a call does. -/
structure Onward (l : Loader) (w₀ w w' : World) : Prop where
  steady : Steady w w'
  faithful : l.Faithful w₀ w → l.Faithful w₀ w'

instance (l : Loader) (w₀ : World) : IsTrans World (Onward l w₀) where
  trans _ _ _ h h' := ⟨IsTrans.trans _ _ _ h.steady h'.steady, h'.faithful ∘ h.faithful⟩

variable {l : Loader} {w₀ w w' t u : World} {m m' : Memory} {memo : Memo}

theorem Truthful.later (h : l.Truthful w₀ m memo) (hmm : Beyond m m') : l.Truthful w₀ m' memo where
  path := h.path
  data d hd := by
    obtain ⟨hpath, d₀, t₀, hdata, hcounterparts⟩ := h.data d hd
    exact ⟨hpath, d₀, t₀, hdata, hcounterparts.later hmm⟩
  views c p hc hp := by
    obtain ⟨a, t₀, hask, hmatches⟩ := h.views c p hc hp
    exact ⟨a, t₀, hask, hmatches.later hmm⟩

theorem Truthful.withPath (h : l.Truthful w₀ m memo) {p : String}
    (hp : l.paths.find? w₀.files.exists? = some p) :
    l.Truthful w₀ m { memo with path := some p } where
  path q hq := by rw [hp, Option.some.inj hq]
  data d hd := ⟨rfl, (h.data d hd).2⟩
  views c q hc hq := h.views c q hc (by cases c <;> exact hq)

theorem Truthful.withData (h : l.Truthful w₀ m memo) {d d₀ : NodeId} {t₀ : World}
    (hpath : memo.path.isSome = true) (hdata : l.data w₀ = .ok d₀ t₀)
    (hd : Counterparts m d t₀.memory d₀) : l.Truthful w₀ m (View.data.keep d memo) where
  path := h.path
  data d' hd' := by
    obtain rfl := Option.some.inj hd'
    exact ⟨hpath, d₀, t₀, hdata, hd⟩
  views c q hc hq := by
    cases c with
    | data => exact absurd rfl hc
    | _ => exact h.views _ q hc hq

theorem onward_of_still (h : Still w w') : Onward l w₀ w w' where
  steady := h.toSteady
  faithful hw := by
    refine ⟨IsTrans.trans _ _ _ hw.steady h.toSteady, ?_, ?_⟩
    · rw [h.memos_eq]
      exact hw.made
    · rw [h.memo_eq]
      exact hw.truthful.later h.beyond

/-- Something true may be noted. -/
theorem Onward.noted (h : Onward l w₀ w t) {note : Memo → Memo}
    (hnote : l.Truthful w₀ t.memory (t.memo l.number) →
      l.Truthful w₀ t.memory (note (t.memo l.number))) :
    Onward l w₀ w { t with memos := t.memos.modify l.number note } where
  steady := ⟨h.steady.beyond, h.steady.files_eq, h.steady.environment_eq, h.steady.host_eq⟩
  faithful hw := by
    have ht := h.faithful hw
    refine ⟨⟨ht.steady.beyond, ht.steady.files_eq, ht.steady.environment_eq, ht.steady.host_eq⟩,
      ?_, ?_⟩
    · rw [Array.size_modify]
      exact ht.made
    · rw [t.memo_modify l.number note ht.made]
      exact hnote ht.truthful

theorem Fresh.faithful (hw₀ : l.Fresh w₀) : l.Faithful w₀ w₀ := by
  refine ⟨.refl hw₀.sound, hw₀.made, ?_⟩
  rw [hw₀.blank]
  refine ⟨fun p hp ↦ (by cases hp), fun d hd ↦ (by cases hd), fun c p _ hp ↦ ?_⟩
  cases c <;> cases hp

/-! ## The path and the contents of the file -/

theorem Faithful.sought_eq (h : l.Faithful w₀ w) :
    l.sought w = l.paths.find? w₀.files.exists? := by
  rw [sought, h.steady.files_eq]
  cases hpath : (w.memo l.number).path with
  | none => rfl
  | some p => rw [Option.some_or, h.truthful.path p hpath]

theorem concur_path (h : l.Faithful w₀ w) (h' : l.Faithful w₀ w') :
    Concur (Onward l w₀) w w' (fun p t p' t' ↦ p = p' ∧
        (t.memo l.number).path = some p ∧ (t'.memo l.number).path = some p') (l.path w)
      (l.path w') := by
  have hfound : ∀ {w : World}, l.Faithful w₀ w → ∀ {p}, l.sought w = some p →
      ∃ t, l.path w = .ok p t ∧ Onward l w₀ w t ∧ (t.memo l.number).path = some p := by
    intro w h p hp
    obtain ⟨t, ht, hscene, hsize, hmemo⟩ := path_of_sought h.made hp
    have hsteady : Steady w t := by
      refine ⟨?_, hscene.files_eq.symm, hscene.environment_eq.symm, hscene.host_eq.symm⟩
      rw [← hscene.memory_eq]
      exact .refl h.steady.sound
    refine ⟨t, ht, ⟨hsteady, fun _ ↦ ⟨IsTrans.trans _ _ _ h.steady hsteady, ?_, ?_⟩⟩, ?_⟩
    · rw [hsize]
      exact h.made
    · rw [hmemo, ← hscene.memory_eq]
      exact h.truthful.withPath (h.sought_eq.symm.trans hp)
    · rw [hmemo]
  have hsame : l.sought w' = l.sought w := h'.sought_eq.trans h.sought_eq.symm
  cases hs : l.sought w with
  | some p =>
    obtain ⟨t, hpath, ht, hp⟩ := hfound h hs
    obtain ⟨t', hpath', ht', hp'⟩ := hfound h' (hsame.trans hs)
    rw [hpath, hpath']
    exact ⟨ht, ht', rfl, hp, hp'⟩
  | none =>
    rw [path_of_not_sought hs, path_of_not_sought (hsame.trans hs)]
    exact ⟨onward_of_still (.refl h.steady.sound), onward_of_still (.refl h'.steady.sound), rfl⟩

/-- Reading the file, whether or not its contents are remembered. -/
theorem concur_readData (hl : l.Functional w₀) (hw₀ : l.Fresh w₀) (h : l.Faithful w₀ w)
    (h' : l.Faithful w₀ w') :
    Concur (Onward l w₀) w w' (fun d t d' t' ↦ Counterparts t.memory d t'.memory d' ∧
        (t.memo l.number).path.isSome = true ∧ (t'.memo l.number).path.isSome = true)
      (l.readData w) (l.readData w') := by
  rw [readData]
  refine (concur_path h h').bind ?_
  rintro path t _ t' ht ht' ⟨rfl, hpath, hpath'⟩
  have hplain : ∀ v, w₀.files.find? path = some (.document v) → v.Plain := by
    intro v hv
    obtain ⟨place, hplace⟩ := FileSystem.mem_of_find? hv
    exact hw₀.plain place v hplace
  have hread := concur_readFrom hl (ht.faithful h).steady (ht'.faithful h').steady hplain
  refine Concur.since ?_ ht ht'
  refine (hread.mono fun d u d' u' hu hu' hd ↦ ⟨hd, ?_, ?_⟩).allow onward_of_still onward_of_still
  · rw [hu.memo_eq, hpath]
    rfl
  · rw [hu'.memo_eq, hpath']
    rfl

/-- The contents of the file, where they are not remembered, as they are at the start. -/
theorem concur_data_of_unknown (hl : l.Functional w₀) (hw₀ : l.Fresh w₀) (h : l.Faithful w₀ w)
    (hunknown : (w.memo l.number).data = none) :
    Concur (Onward l w₀) w w₀ (fun d t d' t' ↦ Counterparts t.memory d t'.memory d' ∧
        (t.memo l.number).path.isSome = true ∧ (t'.memo l.number).path.isSome = true)
      (l.data w) (l.data w₀) := by
  have hunknown₀ : (w₀.memo l.number).data = none := by
    rw [hw₀.blank]
    rfl
  have hdata : l.data w = _ := remembered_of_unknown hunknown
  have hdata₀ : l.data w₀ = _ := remembered_of_unknown hunknown₀
  rcases (concur_readData hl hw₀ h hw₀.faithful).outcome with
    ⟨d, t, d₀, t₀, hr, hr₀, ht, ht₀, hd, hpath, hpath₀⟩ | ⟨e, t, e₀, t₀, hr, hr₀, hfailed⟩
  · rw [bind_of_ok hr] at hdata
    rw [bind_of_ok hr₀] at hdata₀
    rw [hdata, hdata₀]
    have hmade := (ht.faithful h).made
    have hmade₀ := (ht₀.faithful hw₀.faithful).made
    refine ⟨ht.noted fun htrue ↦ htrue.withData hpath hdata₀ hd,
      ht₀.noted fun htrue ↦ htrue.withData hpath₀ hdata₀ (hd.symm.trans hd), hd, ?_, ?_⟩
    · rw [t.memo_modify l.number _ hmade]
      exact hpath
    · rw [t₀.memo_modify l.number _ hmade₀]
      exact hpath₀
  · rw [hdata, hdata₀, bind_of_error hr, bind_of_error hr₀]
    exact hfailed

/-- **The contents of the file** are those at the start. -/
theorem concur_data_start (hl : l.Functional w₀) (hw₀ : l.Fresh w₀) (h : l.Faithful w₀ w) :
    Concur (Onward l w₀) w w₀ (fun d t d' t' ↦ Counterparts t.memory d t'.memory d' ∧
        (t.memo l.number).path.isSome = true ∧ (t'.memo l.number).path.isSome = true)
      (l.data w) (l.data w₀) := by
  cases hknown : (w.memo l.number).data with
  | none => exact concur_data_of_unknown hl hw₀ h hknown
  | some d =>
    -- they are given out as they are, and the call at the start is like any other
    have hblank : (w₀.memo l.number).data = none := by
      rw [hw₀.blank]
      rfl
    obtain ⟨hpath, d₀, t₀, hdata₀, hd⟩ := h.truthful.data d hknown
    have hstart := concur_data_of_unknown hl hw₀ hw₀.faithful hblank
    rw [hdata₀] at hstart
    obtain ⟨ht₀, -, -, hpath₀, -⟩ := hstart
    rw [show l.data w = .ok d w from remembered_of_known hknown, hdata₀]
    exact ⟨onward_of_still (.refl h.steady.sound), ht₀, hd, hpath, hpath₀⟩

/-- The contents of the file are the same at any two times. -/
theorem concur_data (hl : l.Functional w₀) (hw₀ : l.Fresh w₀) (h : l.Faithful w₀ w)
    (h' : l.Faithful w₀ w') :
    Concur (Onward l w₀) w w' (fun d t d' t' ↦ Counterparts t.memory d t'.memory d' ∧
        (t.memo l.number).path.isSome = true ∧ (t'.memo l.number).path.isSome = true)
      (l.data w) (l.data w') :=
  (concur_data_start hl hw₀ h).trans (concur_data_start hl hw₀ h').symm
    fun _ _ _ _ _ _ ⟨hd, hpath, _⟩ ⟨hd', hpath', _⟩ ↦ ⟨hd.trans hd'.symm, hpath, hpath'⟩

/-! ## What is computed from the contents -/

/-- From like contents the computation comes to the same. -/
def Regular (l : Loader) (w₀ : World) (k : NodeId → Action Product) : Prop :=
  ∀ (t t' : World) (d d' : NodeId), Steady w₀ t → Steady w₀ t' →
    Counterparts t.memory d t'.memory d' → (t.memo l.number).path.isSome = true →
    (t'.memo l.number).path.isSome = true →
    Concur Still t t' (fun p u p' u' ↦ Answer.Matches u.memory u'.memory (.product p) (.product p'))
      (k d t) (k d' t')

theorem concur_currentEnvironment (hl : l.Functional w₀) (hw : Steady w₀ w) (hw' : Steady w₀ w') :
    Concur Still w w' (fun v _ v' _ ↦ ∃ e, v = environmentValue e ∧ v' = environmentValue e)
      (l.currentEnvironment w) (l.currentEnvironment w') := by
  rw [currentEnvironment]
  cases hask : l.environment with
  | none => exact ⟨.refl hw.sound, .refl hw'.sound, rfl⟩
  | some ask => exact hl.environment ask hask hw hw'

/-- **All that a call computes** is regular. -/
theorem regular_of_comesTo (hl : l.Functional w₀) (hw₀ : l.Fresh w₀) (h : l.Faithful w₀ w)
    {q : Query} (hq : q.Named) {k : NodeId → Action Product} (hc : l.ComesTo w q u k) :
    l.Regular w₀ k := by
  have hload : ∀ name, l.Regular w₀ fun d ↦ .tree <$> l.loadFrom (environmentValue name) d := by
    intro name t t' d d' ht ht' hd hpath hpath'
    obtain ⟨path, hpath⟩ := Option.isSome_iff_exists.mp hpath
    obtain ⟨path', hpath'⟩ := Option.isSome_iff_exists.mp hpath'
    have hbuilt := concur_loadFrom hl hw₀.sound hw₀.rules ht ht' hd hpath hpath' name
    exact hbuilt.map fun _ _ _ _ _ _ ⟨_, hv, hv'⟩ ↦ .tree hv hv'
  cases hc with
  | data =>
    intro t t' d d' ht ht' hd _ _
    exact ⟨.refl ht.sound, .refl ht'.sound, matches_of_counterparts hd⟩
  | load environment =>
    obtain ⟨name, rfl⟩ := hq
    exact hload name
  | early unknown => exact hload none
  | @config unknown environment _ asked =>
    have hasked := concur_currentEnvironment hl h.steady h.steady
    rw [asked] at hasked
    obtain ⟨-, -, name, rfl, -⟩ := hasked
    exact hload name
  | databases unknown =>
    intro t t' d d' ht ht' hd _ _
    refine (concur_databasesFrom ht.sound ht'.sound hd).map ?_
    rintro all _ _ _ _ _ rfl
    exact .settings all

/-! ## Concluding -/

/-- A product may be remembered once the call at the start is known to give it. -/
theorem Truthful.kept (h : l.Truthful w₀ m memo) {q : Query} {p : Product} {a : Answer}
    {t₀ : World} (hask : l.ask q w₀ = .ok a t₀)
    (hp : Answer.Matches m t₀.memory (.product p) a) :
    l.Truthful w₀ m (kept q p memo) where
  path := by
    rw [path_kept]
    exact h.path
  data := by
    rw [path_kept, data_kept]
    exact h.data
  views c p' hc hp' := by
    rcases recalled_kept hp' with hold | ⟨rfl, rfl⟩
    · exact h.views c p' hc hold
    · exact ⟨a, t₀, hask, hp⟩

theorem conclude_ok (l : Loader) (q : Query) (p : Product) (t : World) :
    ∃ v, l.conclude q p t = .ok (.product p) v ∧ v.memory = t.memory := by
  obtain ⟨v, hv, rfl | rfl⟩ := conclude_eq l q p t
  · exact ⟨v, hv, rfl⟩
  · exact ⟨_, hv, rfl⟩

/-- Concluding leaves what is remembered true, if the call at the start gives the same. -/
theorem Onward.conclude (h : Onward l w₀ w t) {q : Query} {p : Product} {a : Answer} {t₀ : World}
    (hask : l.ask q w₀ = .ok a t₀) (hp : Answer.Matches t.memory t₀.memory (.product p) a) :
    ∃ v, l.conclude q p t = .ok (.product p) v ∧ v.memory = t.memory ∧ Onward l w₀ w v := by
  obtain ⟨v, hv, rfl | rfl⟩ := conclude_eq l q p t
  · exact ⟨v, hv, rfl, h⟩
  · exact ⟨_, hv, rfl, h.noted fun htrue ↦ htrue.kept hask hp⟩

/-- **A call that asks for the contents** of the file gives what it gives at the start. -/
theorem concur_of_comesTo (hl : l.Functional w₀) (hw₀ : l.Fresh w₀) (h : l.Faithful w₀ w)
    {q : Query} (hq : q.Named) {u₀ : World} {k : NodeId → Action Product}
    (hc : l.ComesTo w q u k) (hc₀ : l.ComesTo w₀ q u₀ k) (hu : Still w u) (hu₀ : Still w₀ u₀) :
    Concur (Onward l w₀) w w₀ (fun a t a' t' ↦ Answer.Matches t.memory t'.memory a a') (l.ask q w)
      (l.ask q w₀) := by
  have hout : Onward l w₀ w u := onward_of_still hu
  have hout₀ : Onward l w₀ w₀ u₀ := onward_of_still hu₀
  have hcomputed : Concur (Onward l w₀) w w₀
      (fun p t p' t' ↦ Answer.Matches t.memory t'.memory (.product p) (.product p'))
      ((l.data >>= k) u) ((l.data >>= k) u₀) := by
    refine ((concur_data hl hw₀ (hout.faithful h) (hout₀.faithful hw₀.faithful)).since hout
      hout₀).bind fun d t d' t' ht ht' ⟨hd, hpath, hpath'⟩ ↦ ?_
    have hk := regular_of_comesTo hl hw₀ h hq hc t t' d d' (ht.faithful h).steady
      (ht'.faithful hw₀.faithful).steady hd hpath hpath'
    exact (hk.allow onward_of_still onward_of_still).since ht ht'
  have hask := ask_of_comesTo hc
  have hask₀ := ask_of_comesTo hc₀
  rw [← bind_assoc] at hask hask₀
  rw [hask, hask₀]
  rcases hcomputed.outcome with
    ⟨p, t, p₀, t₀, hr, hr₀, ht, ht₀, hp⟩ | ⟨e, t, e₀, t₀, hr, hr₀, hfailed⟩
  · rw [bind_of_ok hr₀] at hask₀
    rw [bind_of_ok hr, bind_of_ok hr₀]
    obtain ⟨v₀, hv₀, hmemory₀⟩ := conclude_ok l q p₀ t₀
    rw [hv₀] at hask₀
    rw [← hmemory₀] at hp
    obtain ⟨v, hv, hmemory, hout⟩ := ht.conclude hask₀ hp
    have hp₀ : Answer.Matches t₀.memory v₀.memory (.product p₀) (.product p₀) := by
      rw [← hmemory₀]
      exact hp.symm.trans hp
    obtain ⟨_, hv₀', -, hout₀⟩ := ht₀.conclude hask₀ hp₀
    rw [hv₀] at hv₀'
    obtain ⟨-, rfl⟩ := EStateM.Result.ok.inj hv₀'
    rw [hv, hv₀]
    rw [← hmemory] at hp
    exact ⟨hout, hout₀, hp⟩
  · rw [bind_of_error hr, bind_of_error hr₀]
    exact hfailed

/-- What is not remembered is given as it is at the start. -/
theorem concur_ask_of_unknown (hl : l.Functional w₀) (hw₀ : l.Fresh w₀) (h : l.Faithful w₀ w)
    {q : Query} (hq : q.Named)
    (hunknown : ∀ c, q = .view c → c ≠ .data → recalled (w.memo l.number) c = none) :
    Concur (Onward l w₀) w w₀ (fun a t a' t' ↦ Answer.Matches t.memory t'.memory a a') (l.ask q w)
      (l.ask q w₀) := by
  have hw : Still w w := .refl h.steady.sound
  have hstart : Still w₀ w₀ := .refl hw₀.sound
  have hblank : ∀ c, recalled (w₀.memo l.number) c = none := by
    rw [hw₀.blank]
    intro c
    cases c <;> rfl
  cases q with
  | path =>
    refine (concur_path h hw₀.faithful).map ?_
    rintro p _ _ _ _ _ ⟨rfl, -, -⟩
    exact .path p
  | load environment =>
    exact concur_of_comesTo hl hw₀ h hq (.load environment) (.load environment) hw hstart
  | view c =>
    cases c with
    | data => exact concur_of_comesTo hl hw₀ h hq .data .data hw hstart
    | early =>
      refine concur_of_comesTo hl hw₀ h hq (.early ?_) (.early ?_) hw hstart
      · exact Option.map_eq_none_iff.mp (hunknown .early rfl (by decide))
      · exact Option.map_eq_none_iff.mp (hblank .early)
    | databases =>
      refine concur_of_comesTo hl hw₀ h hq (.databases ?_) (.databases ?_) hw hstart
      · exact Option.map_eq_none_iff.mp (hunknown .databases rfl (by decide))
      · exact Option.map_eq_none_iff.mp (hblank .databases)
    | config =>
      have hconfig : (w.memo l.number).config = none :=
        Option.map_eq_none_iff.mp (hunknown .config rfl (by decide))
      have hconfig₀ : (w₀.memo l.number).config = none :=
        Option.map_eq_none_iff.mp (hblank .config)
      rcases (concur_currentEnvironment hl h.steady (.refl hw₀.sound)).outcome with
        ⟨_, u, _, u₀, hname, hname₀, hu, hu₀, name, rfl, rfl⟩ |
          ⟨e, u, e₀, u₀, hfailed, hfailed₀, hu, hu₀, he⟩
      · exact concur_of_comesTo hl hw₀ h hq (.config hconfig hname) (.config hconfig₀ hname₀) hu hu₀
      · rw [ask_config_of_error hconfig hfailed, ask_config_of_error hconfig₀ hfailed₀]
        exact ⟨onward_of_still hu, onward_of_still hu₀, he⟩

/-- **Every call** gives what it gives at the start, and what is remembered stays true. -/
theorem concur_ask (hl : l.Functional w₀) (hw₀ : l.Fresh w₀) (h : l.Faithful w₀ w) {q : Query}
    (hq : q.Named) :
    Concur (Onward l w₀) w w₀ (fun a t a' t' ↦ Answer.Matches t.memory t'.memory a a') (l.ask q w)
      (l.ask q w₀) := by
  by_cases hknown : ∃ c p, q = .view c ∧ c ≠ .data ∧ recalled (w.memo l.number) c = some p
  · -- what is remembered is true, and the call at the start is like any other
    obtain ⟨c, p, rfl, hc, hp⟩ := hknown
    obtain ⟨a, t₀, hask₀, hmatches⟩ := h.truthful.views c p hc hp
    have hstart := concur_ask_of_unknown hl hw₀ hw₀.faithful hq fun c _ _ ↦ by
      rw [hw₀.blank]
      cases c <;> rfl
    rw [hask₀] at hstart
    rw [ask_of_recalled hp, hask₀]
    exact ⟨onward_of_still (.refl h.steady.sound), hstart.1, hmatches⟩
  · refine concur_ask_of_unknown hl hw₀ h hq fun c hqc hc ↦ ?_
    by_contra hsome
    obtain ⟨p, hp⟩ := Option.ne_none_iff_exists'.mp hsome
    exact hknown ⟨c, p, hqc, hc, hp⟩

/-! ## Many calls -/

/-- The world after the given calls. -/
def askAll (l : Loader) (w : World) (calls : List Query) : World :=
  calls.foldl (fun w q ↦ after (l.ask q) w) w

theorem faithful_askAll (hl : l.Functional w₀) (hw₀ : l.Fresh w₀) (h : l.Faithful w₀ w)
    {calls : List Query} (hcalls : ∀ q ∈ calls, q.Named) : l.Faithful w₀ (l.askAll w calls) := by
  induction calls generalizing w with
  | nil => exact h
  | cons q rest ih =>
    obtain ⟨hq, hrest⟩ := List.forall_mem_cons.mp hcalls
    exact ih ((concur_ask hl hw₀ h hq).after.1.faithful h) hrest

/-- **What was asked before makes no difference.** In a world that does not change, with
collaborators that are functions, the outcome of a call on a new loader depends on what is asked for
only: after any two sequences of calls, whether they succeeded or not, the same call either fails
both times with the same failure, or it gives answers that match. -/
theorem answers_match (hl : l.Functional w₀) (hw₀ : l.Fresh w₀) {calls calls' : List Query}
    (hcalls : ∀ q ∈ calls, q.Named) (hcalls' : ∀ q ∈ calls', q.Named) {q : Query}
    (hq : q.Named) :
    Concur Steady w₀ w₀ (fun a t a' t' ↦ Answer.Matches t.memory t'.memory a a')
      (l.ask q (l.askAll w₀ calls)) (l.ask q (l.askAll w₀ calls')) := by
  have h := faithful_askAll hl hw₀ hw₀.faithful hcalls
  have h' := faithful_askAll hl hw₀ hw₀.faithful hcalls'
  have hboth := (concur_ask hl hw₀ h hq).trans (concur_ask hl hw₀ h' hq).symm
    fun _ _ _ _ _ _ hmatches hmatches' ↦ hmatches.trans hmatches'.symm
  exact hboth.allow (fun ht ↦ IsTrans.trans _ _ _ h.steady ht.steady)
    fun ht ↦ IsTrans.trans _ _ _ h'.steady ht.steady

open Katello in
set_option maxRecDepth 20000 in
/-- A complete file is loaded alike for production, whether it was loaded for another environment
and without any before or not. -/
theorem answers_match_sample : ∃ w₀ : World, sampleLoader.Functional w₀ ∧ sampleLoader.Fresh w₀ ∧
    ∃ a t a' t', sampleLoader.ask (.load (.text "production"))
        (sampleLoader.askAll w₀ [.view .early, .load (.text "development")]) = .ok a t ∧
      sampleLoader.ask (.load (.text "production")) w₀ = .ok a' t' ∧
      Answer.Matches t.memory t'.memory a a' := by
  have hl : sampleLoader.Functional (worldOf sampleDocument) :=
    functional_of_decrypt (fun e he ↦ by cases he) (fun ask hask ↦ by cases hask) rfl rfl
      VersionResolver.textual_default
  have hw₀ : sampleLoader.Fresh (worldOf sampleDocument) :=
    { sound := Forest.sound_empty
      made := Nat.zero_lt_one
      blank := rfl
      plain := plain_of_worldOf plain_sampleDocument
      rules := fun rule hrule ↦ (overTexts_rules _ rule hrule).knows }
  have hload : succeeds (sampleLoader.ask (.load (.text "production"))) (worldOf sampleDocument)
      = true := by decide +kernel
  -- with names for the loader and the world, nothing is computed but the one call above
  generalize sampleLoader = l, worldOf sampleDocument = w₀ at hl hw₀ hload ⊢
  have hproduction : (Query.load (.text "production")).Named := ⟨some "production", rfl⟩
  have hcalls : ∀ q ∈ [Query.view .early, .load (.text "development")], q.Named :=
    List.forall_mem_cons.mpr ⟨trivial, List.forall_mem_singleton.mpr ⟨some "development", rfl⟩⟩
  have hboth := answers_match hl hw₀ hcalls (List.forall_mem_nil _) hproduction
  rcases hboth.outcome with
    ⟨a, t, a', t', hagain, hstart, -, -, hmatches⟩ | ⟨e, t, e', t', -, hfailed, -⟩
  · exact ⟨w₀, hl, hw₀, a, t, a', t', hagain, hstart, hmatches⟩
  · obtain ⟨a', t', hstart⟩ := exists_ok_of_succeeds hload
    exact absurd (hstart.symm.trans hfailed) (by simp)

end Loader

end LayeredConfig
