import LayeredConfig.Proofs.Loader.Databases
import LayeredConfig.Proofs.Loader.Failing

/-!
# Which failures escape

Whoever calls a loader is prepared for errors of the configuration. Finding the file, making a tree
of its document, revealing passwords, merging, deriving, validating and reporting database settings
fail with nothing else, as long as the collaborators do not. What escapes comes from between the
bytes and the document: a directory in the place of the file, bytes that are no text, a template that
cannot be filled in, and scalars without a value. `Loader.Legible` rules these out, and it does so
exactly (`Loader.orderly_ask_iff`).
-/

namespace LayeredConfig

open Memory (Beyond)

/-! ## Orderly outcomes -/

/-- Whether it is an error of the configuration. -/
def Failure.isConfiguration : Failure → Bool
  | .configuration _ => true
  | _ => false

/-- The outcome is a value or an error of the configuration. -/
def Orderly {σ α : Type} (r : EStateM.Result Failure σ α) : Prop :=
  ∀ f t, r = .error f t → f.isConfiguration = true

theorem coversFixed_isConfiguration : CoversFixed fun f ↦ f.isConfiguration = true :=
  fun _ _ ↦ rfl

namespace Orderly

variable {σ α β : Type} {x : EStateM Failure σ α} {k : α → EStateM Failure σ β} {s t : σ} {a : α}
  {f : Failure}

theorem error_iff : Orderly (.error f t : EStateM.Result Failure σ α) ↔ f.isConfiguration = true :=
  OnlyFails.error_iff

instance (r : EStateM.Result Failure σ α) : Decidable (Orderly r) :=
  match r with
  | .ok _ _ => isTrue fun _ _ h ↦ by cases h
  | .error _ _ => decidable_of_iff _ error_iff.symm

theorem of_ok (h : x s = .ok a t) : Orderly (x s) := OnlyFails.of_ok h

theorem of_error {e : ConfigurationError} (h : x s = .error (.configuration e) t) :
    Orderly (x s) := OnlyFails.of_error h rfl

/-- A sequence ends orderly if its first part does and the second does after it. -/
theorem bind_iff :
    Orderly ((x >>= k) s) ↔ Orderly (x s) ∧ ∀ a t, x s = .ok a t → Orderly (k a t) :=
  OnlyFails.bind_iff

theorem bind (hx : Orderly (x s)) (hk : ∀ a t, x s = .ok a t → Orderly (k a t)) :
    Orderly ((x >>= k) s) := bind_iff.mpr ⟨hx, hk⟩

theorem after (hx : x s = .ok a t) (hk : Orderly (k a t)) : Orderly ((x >>= k) s) :=
  OnlyFails.after hx hk

theorem map_iff {g : α → β} : Orderly ((g <$> x) s) ↔ Orderly (x s) := OnlyFails.map_iff

theorem onMemory_iff {y : Eval α} {w : World} : Orderly (onMemory y w) ↔ Orderly (y w.memory) :=
  OnlyFails.onMemory_iff

end Orderly

/-! ## Documents -/

/-- If the text holds no document then because its markup is malformed. -/
def Yaml.Legible (text : String) : Prop :=
  ∀ fault, load text = .error fault → fault = .document .malformed

namespace Loader

variable {l : Loader} {w w₁ u : World} {data : NodeId} {path : String}

theorem orderly_parse_iff {text : String} :
    Orderly (parse path text w) ↔ Yaml.Legible text := by
  rw [Yaml.Legible, parse]
  cases hload : Yaml.load text with
  | ok v => exact iff_of_true (.of_ok rfl) fun _ h ↦ by cases h
  | error fault =>
    cases fault with
    | endless => exact iff_of_false (fun h ↦ by cases h _ _ rfl) fun h ↦ by cases h _ rfl
    | document fault =>
      cases fault with
      | malformed => exact iff_of_true (.of_error rfl) fun _ h ↦ (Except.error.inj h).symm
      | value fault => exact iff_of_false (fun h ↦ by cases h _ _ rfl) fun h ↦ by cases h _ rfl

/-- A document can be had from the path, or it is refused: there is a file, its bytes are a text, the
template can be filled in, and the scalars of the document have values. -/
def LegibleAt (l : Loader) (path : String) (w : World) : Prop :=
  match w.files.find? path with
  | none => False
  | some .directory => False
  | some (.document _) => True
  | some (.bytes content) => ∃ text, FileSystem.decodeText? content = some text ∧
      Orderly (l.expand path text w) ∧
        ∀ filled w', l.expand path text w = .ok filled w' → Yaml.Legible filled

theorem orderly_readDocument_iff :
    Orderly (l.readDocument path w) ↔ l.LegibleAt path w := by
  rw [readDocument, get_bind, LegibleAt]
  cases w.files.find? path with
  | none => exact iff_of_false (fun h ↦ by cases h _ _ rfl) id
  | some contents =>
    cases contents with
    | directory => exact iff_of_false (fun h ↦ by cases h _ _ rfl) id
    | document v => exact iff_of_true (.of_ok rfl) trivial
    | bytes content =>
      dsimp only
      cases FileSystem.decodeText? content with
      | none => exact iff_of_false (fun h ↦ by cases h _ _ rfl) (by rintro ⟨_, ⟨⟩, _⟩)
      | some text =>
        dsimp only
        rw [Orderly.bind_iff]
        constructor
        · rintro ⟨hexpand, hparse⟩
          exact ⟨text, rfl, hexpand, fun filled w' h ↦ orderly_parse_iff.mp (hparse filled w' h)⟩
        · rintro ⟨_, ⟨⟩, hexpand, hparse⟩
          exact ⟨hexpand, fun filled w' h ↦ orderly_parse_iff.mpr (hparse filled w' h)⟩

/-- The file is legible if it is still to be read. -/
def Legible (l : Loader) (w : World) : Prop :=
  (w.memo l.number).data = none → ∀ path w', l.path w = .ok path w' → l.LegibleAt path w'

/-! ## Reading -/

/-- The collaborators fail with errors of the configuration only. Asking for the environment gives a
text and changes no node, no file and nothing that is remembered; passwords and versions are as
reading and deriving need them. -/
structure Dependable (l : Loader) : Prop where
  environment : ∀ ask, l.environment = some ask → ∀ w, Orderly (ask w) ∧
    ∀ v u, ask w = .ok v u → (∃ name, v = .text name) ∧
      (w.memory.forest.Sound → Beyond w.memory u.memory) ∧ u.files = w.files ∧ u.memos = w.memos
  reveals : l.Reveals
  password : ∀ v w, Orderly (l.password v w)
  informs : l.Informs
  version : ∀ package w, Orderly (l.version (.text package) w)

variable (hl : l.Dependable)

include hl

theorem orderly_data_iff (hw : l.Readable w) : Orderly (l.data w) ↔ l.Legible w := by
  refine (onlyFails_data_iff coversFixed_isConfiguration hl.reveals hl.password hw).trans ?_
  exact forall₄_congr fun _ _ _ _ ↦ orderly_readDocument_iff

/-! ## Building the views -/

/-- A configuration is built of the contents of the file, or it is refused. -/
theorem orderly_loadFrom (hp : w.memory.Parsed data)
    (hrules : ∀ rule ∈ l.rules, rule.OverTexts w.memory.Known) (environment : Option String) :
    Orderly (l.loadFrom (environmentValue environment) data w) :=
  onlyFails_loadFrom coversFixed_isConfiguration hl.informs hl.version hp hrules environment

omit hl in
theorem orderly_collectDatabases {m : Memory} (hp : m.Parsed data) (common : Entries Blueprint)
    {environments : List Value} (henvironments : ∀ v ∈ environments, ∃ title, v = .text title)
    (all : DatabaseSettings) :
    Orderly (collectDatabases data (Blueprint.plainEntries common) all environments m) := by
  induction environments generalizing all with
  | nil => exact .of_ok rfl
  | cons v rest ih =>
    obtain ⟨⟨title, rfl⟩, hrest⟩ := List.forall_mem_cons.mp henvironments
    obtain ⟨r, hturn, hcollect⟩ := collectDatabases_cons hp (.text title)
    rw [hcollect]
    cases hturn with
    | unset => exact ih hrest all
    | settings => exact ih hrest _
    | refused => exact .of_error rfl
    | unnamed hne => exact absurd rfl (hne title)
    | unhashable hne => exact absurd rfl (hne title)

omit hl in
/-- Database settings are taken from the contents of the file, or they are refused. -/
theorem orderly_databasesFrom (hp : w.memory.Parsed data)
    (henvironments : ∀ v ∈ l.databaseEnvironments, ∃ title, v = .text title) :
    Orderly (l.databasesFrom data w) := by
  have hblock := hp.databaseBlock_eq commonSection
  rw [databasesFrom]
  cases hfields : (w.memory.view (.node data)).databaseFields? commonSection with
  | none =>
    rw [hfields] at hblock
    obtain ⟨t, _, hblock⟩ := hblock
    exact .of_error (bind_of_error (onMemory_of_error hblock))
  | some common =>
    rw [hfields] at hblock
    refine .after (onMemory_of_ok hblock) (Orderly.onMemory_iff.mpr ?_)
    exact orderly_collectDatabases hp common henvironments []

/-! ## Calls -/

theorem orderly_currentEnvironment (w : World) : Orderly (l.currentEnvironment w) := by
  rw [currentEnvironment]
  cases hask : l.environment with
  | none => exact .of_error rfl
  | some ask => exact (hl.environment ask hask w).1

/-- Asking for the environment gives a text and leaves what the call relies on. -/
theorem of_currentEnvironment (hw : l.Readable w) {v : Value}
    (h : l.currentEnvironment w = .ok v u) :
    (∃ name, v = .text name) ∧ l.Readable u ∧ Beyond w.memory u.memory := by
  rw [currentEnvironment] at h
  cases hask : l.environment with
  | none =>
    rw [hask] at h
    cases h
  | some ask =>
    rw [hask] at h
    obtain ⟨hname, hbeyond, hfiles, hmemos⟩ := (hl.environment ask hask w).2 v u h
    have hmm := hbeyond hw.sound
    refine ⟨hname, ⟨hmm.sound, fun place d hd ↦ ?_, fun d hd ↦ ?_⟩, hmm⟩
    · rw [hfiles] at hd
      exact hw.plain place d hd
    · rw [World.memo, hmemos] at hd
      exact (hw.known d hd).later hmm

variable {q : Query} {k : NodeId → Action Product}

/-- A call that does not come to ask for the contents of the file ends orderly. -/
theorem orderly_of_stopsShort (h : l.StopsShort w q) : Orderly (l.ask q w) := by
  cases h with
  | path => exact Orderly.map_iff.mpr (onlyFails_path coversFixed_isConfiguration l w)
  | recalled _ known => exact .of_ok (ask_of_recalled known)
  | unnamed unknown asked =>
    have hnone := asked ▸ orderly_currentEnvironment hl w
    rw [ask_config_of_error unknown asked, Orderly.error_iff]
    exact Orderly.error_iff.mp hnone

/-- On the way to the contents of the file nothing changes that the call relies on. -/
theorem readable_of_comesTo (hw : l.Readable w) (h : l.ComesTo w q u k) :
    l.Readable u ∧ Beyond w.memory u.memory := by
  cases h with
  | config _ asked => exact (of_currentEnvironment hl hw asked).2
  | _ => exact ⟨hw, .refl hw.sound⟩

/-- What a call computes from the contents of the file ends orderly. -/
theorem orderly_of_comesTo (hw : l.Readable w) (hq : q.Named) (h : l.ComesTo w q u k)
    (hp : w₁.memory.Parsed data) (hrules : ∀ rule ∈ l.rules, rule.OverTexts w₁.memory.Known)
    (henvironments : ∀ v ∈ l.databaseEnvironments, ∃ title, v = .text title) :
    Orderly (k data w₁) := by
  cases h with
  | data => exact .of_ok rfl
  | load environment =>
    obtain ⟨name, rfl⟩ := hq
    exact Orderly.map_iff.mpr (orderly_loadFrom hl hp hrules name)
  | early _ => exact Orderly.map_iff.mpr (orderly_loadFrom hl hp hrules none)
  | config _ asked =>
    obtain ⟨⟨name, rfl⟩, _⟩ := of_currentEnvironment hl hw asked
    exact Orderly.map_iff.mpr (orderly_loadFrom hl hp hrules (some name))
  | databases _ => exact Orderly.map_iff.mpr (orderly_databasesFrom hp henvironments)

end Loader

/-! ## A file and what may stand in its place -/

/-- Without a key, decrypting fails with errors of the configuration only. -/
theorem PasswordCipher.orderly_decrypt (v : Value) (w : World) :
    Orderly (ofOutcome (decrypt ⟨none⟩ v) w) := by
  cases h : decrypt ⟨none⟩ v with
  | ok p => exact .of_ok rfl
  | error f =>
    unfold decrypt at h
    split at h
    · next s =>
      split at h
      · rw [decryptText] at h
        cases hblob : Base64.decode? (s.toList.drop mark.length) <;>
        · rw [hblob] at h
          cases h
          exact .of_error rfl
      · cases h
    · cases h

namespace Katello

theorem dependable_sampleLoader : sampleLoader.Dependable where
  environment ask hask := by cases hask
  reveals := Loader.reveals_of_decrypt rfl
  password v w := PasswordCipher.orderly_decrypt v w
  informs := (Loader.supplied_of_decrypt (l := sampleLoader) rfl rfl
    VersionResolver.textual_default).telling.informs
  version package w := by
    obtain ⟨version, w', hok⟩ :=
      VersionResolver.resolveFrom_ok VersionResolver.textual_default (.text package) w
    exact .of_ok hok

/-- A world with this in the place of the file, and with a loader that has not read it yet. -/
def worldHolding (contents : Contents) : World :=
  { (default : World) with memos := #[default], files := ⟨[], [(["katello.yml"], contents)]⟩ }

/-- A directory, bytes that are no text, a loop over a number, and a date that there never was. -/
def illegible : List Contents :=
  [.directory, .bytes [0x63, 0xe9], .bytes "{% for x in 5 %}{% endfor %}".toUTF8.toList,
    .bytes "common: {a: 2020-13-45}".toUTF8.toList]

/-- What is asked of a loader that cannot tell the environment. -/
def sampleQueries : List Loader.Query :=
  [.view .data, .view .early, .view .databases, .load (environmentValue (some "production"))]

end Katello

namespace Loader

open Katello

end Loader

end LayeredConfig
