import LayeredConfig.Proofs.Loader.Failing
import LayeredConfig.Proofs.Loader.Functional
import LayeredConfig.Proofs.Server.Connecting

/-!
# What is said of an error

A server answers with the text of an error of the configuration, and with a text of its own if that
is empty. It never is: whatever its loader comes upon, between the first look for a file and the
last rule, an error of the configuration says something (`Failure.Worded`).
-/

namespace LayeredConfig

/-- The failure says something if it is an error of the configuration, whatever the names of
computations are. -/
def Failure.Worded (f : Failure) : Prop :=
  ∀ e, f = .configuration e → ∀ names, e.message names ≠ ""

theorem coversFixed_worded : CoversFixed Failure.Worded := by
  rintro e he _ ⟨⟩ names
  exact he.message_ne_empty names

/-! ## Passwords -/

namespace PasswordCipher

variable {c : PasswordCipher} {v : Value} {f : Failure}

theorem worded_of_decryptText {s : String} (h : c.decryptText s = .error f) : f.Worded := by
  have hsecret : ∀ fault : SecretFault, (ConfigurationError.secretDecryption fault).Fixed →
      (Failure.configuration (.secretDecryption fault)).Worded := fun _ ↦ coversFixed_worded _
  cases hblob : Base64.decode? (s.toList.drop mark.length) with
  | none =>
    rw [decryptText, hblob] at h
    cases h
    exact hsecret _ trivial
  | some blob =>
    cases hkey : c.key with
    | none =>
      rw [decryptText, hblob, requireKey, hkey] at h
      cases h
      exact hsecret _ trivial
    | some key =>
      simp only [decryptText, hblob, requireKey, hkey, Bind.bind, Except.bind] at h
      split at h
      · cases h
        rintro _ ⟨⟩
      split at h
      · cases h
        exact hsecret _ trivial
      split at h
      · cases h
      · cases h
        rintro _ ⟨⟩

theorem worded_of_decrypt (h : c.decrypt v = .error f) : f.Worded := by
  unfold decrypt at h
  split at h
  · next s =>
    split at h
    · cases hplain : c.decryptText s with
      | ok plain =>
        rw [hplain] at h
        cases h
      | error f' =>
        rw [hplain] at h
        cases h
        exact worded_of_decryptText hplain
    · cases h
  · cases h

end PasswordCipher

/-! ## Documents -/

namespace Loader

variable {l : Loader} {w : World}

theorem worded_parse (path text : String) (w : World) :
    OnlyFails Failure.Worded (parse path text w) := by
  rw [parse]
  cases Yaml.load text with
  | ok v => exact .of_ok rfl
  | error fault =>
    cases fault with
    | endless => exact .of_error rfl (by rintro _ ⟨⟩)
    | document fault =>
      cases fault with
      | malformed => exact .of_error rfl (coversFixed_worded _ trivial)
      | value fault => exact .of_error rfl (by rintro _ ⟨⟩)

variable (hcontext : ∀ e ∈ l.context, e.2.Plain)

include hcontext

theorem worded_expand (path text : String) (w : World) :
    OnlyFails Failure.Worded (l.expand path text w) := by
  refine .bind (.of_ok rfl) fun given w₁ hgiven ↦ ?_
  cases Template.parts? text with
  | none => exact .of_error rfl (coversFixed_worded _ trivial)
  | some parts =>
    refine OnlyFails.onMemory_iff.mpr ?_
    rcases Template.constant_fill parts (plain_givenNames hcontext hgiven) with
      ⟨filled, _, hfill⟩ | ⟨fault, hfill⟩
    · rw [hfill]
      exact .of_ok rfl
    · rw [hfill]
      exact .of_error rfl (by rintro _ ⟨⟩)

theorem worded_readDocument (path : String) (w : World) :
    OnlyFails Failure.Worded (l.readDocument path w) := by
  rw [readDocument, get_bind]
  cases w.files.find? path with
  | none => exact .of_error rfl (by rintro _ ⟨⟩)
  | some contents =>
    cases contents with
    | directory => exact .of_error rfl (by rintro _ ⟨⟩)
    | document v => exact .of_ok rfl
    | bytes content =>
      dsimp only
      cases FileSystem.decodeText? content with
      | none => exact .of_error rfl (by rintro _ ⟨⟩)
      | some text =>
        exact .bind (worded_expand hcontext path text w) fun filled w' _ ↦
          worded_parse path filled w'

end Loader

/-! ## The loader of a server -/

/-- The loader was built for a server with this deployment. -/
def Loader.Serves (l : Loader) (d : Deployment) : Prop :=
  ∃ paths cipher number, l = d.loader paths cipher number

namespace Loader.Serves

variable {l : Loader} {d : Deployment} (hl : l.Serves d) {w : World}

include hl

theorem rules_eq : l.rules = Katello.rules := by
  obtain ⟨paths, cipher, number, rfl⟩ := hl
  rfl

theorem currentEnvironment_eq : l.currentEnvironment = d.currentEnvironment := by
  obtain ⟨paths, cipher, number, rfl⟩ := hl
  rfl

theorem currentEnvironment_of_ready (hready : d.ready = true) (w : World) :
    l.currentEnvironment w = .ok d.environment w := by
  rw [hl.currentEnvironment_eq, Deployment.currentEnvironment, if_pos hready]
  rfl

theorem reveals : l.Reveals := by
  obtain ⟨paths, cipher, number, rfl⟩ := hl
  exact reveals_of_decrypt rfl

theorem telling : l.Telling := by
  obtain ⟨paths, cipher, number, rfl⟩ := hl
  exact (supplied_of_decrypt rfl rfl VersionResolver.textual_default).telling

theorem selfContained : l.SelfContained := by
  obtain ⟨paths, cipher, number, rfl⟩ := hl
  refine selfContained_of_decrypt (fun ask hask ↦ ?_) rfl rfl
  obtain rfl := Option.some.inj hask
  unfold Deployment.currentEnvironment
  split
  · exact composite_discreet.pure _
  · exact composite_discreet.throw _

/-! ### Its errors say something -/

theorem worded_password (v : Value) (w : World) : OnlyFails Failure.Worded (l.password v w) := by
  obtain ⟨paths, cipher, number, rfl⟩ := hl
  have hrun : (d.loader paths cipher number).password v = ofOutcome (cipher.decrypt v) := rfl
  rw [hrun]
  cases h : cipher.decrypt v with
  | ok p => exact .of_ok rfl
  | error f => exact .of_error rfl (PasswordCipher.worded_of_decrypt h)

theorem worded_version (package : String) (w : World) :
    OnlyFails Failure.Worded (l.version (.text package) w) := by
  obtain ⟨paths, cipher, number, rfl⟩ := hl
  obtain ⟨version, w', hok⟩ :=
    VersionResolver.resolveFrom_ok VersionResolver.textual_default (.text package) w
  exact .of_ok hok

theorem worded_currentEnvironment (w : World) :
    OnlyFails Failure.Worded (l.currentEnvironment w) := by
  rw [hl.currentEnvironment_eq, Deployment.currentEnvironment]
  split
  · exact .of_ok rfl
  · refine .of_error rfl ?_
    rintro _ ⟨⟩ names
    exact ne_of_beq_false rfl

theorem worded_data (hw : l.Readable w) : OnlyFails Failure.Worded (l.data w) := by
  refine (onlyFails_data_iff coversFixed_worded hl.reveals hl.worded_password hw).mpr
    fun _ path w' _ ↦ worded_readDocument ?_ path w'
  obtain ⟨paths, cipher, number, rfl⟩ := hl
  exact fun e he ↦ absurd he List.not_mem_nil

theorem worded_loadFrom {data : NodeId} (hp : w.memory.Parsed data) (environment : Option String) :
    OnlyFails Failure.Worded (l.loadFrom (environmentValue environment) data w) := by
  refine onlyFails_loadFrom coversFixed_worded hl.telling.informs hl.worded_version hp ?_ environment
  rw [hl.rules_eq]
  exact Katello.overTexts_rules w.memory

end Loader.Serves

end LayeredConfig
