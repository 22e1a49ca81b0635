import LayeredConfig.Proofs.Loader.Repeating
import LayeredConfig.Proofs.Loader.Supply
import LayeredConfig.Proofs.Template.Constant
import LayeredConfig.Server.Deployment

/-!
# Collaborators that are functions

The collaborators that a server gives its loader are functions, so in a world that does not change
they answer alike whenever they are asked alike. A version is told from what is installed and from
the checkout, a password is a function of the stored one, and the environment is the one that the
server was deployed for. The files of a loader whose context holds plain values are filled in alike.

`Repeats` says so of an action. It passes from the parts of an action to the whole.
-/

namespace LayeredConfig

open Memory (Likened)
open World (Steady Still)

variable {α β : Type} {P : α → Prop} {Q : β → Prop} {w₀ w w' : World}

theorem World.Steady.still (h : Steady w₀ w) : Still w w := .refl h.sound

/-- In a world that does not change, beginning with `w₀`, the action gives the same each time, which
has the property, or fails alike each time; it changes no node. -/
def Repeats (w₀ : World) (P : α → Prop) (x : Action α) : Prop :=
  ∀ w w' : World, Steady w₀ w → Steady w₀ w' →
    Concur Still w w' (fun a _ b _ ↦ a = b ∧ P a) (x w) (x w')

namespace Repeats

variable {x : Action α}

protected theorem pure {a : α} (h : P a) : Repeats w₀ P (Pure.pure a : Action α) :=
  fun _ _ hw hw' ↦ ⟨hw.still, hw'.still, rfl, h⟩

protected theorem throw (f : Failure) : Repeats w₀ P (throw f : Action α) :=
  fun _ _ hw hw' ↦ ⟨hw.still, hw'.still, rfl⟩

protected theorem bind {k : α → Action β} (hx : Repeats w₀ P x)
    (hk : ∀ a, P a → Repeats w₀ Q (k a)) : Repeats w₀ Q (x >>= k) := by
  intro w w' hw hw'
  refine (hx w w' hw hw').bind fun a t b t' ht ht' ⟨heq, ha⟩ ↦ ?_
  subst heq
  exact (hk a ha t t' (IsTrans.trans _ _ _ hw ht.toSteady)
    (IsTrans.trans _ _ _ hw' ht'.toSteady)).since ht ht'

/-- What does not change in the world may be read. -/
protected theorem look {k : World → Action α} (h : ∀ {w}, Steady w₀ w → k w = k w₀)
    (hk : Repeats w₀ P (k w₀)) : Repeats w₀ P (get >>= k) := by
  intro w w' hw hw'
  rw [get_bind, get_bind, h hw, h hw']
  exact hk w w' hw hw'

/-- An evaluation that does not depend on the memory repeats. -/
protected theorem evaluate {x : Eval α} (hx : Constant P x) : Repeats w₀ P (onMemory x) := by
  rcases hx with ⟨a, ha, rfl⟩ | ⟨fault, rfl⟩
  · exact .pure ha
  · exact .throw (.template fault)

protected theorem emit (e : Event) : Repeats w₀ (fun _ ↦ True) (onMemory (emit e)) :=
  fun w w' hw hw' ↦
    ⟨hw.still.withMemory ((w.memory.reruns_event e).beyond hw.sound),
      hw'.still.withMemory ((w'.memory.reruns_event e).beyond hw'.sound), rfl, trivial⟩

protected theorem record (level : LogLevel) (event : String) (details : Entries Value) :
    Repeats w₀ (fun _ ↦ True) (record level event details) :=
  fun _ _ hw hw' ↦ ⟨hw.still.logged _, hw'.still.logged _, rfl, trivial⟩

protected theorem ofOutcome (x : Except Failure α) :
    Repeats w₀ (fun a ↦ x = .ok a) (ofOutcome x) := by
  cases x with
  | ok a => exact .pure rfl
  | error f => exact .throw f

end Repeats

/-! ## Versions -/

namespace VersionSource

private theorem repeats_unavailable (error : String) :
    Repeats w₀ (fun _ ↦ True) (revisionUnavailable error) :=
  (Repeats.record _ _ _).bind fun _ _ ↦ .pure trivial

theorem repeats_lookup (package : Value) (source : VersionSource) :
    Repeats w₀ (fun _ ↦ True) (source.lookup package) := by
  cases source with
  | metadata =>
    refine (Repeats.emit _).bind fun _ _ ↦ .look (fun hw ↦ by rw [hw.host_eq]) ?_
    dsimp only
    split
    · exact .pure trivial
    · exact .throw _
    · exact .pure trivial
  | revision directory timeout =>
    refine (Repeats.emit _).bind fun _ _ ↦ .look (fun hw ↦ by rw [hw.host_eq]) ?_
    cases w₀.host.revision with
    | output text => exact .pure trivial
    | exitStatus status => exact repeats_unavailable _
    | timedOut => exact repeats_unavailable _
    | toolMissing => exact repeats_unavailable _
  | answering label version => exact (Repeats.emit _).bind fun _ _ ↦ .pure trivial
  | failing label message => exact (Repeats.emit _).bind fun _ _ ↦ .throw _

end VersionSource

namespace VersionResolver

/-- The log of a failing source may name nodes, but it makes no difference. -/
theorem repeats_answer {source : VersionSource} (hsource : source.Textual) (package : Value) :
    Repeats w₀ (fun v ↦ v = .null ∨ ∃ s, v = .text s) (answer package source) := by
  intro w w' hw hw'
  have hasked : Concur Still w w' (fun v _ v' _ ↦ v = v') (answer package source w)
      (answer package source w') := by
    refine .tryCatch ((source.repeats_lookup package w w' hw hw').mono fun _ _ _ _ _ _ h ↦ h.1) ?_
    intro e t e' t' ht ht' _
    exact ⟨ht.logged _, ht'.logged _, rfl⟩
  refine (hasked.and fun v t hv ↦ ?_).mono fun _ _ _ _ _ _ h ↦ h
  obtain ⟨v', t', hanswer, hv'⟩ := answer_ok hsource package w
  rw [hv] at hanswer
  cases hanswer
  exact hv'

/-- **The version of a package** is the same each time it is asked for. -/
theorem repeats_resolveFrom {sources : List VersionSource}
    (hsources : ∀ source ∈ sources, source.Textual) (package : Value) :
    Repeats w₀ (fun v ↦ ∃ s, v = .text s) (resolveFrom package sources) := by
  induction sources with
  | nil => exact .pure ⟨unknownVersion, rfl⟩
  | cons source rest ih =>
    refine (repeats_answer (hsources source List.mem_cons_self) package).bind fun v hv ↦ ?_
    -- an answer that counts as set is a text
    have htruthy : Repeats w₀ (fun set ↦ set = true → ∃ s, v = .text s)
        (onMemory (truthyValue v)) := by
      rcases hv with rfl | ⟨s, rfl⟩
      · exact .evaluate (.reads (fun _ _ ↦ rfl) fun _ htrue ↦ by cases htrue)
      · exact .evaluate (.reads (fun _ _ ↦ rfl) fun _ _ ↦ ⟨s, rfl⟩)
    refine htruthy.bind fun set hset ↦ ?_
    split
    · next htrue => exact (Repeats.record _ _ _).bind fun _ _ ↦ .pure (hset htrue)
    · exact ih fun s hs ↦ hsources s (List.mem_cons_of_mem _ hs)

end VersionResolver

/-! ## Passwords -/

theorem Value.Plain.likened {v : Value} (hv : v.Plain) (m m' : Memory) : Likened m v m' v where
  anonymous_eq := congrArg Tree.anonymous (hv.graft_eq _ _)
  settled := hv.settled_content _

/-- Only a scalar holds what a scalar holds. -/
theorem Memory.Likened.eq_scalar {m m' : Memory} {a : Scalar} {v' : Value}
    (h : Likened m (.scalar a) m' v') (hm' : m'.forest.Sound) : v' = .scalar a :=
  hm'.eq_scalar_of_view (Tree.eq_scalar_of_content h.content_eq.symm)

/-- What is no text is no stored password. -/
theorem PasswordCipher.decrypt_of_not_text (c : PasswordCipher) {v : Value}
    (h : ∀ s, v ≠ .text s) : c.decrypt v = .ok v := by
  unfold decrypt
  split
  · next s => exact absurd rfl (h s)
  · rfl

/-- **The password behind a stored value** depends on what the value holds and on nothing else. -/
theorem PasswordCipher.concur_decrypt (c : PasswordCipher) (hw : Steady w₀ w) (hw' : Steady w₀ w')
    {v v' : Value} (h : Likened w.memory v w'.memory v') :
    Concur Still w w' (fun p t p' t' ↦ Likened t.memory p t'.memory p') (ofOutcome (c.decrypt v) w)
      (ofOutcome (c.decrypt v') w') := by
  by_cases htext : ∃ s, v = .text s
  · obtain ⟨s, rfl⟩ := htext
    obtain rfl := h.eq_scalar hw'.sound
    refine (Repeats.ofOutcome _ w w' hw hw').mono fun p t p' t' _ _ ⟨heq, hp⟩ ↦ ?_
    subst heq
    have hscalar : ∃ a, p = .scalar a := (eq_or_scalar_of_decrypt hp).elim (⟨_, ·⟩) id
    obtain ⟨a, rfl⟩ := hscalar
    exact (Value.Plain.scalar a).likened _ _
  · have hv : ∀ s, v ≠ .text s := fun s heq ↦ htext ⟨s, heq⟩
    have hv' : ∀ s, v' ≠ .text s := fun s heq ↦ by
      subst heq
      exact hv s (h.symm.eq_scalar hw.sound)
    rw [c.decrypt_of_not_text hv, c.decrypt_of_not_text hv']
    exact ⟨hw.still, hw'.still, h⟩

/-! ## Templates -/

namespace Loader

variable {l : Loader}

/-- If the context of the loader holds plain values, then so do all the names that are given. -/
theorem plain_givenNames (hcontext : ∀ e ∈ l.context, e.2.Plain) {path : String} {w w' : World}
    {given : List (Value × Value)} (h : l.givenNames path w = .ok given w') :
    ∀ e ∈ given, e.2.Plain := by
  have hinherited : (Value.mapping (w.environment.map fun e ↦
      (Value.text e.1, Value.text e.2))).Plain :=
    .mapping (List.forall_mem_map.mpr fun _ _ ↦ .scalar _)
      (List.forall_mem_map.mpr fun _ _ ↦ .scalar _)
  have hown : ∀ e ∈ [(Value.text "env", Value.mapping (w.environment.map fun e ↦
      (Value.text e.1, Value.text e.2))),
      (.text "root", .text (w.files.parentText path))], True ∧ e.2.Plain :=
    List.forall_mem_cons.mpr ⟨⟨trivial, hinherited⟩,
      List.forall_mem_singleton.mpr ⟨trivial, .scalar _⟩⟩
  cases h
  exact fun e he ↦ (Value.forall_mem_insertAll (K := fun _ ↦ True)
    (fun e he ↦ ⟨trivial, hcontext e he⟩) hown e he).2

/-- Then the same text is filled in alike. -/
theorem repeats_givenNames (hcontext : ∀ e ∈ l.context, e.2.Plain) (path : String) :
    Repeats w₀ (fun given ↦ ∀ e ∈ given, e.2.Plain) (l.givenNames path) := by
  have hrun : l.givenNames path w₀ = .ok _ w₀ := rfl
  exact .look (fun hw ↦ by rw [hw.environment_eq, hw.files_eq])
    (.pure (plain_givenNames hcontext hrun))

theorem repeats_expand (hcontext : ∀ e ∈ l.context, e.2.Plain) (path text : String) :
    Repeats w₀ (fun _ ↦ True) (l.expand path text) := by
  refine (repeats_givenNames hcontext path).bind fun given hplain ↦ ?_
  split
  · exact .throw _
  · exact .evaluate (Template.constant_fill _ hplain)

/-! ## Loaders -/

/-- A function that decrypts passwords and a version resolver are functions of what they are asked,
and with plain values for its templates so is the loader, if that holds of its environment. -/
theorem functional_of_decrypt {c : PasswordCipher} {r : VersionResolver}
    (hcontext : ∀ e ∈ l.context, e.2.Plain)
    (henvironment : ∀ ask, l.environment = some ask →
      Repeats w₀ (fun v ↦ ∃ e, v = environmentValue e) ask)
    (hpassword : l.password = fun v ↦ ofOutcome (c.decrypt v)) (hversion : l.version = r.resolve)
    (hsources : ∀ source ∈ r.sources, source.Textual) : l.Functional w₀ where
  rendering hw hw' path text :=
    (repeats_expand hcontext path text _ _ hw hw').mono fun _ _ _ _ _ _ h ↦ h.1
  environment ask hask w w' hw hw' := by
    refine (henvironment ask hask w w' hw hw').mono ?_
    rintro _ _ _ _ _ _ ⟨rfl, e, rfl⟩
    exact ⟨e, rfl, rfl⟩
  password hw hw' v v' _ _ h := by
    rw [hpassword]
    exact c.concur_decrypt hw hw' h
  version {w w'} hw hw' package := by
    rw [hversion]
    refine (VersionResolver.repeats_resolveFrom hsources (.text package) w w' hw hw').mono ?_
    rintro _ _ _ _ _ _ ⟨rfl, s, rfl⟩
    exact (Value.Plain.scalar _).likened _ _

end Loader

/-- **The loader of a server** that was deployed for an environment with a name, or for none, has
collaborators that are functions, whether the server is far enough to know its environment or
not. -/
theorem Deployment.functional_of_buildLoader {d : Deployment} {paths : List String} {key : Value}
    {l : Loader} (h : d.buildLoader paths key w = .ok l w')
    (henvironment : ∃ e, d.environment = environmentValue e) : l.Functional w₀ := by
  have hcurrent : Repeats w₀ (fun v ↦ ∃ e, v = environmentValue e) d.currentEnvironment := by
    unfold currentEnvironment
    split
    · exact .pure henvironment
    · exact .throw _
  rw [buildLoader, get_bind] at h
  obtain ⟨c, u, -, hcreate⟩ := bind_eq_ok.mp h
  cases paths with
  | nil => cases hcreate
  | cons path rest =>
    cases hcreate
    refine Loader.functional_of_decrypt (c := c) (fun e he ↦ by cases he) ?_ rfl rfl
      VersionResolver.textual_default
    rintro ask ⟨⟩
    exact hcurrent

end LayeredConfig
