import LayeredConfig.Proofs.Loader.Calm
import LayeredConfig.Proofs.Node.Reading

/-!
# What the collaborators may do

A loader relies on two collaborators. The version of a package has to be a text, and asking for it
may change no node; asking for a password may take no part in loading otherwise. `Loader.Supplied`
says so. The collaborators that come with the loader satisfy it: however a password is revealed, and
whichever sources a version is asked from, as long as those that answer give texts.

Neither of them does more than leave events and lines in the log, which is `World.Quiet`.
-/

namespace LayeredConfig

open Memory (Beyond Reruns)
open World (Calm)

/-- The collaborators keep to what they are asked: a version is a text, telling it changes no node,
and neither they nor those that reveal passwords take part in loading otherwise. -/
structure Loader.Supplied (l : Loader) : Prop where
  password : ∀ v, Keeps (Calm l.number) (l.password v)
  version : ∀ package (w : World), w.memory.forest.Sound → ∃ version w',
    l.version (.text package) w = .ok (.text version) w' ∧ Beyond w.memory w'.memory ∧
      Calm l.number w w'

/-- A version that the collaborator tells is a text, and telling it changes no node. -/
def Loader.Telling (l : Loader) : Prop := ∀ package (w : World) v w', w.memory.forest.Sound →
  l.version (.text package) w = .ok v w' →
    (∃ version, v = .text version) ∧ Beyond w.memory w'.memory

/-- A version that the collaborator gives holds no computation, and giving it changes no node. -/
def Loader.Informs (l : Loader) : Prop := ∀ package (w : World) v w', w.memory.forest.Sound →
  l.version (.text package) w = .ok v w' →
    (w'.memory.view v).content.Settled ∧ Beyond w.memory w'.memory

theorem Loader.Telling.informs {l : Loader} (hl : l.Telling) : l.Informs := by
  intro package w v w' hw h
  obtain ⟨⟨version, rfl⟩, hbeyond⟩ := hl package w v w' hw h
  exact ⟨.scalar _, hbeyond⟩

theorem Loader.Supplied.telling {l : Loader} (hl : l.Supplied) : l.Telling := by
  intro package w v w' hw h
  obtain ⟨version, t, hversion, hbeyond, _⟩ := hl.version package w hw
  rw [hversion] at h
  cases h
  exact ⟨⟨version, rfl⟩, hbeyond⟩

/-- Nodes and computations are as before, and so is what the loader remembers. -/
structure World.Quiet (number : ℕ) (w w' : World) : Prop where
  reruns : Reruns w.memory w'.memory
  calm : Calm number w w'

instance (number : ℕ) : IsPreorder World (World.Quiet number) where
  refl w := ⟨Std.Refl.refl w.memory, Std.Refl.refl w⟩
  trans _ _ _ h h' := ⟨IsTrans.trans _ _ _ h.reruns h'.reruns, IsTrans.trans _ _ _ h.calm h'.calm⟩

open World (Quiet)

variable {number : ℕ} {α : Type}

/-- What is composed of quiet actions is quiet. -/
theorem composite_quiet : Composite Reruns fun _ x ↦ Keeps (Quiet number) x :=
  .keeps (fun w m h ↦ ⟨h, w.calm_memory m⟩)
    (fun w e h ↦ ⟨Std.Refl.refl w.memory, w.calm_push e h⟩)
    fun w _ ↦ ⟨Std.Refl.refl w.memory, Nat.le_refl _, fun h ↦ h, fun _ _ ↦ rfl⟩

theorem Memory.reruns_event (m : Memory) (e : Event) :
    Reruns m { m with trace := m.trace.push e } := ⟨rfl, rfl, fun _ ↦ rfl⟩

/-! ## Versions -/

namespace VersionSource

/-- If the source gives answers, they are texts. -/
def Textual : VersionSource → Prop
  | .answering _ version => ∃ s, version = .text s
  | _ => True

variable {source : VersionSource} {package : Value}

private theorem eq_null_of_revisionUnavailable {error : String} {w w' : World} {v : Value}
    (h : revisionUnavailable error w = .ok v w') : v = .null := by
  cases h
  rfl

/-- An answer is a text, or there is none. -/
theorem eq_null_or_text_of_lookup (hsource : source.Textual) {w w' : World} {v : Value}
    (h : source.lookup package w = .ok v w') : v = .null ∨ ∃ s, v = .text s := by
  cases source with
  | metadata =>
    obtain ⟨_, w₁, _, h⟩ := bind_eq_ok.mp h
    rw [get_bind] at h
    cases hfound : package.text?.bind fun name ↦ List.lookup name w₁.host.installed with
    | some version =>
      rw [hfound] at h
      cases h
      cases version with
      | none => exact .inl rfl
      | some s => exact .inr ⟨s, rfl⟩
    | none =>
      rw [hfound] at h
      cases hcomplaint : w₁.host.lookupComplaint with
      | some message =>
        rw [hcomplaint] at h
        cases h
      | none =>
        rw [hcomplaint] at h
        cases h
        exact .inl rfl
  | revision directory timeout =>
    obtain ⟨_, w₁, _, h⟩ := bind_eq_ok.mp h
    rw [get_bind] at h
    cases hrevision : w₁.host.revision with
    | output text =>
      rw [hrevision, revisionAnswer] at h
      rw [← (EStateM.Result.ok.inj h).1]
      split
      · exact .inl rfl
      · exact .inr ⟨_, rfl⟩
    | _ =>
      rw [hrevision, revisionAnswer] at h
      exact .inl (eq_null_of_revisionUnavailable h)
  | answering label version =>
    obtain ⟨s, hs⟩ := hsource
    obtain ⟨_, w₁, _, h⟩ := bind_eq_ok.mp h
    cases h
    exact .inr ⟨s, hs⟩
  | failing label message =>
    obtain ⟨_, w₁, _, h⟩ := bind_eq_ok.mp h
    cases h

end VersionSource

namespace VersionResolver

/-- The sources that are asked unless others are named give texts. -/
theorem textual_default : ∀ source ∈ default.sources, source.Textual := by
  intro source hsource
  rcases List.mem_pair.mp hsource with rfl | rfl <;> exact trivial

theorem answer_ok {source : VersionSource} (hsource : source.Textual) (package : Value)
    (w : World) : ∃ v w', answer package source w = .ok v w' ∧ (v = .null ∨ ∃ s, v = .text s) := by
  cases h : source.lookup package w with
  | ok v w' =>
    exact ⟨v, w', tryCatch_of_ok h, VersionSource.eq_null_or_text_of_lookup hsource h⟩
  | error failure w' => exact ⟨.null, _, tryCatch_of_error h, .inl rfl⟩

/-- **A version is always found**, and it is a text. -/
theorem resolveFrom_ok {sources : List VersionSource}
    (hsources : ∀ source ∈ sources, source.Textual) (package : Value) (w : World) :
    ∃ version w', resolveFrom package sources w = .ok (.text version) w' := by
  induction sources generalizing w with
  | nil => exact ⟨unknownVersion, w, rfl⟩
  | cons source rest ih =>
    obtain ⟨v, w', hanswer, hv⟩ := answer_ok (hsources source List.mem_cons_self) package w
    have hstep : resolveFrom package (source :: rest) w = (do
        if ← onMemory (truthyValue v) then
          record .debug "version_resolved"
            [("source", .text source.kindName), ("package", package), ("version", v)]
          return v
        resolveFrom package rest : Action Value) w' := bind_of_ok hanswer
    have htruthy : onMemory (truthyValue v) w' = .ok (w'.memory.forest.truthy v) w' := rfl
    -- an answer that counts as set is a text, and without one the rest is asked
    rw [hstep, bind_of_ok htruthy]
    split
    · next htrue =>
      rcases hv with rfl | ⟨s, rfl⟩
      · cases htrue
      · exact ⟨s, _, rfl⟩
    · exact ih (fun s hs ↦ hsources s (List.mem_cons_of_mem _ hs)) w'

end VersionResolver

/-! ## Collaborators -/

theorem quiet_resolve (r : VersionResolver) (package : Value) :
    Keeps (Quiet number) (r.resolve package) :=
  composite_quiet.resolveFrom Memory.reruns_event package r.sources

/-- A function that decrypts passwords and a version resolver that leaves no event, as a server has
them, keep to what they are asked as well. -/
theorem Loader.supplied_of_decrypt {l : Loader} {decrypt : Value → Except Failure Value}
    {r : VersionResolver} (hpassword : l.password = fun v ↦ ofOutcome (decrypt v))
    (hversion : l.version = r.resolve) (hsources : ∀ source ∈ r.sources, source.Textual) : l.Supplied where
  password v := by
    rw [hpassword]
    intro w
    have hdecrypt : Keeps (Quiet l.number) (ofOutcome (decrypt v)) := composite_quiet.ofOutcome _
    exact (hdecrypt w).calm
  version package w hw := by
    obtain ⟨version, w', hok⟩ := VersionResolver.resolveFrom_ok hsources (.text package) w
    have hresolve : Keeps (Quiet l.number) (r.resolve (.text package)) := quiet_resolve r _
    have hquiet := hresolve.of_ok hok
    exact ⟨version, w', by rw [hversion]; exact hok, hquiet.reruns.beyond hw, hquiet.calm⟩

/-- **The collaborators that come with the loader** keep to what they are asked. -/
theorem Loader.supplied_of_ask {l : Loader} {password : Reply} {r : VersionResolver}
    (hpassword : l.password = askPassword password)
    (hversion : l.version = askVersion (.versions r))
    (hsources : ∀ source ∈ r.sources, source.Textual) : l.Supplied where
  password v := by
    rw [hpassword]
    intro w
    have hask : Keeps (Quiet l.number) (askPassword password v) :=
      composite_quiet.bind (composite_quiet.emit Memory.reruns_event _) fun _ ↦
        composite_quiet.reply Memory.reruns_event password v
    exact (hask w).calm
  version package w hw := by
    have hask : Keeps (Quiet l.number) (askVersion (.versions r) (.text package)) :=
      composite_quiet.bind (composite_quiet.emit Memory.reruns_event _) fun _ ↦ quiet_resolve r _
    have hemit : onMemory (emit (.versionAsked (.text package))) w = .ok () _ := onMemory_of_ok rfl
    obtain ⟨version, w', hok⟩ := VersionResolver.resolveFrom_ok hsources (.text package) _
    have hrun : askVersion (.versions r) (.text package) w = .ok (.text version) w' :=
      (bind_of_ok hemit).trans hok
    have hquiet := hask.of_ok hrun
    exact ⟨version, w', by rw [hversion, hrun], hquiet.reruns.beyond hw, hquiet.calm⟩

end LayeredConfig
