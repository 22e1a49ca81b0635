import LayeredConfig.Proofs.Loader.Calm

/-!
# Discretion

An action is discreet if it leaves files and what loaders remember alone, uses nodes through their
operations only, and comes to the same whatever the log and the memory of loaders say. Loading
itself, apart from what it remembers, is discreet if the collaborators of the loader are, and those
that come with the loader are.
-/

namespace LayeredConfig

open Memory (Follows)

/-! ## Two runs side by side -/

section Agrees

variable {ε σ α β : Type} {R : σ → σ → Prop}

/-- Two results are the same but for the states that they leave, which are related. -/
inductive Alike (R : σ → σ → Prop) : EStateM.Result ε σ α → EStateM.Result ε σ α → Prop
  | ok (a : α) {s t : σ} (h : R s t) : Alike R (.ok a s) (.ok a t)
  | error (e : ε) {s t : σ} (h : R s t) : Alike R (.error e s) (.error e t)

theorem Alike.mono {S : σ → σ → Prop} (hRS : ∀ {s t}, R s t → S s t)
    {r r' : EStateM.Result ε σ α} (h : Alike R r r') : Alike S r r' := by
  cases h with
  | ok a h => exact .ok a (hRS h)
  | error e h => exact .error e (hRS h)

/-- From related states two computations come to the same, and to related states. -/
def Agrees (R : σ → σ → Prop) (x y : EStateM ε σ α) : Prop := ∀ s t, R s t → Alike R (x s) (y t)

namespace Agrees

protected theorem pure (a : α) : Agrees R (pure a : EStateM ε σ α) (pure a) := fun _ _ h ↦ .ok a h

protected theorem throw (e : ε) : Agrees R (throw e : EStateM ε σ α) (throw e) :=
  fun _ _ h ↦ .error e h

protected theorem bind {x y : EStateM ε σ α} {k k' : α → EStateM ε σ β} (h : Agrees R x y)
    (hk : ∀ a, Agrees R (k a) (k' a)) : Agrees R (x >>= k) (y >>= k') := by
  intro s t hst
  generalize hx : x s = r
  generalize hy : y t = r'
  have hxy := h s t hst
  rw [hx, hy] at hxy
  cases hxy with
  | ok a hst' =>
    rw [bind_of_ok hx, bind_of_ok hy]
    exact hk a _ _ hst'
  | error e hst' =>
    rw [bind_of_error hx, bind_of_error hy]
    exact .error e hst'

protected theorem tryCatch {x y : EStateM ε σ α} {handler handler' : ε → EStateM ε σ α}
    (h : Agrees R x y) (hh : ∀ e, Agrees R (handler e) (handler' e)) :
    Agrees R (tryCatch x handler) (tryCatch y handler') := by
  intro s t hst
  generalize hx : x s = r
  generalize hy : y t = r'
  have hxy := h s t hst
  rw [hx, hy] at hxy
  cases hxy with
  | ok a hst' =>
    rw [tryCatch_of_ok hx, tryCatch_of_ok hy]
    exact .ok a hst'
  | error e hst' =>
    rw [tryCatch_of_error hx, tryCatch_of_error hy]
    exact hh e _ _ hst'

protected theorem map {x y : EStateM ε σ α} (h : Agrees R x y) (f : α → β) :
    Agrees R (f <$> x) (f <$> y) := by
  rw [map_eq_pure_bind, map_eq_pure_bind]
  exact h.bind fun _ ↦ .pure _

end Agrees

end Agrees

/-! ## Discreet actions -/

/-- Nodes were used through their operations only, and neither files nor what loaders remember have
changed. -/
structure World.Beside (w w' : World) : Prop where
  follows : w.memory.Follows w'.memory
  files_eq : w'.files = w.files
  memos_eq : w'.memos = w.memos

instance : IsPreorder World World.Beside where
  refl w := ⟨Std.Refl.refl w.memory, rfl, rfl⟩
  trans _ _ _ h h' := ⟨IsTrans.trans _ _ _ h.follows h'.follows, h'.files_eq.trans h.files_eq,
    h'.memos_eq.trans h.memos_eq⟩

/-- The action leaves files and what loaders remember alone, uses nodes through their operations
only, and comes to the same whatever the log and the memory of loaders say. -/
structure Discreet {α : Type} (x : Action α) : Prop where
  keeps : Keeps World.Beside x
  agrees : Agrees World.SameScene x x

theorem discreet_record (level : LogLevel) (event : String) (details : Entries Value) :
    Discreet (record level event details) where
  keeps := .modify fun w ↦ ⟨Std.Refl.refl w.memory, rfl, rfl⟩
  agrees _ _ h := .ok () ⟨h.memory_eq, h.files_eq, h.environment_eq, h.host_eq, h.tallies_eq⟩

theorem discreet_onMemory {α : Type} {x : Eval α} (hx : Keeps Follows x) :
    Discreet (onMemory x) where
  keeps w := by
    rw [after_onMemory]
    exact ⟨hx w.memory, rfl, rfl⟩
  agrees w w' hw := by
    have hlater : ∀ m, World.SameScene { w with memory := m } { w' with memory := m } := fun m ↦
      ⟨rfl, hw.files_eq, hw.environment_eq, hw.host_eq, hw.tallies_eq⟩
    cases h : x w.memory with
    | ok a m =>
      rw [onMemory_of_ok h, onMemory_of_ok (hw.memory_eq ▸ h)]
      exact .ok a (hlater m)
    | error e m =>
      rw [onMemory_of_error h, onMemory_of_error (hw.memory_eq ▸ h)]
      exact .error e (hlater m)

theorem discreet_countCall (tally : Nat) : Discreet (countCall tally) where
  keeps := .modifyGet fun w ↦ ⟨Std.Refl.refl w.memory, rfl, rfl⟩
  agrees w w' h := by
    have hcall : countCall tally w = .ok ((w'.tallies[tally]?).getD 0)
        { w with tallies := w'.tallies.modify tally (· + 1) } := by
      rw [← h.tallies_eq]
      rfl
    rw [hcall]
    exact .ok _ ⟨h.memory_eq, h.files_eq, h.environment_eq, h.host_eq, rfl⟩

/-- **What is composed of discreet actions is discreet.** -/
theorem composite_discreet : Composite Follows fun _ x ↦ Discreet x where
  pure a := ⟨.pure a, .pure a⟩
  throw f := ⟨.throw f, .throw f⟩
  bind hx hk := ⟨hx.keeps.bind fun a ↦ (hk a).keeps, hx.agrees.bind fun a ↦ (hk a).agrees⟩
  tryCatch hx hh :=
    ⟨hx.keeps.tryCatch fun f ↦ (hh f).keeps, hx.agrees.tryCatch fun f ↦ (hh f).agrees⟩
  look {_ k} hk hsame := by
    refine ⟨.bind .get fun w ↦ (hk w).keeps, fun w w' h ↦ ?_⟩
    rw [get_bind, get_bind, hsame h]
    exact (hk w').agrees w w' h
  evaluate := discreet_onMemory
  record level _ details _ := discreet_record level _ details
  count := discreet_countCall

theorem Memory.follows_event (m : Memory) (e : Event) :
    m.Follows { m with trace := m.trace.push e } := .of_forest_eq rfl

/-! ## Actions that do not call a loader -/

/-- What is remembered apart from the path. -/
def Memo.pathless (m : Memo) : Memo := { m with path := none }

/-- Nodes were used through their operations only, and what the loader of the given number remembers
is the same, but for the path. Files and all else may have changed. -/
structure World.Elsewhere (number : ℕ) (w w' : World) : Prop where
  follows : w.memory.Follows w'.memory
  size_le : w.memos.size ≤ w'.memos.size
  memo_eq : (w'.memo number).pathless = (w.memo number).pathless

instance (number : ℕ) : IsPreorder World (World.Elsewhere number) where
  refl w := ⟨Std.Refl.refl w.memory, Nat.le_refl _, rfl⟩
  trans _ _ _ h h' := ⟨IsTrans.trans _ _ _ h.follows h'.follows, Nat.le_trans h.size_le h'.size_le,
    h'.memo_eq.trans h.memo_eq⟩

theorem World.Beside.elsewhere {w w' : World} (h : w.Beside w') (number : ℕ) :
    Elsewhere number w w' where
  follows := h.follows
  size_le := Nat.le_of_eq (congrArg Array.size h.memos_eq).symm
  memo_eq := by rw [memo, memo, h.memos_eq]

/-- What is composed of actions that do not call the loader does not call it. -/
theorem composite_elsewhere (number : ℕ) :
    Composite Follows fun _ x ↦ Keeps (World.Elsewhere number) x :=
  .keeps (fun _ _ h ↦ ⟨h, Nat.le_refl _, rfl⟩)
    (fun w _ _ ↦ ⟨Std.Refl.refl w.memory, Nat.le_refl _, rfl⟩)
    fun w _ ↦ ⟨Std.Refl.refl w.memory, Nat.le_refl _, rfl⟩

/-! ## Discreet collaborators -/

namespace Loader

/-- The collaborators of the loader are discreet. -/
structure SelfContained (l : Loader) : Prop where
  environment : ∀ ask, l.environment = some ask → Discreet ask
  password : ∀ v, Discreet (l.password v)
  version : ∀ package, Discreet (l.version package)

/-- The collaborators of the loader do not call the loader. -/
structure Uncalled (l : Loader) : Prop where
  environment : ∀ ask, l.environment = some ask → Keeps (World.Elsewhere l.number) ask
  password : ∀ v, Keeps (World.Elsewhere l.number) (l.password v)
  version : ∀ package, Keeps (World.Elsewhere l.number) (l.version package)

theorem SelfContained.uncalled {l : Loader} (hl : l.SelfContained) : l.Uncalled where
  environment ask hask w := ((hl.environment ask hask).keeps w).elsewhere _
  password v w := ((hl.password v).keeps w).elsewhere _
  version package w := ((hl.version package).keeps w).elsewhere _

variable {l : Loader} {r : VersionResolver}

/-- The collaborators of a server, which are asked without leaving an event, are discreet if the one
that tells the environment is. -/
theorem selfContained_of_decrypt {c : PasswordCipher}
    (henvironment : ∀ ask, l.environment = some ask → Discreet ask)
    (hpassword : l.password = fun v ↦ ofOutcome (c.decrypt v)) (hversion : l.version = r.resolve) :
    l.SelfContained where
  environment := henvironment
  password v := by
    rw [hpassword]
    exact composite_discreet.ofOutcome _
  version package := by
    rw [hversion]
    exact composite_discreet.resolveFrom Memory.follows_event package r.sources

/-- **The collaborators that come with the loader** are discreet, however they reply. -/
theorem selfContained_of_ask {environment password version : Reply}
    (henvironment : ∀ ask, l.environment = some ask → ask = askEnvironment environment)
    (hpassword : l.password = askPassword password) (hversion : l.version = askVersion version) :
    l.SelfContained where
  environment ask hask := by
    rw [henvironment ask hask]
    exact composite_discreet.bind (composite_discreet.emit Memory.follows_event _) fun _ ↦
      composite_discreet.reply Memory.follows_event environment _
  password v := by
    rw [hpassword]
    exact composite_discreet.bind (composite_discreet.emit Memory.follows_event _) fun _ ↦
      composite_discreet.reply Memory.follows_event password v
  version package := by
    rw [hversion]
    exact composite_discreet.bind (composite_discreet.emit Memory.follows_event _) fun _ ↦
      composite_discreet.reply Memory.follows_event version package

end Loader

end LayeredConfig
