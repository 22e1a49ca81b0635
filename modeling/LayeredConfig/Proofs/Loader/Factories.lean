import LayeredConfig.Loader.Threads
import LayeredConfig.Proofs.Loader.Calm
import LayeredConfig.Proofs.Loader.Discretion
import Mathlib.Logic.Relation

/-!
# What factories compute

A factory that runs on its own, asking for views as one asks a loader that is not shared, is the
computation behind the view (`Loader.viewed_eq`). It asks only for views that lie deeper than its
own, and between two questions it leaves alone what the loader remembers (`Routine.Tame`). So a
thread that nobody disturbs gets from a view exactly what the view gives, and holds the lock
afterwards as often as before (`Loader.alone_viewed`).
-/

namespace LayeredConfig

open World (Apart)

/-! ## What the loader remembers is left alone -/

instance (number : ℕ) : IsPreorder World (Apart number) where
  refl _ := ⟨Nat.le_refl _, rfl⟩
  trans _ _ _ h h' := ⟨Nat.le_trans h.size_le h'.size_le, h'.memo_eq.trans h.memo_eq⟩

theorem World.Apart.of_memos_eq {number : ℕ} {w w' : World} (h : w'.memos = w.memos) :
    Apart number w w' :=
  ⟨Nat.le_of_eq (congrArg Array.size h).symm, by rw [World.memo, World.memo, h]⟩

theorem keeps_apart_of_discreet {α : Type} {x : Action α} (hx : Discreet x) (number : ℕ) :
    Keeps (Apart number) x := fun w ↦ .of_memos_eq (hx.keeps w).memos_eq

/-- What is composed of actions that leave it alone leaves it alone. -/
theorem composite_apart (number : ℕ) :
    Composite Memory.Follows fun _ x ↦ Keeps (Apart number) x :=
  .keeps (fun _ _ _ ↦ .of_memos_eq rfl) (fun _ _ _ ↦ .of_memos_eq rfl) fun _ _ ↦ .of_memos_eq rfl

/-- The collaborators of the loader do not call it back. -/
structure Loader.Secluded (l : Loader) : Prop where
  environment : ∀ ask, l.environment = some ask → Keeps (Apart l.number) ask
  password : ∀ v, Keeps (Apart l.number) (l.password v)
  version : ∀ package, Keeps (Apart l.number) (l.version package)

theorem Loader.SelfContained.secluded {l : Loader} (hl : l.SelfContained) : l.Secluded where
  environment ask hask := keeps_apart_of_discreet (hl.environment ask hask) _
  password v := keeps_apart_of_discreet (hl.password v) _
  version package := keeps_apart_of_discreet (hl.version package) _

/-! ## Views -/

namespace ViewName

/-- How many views may be asked for inside one another, beginning with this one. -/
def depth : ViewName → ℕ
  | .path => 0
  | .data => 1
  | _ => 2

variable {u v : ViewName} {m : Memo}

@[simp] theorem known_keep (v : ViewName) (a : v.Result) (m : Memo) :
    v.known (v.view.keep a m) = some a := by
  cases v <;> rfl

theorem known_keep_of_ne (h : u ≠ v) (a : v.Result) (m : Memo) :
    u.known (v.view.keep a m) = u.known m := by
  cases u <;> cases v <;> first | rfl | exact absurd rfl h

@[simp] theorem known_default (v : ViewName) : v.known default = none := by
  cases v <;> rfl

end ViewName

namespace Loader

variable {l : Loader} {w : World} {u v : ViewName}

theorem size_store (a : v.Result) : (l.store v a w).memos.size = w.memos.size := Array.size_modify

theorem memo_store (hmade : l.number < w.memos.size) (a : v.Result) :
    (l.store v a w).memo l.number = v.view.keep a (w.memo l.number) := w.memo_modify _ _ hmade

/-- What the view gives when it is asked for. -/
def viewed (l : Loader) : (v : ViewName) → Action v.Result
  | .path => l.path
  | .data => l.data
  | .config => l.config
  | .early => l.earlyConfig
  | .databases => l.databases

end Loader

/-! ## Factories on their own -/

namespace Routine

variable {α : Type}

/-- Runs a computation. -/
def run (l : Loader) : Routine α → Action α
  | .done a => pure a
  | .fail f => throw f
  | .act x rest => x >>= fun b ↦ (rest b).run l
  | .ask v rest => l.viewed v >>= fun a ↦ (rest a).run l

/-- The computation leaves alone what the loader of the given number remembers, and asks only for
views of less than the given depth. -/
def Tame (number depth : ℕ) : Routine α → Prop
  | .done _ => True
  | .fail _ => True
  | .act x rest => Keeps (Apart number) x ∧ ∀ b, (rest b).Tame number depth
  | .ask v rest => v.depth < depth ∧ ∀ a, (rest a).Tame number depth

/-- The computation that ends with the outcome at once. -/
def ofOutcome : Except Failure α → Routine α
  | .ok a => .done a
  | .error f => .fail f

end Routine

namespace Loader

variable {l : Loader}

/-- **A view is what its factory computes**, unless it is remembered. -/
theorem viewed_eq (l : Loader) (v : ViewName) :
    l.viewed v = l.remembered v.view ((l.factory v).run l) := by
  cases v with
  | path =>
    have hrun : (l.factory .path).run l = l.discover := bind_pure l.discover
    rw [hrun]
    rfl
  | data =>
    have hrun : (l.factory .data).run l = l.readData := by
      simp only [factory, Routine.run, bind_pure]
      rfl
    rw [hrun]
    rfl
  | config => rfl
  | early => rfl
  | databases =>
    have hrun : (l.factory .databases).run l = l.readDatabases := by
      simp only [factory, Routine.run, bind_pure]
      rfl
    rw [hrun]
    rfl

section Tame

variable (hl : l.Secluded)

include hl

theorem tame_loading (environment : Value) : (l.loading environment).Tame l.number 2 := by
  have hc := composite_apart l.number
  have hrecord : ∀ level event details, Keeps (Apart l.number) (record level event details) :=
    fun level event details ↦ keeps_apart_of_discreet (discreet_record level event details) _
  refine ⟨Nat.one_lt_two, fun data ↦ ⟨hc.evaluate (keeps_mergeSections environment data), fun n ↦ ?_⟩⟩
  refine ⟨hc.derive hl.version n, fun _ ↦ ⟨hc.validate hrecord environment n, fun _ ↦ ?_⟩⟩
  refine ⟨hc.evaluate (Node.keeps_freeze n), fun _ ↦ ?_⟩
  refine ⟨hc.evaluate (keeps_truthyValue environment).of_eq, fun named ↦ ⟨Nat.two_pos, fun path ↦ ?_⟩⟩
  exact ⟨hrecord _ _ _, fun _ ↦ trivial⟩

/-- **Factories ask only for what lies deeper.** -/
theorem tame_factory (v : ViewName) : (l.factory v).Tame l.number v.depth := by
  have hc := composite_apart l.number
  cases v with
  | path =>
    refine ⟨?_, fun _ ↦ trivial⟩
    unfold discover
    refine .bind .get fun w ↦ ?_
    split
    · exact (hc.record _ _ (by decide)).bind fun _ ↦ .pure _
    · exact .throw _
  | data => exact ⟨Nat.one_pos, fun path ↦ ⟨hc.readFrom hl.password path, fun _ ↦ trivial⟩⟩
  | config =>
    refine ⟨?_, fun environment ↦ tame_loading hl environment⟩
    unfold currentEnvironment
    split
    · next ask hask => exact hl.environment ask hask
    · exact .throw _
  | early => exact tame_loading hl .null
  | databases =>
    refine ⟨Nat.one_lt_two, fun data ↦ ⟨hc.evaluate (keeps_databaseBlock data _), fun common ↦ ?_⟩⟩
    exact ⟨hc.evaluate (keeps_collectDatabases data common [] _), fun _ ↦ trivial⟩

end Tame

end Loader

/-! ## The lock -/

namespace Lock

variable {k k' : Lock} {t u : ThreadId}

theorem acquire_eq_some (h : k.acquire t = some k') :
    k'.count t = k.count t + 1 ∧ ∀ u, u ≠ t → k'.count u = k.count u := by
  unfold acquire at h
  split at h
  · cases h
    exact ⟨by simp [count], fun u hu ↦ by simp [count, hu]⟩
  · split at h
    · next heq =>
      subst heq
      cases h
      exact ⟨by simp [count], fun u hu ↦ by simp [count, hu]⟩
    · cases h

theorem release_eq_some (h : k.release t = some k') :
    k.count t = k'.count t + 1 ∧ ∀ u, u ≠ t → k'.count u = k.count u := by
  unfold release at h
  split at h
  · cases h
  · split at h
    · next heq =>
      subst heq
      split at h
      · cases h
        exact ⟨by simp [count], fun u hu ↦ by simp [count, hu]⟩
      · cases h
        exact ⟨by simp [count], fun u hu ↦ by simp [count, hu]⟩
    · cases h

/-- Whoever holds the lock can give it back, and can take it again. -/
theorem acquire_release_of_pos (h : 0 < k.count t) :
    (∃ k', k.release t = some k') ∧ ∃ k', k.acquire t = some k' := by
  cases k with
  | free => cases h
  | held owner again =>
    by_cases ht : t = owner
    · subst ht
      cases again <;> simp [release, acquire]
    · simp [count, ht] at h

/-- At most one thread holds the lock. -/
theorem eq_of_count_pos (ht : 0 < k.count t) (hu : 0 < k.count u) : t = u := by
  cases k with
  | free => cases ht
  | held owner again =>
    have hown : ∀ x, 0 < (held owner again).count x → x = owner := by
      intro x hx
      by_contra hne
      simp [count, hne] at hx
    exact (hown t ht).trans (hown u hu).symm

/-- Only another thread that holds the lock keeps a thread from taking it. -/
theorem exists_of_acquire_eq_none (h : k.acquire t = none) : ∃ u, u ≠ t ∧ 0 < k.count u := by
  cases k with
  | free => cases h
  | held owner again =>
    by_cases ht : t = owner
    · simp [acquire, ht] at h
    · exact ⟨owner, Ne.symm ht, by simp [count]⟩

/-- Giving back undoes taking. -/
theorem release_acquire (h : k.acquire t = some k') : k'.release t = some k := by
  unfold acquire at h
  split at h
  · cases h
    simp [release]
  · split at h
    · next heq =>
      cases h
      simp [release, heq]
    · cases h

end Lock

/-! ## A thread that nobody disturbs -/

/-- What one thread sees. -/
structure Outlook : Type 1 where
  world : World
  lock : Lock
  thread : Thread

namespace Loader

variable {l : Loader} {t : ThreadId} {u v : ViewName} {w w' : World} {k k' : Lock}

/-- The thread takes a step. -/
def Moves (l : Loader) (t : ThreadId) (s s' : Outlook) : Prop :=
  ∃ told, l.Move t s.world s.lock s.thread ⟨s'.world, s'.lock, s'.thread, told⟩

/-- The thread takes any number of steps, and nothing else happens. -/
def Alone (l : Loader) (t : ThreadId) : Outlook → Outlook → Prop := Relation.ReflTransGen (l.Moves t)

/-- The action ends with the outcome in the given world. -/
def EndsWith {α : Type} (x : Action α) (w : World) (outcome : Except Failure α) (w' : World) : Prop :=
  match outcome with
  | .ok a => x w = .ok a w'
  | .error f => x w = .error f w'

theorem EndsWith.congr {α : Type} {x y : Action α} {outcome : Except Failure α}
    (h : EndsWith x w outcome w') (hxy : x w = y w) : EndsWith y w outcome w' := by
  cases outcome <;> exact hxy.symm.trans h

/-- A sequence ends as its second part does, or with the failure of its first part. -/
theorem EndsWith.of_bind {α β : Type} {x : Action α} {next : α → Action β}
    {outcome : Except Failure β} (h : EndsWith (x >>= next) w outcome w') :
    (∃ a w₁, x w = .ok a w₁ ∧ EndsWith (next a) w₁ outcome w') ∨
      ∃ f, x w = .error f w' ∧ outcome = .error f := by
  cases outcome with
  | ok b => exact .inl (bind_eq_ok.mp h)
  | error f => exact (bind_eq_error.mp h).symm.imp id fun hx ↦ ⟨f, hx, rfl⟩

/-- What is known of a thread that asks for the view and that nobody disturbs: it comes to its
outcome, and holds the lock as often as before. -/
def Answers (l : Loader) (t : ThreadId) (v : ViewName) : Prop :=
  ∀ {w w' : World} {k k' : Lock} {outcome : Except Failure v.Result} (callers : Callers v),
    l.number < w.memos.size → k.acquire t = some k' → EndsWith (l.viewed v) w outcome w' →
    l.Alone t ⟨w, k, .running v .looking callers⟩ ⟨w', k, callers.resume outcome⟩ ∧
      l.number < w'.memos.size

/-- A factory runs to its end, if views of less depth are answered. -/
theorem alone_run (hv : ∀ u : ViewName, u.depth < v.depth → l.Answers t u) (callers : Callers v)
    {r : Routine v.Result} (hr : r.Tame l.number v.depth) {w : World}
    (hmade : l.number < w.memos.size) (hk : 0 < k.count t) {outcome : Except Failure v.Result}
    (h : EndsWith (r.run l) w outcome w') :
    l.Alone t ⟨w, k, .running v (.computing r) callers⟩
        ⟨w', k, .running v (.computing (.ofOutcome outcome)) callers⟩ ∧
      l.number < w'.memos.size := by
  induction r generalizing w with
  | done a =>
    cases outcome with
    | ok b =>
      cases h
      exact ⟨.refl, hmade⟩
    | error f => cases h
  | fail f =>
    cases outcome with
    | ok b => cases h
    | error f' =>
      cases h
      exact ⟨.refl, hmade⟩
  | act x rest ih =>
    obtain ⟨hx, hrest⟩ := hr
    obtain ⟨b, w₁, hok, hends⟩ | ⟨f, herror, rfl⟩ := h.of_bind
    · have hmove : l.Moves t ⟨w, k, .running v (.computing (.act x rest)) callers⟩
          ⟨w₁, k, .running v (.computing (rest b)) callers⟩ :=
        ⟨none, .acted hok⟩
      obtain ⟨halone, hmade'⟩ :=
        ih b (hrest b) (Nat.lt_of_lt_of_le hmade (hx.of_ok hok).size_le) hends
      exact ⟨.head hmove halone, hmade'⟩
    · have hmove : l.Moves t ⟨w, k, .running v (.computing (.act x rest)) callers⟩
          ⟨w', k, .running v (.computing (.fail f)) callers⟩ :=
        ⟨none, .failed herror⟩
      exact ⟨.single hmove, Nat.lt_of_lt_of_le hmade (hx.of_error herror).size_le⟩
  | ask u rest ih =>
    obtain ⟨hu, hrest⟩ := hr
    have hmove : l.Moves t ⟨w, k, .running v (.computing (.ask u rest)) callers⟩
        ⟨w, k, .running u .looking (.inside v rest callers)⟩ := ⟨none, .asked⟩
    obtain ⟨k', hagain⟩ := (Lock.acquire_release_of_pos hk).2
    obtain ⟨a, w₁, hok, hends⟩ | ⟨f, herror, rfl⟩ := h.of_bind
    · have hasked : EndsWith (l.viewed u) w (.ok a) w₁ := hok
      obtain ⟨hanswer, hmade₁⟩ := hv u hu (.inside v rest callers) hmade hagain hasked
      obtain ⟨halone, hmade'⟩ := ih a (hrest a) hmade₁ hends
      exact ⟨.head hmove (hanswer.trans halone), hmade'⟩
    · have hasked : EndsWith (l.viewed u) w (.error f) w' := herror
      obtain ⟨hanswer, hmade'⟩ := hv u hu (.inside v rest callers) hmade hagain hasked
      exact ⟨.head hmove hanswer, hmade'⟩

/-- A thread that finds nothing takes the lock and enters the factory. -/
theorem alone_enter {callers : Callers v} (hknown : v.known (w.memo l.number) = none)
    (hk : k.acquire t = some k') : l.Alone t ⟨w, k, .running v .looking callers⟩
      ⟨w, k', .running v (.computing (l.factory v)) callers⟩ := by
  have hlook : l.Moves t ⟨w, k, .running v .looking callers⟩
      ⟨w, k, .running v .waiting callers⟩ := ⟨none, .missed hknown⟩
  have htake : l.Moves t ⟨w, k, .running v .waiting callers⟩
      ⟨w, k', .running v .checking callers⟩ := ⟨none, .acquired hk⟩
  have hcheck : l.Moves t ⟨w, k', .running v .checking callers⟩
      ⟨w, k', .running v (.computing (l.factory v)) callers⟩ := ⟨none, .entered hknown⟩
  exact .head hlook (.head htake (.single hcheck))

/-- What the factory has given is stored and handed on, and the lock is given back. -/
theorem alone_give {callers : Callers v} (hmade : l.number < w.memos.size)
    (hk : k.acquire t = some k') (a : v.Result) :
    l.Alone t ⟨w, k', .running v (.computing (.done a)) callers⟩
      ⟨l.store v a w, k, callers.resume (.ok a)⟩ := by
  have hgive : l.Moves t ⟨w, k', .running v (.computing (.done a)) callers⟩
      ⟨w, k', .running v (.storing a) callers⟩ := ⟨_, .succeeded⟩
  have hstore : l.Moves t ⟨w, k', .running v (.storing a) callers⟩
      ⟨l.store v a w, k', .running v .fetching callers⟩ := ⟨_, .stored⟩
  have hfetch : l.Moves t ⟨l.store v a w, k', .running v .fetching callers⟩
      ⟨l.store v a w, k', .running v (.leaving (.ok a)) callers⟩ :=
    ⟨none, .fetched (by rw [memo_store hmade, ViewName.known_keep])⟩
  have hback : l.Moves t ⟨l.store v a w, k', .running v (.leaving (.ok a)) callers⟩
      ⟨l.store v a w, k, callers.resume (.ok a)⟩ := ⟨_, .released (Lock.release_acquire hk)⟩
  exact .head hgive (.head hstore (.head hfetch (.single hback)))

/-- A failure of the factory is handed on, and the lock is given back. -/
theorem alone_raise {callers : Callers v} (hk : k.acquire t = some k') (f : Failure) :
    l.Alone t ⟨w, k', .running v (.computing (.fail f)) callers⟩
      ⟨w, k, callers.resume (.error f)⟩ := by
  have hraise : l.Moves t ⟨w, k', .running v (.computing (.fail f)) callers⟩
      ⟨w, k', .running v (.leaving (.error f)) callers⟩ := ⟨_, .raised⟩
  have hback : l.Moves t ⟨w, k', .running v (.leaving (.error f)) callers⟩
      ⟨w, k, callers.resume (.error f)⟩ := ⟨_, .released (Lock.release_acquire hk)⟩
  exact .head hraise (.single hback)

/-- **A thread that nobody disturbs** gets from a view what the view gives. -/
theorem alone_viewed (hl : l.Secluded) (t : ThreadId) (v : ViewName) : l.Answers t v := by
  generalize hd : v.depth = d
  -- the views that a factory asks for are of less depth than its own
  induction d using Nat.strongRecOn generalizing v with
  | ind d ih =>
    subst hd
    intro w w' k k' outcome callers hmade hk h
    rw [viewed_eq] at h
    cases hknown : v.known (w.memo l.number) with
    | some a =>
      have hremembered : l.remembered v.view ((l.factory v).run l) w = .ok a w :=
        remembered_of_known hknown
      have hmove : l.Moves t ⟨w, k, .running v .looking callers⟩ ⟨w, k, callers.resume (.ok a)⟩ :=
        ⟨_, .found hknown⟩
      cases outcome with
      | ok b =>
        cases hremembered.symm.trans h
        exact ⟨.single hmove, hmade⟩
      | error f => cases hremembered.symm.trans h
    | none =>
      have henter : l.Alone t ⟨w, k, .running v .looking callers⟩
          ⟨w, k', .running v (.computing (l.factory v)) callers⟩ := alone_enter hknown hk
      have hheld : 0 < k'.count t := by
        rw [(Lock.acquire_eq_some hk).1]
        exact Nat.succ_pos _
      have hruns : ∀ {outcome w₁}, EndsWith ((l.factory v).run l) w outcome w₁ → _ := fun hends ↦
        alone_run (fun u hu ↦ ih _ hu u rfl) callers (tame_factory hl v) hmade hheld hends
      replace h := h.congr (remembered_of_unknown hknown)
      obtain ⟨a, w₁, hok, hends⟩ | ⟨f, herror, rfl⟩ := h.of_bind
      · have hcomputed : EndsWith ((l.factory v).run l) w (.ok a) w₁ := hok
        obtain ⟨halone, hmade₁⟩ := hruns hcomputed
        cases outcome with
        | error f => cases hends
        | ok b =>
          cases hends
          exact ⟨henter.trans (halone.trans (alone_give hmade₁ hk a)),
            Nat.lt_of_lt_of_eq hmade₁ (size_store a).symm⟩
      · have hcomputed : EndsWith ((l.factory v).run l) w (.error f) w' := herror
        obtain ⟨halone, hmade'⟩ := hruns hcomputed
        exact ⟨henter.trans (halone.trans (alone_raise hk f)), hmade'⟩

/-- What a view has given is remembered. -/
theorem known_of_viewed (hl : l.Secluded) (hmade : l.number < w.memos.size) {a : v.Result}
    (h : l.viewed v w = .ok a w') : v.known (w'.memo l.number) = some a := by
  have hends : EndsWith (l.viewed v) w (.ok a) w' := h
  have hacquired : Lock.free.acquire 0 = some (.held 0 0) := rfl
  have hmade' := (alone_viewed hl 0 v .outermost hmade hacquired hends).2
  rw [viewed_eq] at h
  cases hknown : v.known (w.memo l.number) with
  | some b =>
    have hremembered : l.remembered v.view ((l.factory v).run l) w = .ok b w :=
      remembered_of_known hknown
    cases hremembered.symm.trans h
    exact hknown
  | none =>
    obtain ⟨b, w₁, _, hstored⟩ := bind_eq_ok.mp ((remembered_of_unknown hknown).symm.trans h)
    cases hstored
    have hmade₁ : l.number < w₁.memos.size := Nat.lt_of_lt_of_eq hmade' (size_store a)
    exact (congrArg _ (memo_store hmade₁ a)).trans (ViewName.known_keep v a _)

end Loader

end LayeredConfig
