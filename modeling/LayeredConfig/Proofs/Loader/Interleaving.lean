import LayeredConfig.Proofs.Loader.Factories

/-!
# Threads that share a loader compute each view once

The invariant ties four things together: what is remembered, who holds the lock, where each thread
stands, and what was told so far. A thread holds the lock as often as it stands in calls that have
taken it (`Thread.holds`), so at most one thread stands inside a factory. Of the views whose factories
this thread is in nothing is remembered yet, and each was asked for by one that lies less deep
(`Callers.Sane`). So a view that is stored is none of those that are still being computed, and none
that was stored before.

Threads that do not hold the lock stand where nothing is said of what is remembered. That is why a
step of one thread needs no look at the others.
-/

namespace LayeredConfig

open World (Apart)

variable {l : Loader} {t : ThreadId} {v : ViewName} {w : World} {k : Lock} {m : Memo} {number : ℕ}

/-! ## Where threads stand -/

namespace Callers

/-- How many factories wait. -/
def length : {v : ViewName} → Callers v → ℕ
  | _, .outermost => 0
  | _, .inside _ _ callers => callers.length + 1

/-- Each factory that waits is that of a less deep view than the one it has asked for, of which
nothing is remembered; and it goes on as a factory should. -/
def Sane (number : ℕ) (m : Memo) : {v : ViewName} → Callers v → Prop
  | _, .outermost => True
  | v, .inside caller rest callers => v.depth < caller.depth ∧ caller.known m = none ∧
      (∀ a, (rest a).Tame number caller.depth) ∧ callers.Sane number m

/-- Storing what lies deeper makes no difference to the factories that wait. -/
theorem Sane.keep {callers : Callers v} (h : callers.Sane number m) {u : ViewName}
    (hu : u.depth ≤ v.depth) (a : u.Result) : callers.Sane number (u.view.keep a m) := by
  induction callers with
  | outermost => trivial
  | @inside v caller rest callers ih =>
    obtain ⟨hdepth, hknown, hrest, hsane⟩ := h
    have hne : caller ≠ u := by
      rintro rfl
      omega
    refine ⟨hdepth, ?_, hrest, ih hsane (by omega)⟩
    rw [ViewName.known_keep_of_ne hne, hknown]

end Callers

namespace Phase

variable {α : Type}

/-- How often a call that has come so far holds the lock. -/
def locked : Phase α → ℕ
  | .looking => 0
  | .waiting => 0
  | _ => 1

/-- What is remembered of a view while a thread stands in a call of it. -/
def Sane (number : ℕ) (v : ViewName) (m : Memo) : Phase v.Result → Prop
  | .computing r => v.known m = none ∧ r.Tame number v.depth
  | .storing _ => v.known m = none
  | .fetching => (v.known m).isSome
  | .leaving (.ok a) => v.known m = some a
  | .leaving (.error _) => v.known m = none
  | _ => True

end Phase

namespace Thread

/-- How often the thread holds the lock. -/
def holds : Thread → ℕ
  | .idle => 0
  | .running _ phase callers => phase.locked + callers.length

/-- The thread stands where it may with regard to what is remembered. -/
def Sane (number : ℕ) (m : Memo) : Thread → Prop
  | .idle => True
  | .running v phase callers => phase.Sane number v m ∧ callers.Sane number m

/-- The thread is inside a factory, or in a call that a factory has made. -/
def Inside : Thread → Prop
  | .idle => False
  | .running _ phase callers => (∃ r, phase = .computing r) ∨ 0 < callers.length

theorem holds_pos_of_inside {th : Thread} (h : th.Inside) : 0 < th.holds := by
  cases th with
  | idle => exact h.elim
  | running v phase callers =>
    rcases h with ⟨r, rfl⟩ | h
    · simp only [holds, Phase.locked]
      omega
    · simp only [holds]
      omega

/-- Nothing is asked of what is remembered while a thread does not hold the lock. -/
theorem sane_of_holds_eq_zero {th : Thread} (h : th.holds = 0) : th.Sane number m := by
  cases th with
  | idle => trivial
  | running v phase callers =>
    simp only [holds, Nat.add_eq_zero_iff] at h
    obtain ⟨hphase, hcallers⟩ := h
    cases callers with
    | inside caller rest callers => cases hcallers
    | outermost => cases phase <;> first | exact ⟨trivial, trivial⟩ | cases hphase

end Thread

theorem Callers.holds_resume (callers : Callers v) (outcome : Except Failure v.Result) :
    (callers.resume outcome).holds = callers.length := by
  cases callers with
  | outermost => rfl
  | inside caller rest callers => cases outcome <;> exact Nat.add_comm _ _

theorem Callers.Sane.resume {callers : Callers v} (h : callers.Sane number m)
    (outcome : Except Failure v.Result) : (callers.resume outcome).Sane number m := by
  cases callers with
  | outermost => trivial
  | inside caller rest callers =>
    obtain ⟨_, hknown, hrest, hsane⟩ := h
    cases outcome with
    | ok a => exact ⟨⟨hknown, hrest a⟩, hsane⟩
    | error f => exact ⟨⟨hknown, trivial⟩, hsane⟩

/-! ## One step of one thread -/

namespace Loader.Move

variable {th : Thread} {turn : Turn} (h : l.Move t w k th turn)

include h

/-- **What a step does to what is remembered**: nothing, unless a result is stored. -/
theorem memo_cases (hsane : th.Sane l.number (w.memo l.number)) :
    Apart l.number w turn.world ∧ (∀ u v a, turn.occurrence ≠ some (.stored u v a)) ∨
      ∃ v a callers, th = .running v (.storing a) callers ∧ turn.world = l.store v a w ∧
        turn.thread = .running v .fetching callers ∧
        turn.occurrence = some (.stored t v a) := by
  cases h with
  | stored => exact .inr ⟨_, _, _, rfl, rfl, rfl, rfl⟩
  | acted hx =>
    exact .inl ⟨hsane.1.2.1.of_ok hx, fun _ _ _ h ↦ by cases h⟩
  | failed hx =>
    exact .inl ⟨hsane.1.2.1.of_error hx, fun _ _ _ h ↦ by cases h⟩
  | _ => exact .inl ⟨Std.Refl.refl w, fun _ _ _ h ↦ by cases h⟩

/-- A step of a thread takes or gives back the lock for this thread only. -/
theorem count_of_ne {u : ThreadId} (hu : u ≠ t) : turn.lock.count u = k.count u := by
  cases h with
  | acquired hk => exact (Lock.acquire_eq_some hk).2 u hu
  | released hk => exact (Lock.release_eq_some hk).2 u hu
  | _ => rfl

/-- A thread goes on holding the lock as often as it stands in calls that have taken it. -/
theorem holds_eq (hholds : th.holds = k.count t) : turn.thread.holds = turn.lock.count t := by
  cases h with
  | acquired hk =>
    rw [(Lock.acquire_eq_some hk).1, ← hholds]
    simp only [Thread.holds, Phase.locked]
    omega
  | released hk =>
    have hcount := (Lock.release_eq_some hk).1
    rw [← hholds] at hcount
    simp only [Thread.holds, Phase.locked] at hcount
    dsimp only
    rw [Callers.holds_resume]
    omega
  | found _ =>
    simp only [Thread.holds, Phase.locked, Nat.zero_add] at hholds
    dsimp only
    rw [Callers.holds_resume, hholds]
  | asked =>
    simp only [Thread.holds, Phase.locked, Callers.length] at hholds ⊢
    omega
  | _ => exact hholds

/-- **A thread goes on standing where it may.** -/
theorem sane (hl : l.Secluded) (hmade : l.number < w.memos.size)
    (hsane : th.Sane l.number (w.memo l.number)) :
    turn.thread.Sane l.number (turn.world.memo l.number) := by
  cases h with
  | found hknown => exact hsane.2.resume _
  | missed hknown => exact ⟨trivial, hsane.2⟩
  | acquired hk => exact ⟨trivial, hsane.2⟩
  | present hknown => exact ⟨by simp [Phase.Sane, hknown], hsane.2⟩
  | entered hknown => exact ⟨⟨hknown, tame_factory hl _⟩, hsane.2⟩
  | acted hx =>
    obtain ⟨⟨hknown, hkeeps, hrest⟩, hcallers⟩ := hsane
    have hsame := (hkeeps.of_ok hx).memo_eq
    dsimp only
    rw [hsame]
    exact ⟨⟨hknown, hrest _⟩, hcallers⟩
  | failed hx =>
    obtain ⟨⟨hknown, hkeeps, _⟩, hcallers⟩ := hsane
    have hsame := (hkeeps.of_error hx).memo_eq
    dsimp only
    rw [hsame]
    exact ⟨⟨hknown, trivial⟩, hcallers⟩
  | asked =>
    obtain ⟨⟨hknown, hdepth, hrest⟩, hcallers⟩ := hsane
    exact ⟨trivial, hdepth, hknown, hrest, hcallers⟩
  | succeeded => exact ⟨hsane.1.1, hsane.2⟩
  | raised => exact ⟨hsane.1.1, hsane.2⟩
  | stored =>
    dsimp only
    rw [memo_store hmade]
    exact ⟨by simp [Phase.Sane], hsane.2.keep (Nat.le_refl _) _⟩
  | fetched hknown => exact ⟨hknown, hsane.2⟩
  | vanished hknown => exact ⟨hknown, hsane.2⟩
  | released hk => exact hsane.2.resume _

/-- **What is remembered is never replaced.** -/
theorem known_of_known (hmade : l.number < w.memos.size)
    (hsane : th.Sane l.number (w.memo l.number)) {a : v.Result}
    (hknown : v.known (w.memo l.number) = some a) :
    v.known (turn.world.memo l.number) = some a := by
  rcases h.memo_cases hsane with ⟨hsame, _⟩ | ⟨u, b, callers, rfl, hworld, _⟩
  · rw [hsame.memo_eq, hknown]
  · -- what is stored was not known, so it is another view
    have hne : v ≠ u := by
      rintro rfl
      cases hknown.symm.trans hsane.1
    rw [hworld, memo_store hmade, ViewName.known_keep_of_ne hne, hknown]

/-- What a call gives is remembered by then. -/
theorem known_of_returned (hsane : th.Sane l.number (w.memo l.number)) {u : ThreadId} {a : v.Result}
    (htold : turn.occurrence = some (.returned u v (.ok a))) :
    v.known (w.memo l.number) = some a := by
  cases h with
  | found hknown =>
    cases htold
    exact hknown
  | released hk =>
    cases htold
    exact hsane.1
  | _ => cases htold

/-- Whoever is about to store has just told what. -/
theorem told_of_storing {a : v.Result} {callers : Callers v}
    (hstoring : turn.thread = .running v (.storing a) callers) :
    turn.occurrence = some (.succeeded t v a) := by
  cases h with
  | succeeded =>
    cases hstoring
    rfl
  | @found v _ callers _ => cases callers <;> cases hstoring
  | @released v callers outcome _ _ =>
    cases callers with
    | outermost => cases hstoring
    | inside caller rest callers => cases outcome <;> cases hstoring
  | _ => cases hstoring

/-- Whoever stores, stores what the call has come to. -/
theorem stores {a : v.Result} {callers : Callers v} (hth : th = .running v (.storing a) callers) :
    turn.world = l.store v a w ∧ turn.occurrence = some (.stored t v a) := by
  subst hth
  cases h
  exact ⟨rfl, rfl⟩

/-- Whoever tells of a result has just left the factory with it. -/
theorem of_told_succeeded {u : ThreadId} {a : v.Result}
    (htold : turn.occurrence = some (.succeeded u v a)) :
    u = t ∧ ∃ callers, th = .running v (.computing (.done a)) callers ∧
      turn.thread = .running v (.storing a) callers := by
  cases h with
  | succeeded =>
    cases htold
    exact ⟨rfl, _, rfl, rfl⟩
  | _ => cases htold

end Loader.Move

/-- **A thread that has something to do can go on**, unless it waits for the lock in vain. -/
theorem Loader.exists_move {th : Thread} (hidle : th ≠ .idle) (hholds : th.holds = k.count t) :
    (∃ turn, l.Move t w k th turn) ∨
      (∃ v callers, th = .running v .waiting callers) ∧ k.acquire t = none := by
  cases th with
  | idle => exact absurd rfl hidle
  | running v phase callers =>
    cases hphase : phase with
    | looking =>
      cases hknown : v.known (w.memo l.number) with
      | some a => exact .inl ⟨_, .found hknown⟩
      | none => exact .inl ⟨_, .missed hknown⟩
    | waiting =>
      cases hk : k.acquire t with
      | some k' => exact .inl ⟨_, .acquired hk⟩
      | none => exact .inr ⟨⟨v, callers, rfl⟩, rfl⟩
    | checking =>
      cases hknown : v.known (w.memo l.number) with
      | some a => exact .inl ⟨_, .present hknown⟩
      | none => exact .inl ⟨_, .entered hknown⟩
    | computing r =>
      cases r with
      | done a => exact .inl ⟨_, .succeeded⟩
      | fail f => exact .inl ⟨_, .raised⟩
      | act x rest =>
        cases hx : x w with
        | ok b w' => exact .inl ⟨_, .acted hx⟩
        | error f w' => exact .inl ⟨_, .failed hx⟩
      | ask u rest => exact .inl ⟨_, .asked⟩
    | storing a => exact .inl ⟨_, .stored⟩
    | fetching =>
      cases hknown : v.known (w.memo l.number) with
      | some a => exact .inl ⟨_, .fetched hknown⟩
      | none => exact .inl ⟨_, .vanished hknown⟩
    | leaving outcome =>
      -- a call that is about to give the lock back holds it
      have hpos : 0 < k.count t := by
        rw [← hholds, hphase]
        simp only [Thread.holds, Phase.locked]
        omega
      obtain ⟨k', hk⟩ := (Lock.acquire_release_of_pos hpos).1
      exact .inl ⟨_, .released hk⟩

/-! ## Whole systems -/

/-- A run of the factory of the view is told to have succeeded. -/
def Occurrence.succeedsIn (v : ViewName) : Occurrence → Bool
  | .succeeded _ u _ => u = v
  | _ => false

theorem Occurrence.exists_of_succeedsIn {o : Occurrence} (h : o.succeedsIn v) :
    ∃ t a, o = .succeeded t v a := by
  cases o with
  | succeeded t u a =>
    obtain rfl : u = v := of_decide_eq_true h
    exact ⟨t, a, rfl⟩
  | _ => cases h

namespace System

/-- What holds of every state that a system comes to, together with what was told on the way. -/
structure Invariant (l : Loader) (s : System) (history : List Occurrence) : Prop where
  made : l.number < s.world.memos.size
  /-- Threads hold the lock as often as they stand in calls that have taken it. -/
  held : ∀ t, (s.threads t).holds = s.lock.count t
  sane : ∀ t, (s.threads t).Sane l.number (s.world.memo l.number)
  /-- What was given is remembered. -/
  returned : ∀ {t v a}, .returned t v (.ok a) ∈ history → v.known (s.world.memo l.number) = some a
  /-- What is about to be stored was told. -/
  pending : ∀ {t v a callers}, s.threads t = .running v (.storing a) callers →
    .succeeded t v a ∈ history
  /-- What a factory has given is remembered or about to be stored. -/
  kept : ∀ {t v a}, .succeeded t v a ∈ history → v.known (s.world.memo l.number) = some a ∨
    ∃ callers, s.threads t = .running v (.storing a) callers
  /-- What is remembered comes from a factory. -/
  earned : ∀ {v a}, v.known (s.world.memo l.number) = some a → ∃ t, .succeeded t v a ∈ history
  once : ∀ v, history.countP (·.succeedsIn v) ≤ 1

variable {s s' : System} {history : List Occurrence} {turn : Turn} {told : Option Occurrence}

@[simp] theorem take_threads_self (s : System) (t : ThreadId) (turn : Turn) :
    (s.take t turn).threads t = turn.thread := Function.update_self ..

theorem take_threads_of_ne {u : ThreadId} (h : u ≠ t) (s : System) (turn : Turn) :
    (s.take t turn).threads u = s.threads u := Function.update_of_ne h ..

theorem invariant_start (hmade : l.number < w.memos.size) (hfresh : w.memo l.number = default) :
    Invariant l (start w) [] where
  made := hmade
  held _ := rfl
  sane _ := trivial
  returned h := by cases h
  pending h := by cases h
  kept h := by cases h
  earned h := by
    rw [start, hfresh, ViewName.known_default] at h
    cases h
  once _ := Nat.zero_le _

namespace Invariant

variable (h : Invariant l s history)

include h

/-- Only one thread stands where the lock is held. -/
theorem eq_of_holds_pos {u : ThreadId} (ht : 0 < (s.threads t).holds) (hu : 0 < (s.threads u).holds) :
    t = u := by
  rw [h.held] at ht hu
  exact Lock.eq_of_count_pos ht hu

/-- A factory has not succeeded before while it is still running. -/
theorem not_succeeded {r : Routine v.Result} {callers : Callers v}
    (hth : s.threads t = .running v (.computing r) callers) {u : ThreadId} {a : v.Result} :
    .succeeded u v a ∉ history := by
  intro hmem
  have hnone : v.known (s.world.memo l.number) = none := by
    have hsane := h.sane t
    rw [hth] at hsane
    exact hsane.1.1
  rcases h.kept hmem with hknown | ⟨callers', hstoring⟩
  · cases hknown.symm.trans hnone
  · -- both threads hold the lock, so they are the same; but it stands at one place only
    have hpos : ∀ {x : ThreadId} {phase : Phase v.Result} {callers : Callers v},
        s.threads x = .running v phase callers → phase.locked = 1 → 0 < (s.threads x).holds := by
      intro x phase callers hx hphase
      rw [hx, Thread.holds, hphase]
      omega
    obtain rfl := h.eq_of_holds_pos (hpos hth rfl) (hpos hstoring rfl)
    cases hth.symm.trans hstoring

/-- Nobody else stands where something is asked of what is remembered while a thread stores. -/
theorem sane_of_ne {u : ThreadId} (hu : u ≠ t) (hmove : l.Move t s.world s.lock (s.threads t) turn) :
    (s.threads u).Sane l.number (turn.world.memo l.number) := by
  rcases hmove.memo_cases (h.sane t) with ⟨hsame, _⟩ | ⟨v, a, callers, hth, _⟩
  · rw [hsame.memo_eq]
    exact h.sane u
  · refine Thread.sane_of_holds_eq_zero (Nat.eq_zero_of_not_pos fun hpos ↦ hu ?_)
    refine h.eq_of_holds_pos hpos ?_
    rw [hth]
    exact Nat.add_pos_left Nat.one_pos _

/-- What a factory has given stays remembered or about to be stored. -/
theorem kept_take (hmove : l.Move t s.world s.lock (s.threads t) turn) {u : ThreadId}
    {a : v.Result} (hmem : .succeeded u v a ∈ turn.occurrence.toList ++ history) :
    v.known (turn.world.memo l.number) = some a ∨
      ∃ callers, (s.take t turn).threads u = .running v (.storing a) callers := by
  rcases List.mem_append.mp hmem with hnow | hbefore
  · obtain ⟨rfl, callers, _, hthread⟩ := hmove.of_told_succeeded (Option.mem_toList.mp hnow)
    exact .inr ⟨callers, by rw [take_threads_self, hthread]⟩
  · rcases h.kept hbefore with hknown | ⟨callers, hstoring⟩
    · exact .inl (hmove.known_of_known h.made (h.sane t) hknown)
    · by_cases hu : u = t
      · subst hu
        refine .inl ?_
        rw [(hmove.stores hstoring).1, Loader.memo_store h.made, ViewName.known_keep]
      · exact .inr ⟨callers, by rw [take_threads_of_ne hu, hstoring]⟩

/-- What is remembered after a step comes from a factory. -/
theorem earned_take (hmove : l.Move t s.world s.lock (s.threads t) turn) {a : v.Result}
    (hknown : v.known (turn.world.memo l.number) = some a) :
    ∃ u, .succeeded u v a ∈ turn.occurrence.toList ++ history := by
  rcases hmove.memo_cases (h.sane t) with ⟨hsame, _⟩ | ⟨u, b, callers, hth, hworld, _⟩
  · rw [hsame.memo_eq] at hknown
    exact (h.earned hknown).imp fun _ ↦ List.mem_append_right _
  · rw [hworld, Loader.memo_store h.made] at hknown
    by_cases hv : v = u
    · subst hv
      rw [ViewName.known_keep] at hknown
      cases hknown
      exact ⟨t, List.mem_append_right _ (h.pending hth)⟩
    · rw [ViewName.known_keep_of_ne hv] at hknown
      exact (h.earned hknown).imp fun _ ↦ List.mem_append_right _

/-- A step does not tell a second time that a factory has succeeded. -/
theorem once_take (hmove : l.Move t s.world s.lock (s.threads t) turn) (v : ViewName) :
    (turn.occurrence.toList ++ history).countP (·.succeedsIn v) ≤ 1 := by
  rw [List.countP_append]
  cases htold : turn.occurrence with
  | none => simpa using h.once v
  | some o =>
    by_cases ho : o.succeedsIn v
    · obtain ⟨u, a, rfl⟩ := Occurrence.exists_of_succeedsIn ho
      obtain ⟨rfl, callers, hth, _⟩ := hmove.of_told_succeeded htold
      have hnever : history.countP (·.succeedsIn v) = 0 := by
        rw [List.countP_eq_zero]
        intro o' hmem ho'
        obtain ⟨t', a', rfl⟩ := Occurrence.exists_of_succeedsIn ho'
        exact h.not_succeeded hth hmem
      rw [hnever]
      exact List.countP_le_length
    · have hnow : (some o).toList.countP (·.succeedsIn v) = 0 := by simp [ho]
      rw [hnow, Nat.zero_add]
      exact h.once v

/-- **A step of a thread keeps the invariant.** -/
theorem move (hl : l.Secluded) (hmove : l.Move t s.world s.lock (s.threads t) turn) :
    Invariant l (s.take t turn) (turn.occurrence.toList ++ history) where
  made := by
    rcases hmove.memo_cases (h.sane t) with ⟨hsame, _⟩ | ⟨v, a, _, _, hworld, _⟩
    · exact Nat.lt_of_lt_of_le h.made hsame.size_le
    · exact Nat.lt_of_lt_of_eq h.made ((congrArg (·.memos.size) hworld).trans
        (Loader.size_store a)).symm
  held u := by
    by_cases hu : u = t
    · subst hu
      rw [take_threads_self]
      exact hmove.holds_eq (h.held u)
    · rw [take_threads_of_ne hu]
      exact (h.held u).trans (hmove.count_of_ne hu).symm
  sane u := by
    by_cases hu : u = t
    · subst hu
      rw [take_threads_self]
      exact hmove.sane hl h.made (h.sane u)
    · rw [take_threads_of_ne hu]
      exact h.sane_of_ne hu hmove
  returned hmem := by
    refine hmove.known_of_known h.made (h.sane t) ?_
    rcases List.mem_append.mp hmem with hnow | hbefore
    · exact hmove.known_of_returned (h.sane t) (Option.mem_toList.mp hnow)
    · exact h.returned hbefore
  pending {u v a callers} hstoring := by
    by_cases hu : u = t
    · subst hu
      rw [take_threads_self] at hstoring
      exact List.mem_append_left _ (Option.mem_toList.mpr (hmove.told_of_storing hstoring))
    · rw [take_threads_of_ne hu] at hstoring
      exact List.mem_append_right _ (h.pending hstoring)
  kept := h.kept_take hmove
  earned := h.earned_take hmove
  once := h.once_take hmove

/-- A thread that begins a call changes nothing else. -/
theorem call {t : ThreadId} (v : ViewName) (hidle : s.threads t = .idle) :
    Invariant l { s with threads := Function.update s.threads t (.running v .looking .outermost) }
      history := by
  have hthread : ∀ u, Function.update s.threads t (.running v .looking .outermost) u = s.threads u ∨
      u = t ∧ Function.update s.threads t (.running v .looking .outermost) u
        = .running v .looking .outermost := by
    intro u
    by_cases hu : u = t
    · subst hu
      exact .inr ⟨rfl, Function.update_self ..⟩
    · exact .inl (Function.update_of_ne hu ..)
  refine ⟨h.made, fun u ↦ ?_, fun u ↦ ?_, h.returned, fun {u v' a callers} hstoring ↦ ?_,
    fun {u v' a} hmem ↦ ?_, h.earned, h.once⟩
  · obtain hu | ⟨rfl, hu⟩ := hthread u
    · exact (congrArg Thread.holds hu).trans (h.held u)
    · refine (congrArg Thread.holds hu).trans (Eq.trans ?_ (h.held u))
      rw [hidle]
      rfl
  · dsimp only
    obtain hu | ⟨rfl, hu⟩ := hthread u <;> rw [hu]
    · exact h.sane u
    · exact ⟨trivial, trivial⟩
  · obtain hu | ⟨rfl, hu⟩ := hthread u
    · exact h.pending (hu.symm.trans hstoring)
    · cases hu.symm.trans hstoring
  · refine (h.kept hmem).imp_right fun ⟨callers, hstoring⟩ ↦ ⟨callers, ?_⟩
    obtain hu | ⟨rfl, hu⟩ := hthread u
    · exact hu.trans hstoring
    · cases hidle.symm.trans hstoring

/-- What else happens keeps the invariant. -/
theorem outside {w : World} (hsame : Apart l.number s.world w) :
    Invariant l { s with world := w } history := by
  have hmemo := hsame.memo_eq
  refine ⟨Nat.lt_of_lt_of_le h.made hsame.size_le, h.held, ?_, ?_, h.pending, ?_, ?_, h.once⟩
  all_goals dsimp only; rw [hmemo]
  · exact h.sane
  · exact h.returned
  · exact h.kept
  · exact h.earned

/-- Every step keeps the invariant. -/
theorem step (hl : l.Secluded) (hstep : Step l s told s') :
    Invariant l s' (told.toList ++ history) := by
  cases hstep with
  | call t v hidle => exact h.call v hidle
  | move t hmove => exact h.move hl hmove
  | outside hsame => exact h.outside hsame

end Invariant

/-- **The invariant holds in every state that can be reached.** -/
theorem Reachable.invariant (hl : l.Secluded) (hmade : l.number < w.memos.size)
    (hfresh : w.memo l.number = default) (h : Reachable l w s history) : Invariant l s history := by
  induction h with
  | start => exact invariant_start hmade hfresh
  | step _ hstep ih => exact ih.step hl hstep

end System

end LayeredConfig
