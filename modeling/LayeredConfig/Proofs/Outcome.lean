import Mathlib.Order.Defs.Unbundled

/-!
# What a computation leaves behind

A computation that fails has still changed its state. `after x s` is the state that `x` leaves
when it starts in `s`, whether it succeeds or fails, and `Keeps R x` says that the two states
always stand in the relation `R`. For a preorder this passes from the parts of a computation to
the whole, so that it only has to be shown of the few computations that write.
-/

namespace LayeredConfig

variable {ε σ α β : Type}

/-- The state that a computation leaves, also when it fails. -/
def after (x : EStateM ε σ α) (s : σ) : σ :=
  match x s with
  | .ok _ t => t
  | .error _ t => t

theorem after_of_ok {x : EStateM ε σ α} {s t : σ} {a : α} (h : x s = .ok a t) : after x s = t := by
  rw [after, h]

theorem after_of_error {x : EStateM ε σ α} {s t : σ} {e : ε} (h : x s = .error e t) :
    after x s = t := by rw [after, h]

/-- What a computation gives in a state, if it succeeds there. -/
def result? (x : EStateM ε σ α) (s : σ) : Option α :=
  match x s with
  | .ok a _ => some a
  | .error .. => none

theorem eq_ok_of_result? {x : EStateM ε σ α} {s : σ} {a : α} (h : result? x s = some a) :
    x s = .ok a (after x s) := by
  unfold result? at h
  split at h
  · next b t heq => rw [after_of_ok heq, ← Option.some.inj h, heq]
  · cases h

theorem exists_ok_of_result? {x : EStateM ε σ α} {s : σ} {a : α} (h : result? x s = some a) :
    ∃ t, x s = .ok a t := ⟨_, eq_ok_of_result? h⟩

/-- How a computation fails in a state, if it does. -/
def failure? (x : EStateM ε σ α) (s : σ) : Option ε :=
  match x s with
  | .ok .. => none
  | .error e _ => some e

theorem exists_error_of_failure? {x : EStateM ε σ α} {s : σ} {e : ε} (h : failure? x s = some e) :
    ∃ t, x s = .error e t := by
  unfold failure? at h
  split at h
  · cases h
  · next e' t heq => exact ⟨t, Option.some.inj h ▸ heq⟩

/-- Whether a computation succeeds in a state. -/
def succeeds (x : EStateM ε σ α) (s : σ) : Bool := (result? x s).isSome

theorem exists_ok_of_succeeds {x : EStateM ε σ α} {s : σ} (h : succeeds x s = true) :
    ∃ a t, x s = .ok a t := by
  obtain ⟨a, ha⟩ := Option.isSome_iff_exists.mp h
  obtain ⟨t, ht⟩ := exists_ok_of_result? ha
  exact ⟨a, t, ht⟩

theorem exists_error_of_not_succeeds {x : EStateM ε σ α} {s : σ} (h : succeeds x s = false) :
    ∃ e t, x s = .error e t := by
  rw [succeeds, result?] at h
  cases hx : x s with
  | ok a t =>
    rw [hx] at h
    cases h
  | error e t => exact ⟨e, t, rfl⟩

/-! ## Sequencing -/

section Bind

variable {x : EStateM ε σ α} {k : α → EStateM ε σ β} {s t : σ} {a : α} {e : ε}

theorem bind_of_ok (h : x s = .ok a t) : (x >>= k) s = k a t := by
  change EStateM.bind x k s = _
  rw [EStateM.bind, h]

theorem bind_of_error (h : x s = .error e t) : (x >>= k) s = .error e t := by
  change EStateM.bind x k s = _
  rw [EStateM.bind, h]

theorem map_of_ok {f : α → β} (h : x s = .ok a t) : (f <$> x) s = .ok (f a) t := by
  change EStateM.map f x s = _
  rw [EStateM.map, h]

theorem map_of_error {f : α → β} (h : x s = .error e t) : (f <$> x) s = .error e t := by
  change EStateM.map f x s = _
  rw [EStateM.map, h]

theorem error_of_map {f : α → β} (h : (f <$> x) s = .error e t) : x s = .error e t := by
  cases hx : x s with
  | ok a u =>
    rw [map_of_ok hx] at h
    cases h
  | error e' u =>
    rw [map_eq_pure_bind, bind_of_error hx] at h
    cases h
    rfl

theorem discard_of_ok (h : x s = .ok a t) : discard x s = .ok ⟨⟩ t := map_of_ok h

theorem discard_of_error (h : x s = .error e t) : discard x s = .error e t := map_of_error h

theorem get_bind (k : σ → EStateM ε σ β) (s : σ) : (get >>= k) s = k s s := rfl

theorem mapM_of_ok {f : α → EStateM ε σ β} {g : α → β} {l : List α}
    (h : ∀ a ∈ l, f a s = .ok (g a) s) : l.mapM f s = .ok (l.map g) s := by
  induction l with
  | nil => rfl
  | cons a rest ih =>
    rw [List.mapM_cons, bind_of_ok (h a List.mem_cons_self),
      bind_of_ok (ih fun b hb ↦ h b (List.mem_cons_of_mem _ hb))]
    rfl

theorem tryCatch_of_ok {handler : ε → EStateM ε σ α} (h : x s = .ok a t) :
    tryCatch x handler s = .ok a t := by
  change EStateM.tryCatch x handler s = _
  delta EStateM.tryCatch
  dsimp only
  rw [h]

theorem tryCatch_of_error {handler : ε → EStateM ε σ α} (h : x s = .error e t) :
    tryCatch x handler s = handler e t := by
  change EStateM.tryCatch x handler s = _
  delta EStateM.tryCatch
  dsimp only
  rw [h]
  rfl

/-- What is made of the result does not change the state. -/
theorem after_bind_pure (x : EStateM ε σ α) (f : α → β) (s : σ) :
    after (x >>= fun a ↦ pure (f a)) s = after x s := by
  cases h : x s with
  | ok a t =>
    rw [after_of_ok h, after, bind_of_ok h]
    rfl
  | error e t => rw [after_of_error h, after_of_error (bind_of_error h)]

/-- A sequence succeeds when both parts do. -/
theorem bind_eq_ok {b : β} {u : σ} :
    (x >>= k) s = .ok b u ↔ ∃ a t, x s = .ok a t ∧ k a t = .ok b u := by
  cases h : x s with
  | ok a t =>
    rw [bind_of_ok h]
    constructor
    · exact fun hk ↦ ⟨a, t, rfl, hk⟩
    · rintro ⟨a', t', heq, hk⟩
      cases heq
      exact hk
  | error e t =>
    rw [bind_of_error h]
    constructor
    · exact fun hk ↦ by cases hk
    · rintro ⟨a', t', heq, _⟩
      cases heq

/-- A sequence fails where its first part fails, or its second part after it. -/
theorem bind_eq_error {u : σ} :
    (x >>= k) s = .error e u ↔ x s = .error e u ∨ ∃ a t, x s = .ok a t ∧ k a t = .error e u := by
  cases h : x s with
  | ok a t =>
    rw [bind_of_ok h]
    constructor
    · exact fun hk ↦ .inr ⟨a, t, rfl, hk⟩
    · rintro (hx | ⟨a', t', heq, hk⟩)
      · cases hx
      · cases heq
        exact hk
  | error e' t =>
    rw [bind_of_error h]
    constructor
    · intro hx
      cases hx
      exact .inl rfl
    · rintro (hx | ⟨_, _, heq, _⟩)
      · cases hx
        rfl
      · cases heq

end Bind

/-! ## Relations between the state before and the state after -/

/-- The state before and the state after the computation are related. -/
def Keeps (R : σ → σ → Prop) (x : EStateM ε σ α) : Prop := ∀ s, R s (after x s)

namespace Keeps

variable {R : σ → σ → Prop} {x : EStateM ε σ α}

theorem of_ok (h : Keeps R x) {s t : σ} {a : α} (hx : x s = .ok a t) : R s t :=
  after_of_ok hx ▸ h s

theorem of_error (h : Keeps R x) {s t : σ} {e : ε} (hx : x s = .error e t) : R s t :=
  after_of_error hx ▸ h s

section Refl

variable [Std.Refl R]

protected theorem pure (a : α) : Keeps R (Pure.pure a : EStateM ε σ α) := fun s ↦ Std.Refl.refl s

protected theorem throw (e : ε) : Keeps R (throw e : EStateM ε σ α) := fun s ↦ Std.Refl.refl s

/-- A computation that changes nothing keeps every such relation. -/
theorem of_eq (h : Keeps Eq x) : Keeps R x := by
  intro s
  rw [← h s]
  exact Std.Refl.refl s

protected theorem get : Keeps R (get : EStateM ε σ σ) := fun s ↦ Std.Refl.refl s

end Refl

protected theorem modify {f : σ → σ} (h : ∀ s, R s (f s)) :
    Keeps R (modify f : EStateM ε σ Unit) := h

protected theorem modifyGet {f : σ → α × σ} (h : ∀ s, R s (f s).2) :
    Keeps R (modifyGet f : EStateM ε σ α) := h

protected theorem bind [IsTrans σ R] {k : α → EStateM ε σ β} (hx : Keeps R x)
    (hk : ∀ a, Keeps R (k a)) : Keeps R (x >>= k) := by
  intro s
  cases h : x s with
  | ok a t =>
    rw [after, bind_of_ok h, ← after]
    exact IsTrans.trans _ _ _ (hx.of_ok h) (hk a t)
  | error e t =>
    rw [after, bind_of_error h]
    exact hx.of_error h

protected theorem map [IsPreorder σ R] (hx : Keeps R x) (f : α → β) : Keeps R (f <$> x) := by
  rw [map_eq_pure_bind]
  exact hx.bind fun _ ↦ .pure _

protected theorem tryCatch [IsTrans σ R] {handler : ε → EStateM ε σ α} (hx : Keeps R x)
    (hh : ∀ e, Keeps R (handler e)) : Keeps R (tryCatch x handler) := by
  intro s
  cases h : x s with
  | ok a t =>
    rw [after_of_ok (tryCatch_of_ok h)]
    exact hx.of_ok h
  | error e t =>
    rw [after, tryCatch_of_error h, ← after]
    exact IsTrans.trans _ _ _ (hx.of_error h) (hh e t)

protected theorem forM [IsPreorder σ R] {f : α → EStateM ε σ Unit} {l : List α}
    (h : ∀ a ∈ l, Keeps R (f a)) : Keeps R (l.forM f) := by
  induction l with
  | nil => exact .pure ()
  | cons a rest ih =>
    exact (h a List.mem_cons_self).bind fun _ ↦ ih fun b hb ↦ h b (List.mem_cons_of_mem _ hb)

protected theorem mapM [IsPreorder σ R] {f : α → EStateM ε σ β} {l : List α}
    (h : ∀ a ∈ l, Keeps R (f a)) : Keeps R (l.mapM f) := by
  induction l with
  | nil => exact .pure []
  | cons a rest ih =>
    rw [List.mapM_cons]
    exact (h a List.mem_cons_self).bind fun _ ↦
      (ih fun b hb ↦ h b (List.mem_cons_of_mem _ hb)).bind fun _ ↦ .pure _

end Keeps

end LayeredConfig
