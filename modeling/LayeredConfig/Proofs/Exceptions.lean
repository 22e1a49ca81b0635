/-!
# Computations that may fail

A computation in `Except` has no state to leave behind: a sequence of them succeeds if every part
does, and fails as the first part does that fails. `Gives P x` says that what `x` gives, if it
succeeds, has the property `P`.
-/

namespace LayeredConfig

variable {ε α β γ : Type} {P : α → Prop} {Q : β → Prop}

/-! ## Sequencing -/

section Bind

variable {x : Except ε α} {k : α → Except ε β}

theorem ok_of_bind {b : β} (h : x >>= k = .ok b) : ∃ a, x = .ok a ∧ k a = .ok b := by
  cases x with
  | error e => cases h
  | ok a => exact ⟨a, rfl, h⟩

theorem error_of_bind {e : ε} (h : x >>= k = .error e) :
    x = .error e ∨ ∃ a, x = .ok a ∧ k a = .error e := by
  cases x with
  | error e' => exact .inl (congrArg Except.error (Except.error.inj h))
  | ok a => exact .inr ⟨a, rfl, h⟩

end Bind

section Traversal

variable {f : α → Except ε β} {l : List α}

theorem mapM_eq_ok {g : α → β} (h : ∀ a ∈ l, f a = .ok (g a)) : l.mapM f = .ok (l.map g) := by
  induction l with
  | nil => rfl
  | cons a rest ih =>
    rw [List.mapM_cons, h a List.mem_cons_self, ih fun b hb ↦ h b (List.mem_cons_of_mem _ hb)]
    rfl

theorem exists_ok_of_mapM {r : List β} (h : l.mapM f = .ok r) : ∀ a ∈ l, ∃ b, f a = .ok b := by
  induction l generalizing r with
  | nil => exact fun a ha ↦ absurd ha List.not_mem_nil
  | cons a rest ih =>
    rw [List.mapM_cons] at h
    obtain ⟨b, hb, h⟩ := ok_of_bind h
    obtain ⟨s, hs, _⟩ := ok_of_bind h
    exact List.forall_mem_cons.mpr ⟨⟨b, hb⟩, ih hs⟩

theorem exists_error_of_mapM {e : ε} (h : l.mapM f = .error e) : ∃ a ∈ l, f a = .error e := by
  induction l with
  | nil => cases h
  | cons a rest ih =>
    rw [List.mapM_cons] at h
    rcases error_of_bind h with ha | ⟨b, _, h⟩
    · exact ⟨a, List.mem_cons_self, ha⟩
    · rcases error_of_bind h with hrest | ⟨s, _, h⟩
      · obtain ⟨c, hc, hf⟩ := ih hrest
        exact ⟨c, List.mem_cons_of_mem _ hc, hf⟩
      · cases h

/-- If every step succeeds alike or fails with the translated error, so does the traversal. -/
theorem mapM_mapError {t : ε → ε} {g : α → γ} {f' : γ → Except ε β}
    (h : ∀ a ∈ l, f' (g a) = (f a).mapError t) : (l.map g).mapM f' = (l.mapM f).mapError t := by
  induction l with
  | nil => rfl
  | cons a rest ih =>
    rw [List.map_cons, List.mapM_cons, List.mapM_cons, h a List.mem_cons_self,
      ih fun b hb ↦ h b (List.mem_cons_of_mem _ hb)]
    cases f a with
    | error e => rfl
    | ok b => cases rest.mapM f <;> rfl

end Traversal

/-! ## What a computation gives -/

/-- If the computation succeeds, what it gives has the property. -/
def Gives (P : α → Prop) (x : Except ε α) : Prop := ∀ a, x = .ok a → P a

namespace Gives

theorem ok {a : α} (h : P a) : Gives P (.ok a : Except ε α) :=
  fun _ heq ↦ Except.ok.inj heq ▸ h

theorem error (e : ε) : Gives P (.error e : Except ε α) := fun _ heq ↦ by cases heq

theorem anything (x : Except ε α) : Gives (fun _ ↦ True) x := fun _ _ ↦ trivial

theorem bind {x : Except ε α} {k : α → Except ε β} (hx : Gives P x)
    (hk : ∀ a, P a → Gives Q (k a)) : Gives Q (x >>= k) := by
  intro b h
  obtain ⟨a, ha, hb⟩ := ok_of_bind h
  exact hk a (hx a ha) b hb

theorem mapM {f : α → Except ε β} {items : List α} (h : ∀ a ∈ items, Gives Q (f a)) :
    Gives (fun results ↦ ∀ b ∈ results, Q b) (items.mapM f) := by
  induction items with
  | nil => exact ok fun b hb ↦ absurd hb List.not_mem_nil
  | cons a rest ih =>
    rw [List.mapM_cons]
    refine (h a List.mem_cons_self).bind fun b hb ↦ ?_
    refine (ih fun c hc ↦ h c (List.mem_cons_of_mem _ hc)).bind fun results hresults ↦ ?_
    exact ok (List.forall_mem_cons.mpr ⟨hb, hresults⟩)

end Gives

end LayeredConfig
