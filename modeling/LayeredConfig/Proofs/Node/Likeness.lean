import LayeredConfig.Proofs.Node.Drafting
import LayeredConfig.Proofs.Tree.Anonymous

/-!
# Two runs alike

The same computation, started in two states, may make different nodes and still come to the same:
both runs give values that hold the same, or both fail with the same failure but for the identities
in it. `Concur` says so of two results, together with what each run has done to its state since a
state that is fixed for it, and it is passed on from the parts of a computation to the whole.

Writing like values to like drafts is the step in which identities might have made a difference.
-/

namespace LayeredConfig

open Memory (Beyond Stored)

variable {σ α β γ δ : Type}

/-- Of two runs that were once in the states `s` and `s'`, both have given results that `Q` relates,
or both have failed in the same way; neither has done more to its state than `R` allows. -/
def Concur (R : σ → σ → Prop) (s s' : σ) (Q : α → σ → β → σ → Prop) :
    EStateM.Result Failure σ α → EStateM.Result Failure σ β → Prop
  | .ok a t, .ok b t' => R s t ∧ R s' t' ∧ Q a t b t'
  | .error e t, .error e' t' => R s t ∧ R s' t' ∧ e.anonymous = e'.anonymous
  | _, _ => False

namespace Concur

variable {R : σ → σ → Prop} {s s' t t' u u' : σ} {Q Q' : α → σ → β → σ → Prop}
  {P : γ → σ → δ → σ → Prop} {r : EStateM.Result Failure σ α} {r' : EStateM.Result Failure σ β}
  {x : EStateM Failure σ α} {x' : EStateM Failure σ β} {k : α → EStateM Failure σ γ}
  {k' : β → EStateM Failure σ δ}

/-- Either both runs succeed or both fail. -/
theorem outcome (h : Concur R s s' Q r r') :
    (∃ a t b t', r = .ok a t ∧ r' = .ok b t' ∧ R s t ∧ R s' t' ∧ Q a t b t') ∨
      ∃ e t e' t', r = .error e t ∧ r' = .error e' t' ∧ R s t ∧ R s' t' ∧
        e.anonymous = e'.anonymous := by
  cases r with
  | ok a t =>
    cases r' with
    | ok b t' => exact .inl ⟨a, t, b, t', rfl, rfl, h⟩
    | error e' t' => exact h.elim
  | error e t =>
    cases r' with
    | ok b t' => exact h.elim
    | error e' t' => exact .inr ⟨e, t, e', t', rfl, rfl, h⟩

theorem mono (h : Concur R s s' Q r r')
    (hQ : ∀ a t b t', R s t → R s' t' → Q a t b t' → Q' a t b t') : Concur R s s' Q' r r' := by
  rcases h.outcome with ⟨a, t, b, t', rfl, rfl, ht, ht', hab⟩ | ⟨e, t, e', t', rfl, rfl, h⟩
  · exact ⟨ht, ht', hQ a t b t' ht ht' hab⟩
  · exact h

/-- What each run did before may be counted in. -/
theorem since [IsTrans σ R] (h : Concur R t t' Q r r') (hs : R s t) (hs' : R s' t') :
    Concur R s s' Q r r' := by
  rcases h.outcome with ⟨a, u, b, u', rfl, rfl, hu, hu', h⟩ | ⟨e, u, e', u', rfl, rfl, hu, hu', h⟩
  · exact ⟨IsTrans.trans _ _ _ hs hu, IsTrans.trans _ _ _ hs' hu', h⟩
  · exact ⟨IsTrans.trans _ _ _ hs hu, IsTrans.trans _ _ _ hs' hu', h⟩

theorem symm (h : Concur R s s' Q r r') : Concur R s' s (fun b t' a t ↦ Q a t b t') r' r := by
  rcases h.outcome with ⟨a, t, b, t', rfl, rfl, ht, ht', h⟩ | ⟨e, t, e', t', rfl, rfl, ht, ht', h⟩
  · exact ⟨ht', ht, h⟩
  · exact ⟨ht', ht, h.symm⟩

theorem trans {s'' : σ} {r'' : EStateM.Result Failure σ γ} {Q' : β → σ → γ → σ → Prop}
    {Q'' : α → σ → γ → σ → Prop} (h : Concur R s s' Q r r') (h' : Concur R s' s'' Q' r' r'')
    (hQ : ∀ a t b t' c t'', Q a t b t' → Q' b t' c t'' → Q'' a t c t'') :
    Concur R s s'' Q'' r r'' := by
  rcases h.outcome with ⟨a, t, b, t', rfl, rfl, ht, -, hab⟩ | ⟨e, t, e', t', rfl, rfl, ht, -, he⟩
  · cases r'' with
    | ok c t'' => exact ⟨ht, h'.2.1, hQ a t b t' c t'' hab h'.2.2⟩
    | error e'' t'' => exact h'
  · cases r'' with
    | ok c t'' => exact h'
    | error e'' t'' => exact ⟨ht, h'.2.1, he.trans h'.2.2⟩

/-- More may be allowed to happen. -/
theorem allow {R' : σ → σ → Prop} {u u' : σ} (h : Concur R s s' Q r r')
    (hR : ∀ {t}, R s t → R' u t) (hR' : ∀ {t}, R s' t → R' u' t) : Concur R' u u' Q r r' := by
  rcases h.outcome with ⟨a, t, b, t', rfl, rfl, ht, ht', h⟩ | ⟨e, t, e', t', rfl, rfl, ht, ht', h⟩
  · exact ⟨hR ht, hR' ht', h⟩
  · exact ⟨hR ht, hR' ht', h⟩

/-- What is known of the first run may be added. -/
theorem and {P : α → σ → Prop} (h : Concur R s s' Q r r') (hP : ∀ a t, r = .ok a t → P a t) :
    Concur R s s' (fun a t b t' ↦ Q a t b t' ∧ P a t) r r' := by
  rcases h.outcome with ⟨a, t, b, t', rfl, rfl, ht, ht', hab⟩ | ⟨e, t, e', t', rfl, rfl, h⟩
  · exact ⟨ht, ht', hab, hP a t rfl⟩
  · exact h

/-- Whether they succeed or fail, the two runs leave states that are allowed. -/
theorem after (h : Concur R s s' Q (x u) (x' u')) :
    R s (after x u) ∧ R s' (after x' u') := by
  rcases h.outcome with ⟨a, t, b, t', hx, hx', ht, ht', -⟩ | ⟨e, t, e', t', hx, hx', ht, ht', -⟩
  · rw [after_of_ok hx, after_of_ok hx']
    exact ⟨ht, ht'⟩
  · rw [after_of_error hx, after_of_error hx']
    exact ⟨ht, ht'⟩

theorem bind (hx : Concur R s s' Q (x u) (x' u'))
    (hk : ∀ a t b t', R s t → R s' t' → Q a t b t' → Concur R s s' P (k a t) (k' b t')) :
    Concur R s s' P ((x >>= k) u) ((x' >>= k') u') := by
  rcases hx.outcome with ⟨a, t, b, t', h, h', ht, ht', hab⟩ | ⟨e, t, e', t', h, h', he⟩
  · rw [bind_of_ok h, bind_of_ok h']
    exact hk a t b t' ht ht' hab
  · rw [bind_of_error h, bind_of_error h']
    exact he

/-- What was read before makes no difference by itself. -/
theorem of_read {a : α} {b : β} (h : x u = .ok a t) (h' : x' u' = .ok b t')
    (hk : Concur R s s' P (k a t) (k' b t')) : Concur R s s' P ((x >>= k) u) ((x' >>= k') u') := by
  rw [bind_of_ok h, bind_of_ok h']
  exact hk

theorem map (hx : Concur R s s' Q (x u) (x' u')) {f : α → γ} {g : β → δ}
    (hP : ∀ a t b t', R s t → R s' t' → Q a t b t' → P (f a) t (g b) t') :
    Concur R s s' P ((f <$> x) u) ((g <$> x') u') := by
  rw [map_eq_pure_bind, map_eq_pure_bind]
  exact hx.bind fun a t b t' ht ht' hab ↦ ⟨ht, ht', hP a t b t' ht ht' hab⟩

protected theorem tryCatch {handler : Failure → EStateM Failure σ α}
    {handler' : Failure → EStateM Failure σ β} (hx : Concur R s s' Q (x u) (x' u'))
    (hh : ∀ e t e' t', R s t → R s' t' → e.anonymous = e'.anonymous →
      Concur R s s' Q (handler e t) (handler' e' t')) :
    Concur R s s' Q (tryCatch x handler u) (tryCatch x' handler' u') := by
  rcases hx.outcome with ⟨a, t, b, t', h, h', hab⟩ | ⟨e, t, e', t', h, h', ht, ht', he⟩
  · rw [tryCatch_of_ok h, tryCatch_of_ok h']
    exact hab
  · rw [tryCatch_of_error h, tryCatch_of_error h']
    exact hh e t e' t' ht ht' he

/-- Taking the same actions one after the other. -/
theorem forM {ι : Type} {f g : ι → EStateM Failure σ Unit} {l : List ι} (hu : R s u) (hu' : R s' u')
    (h : ∀ i ∈ l, ∀ t t', R s t → R s' t' →
      Concur R s s' (fun _ _ _ _ ↦ True) (f i t) (g i t')) :
    Concur R s s' (fun _ _ _ _ ↦ True) (l.forM f u) (l.forM g u') := by
  induction l generalizing u u' with
  | nil => exact ⟨hu, hu', trivial⟩
  | cons i rest ih =>
    refine (h i List.mem_cons_self u u' hu hu').bind fun _ t _ t' ht ht' _ ↦ ?_
    exact ih ht ht' fun j hj ↦ h j (List.mem_cons_of_mem _ hj)

end Concur

instance : IsTrans Memory Beyond where
  trans _ _ _ h h' := h.trans h'

/-- A key that is no text is no key of either node, or it is refused. -/
theorem Node.concur_hasKey_of_not_text {m m' : Memory} (hm : m.forest.Sound)
    (hm' : m'.forest.Sound) {key : Value} (hkey : ∀ s, key ≠ .text s) (n n' : NodeId) :
    Concur Beyond m m' (fun b t b' t' ↦ b = false ∧ b' = false ∧ t = m ∧ t' = m')
      (hasKey n key m) (hasKey n' key m') := by
  rw [hasKey_eq_of_not_text hkey, hasKey_eq_of_not_text hkey]
  cases key.unhashable? with
  | some kind => exact ⟨.refl hm, .refl hm', rfl⟩
  | none => exact ⟨.refl hm, .refl hm', rfl, rfl, rfl, rfl⟩

namespace Memory

variable {m m' m₁ m₁' : Memory} {v v' : Value} {b : Blueprint}

/-- The two values hold the same, and no computation. -/
structure Likened (m : Memory) (v : Value) (m' : Memory) (v' : Value) : Prop where
  anonymous_eq : (m.view v).anonymous = (m'.view v').anonymous
  settled : (m.view v).content.Settled

theorem Stored.likened (h : Stored m v b) (h' : Stored m' v' b) : Likened m v m' v' where
  anonymous_eq := by
    refine h.writable.standing.anonymous_congr h'.writable.standing ?_
    rw [h.content, h'.content]
  settled := h.content ▸ h.settled

namespace Likened

theorem content_eq (h : Likened m v m' v') : (m.view v).content = (m'.view v').content := by
  rw [← Tree.content_anonymous, h.anonymous_eq, Tree.content_anonymous]

theorem symm (h : Likened m v m' v') : Likened m' v' m v where
  anonymous_eq := h.anonymous_eq.symm
  settled := h.content_eq ▸ h.settled

theorem settled' (h : Likened m v m' v') : (m'.view v').content.Settled :=
  h.content_eq ▸ h.settled

/-- Either both can be stored, or neither can for the same reason. -/
theorem wellKeyed_or (h : Likened m v m' v') :
    (m.view v).WellKeyed ∧ (m'.view v').WellKeyed ∨
      ∃ fault fault', (m.view v).blueprint = .error fault ∧
        (m'.view v').blueprint = .error fault' ∧ fault.anonymous = fault'.anonymous := by
  have hsame := Tree.blueprint_anonymous (m.view v)
  rw [h.anonymous_eq, Tree.blueprint_anonymous] at hsame
  cases hplan : (m.view v).blueprint with
  | ok b =>
    rw [hplan] at hsame
    cases hplan' : (m'.view v').blueprint with
    | ok b' => exact .inl ⟨Tree.wellKeyed_of_blueprint hplan, Tree.wellKeyed_of_blueprint hplan'⟩
    | error fault' =>
      rw [hplan'] at hsame
      cases hsame
  | error fault =>
    rw [hplan] at hsame
    cases hplan' : (m'.view v').blueprint with
    | ok b' =>
      rw [hplan'] at hsame
      cases hsame
    | error fault' =>
      rw [hplan'] at hsame
      exact .inr ⟨fault, fault', rfl, rfl, (Except.error.inj hsame).symm⟩

end Likened

end Memory

/-! ## Writing -/

/-- What cannot be stored is refused. -/
theorem Node.set_of_fault {m : Memory} {n : NodeId} {key : String} {v : Value}
    {fault : StructureFault} (hn : m.forest.frozen n = false)
    (hv : (m.view v).blueprint = .error fault) :
    Node.set n (.text key) v m = .error (.configuration (.invalidStructure fault)) m := by
  have hplan : (m.forest.view v).blueprint = .error fault := hv
  have hconvert : Forest.convert v m.forest = .error (.invalidStructure fault) m.forest := by
    rw [Forest.convert, get_bind, hplan]
    rfl
  have hassign : Forest.assign n key v m.forest = .error (.invalidStructure fault) m.forest := by
    rw [Forest.assign_of_writable hn, Forest.write, bind_of_error hconvert]
  exact onForest_of_error hassign

/-- **Writing like values** comes to the same, if each of them is written wherever it can be
stored. -/
theorem Memory.Likened.set {m₀ m₀' m m' : Memory} {n n' : NodeId} {v v' : Value} {key : String}
    {Q : Memory → Memory → Prop} (h : Likened m v m' v') (hm : Beyond m₀ m) (hm' : Beyond m₀' m')
    (hn : m.forest.frozen n = false) (hn' : m'.forest.frozen n' = false)
    (hset : (m.view v).WellKeyed → (m'.view v').WellKeyed → ∃ t t',
      Node.set n (.text key) v m = .ok () t ∧ Node.set n' (.text key) v' m' = .ok () t' ∧
        Beyond m₀ t ∧ Beyond m₀' t' ∧ Q t t') :
    Concur Beyond m₀ m₀' (fun _ t _ t' ↦ Q t t') (Node.set n (.text key) v m)
      (Node.set n' (.text key) v' m') := by
  rcases h.wellKeyed_or with ⟨hv, hv'⟩ | ⟨fault, fault', hv, hv', hfault⟩
  · obtain ⟨t, t', hok, hok', ht, ht', hQ⟩ := hset hv hv'
    rw [hok, hok']
    exact ⟨ht, ht', hQ⟩
  · rw [Node.set_of_fault hn hv, Node.set_of_fault hn' hv']
    refine ⟨hm, hm', ?_⟩
    rw [Failure.anonymous, Failure.anonymous, ConfigurationError.anonymous,
      ConfigurationError.anonymous, hfault]

end LayeredConfig
