import LayeredConfig.Proofs.Forest.Writing

/-!
# Refused merges

Converting fails before anything is written, and stored values can always be converted. So once a
merge has begun to write, only one thing can stop it: below the receiver it comes to a node that was
frozen on its own. Since a merge freezes nothing, that node was frozen and was below the receiver
from the start (`Refused.of_edited`), however much was written until then.
-/

namespace LayeredConfig

namespace Forest

variable {f g : Forest} {n a : NodeId} {key : String} {v : Value} {e : ConfigurationError}
  {kind : SeqKind} {sub : NodeId → NodeId → ForestM Unit}

/-- A merge into the node failed because it came to a frozen node. -/
structure Refused (f : Forest) (n : NodeId) (e : ConfigurationError) : Prop where
  error : e = .readOnlyNode (.scalar .null)
  frozen : ∃ c, f.Reaches n c ∧ f.frozen c = true

namespace Refused

theorem of_reaches (h : Refused f a e) (hr : f.Reaches n a) : Refused f n e := by
  obtain ⟨c, hc, hz⟩ := h.frozen
  exact ⟨h.error, c, hr.trans hc, hz⟩

/-- What refuses after some writing has been there, and frozen, before. -/
theorem of_edited (hn : n ∈ f) (hfg : Edited n f g) (h : Refused g n e) : Refused f n e := by
  obtain ⟨c, hc, hz⟩ := h.frozen
  have hcf : c ∈ f := by
    by_contra hnew
    have hopen := hfg.writable (hfg.sound.mem_of_reaches (hfg.mem hn) hc) hnew
    rw [hopen] at hz
    cases hz
  exact ⟨h.error, c, hfg.reaches hcf hc, (hfg.frozen_eq hcf).symm.trans hz⟩

end Refused

/-- A value as it is stored can be stored again. -/
theorem Sound.write_of_uniform (hf : f.Sound) (hv : v.Uniform kind) (n : NodeId) (key : String) :
    ∃ g, write n key v f = .ok () g := by
  obtain ⟨stored, g, hok, _⟩ := hf.convert_of_wellKeyed (hf.wellKeyed_view hv)
  exact ⟨_, write_eq_ok hok n key⟩

/-- One step of a merge fails only inside a node that is there already. -/
theorem Sound.refused_mergeEntry
    (hsub : ∀ {f g a b e}, f.Sound → sub a b f = .error e g → Refused f a e) (hf : f.Sound)
    (hv : v.Uniform kind) (h : mergeEntry sub n key v f = .error e g) : Refused f n e := by
  rcases entry_cases f n key v with ⟨a, b, ha, rfl⟩ | ⟨a, ha, rfl⟩ | hreplace
  · rw [mergeEntry_descend ha] at h
    exact (hsub hf h).of_reaches (reaches_of_find? ha)
  · rw [mergeEntry_keep ha] at h
    cases h
  · obtain ⟨g', hok⟩ := hf.write_of_uniform hv n key
    rw [mergeEntry_replace hreplace, hok] at h
    cases h

theorem Sound.refused_mergeEntries
    (hsub : ∀ {f g a b e}, f.Sound → sub a b f = .error e g → Refused f a e)
    (hedited : ∀ a b {f : Forest}, f.Sound → Edited a f (after (sub a b) f))
    (incoming : Entries Value) {f : Forest} (hf : f.Sound) (hn : f.frozen n = false)
    (hv : ∀ e ∈ incoming, e.2.Uniform kind)
    (h : mergeEntries sub n incoming f = .error e g) : Refused f n e := by
  induction incoming generalizing f with
  | nil => cases h
  | cons entry rest ih =>
    obtain ⟨key, v⟩ := entry
    have hstep := hf.edited_mergeEntry hedited hn key v
    rw [mergeEntries] at h
    cases heq : mergeEntry sub n key v f with
    | error e' g' =>
      rw [bind_of_error heq] at h
      cases h
      exact hf.refused_mergeEntry hsub (hv (key, v) List.mem_cons_self) heq
    | ok u f' =>
      rw [after_of_ok heq] at hstep
      rw [bind_of_ok heq] at h
      have hmem := mem_of_frozen_eq_false hn
      refine .of_edited hmem hstep (ih hstep.sound ?_ (fun e he ↦ hv e ?_) h)
      · rw [hstep.frozen_eq hmem, hn]
      · exact List.mem_cons_of_mem _ he

/-- **A merge of nodes fails** only because it comes to a frozen node. -/
theorem Sound.refused_mergeLevels (levels : ℕ) {n other : NodeId} {f g : Forest} (hf : f.Sound)
    (h : mergeLevels levels n other f = .error e g) : Refused f n e := by
  induction levels generalizing n other f g e with
  | zero => cases h
  | succ levels ih =>
    cases hn : f.frozen n with
    | true =>
      rw [mergeLevels_of_frozen hn] at h
      cases h
      exact ⟨rfl, n, .refl f n, hn⟩
    | false =>
      rw [mergeLevels_of_writable hn] at h
      refine hf.refused_mergeEntries ?_ ?_ _ hn (hf.uniform other) h
      · exact fun hf h ↦ ih hf h
      · exact fun a b f hf ↦ hf.edited_mergeLevels levels

/-- **A merge of a value that fails** has not begun to write, since the receiver is frozen or no node
can be made of the value, or it came to a frozen node below a receiver that is not frozen itself. -/
theorem Sound.mergeValue_error (hf : f.Sound) (h : mergeValue n v f = .error e g) :
    g = f ∧ (f.frozen n = true ∨ create v f = .error e f) ∨
      f.frozen n = false ∧ Refused f n e := by
  cases hn : f.frozen n with
  | true =>
    rw [mergeValue_of_frozen hn] at h
    cases h
    exact .inl ⟨rfl, .inl rfl⟩
  | false =>
    by_cases hnull : v = .null
    · rw [hnull, mergeValue_null hn] at h
      cases h
    by_cases hnode : ∃ other, v = .node other
    · obtain ⟨other, rfl⟩ := hnode
      rw [mergeValue_node hn, merge_eq] at h
      exact .inr ⟨rfl, hf.refused_mergeLevels _ h⟩
    rw [mergeValue_of_ne hn hnull fun other hv ↦ hnode ⟨other, hv⟩] at h
    rcases hf.create_cases v with ⟨o, g', hok, hmade⟩ | ⟨e', herror⟩
    · rw [bind_of_ok hok, merge_eq] at h
      have hedited := hmade.placed.edited n
      exact .inr ⟨rfl, .of_edited (mem_of_frozen_eq_false hn) hedited
        (hmade.placed.sound.refused_mergeLevels _ h)⟩
    · rw [bind_of_error herror] at h
      cases h
      exact .inl ⟨rfl, .inr herror⟩

/-- A write that fails changes nothing: the key and the value are looked at before. -/
theorem Sound.assign_error (hf : f.Sound) (h : assign n key v f = .error e g) : g = f := by
  cases hn : f.frozen n with
  | true =>
    rw [assign_of_frozen hn] at h
    cases h
    rfl
  | false =>
    rw [assign_of_writable hn, write] at h
    rcases hf.convert_cases v with ⟨stored, g', hok, _⟩ | ⟨e', herror⟩
    · rw [bind_of_ok hok] at h
      cases h
    · rw [bind_of_error herror] at h
      cases h
      rfl

end Forest

end LayeredConfig
