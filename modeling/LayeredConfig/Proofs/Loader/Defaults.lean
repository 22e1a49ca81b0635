import LayeredConfig.Proofs.Loader.Deriving

/-!
# The derived values one by one

Deriving values writes under a few keys only. The two predicates and the version are what they are
whatever the file says about them, a default gives way to what the file says, and every other key
is left alone, the mode among them.
-/

namespace LayeredConfig

namespace Derived

variable {fields : Entries Blueprint} {key name version : String} {s : Scalar}

/-- The keys under which values are derived. -/
def keys : List String :=
  ["is_katello", "is_headpin", "app_name", "use_cp", "use_pulp", "use_foreman",
    "use_elasticsearch", "email_reply_address", "katello_version"]

theorem found_of_find? {b : Blueprint} (h : fields.find? key = some b) : found fields key = b := by
  rw [found, h, Option.getD_some]

/-! ## What one derived value leaves alone -/

theorem find?_named_of_ne (h : key ≠ "app_name") (katello : Bool) :
    (named katello fields).find? key = fields.find? key := by
  unfold named
  split
  · rfl
  · exact Entries.find?_put_of_ne h _ _

theorem find?_filled_of_ne (h : key ≠ name) (s : Scalar) :
    (filled s fields name).find? key = fields.find? key := by
  unfold filled
  split
  · exact Entries.find?_put_of_ne h _ _
  · rfl

theorem find?_foldl_filled {names : List String} (h : key ∉ names) (s : Scalar) :
    (names.foldl (filled s) fields).find? key = fields.find? key := by
  induction names generalizing fields with
  | nil => rfl
  | cons name rest ih =>
    obtain ⟨hname, hrest⟩ := not_or.mp (List.mem_cons.not.mp h)
    rw [List.foldl_cons, ih hrest, find?_filled_of_ne hname]

theorem find?_addressed_of_ne (h : key ≠ "email_reply_address") :
    (addressed fields).find? key = fields.find? key := by
  unfold addressed
  split
  · rfl
  · split
    · rfl
    · exact Entries.find?_put_of_ne h _ _

/-! ## All derived values -/

/-- Of the derived values only the name of the application may be asked for before the defaults. -/
private theorem find?_values_of_late
    (h : key ∉ ["use_cp", "use_pulp", "use_foreman", "use_elasticsearch", "email_reply_address"]) :
    (values fields).find? key =
      (named (inMode (found fields "app_mode") "katello")
        ((fields.put "is_katello" (.scalar (.bool (inMode (found fields "app_mode") "katello")))).put
          "is_headpin" (.scalar (.bool (inMode (found fields "app_mode") "headpin"))))).find? key := by
  simp only [List.mem_cons, List.not_mem_nil, or_false, not_or] at h
  obtain ⟨hcp, hpulp, hforeman, hsearch, haddress⟩ := h
  rw [values, find?_addressed_of_ne haddress,
    find?_foldl_filled (by simp [hpulp, hforeman, hsearch]), find?_filled_of_ne hcp]

theorem find?_values_katello : (values fields).find? "is_katello"
    = some (.scalar (.bool (inMode (found fields "app_mode") "katello"))) := by
  rw [find?_values_of_late (by decide), find?_named_of_ne (by decide),
    Entries.find?_put_of_ne (by decide), Entries.find?_put_self]

theorem find?_values_headpin : (values fields).find? "is_headpin"
    = some (.scalar (.bool (inMode (found fields "app_mode") "headpin"))) := by
  rw [find?_values_of_late (by decide), find?_named_of_ne (by decide), Entries.find?_put_self]

/-- A key under which nothing is derived is left alone. -/
theorem find?_values_of_not_mem (h : key ∉ keys) :
    (values fields).find? key = fields.find? key := by
  simp only [keys, List.mem_cons, List.not_mem_nil, or_false, not_or] at h
  obtain ⟨hkatello, hheadpin, hname, hcp, hpulp, hforeman, hsearch, haddress, -⟩ := h
  rw [find?_values_of_late (by simp [*]), find?_named_of_ne hname,
    Entries.find?_put_of_ne hheadpin, Entries.find?_put_of_ne hkatello]

theorem find?_all_of_not_mem (h : key ∉ keys) :
    (all version fields).find? key = fields.find? key := by
  have hversion : key ≠ "katello_version" := by
    rintro rfl
    exact h (by decide)
  rw [all, Entries.find?_put_of_ne hversion, find?_values_of_not_mem h]

theorem find?_all_version : (all version fields).find? "katello_version"
    = some (.scalar (.text version)) := Entries.find?_put_self _ _ _

theorem find?_all_katello : (all version fields).find? "is_katello"
    = some (.scalar (.bool (inMode (found fields "app_mode") "katello"))) := by
  rw [all, Entries.find?_put_of_ne (by decide), find?_values_katello]

theorem find?_all_headpin : (all version fields).find? "is_headpin"
    = some (.scalar (.bool (inMode (found fields "app_mode") "headpin"))) := by
  rw [all, Entries.find?_put_of_ne (by decide), find?_values_headpin]

/-- **The application has a name**, the one in the file or that of its mode. -/
theorem exists_name (version : String) (fields : Entries Blueprint) :
    ∃ b, (all version fields).find? "app_name" = some b ∧ b.tree.truthy = true := by
  rw [all, Entries.find?_put_of_ne (by decide), find?_values_of_late (by decide), named]
  split
  · next htruthy =>
    cases hname : Entries.find? "app_name" _ with
    | none =>
      rw [found, hname] at htruthy
      cases htruthy
    | some b =>
      rw [found_of_find? hname] at htruthy
      exact ⟨b, rfl, htruthy⟩
  · refine ⟨_, Entries.find?_put_self _ _ _, ?_⟩
    cases inMode (found fields "app_mode") "katello" <;> decide

/-- The mode is the one with this name exactly if it is named so. -/
theorem inMode_text (mode name : String) :
    inMode (.scalar (.text mode)) name = decide (mode = name) := rfl

end Derived

end LayeredConfig
