import LayeredConfig.Proofs.Tree.Blueprint

/-!
# Supplying what is missing

Some keys of a tree are given a value unless they have one. What counts as having one differs from
key to key: a name and an address must be truthy, and a switch must only be something. Supplying
keeps the keys that are there, with their order and whatever else they lead to, and it leaves no
gap, so that supplying once more changes nothing (`Gaps.eq_none_of_supplied`).
-/

namespace LayeredConfig

/-! ## Entries -/

namespace Entries

variable {α : Type} {key other : String} {value : Option α} {entries : Entries α}

/-- Entries with the given values written; a key without a value is left as it is. -/
def supply (entries : Entries α) (values : Entries (Option α)) : Entries α :=
  values.foldl (fun all e ↦ e.2.elim all fun a ↦ all.put e.1 a) entries

theorem supply_cons (entries : Entries α) (e : String × Option α) (rest : Entries (Option α)) :
    supply entries (e :: rest) = supply (supply entries [e]) rest := rfl

theorem supply_append (entries : Entries α) (values rest : Entries (Option α)) :
    supply entries (values ++ rest) = supply (supply entries values) rest := List.foldl_append

theorem find?_supply_self (key : String) (value : Option α) (entries : Entries α) :
    (supply entries [(key, value)]).find? key = value.or (entries.find? key) := by
  cases value with
  | none => rfl
  | some a => exact find?_put_self key a entries

theorem find?_supply_of_ne (h : other ≠ key) (value : Option α) (entries : Entries α) :
    (supply entries [(key, value)]).find? other = entries.find? other := by
  cases value with
  | none => rfl
  | some a => exact find?_put_of_ne h a entries

/-- **What stands under a key** when values have been supplied. -/
theorem find?_supply {values : Entries (Option α)} (h : values.keys.Nodup) (entries : Entries α)
    (key : String) : (supply entries values).find? key
      = (values.find? key).join.or (entries.find? key) := by
  induction values generalizing entries with
  | nil => rfl
  | cons e rest ih =>
    obtain ⟨k, value⟩ := e
    obtain ⟨hk, hrest⟩ := List.nodup_cons.mp h
    rw [supply_cons, ih hrest, find?]
    split
    · next heq =>
      subst heq
      rw [find?_eq_none_iff.mpr hk, find?_supply_self]
      rfl
    · next hne => rw [find?_supply_of_ne (Ne.symm hne)]

theorem find?_supply_of_notMem {values : Entries (Option α)} (h : key ∉ values.keys)
    (entries : Entries α) : (supply entries values).find? key = entries.find? key := by
  induction values generalizing entries with
  | nil => rfl
  | cons e rest ih =>
    obtain ⟨k, value⟩ := e
    rw [keys, List.map_cons, List.mem_cons, not_or] at h
    rw [supply_cons, ih h.2, find?_supply_of_ne h.1]

/-- **The keys that were there** stand first, in the order in which they stood. -/
theorem keys_supply (entries : Entries α) (values : Entries (Option α)) :
    ∃ added, (∀ key ∈ added, key ∈ values.keys) ∧
      (supply entries values).keys = entries.keys ++ added := by
  induction values generalizing entries with
  | nil => exact ⟨[], nofun, (List.append_nil _).symm⟩
  | cons e rest ih =>
    obtain ⟨k, value⟩ := e
    obtain ⟨added, hadded, hkeys⟩ := ih (supply entries [(k, value)])
    obtain ⟨first, hfirst, hone⟩ : ∃ first, (∀ key ∈ first, key = k) ∧
        (supply entries [(k, value)]).keys = entries.keys ++ first := by
      cases value with
      | none => exact ⟨[], nofun, (List.append_nil _).symm⟩
      | some a =>
        change ∃ first, _ ∧ (put k a entries).keys = _
        rw [keys_put]
        split
        · exact ⟨[], nofun, (List.append_nil _).symm⟩
        · exact ⟨[k], fun _ ↦ List.mem_singleton.mp, rfl⟩
    refine ⟨first ++ added, fun key hkey ↦ ?_, ?_⟩
    · rcases List.mem_append.mp hkey with hkey | hkey
      · exact List.mem_cons.mpr (.inl (hfirst key hkey))
      · exact List.mem_cons_of_mem _ (hadded key hkey)
    · rw [supply_cons, hkeys, hone, List.append_assoc]

theorem supply_of_none {values : Entries (Option α)} (h : ∀ e ∈ values, e.2 = none)
    (entries : Entries α) : supply entries values = entries := by
  induction values with
  | nil => rfl
  | cons e rest ih =>
    obtain ⟨k, value⟩ := e
    obtain rfl : value = none := h (k, value) List.mem_cons_self
    exact ih fun e he ↦ h e (List.mem_cons_of_mem _ he)

end Entries

/-! ## Gaps -/

/-- Nothing at all. -/
def Tree.isNull : Tree → Bool
  | .scalar .null => true
  | _ => false

theorem Tree.eq_null_of_isNull {t : Tree} (h : t.isNull = true) : t = .scalar .null := by
  unfold isNull at h
  split at h
  · rfl
  · cases h

namespace Gaps

variable {fields fields' : Entries Tree} {key : String} {b b' katello katello' : Bool}
  {names names' : DeferredId → String}

/-- What is found under a key; nothing if the key is not there. -/
def under (fields : Entries Tree) (key : String) : Tree :=
  (fields.find? key).getD (.scalar .null)

theorem under_congr (h : fields'.find? key = fields.find? key) :
    under fields' key = under fields key := by rw [under, h, under]

/-- Whether the mode is the given one. -/
def inMode (fields : Entries Tree) (mode : String) : Bool :=
  (under fields "app_mode").equal (.scalar (.text mode))

/-! ### Names -/

/-- A name for an application that has none. -/
def name (katello : Bool) (fields : Entries Tree) : Option Tree :=
  if (under fields "app_name").truthy then none
  else some (.scalar (.text (if katello then "Katello" else "Headpin")))

theorem name_congr (h : fields'.find? "app_name" = fields.find? "app_name") :
    name katello fields' = name katello fields := by rw [name, under_congr h, name]

theorem name_of_supplied
    (h : fields'.find? "app_name" = (name katello fields).or (fields.find? "app_name")) :
    name katello' fields' = none := by
  cases hset : (under fields "app_name").truthy with
  | true =>
    rw [name, hset, if_pos rfl, Option.none_or] at h
    rw [name, under_congr h, hset, if_pos rfl]
  | false =>
    rw [name, hset, if_neg Bool.false_ne_true, Option.some_or] at h
    rw [name, under, h]
    cases katello <;> rfl

/-! ### Switches -/

/-- A value for a switch that is nothing. -/
def switch (b : Bool) (fields : Entries Tree) (key : String) : Option Tree :=
  if (under fields key).isNull then some (.scalar (.bool b)) else none

theorem switch_congr (h : fields'.find? key = fields.find? key) :
    switch b fields' key = switch b fields key := by rw [switch, under_congr h, switch]

theorem switch_of_supplied
    (h : fields'.find? key = (switch b fields key).or (fields.find? key)) :
    switch b' fields' key = none := by
  cases hnull : (under fields key).isNull with
  | true =>
    rw [switch, hnull, if_pos rfl, Option.some_or] at h
    rw [switch, under, h]
    rfl
  | false =>
    rw [switch, hnull, if_neg Bool.false_ne_true, Option.none_or] at h
    rw [switch, under_congr h, hnull, if_neg Bool.false_ne_true]

/-! ### Addresses -/

/-- An address on the host, if there is a host and no address. -/
def address (names : DeferredId → String) (fields : Entries Tree) : Option Tree :=
  if (under fields "email_reply_address").truthy then none
  else (fields.find? "host").map fun host ↦
    .scalar (.text ("no-reply@" ++ host.display names))

theorem address_congr (h : fields'.find? "email_reply_address" = fields.find? "email_reply_address")
    (hhost : fields'.find? "host" = fields.find? "host") :
    address names fields' = address names fields := by
  rw [address, under_congr h, hhost, address]

/-- Whatever the address was, what is supplied is one if there is a host. -/
theorem truthy_address (host : Tree) :
    (Tree.scalar (.text ("no-reply@" ++ host.display names))).truthy = true := by
  simp [Tree.truthy, Scalar.truthy]

theorem address_of_supplied (h : fields'.find? "email_reply_address"
      = (address names fields).or (fields.find? "email_reply_address"))
    (hhost : fields'.find? "host" = fields.find? "host") : address names' fields' = none := by
  cases hset : (under fields "email_reply_address").truthy with
  | true =>
    rw [address, hset, if_pos rfl, Option.none_or] at h
    rw [address, under_congr h, hset, if_pos rfl]
  | false =>
    rw [address, hset, if_neg Bool.false_ne_true] at h
    cases hfound : fields.find? "host" with
    | none => rw [address, hhost, hfound, Option.map_none, ite_self]
    | some host =>
      rw [hfound, Option.map_some, Option.some_or] at h
      rw [address, under, h, Option.getD_some, truthy_address, if_pos rfl]

/-! ### All gaps -/

/-- The values for all gaps. -/
def values (names : DeferredId → String) (katello : Bool) (fields : Entries Tree) :
    Entries (Option Tree) :=
  [("app_name", name katello fields), ("use_cp", switch true fields "use_cp"),
    ("use_pulp", switch katello fields "use_pulp"),
    ("use_foreman", switch katello fields "use_foreman"),
    ("use_elasticsearch", switch katello fields "use_elasticsearch"),
    ("email_reply_address", address names fields)]

/-- The keys that may have a gap. -/
def keys : List String :=
  ["app_name", "use_cp", "use_pulp", "use_foreman", "use_elasticsearch", "email_reply_address"]

/-- Whether there is a gap depends on the host and on what stands under the keys. -/
theorem values_congr (h : ∀ key ∈ "host" :: keys, fields'.find? key = fields.find? key) :
    values names katello fields' = values names katello fields := by
  rw [values, values, name_congr (h _ (by decide)), switch_congr (h _ (by decide)),
    switch_congr (h _ (by decide)), switch_congr (h _ (by decide)), switch_congr (h _ (by decide)),
    address_congr (h _ (by decide)) (h _ (by decide))]

/-- What is supplied is a scalar. -/
theorem scalar_of_mem_values {t : Tree} (h : (key, some t) ∈ values names katello fields) :
    ∃ s, t = .scalar s := by
  have hname : name katello fields = some t → ∃ s, t = .scalar s := by
    unfold name
    split <;> rintro ⟨⟩
    exact ⟨_, rfl⟩
  have hswitch : ∀ {b key}, switch b fields key = some t → ∃ s, t = .scalar s := by
    intro b key
    unfold switch
    split <;> rintro ⟨⟩
    exact ⟨_, rfl⟩
  have haddress : address names fields = some t → ∃ s, t = .scalar s := by
    unfold address
    split
    · rintro ⟨⟩
    · intro h
      obtain ⟨host, -, rfl⟩ := Option.map_eq_some_iff.mp h
      exact ⟨_, rfl⟩
  simp only [values, List.mem_cons, Prod.mk.injEq, List.not_mem_nil, or_false] at h
  rcases h with ⟨-, h⟩ | ⟨-, h⟩ | ⟨-, h⟩ | ⟨-, h⟩ | ⟨-, h⟩ | ⟨-, h⟩
  · exact hname h.symm
  · exact hswitch h.symm
  · exact hswitch h.symm
  · exact hswitch h.symm
  · exact hswitch h.symm
  · exact haddress h.symm

/-- **Where values have been supplied there is no gap left.** -/
theorem eq_none_of_supplied (h : ∀ key ∈ "host" :: keys, fields'.find? key
      = ((values names katello fields).find? key).join.or (fields.find? key)) :
    ∀ e ∈ values names' katello' fields', e.2 = none := by
  have hname : name katello' fields' = none := name_of_supplied (h "app_name" (by decide))
  have hcandlepin : switch true fields' "use_cp" = none := switch_of_supplied (h _ (by decide))
  have hservice : ∀ key ∈ ["use_pulp", "use_foreman", "use_elasticsearch"],
      switch katello' fields' key = none := by
    simp only [List.forall_mem_cons]
    exact ⟨switch_of_supplied (h _ (by decide)), switch_of_supplied (h _ (by decide)),
      switch_of_supplied (h _ (by decide)), nofun⟩
  have haddress : address names' fields' = none :=
    address_of_supplied (h "email_reply_address" (by decide)) (h "host" (by decide))
  simp only [values, List.forall_mem_cons]
  exact ⟨hname, hcandlepin, hservice _ (by decide), hservice _ (by decide), hservice _ (by decide),
    haddress, nofun⟩

end Gaps

end LayeredConfig
