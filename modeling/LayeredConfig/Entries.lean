/-!
# Ordered entries

A mapping from text keys that remembers the order in which its keys were first written: a list of
pairs in which no key stands twice. Writing a key that is there changes its value in place;
a new key goes to the end.
-/

namespace LayeredConfig

/-- Pairs of a text key and a value, in the order of writing. -/
abbrev Entries (α : Type) := List (String × α)

namespace Entries

variable {α β : Type}

/-- The value of a key. -/
def find? (key : String) : Entries α → Option α
  | [] => none
  | (k, v) :: rest => if k = key then some v else find? key rest

/-- Writes a key. -/
def put (key : String) (value : α) : Entries α → Entries α
  | [] => [(key, value)]
  | (k, v) :: rest => if k = key then (k, value) :: rest else (k, v) :: put key value rest

/-- The entries that a list of pairs describes; of equal keys the first gives the place and the
last the value. -/
def ofPairs (pairs : List (String × α)) : Entries α :=
  pairs.foldl (fun entries e ↦ put e.1 e.2 entries) []

/-- The keys in order. -/
def keys (entries : Entries α) : List String := entries.map (·.1)

/-- The entries with every value changed. -/
def mapValues (f : α → β) (entries : Entries α) : Entries β := entries.map fun (k, v) ↦ (k, f v)

@[simp] theorem find?_nil (key : String) : find? key ([] : Entries α) = none := rfl

@[simp] theorem find?_put_self (key : String) (value : α) (entries : Entries α) :
    find? key (put key value entries) = some value := by
  induction entries with
  | nil => simp [put, find?]
  | cons e rest ih =>
    obtain ⟨k, v⟩ := e
    by_cases h : k = key
    · simp [put, find?, h]
    · simp [put, find?, h, ih]

theorem find?_put_of_ne {key other : String} (h : other ≠ key) (value : α) (entries : Entries α) :
    find? other (put key value entries) = find? other entries := by
  induction entries with
  | nil => simp [put, find?, Ne.symm h]
  | cons e rest ih =>
    obtain ⟨k, v⟩ := e
    by_cases hk : k = key
    · subst hk
      simp [put, find?, Ne.symm h]
    · simp [put, find?, hk, ih]

theorem keys_put (key : String) (value : α) (entries : Entries α) :
    (put key value entries).keys =
      if key ∈ entries.keys then entries.keys else entries.keys ++ [key] := by
  induction entries with
  | nil => simp [put, keys]
  | cons e rest ih =>
    obtain ⟨k, v⟩ := e
    by_cases h : k = key
    · simp [put, keys, h]
    · have h' : ¬key = k := fun e ↦ h e.symm
      simp only [keys] at ih
      by_cases hk : key ∈ rest.map (·.1) <;> simp [put, keys, h, h', ih, hk]

theorem mem_keys_of_mem {key : String} {value : α} {entries : Entries α}
    (h : (key, value) ∈ entries) : key ∈ entries.keys :=
  List.mem_map.mpr ⟨(key, value), h, rfl⟩

/-- Of two writes of a key the second one counts. -/
theorem put_put (key : String) (first second : α) (entries : Entries α) :
    put key second (put key first entries) = put key second entries := by
  induction entries with
  | nil => simp [put]
  | cons e rest ih =>
    obtain ⟨k, v⟩ := e
    by_cases h : k = key
    · simp [put, h]
    · simp [put, h, ih]

/-- Writing a key that stands between others changes nothing else. -/
theorem put_append_cons {key : String} {front : Entries α} (h : key ∉ front.keys) (old value : α)
    (back : Entries α) :
    put key value (front ++ (key, old) :: back) = front ++ (key, value) :: back := by
  induction front with
  | nil => simp [put]
  | cons e rest ih =>
    obtain ⟨k, v⟩ := e
    rw [keys, List.map_cons, List.mem_cons, not_or] at h
    rw [List.cons_append, put, if_neg (Ne.symm h.1), ih h.2, List.cons_append]

theorem nodup_keys_put {entries : Entries α} (h : entries.keys.Nodup) (key : String) (value : α) :
    (put key value entries).keys.Nodup := by
  rw [keys_put]
  split
  · exact h
  · next hk =>
    refine List.nodup_append.mpr ⟨h, List.pairwise_singleton _ _, fun a ha b hb hab ↦ hk ?_⟩
    rwa [← List.mem_singleton.mp hb, ← hab]

theorem mem_of_find? {key : String} {value : α} {entries : Entries α}
    (h : find? key entries = some value) : (key, value) ∈ entries := by
  induction entries with
  | nil => cases h
  | cons e rest ih =>
    obtain ⟨k, v⟩ := e
    rw [find?] at h
    split at h
    · next hk => rw [hk, Option.some.inj h]; exact List.mem_cons_self
    · exact List.mem_cons_of_mem _ (ih h)

theorem find?_eq_none_iff {key : String} {entries : Entries α} :
    find? key entries = none ↔ key ∉ entries.keys := by
  induction entries with
  | nil => simp [find?, keys]
  | cons e rest ih =>
    obtain ⟨k, v⟩ := e
    rw [find?, keys, List.map_cons, List.mem_cons, not_or]
    split
    · next hk => simp [hk]
    · next hk => exact ih.trans ⟨fun h ↦ ⟨Ne.symm hk, h⟩, And.right⟩

/-- Writing a key that is there keeps the keys and their order. -/
theorem keys_put_of_find? {key : String} {old : α} {entries : Entries α}
    (h : find? key entries = some old) (value : α) :
    (put key value entries).keys = entries.keys := by
  rw [keys_put, if_pos (mem_keys_of_mem (mem_of_find? h))]

theorem find?_of_mem {entries : Entries α} (h : entries.keys.Nodup) {key : String} {value : α}
    (hm : (key, value) ∈ entries) : find? key entries = some value := by
  induction entries with
  | nil => cases hm
  | cons e rest ih =>
    obtain ⟨k, v⟩ := e
    rw [keys, List.map_cons, List.nodup_cons] at h
    rw [find?]
    rcases List.mem_cons.mp hm with heq | hrest
    · obtain ⟨rfl, rfl⟩ := Prod.mk.inj heq
      exact if_pos rfl
    · have hne : k ≠ key := fun hk ↦ h.1 (List.mem_map.mpr ⟨_, hrest, hk.symm⟩)
      rw [if_neg hne, ih h.2 hrest]

theorem mem_put {key : String} {value : α} {entries : Entries α} {e : String × α}
    (h : e ∈ put key value entries) : e = (key, value) ∨ e ∈ entries := by
  induction entries with
  | nil => exact .inl (List.mem_singleton.mp h)
  | cons a rest ih =>
    obtain ⟨k, v⟩ := a
    rw [put] at h
    split at h
    · next hk =>
      rcases List.mem_cons.mp h with h | h
      · exact .inl (hk ▸ h)
      · exact .inr (List.mem_cons_of_mem _ h)
    · rcases List.mem_cons.mp h with h | h
      · exact .inr (h ▸ List.mem_cons_self)
      · exact (ih h).imp_right (List.mem_cons_of_mem _)

/-- If a key is given what no value has, then no two values have anything in common afterwards. -/
theorem nodup_flatMap_put {parts : α → List β} {key : String} {value : α} {entries : Entries α}
    (h : (entries.flatMap fun e ↦ parts e.2).Nodup) (hvalue : (parts value).Nodup)
    (hnew : ∀ b ∈ parts value, ∀ e ∈ entries, b ∉ parts e.2) :
    ((put key value entries).flatMap fun e ↦ parts e.2).Nodup := by
  have hdisjoint : ∀ {rest : Entries α}, (∀ e ∈ rest, e ∈ entries) →
      ∀ b ∈ parts value, b ∉ rest.flatMap fun e ↦ parts e.2 := by
    intro rest hrest b hb hmem
    obtain ⟨e, he, hbe⟩ := List.mem_flatMap.mp hmem
    exact hnew b hb e (hrest e he) hbe
  induction entries with
  | nil => simpa [put] using hvalue
  | cons e rest ih =>
    obtain ⟨k, v⟩ := e
    rw [List.flatMap_cons, List.nodup_append] at h
    obtain ⟨hv, hrest, hapart⟩ := h
    rw [put]
    split
    · rw [List.flatMap_cons, List.nodup_append]
      exact ⟨hvalue, hrest, fun a ha b hb hab ↦
        hdisjoint (fun e ↦ List.mem_cons_of_mem _) a ha (hab ▸ hb)⟩
    · rw [List.flatMap_cons, List.nodup_append]
      refine ⟨hv, ih hrest (fun b hb e he ↦ hnew b hb e (List.mem_cons_of_mem _ he))
        fun hsub b hb ↦ hdisjoint (fun e he ↦ List.mem_cons_of_mem _ (hsub e he)) b hb,
        fun a ha b hb hab ↦ ?_⟩
      obtain ⟨e, he, hbe⟩ := List.mem_flatMap.mp hb
      rcases mem_put he with rfl | he
      · exact hnew b hbe (k, v) List.mem_cons_self (hab ▸ ha)
      · exact hapart a ha b (List.mem_flatMap.mpr ⟨e, he, hbe⟩) hab

/-- Writing what is there changes nothing. -/
theorem put_of_find? {key : String} {value : α} {entries : Entries α}
    (h : find? key entries = some value) : put key value entries = entries := by
  induction entries with
  | nil => cases h
  | cons e rest ih =>
    obtain ⟨k, v⟩ := e
    rw [find?] at h
    rw [put]
    split at h
    · next hk => rw [if_pos hk, Option.some.inj h]
    · next hk => rw [if_neg hk, ih h]

theorem nodup_keys_ofPairs (pairs : List (String × α)) : (ofPairs pairs).keys.Nodup := by
  have key : ∀ (pairs : List (String × α)) (entries : Entries α), entries.keys.Nodup →
      (pairs.foldl (fun entries e ↦ put e.1 e.2 entries) entries).keys.Nodup := by
    intro pairs
    induction pairs with
    | nil => exact fun _ h ↦ h
    | cons e rest ih => exact fun _ h ↦ ih _ (nodup_keys_put h _ _)
  exact key pairs [] List.nodup_nil

theorem ofPairs_cons_ne_nil (e : String × α) (pairs : List (String × α)) :
    ofPairs (e :: pairs) ≠ [] := by
  have hput : ∀ (key : String) (value : α) (entries : Entries α), put key value entries ≠ [] := by
    intro key value entries
    cases entries with
    | nil => simp [put]
    | cons a rest =>
      rw [put]
      split <;> simp
  have key : ∀ (pairs : List (String × α)) (entries : Entries α), entries ≠ [] →
      pairs.foldl (fun entries e ↦ put e.1 e.2 entries) entries ≠ [] := by
    intro pairs
    induction pairs with
    | nil => exact fun _ h ↦ h
    | cons e rest ih => exact fun _ _ ↦ ih _ (hput _ _ _)
  exact key pairs _ (hput _ _ _)

theorem mem_of_mem_ofPairs {pairs : List (String × α)} {e : String × α} (h : e ∈ ofPairs pairs) :
    e ∈ pairs := by
  have key : ∀ (pairs : List (String × α)) (entries : Entries α),
      e ∈ pairs.foldl (fun entries e ↦ put e.1 e.2 entries) entries → e ∈ entries ∨ e ∈ pairs := by
    intro pairs
    induction pairs with
    | nil => exact fun _ h ↦ .inl h
    | cons a rest ih =>
      intro entries h
      rcases ih _ h with h | h
      · rcases mem_put h with h | h
        · exact .inr (h ▸ List.mem_cons_self)
        · exact .inl h
      · exact .inr (List.mem_cons_of_mem _ h)
  exact (key pairs [] h).resolve_left List.not_mem_nil

@[simp] theorem find?_mapValues (f : α → β) (key : String) (entries : Entries α) :
    find? key (mapValues f entries) = (find? key entries).map f := by
  induction entries with
  | nil => rfl
  | cons e rest ih =>
    obtain ⟨k, v⟩ := e
    rw [mapValues, List.map_cons, find?, find?]
    split
    · rfl
    · exact ih

@[simp] theorem mapValues_cons (f : α → β) (key : String) (value : α) (entries : Entries α) :
    mapValues f ((key, value) :: entries) = (key, f value) :: mapValues f entries := rfl

@[simp] theorem mapValues_mapValues {γ : Type} (f : β → γ) (g : α → β) (entries : Entries α) :
    mapValues f (mapValues g entries) = mapValues (fun a ↦ f (g a)) entries := by
  rw [mapValues, mapValues, List.map_map]
  rfl

theorem mapValues_put (f : α → β) (key : String) (value : α) (entries : Entries α) :
    mapValues f (put key value entries) = put key (f value) (mapValues f entries) := by
  induction entries with
  | nil => rfl
  | cons e rest ih =>
    obtain ⟨k, v⟩ := e
    rw [put, mapValues, mapValues, List.map_cons, put]
    split
    · rfl
    · exact congrArg ((k, f v) :: ·) ih

theorem mapValues_ofPairs (f : α → β) (pairs : List (String × α)) :
    mapValues f (ofPairs pairs) = ofPairs (mapValues f pairs) := by
  have key : ∀ (pairs : List (String × α)) (entries : Entries α),
      mapValues f (pairs.foldl (fun entries e ↦ put e.1 e.2 entries) entries) =
        (mapValues f pairs).foldl (fun entries e ↦ put e.1 e.2 entries)
          (mapValues f entries) := by
    intro pairs
    induction pairs with
    | nil => exact fun _ ↦ rfl
    | cons e rest ih =>
      intro entries
      rw [List.foldl_cons, ih, mapValues_put]
      rfl
  exact key pairs []

theorem mapValues_congr {f g : α → β} {entries : Entries α} (h : ∀ e ∈ entries, f e.2 = g e.2) :
    mapValues f entries = mapValues g entries :=
  List.map_congr_left fun e he ↦ Prod.ext rfl (h e he)

/-- A change of the values that differs under one key only is a write under that key. -/
theorem mapValues_eq_put {f g : α → β} {key : String} {value : α} {entries : Entries α}
    (hkeys : entries.keys.Nodup) (hfind : find? key entries = some value)
    (h : ∀ e ∈ entries, e.1 ≠ key → g e.2 = f e.2) :
    mapValues g entries = put key (g value) (mapValues f entries) := by
  induction entries with
  | nil => cases hfind
  | cons e rest ih =>
    obtain ⟨k, v⟩ := e
    rw [keys, List.map_cons, List.nodup_cons] at hkeys
    rw [find?] at hfind
    rw [mapValues_cons, mapValues_cons, put]
    split at hfind
    · next hk =>
      subst hk
      rw [if_pos rfl, Option.some.inj hfind]
      refine congrArg ((k, g value) :: ·) (mapValues_congr fun e he ↦ ?_)
      refine h e (List.mem_cons_of_mem _ he) fun heq ↦ hkeys.1 ?_
      exact List.mem_map.mpr ⟨e, he, heq⟩
    · next hk =>
      rw [if_neg hk, h (k, v) List.mem_cons_self hk,
        ih hkeys.2 hfind fun e he ↦ h e (List.mem_cons_of_mem _ he)]

theorem mapValues_eq_self {f : α → α} {entries : Entries α} (h : ∀ e ∈ entries, f e.2 = e.2) :
    mapValues f entries = entries := by
  have hid : mapValues f entries = mapValues id entries := mapValues_congr h
  exact hid.trans (List.map_id entries)

@[simp] theorem keys_mapValues (f : α → β) (entries : Entries α) :
    (mapValues f entries).keys = entries.keys := by
  simp [mapValues, keys, Function.comp_def]

end Entries

end LayeredConfig
