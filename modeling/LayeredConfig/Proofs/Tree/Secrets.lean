import LayeredConfig.Proofs.Tree.Blueprint

/-!
# Passwords in the contents of a file

A section of a file may have a database block with a password in it. `Blueprint.passwords` lists the
passwords that count as set, in the order of the sections, and `Blueprint.revealed` puts others in
their places. What that changes is said by paths: every path that does not lead to or through one
of those places has the same there as before, `Blueprint.surface` being what a path leads to without
what stands below it.
-/

namespace LayeredConfig

namespace Blueprint

/-! ## Paths -/

/-- What stands at the end of a path. -/
def at? : List String → Blueprint → Option Blueprint
  | [], b => some b
  | key :: rest, .node fields => (Entries.find? key fields).bind (at? rest)
  | _ :: _, _ => none

/-- A value without what stands below it: of a node there are only the keys, in their order. -/
def surface : Blueprint → Blueprint
  | .node fields => .node (Entries.mapValues (fun _ ↦ .scalar .null) fields)
  | b => b

variable {fields block : Entries Blueprint} {b p stored : Blueprint} {key title : String}

@[simp] theorem at?_nil (b : Blueprint) : b.at? [] = some b := by
  cases b <;> rfl

@[simp] theorem at?_node (key : String) (rest : List String) (fields : Entries Blueprint) :
    (node fields).at? (key :: rest) = (fields.find? key).bind (at? rest) := rfl

/-- The surface of a node consists of its keys. -/
theorem surface_congr {fields' : Entries Blueprint} (h : fields.keys = fields'.keys) :
    (node fields).surface = (node fields').surface := by
  have hblank : ∀ entries : Entries Blueprint,
      entries.mapValues (fun _ ↦ (Blueprint.scalar .null))
        = entries.keys.map fun key ↦ (key, Blueprint.scalar .null) := by
    intro entries
    rw [Entries.mapValues, Entries.keys, List.map_map]
    rfl
  rw [surface, surface, hblank, hblank, h]

/-- Writing a key that is there changes the surface only at the end of paths through that key. -/
theorem surface_at?_put {old : Blueprint} (h : fields.find? key = some old) {path : List String}
    (hpath : ∀ rest, path = key :: rest → (p.at? rest).map surface = (old.at? rest).map surface) :
    ((node (fields.put key p)).at? path).map surface = ((node fields).at? path).map surface := by
  cases path with
  | nil =>
    rw [at?_nil, at?_nil, Option.map_some, Option.map_some,
      surface_congr (Entries.keys_put_of_find? h p)]
  | cons first rest =>
    rw [at?_node, at?_node]
    by_cases hfirst : first = key
    · subst hfirst
      rw [Entries.find?_put_self, h]
      exact hpath rest rfl
    · rw [Entries.find?_put_of_ne hfirst]

/-! ## The password of a section -/

/-- The password in the database block of a section, if it counts as set. -/
def password? : Blueprint → Option Blueprint
  | .node fields =>
    match Entries.find? "database" fields with
    | some (.node block) => (Entries.find? "password" block).filter (·.tree.truthy)
    | _ => none
  | _ => none

/-- The section with another password in its database block. -/
def withPassword : Blueprint → Blueprint → Blueprint
  | .node fields, p =>
    match Entries.find? "database" fields with
    | some (.node block) =>
      .node (Entries.put "database" (.node (Entries.put "password" p block)) fields)
    | _ => .node fields
  | b, _ => b

/-- A section with a password has a database block that it stands in. -/
theorem eq_of_password (h : b.password? = some stored) :
    ∃ fields block : Entries Blueprint, b = .node fields ∧
      fields.find? "database" = some (.node block) ∧ block.find? "password" = some stored ∧
      stored.tree.truthy = true := by
  unfold password? at h
  split at h
  · next fields =>
    split at h
    · next block hblock =>
      obtain ⟨hstored, htruthy⟩ := Option.filter_eq_some_iff.mp h
      exact ⟨fields, block, rfl, hblock, hstored, htruthy⟩
    · cases h
  · cases h

theorem withPassword_node (hblock : fields.find? "database" = some (.node block)) :
    (node fields).withPassword p =
      .node (fields.put "database" (.node (block.put "password" p))) := by
  simp [withPassword, hblock]

/-- The new password is where the old one was. -/
theorem at?_withPassword (h : b.password? = some stored) :
    (b.withPassword p).at? ["database", "password"] = some p := by
  obtain ⟨fields, block, rfl, hblock, -, -⟩ := eq_of_password h
  rw [withPassword_node hblock, at?_node, Entries.find?_put_self, Option.bind_some, at?_node,
    Entries.find?_put_self, Option.bind_some, at?_nil]

/-- All else in the section is as it was. -/
theorem surface_at?_withPassword (h : b.password? = some stored) {path : List String}
    (hpath : ¬["database", "password"] <+: path) :
    ((b.withPassword p).at? path).map surface = (b.at? path).map surface := by
  obtain ⟨fields, block, rfl, hblock, hstored, -⟩ := eq_of_password h
  rw [withPassword_node hblock]
  refine surface_at?_put hblock fun rest hrest ↦ surface_at?_put hstored fun rest' hrest' ↦ ?_
  exact absurd ⟨rest', by rw [hrest, hrest']; rfl⟩ hpath

/-! ## The passwords of a file -/

/-- The sections with a password that counts as set, each with that password, in order. -/
def passwords (fields : Entries Blueprint) : Entries Blueprint :=
  fields.filterMap fun e ↦ e.2.password?.map (e.1, ·)

/-- The sections with the passwords replaced by others, one after the other, as far as these go. -/
def revealed : Entries Blueprint → List Blueprint → Entries Blueprint
  | [], _ => []
  | (title, b) :: rest, answers =>
    if b.password?.isSome then
      (title, answers.head?.elim b b.withPassword) :: revealed rest answers.tail
    else (title, b) :: revealed rest answers

theorem passwords_cons (title : String) (b : Blueprint) (rest : Entries Blueprint) :
    passwords ((title, b) :: rest) = (b.password?.map (title, ·)).toList ++ passwords rest := by
  rw [passwords, List.filterMap_cons]
  cases b.password? <;> rfl

theorem revealed_of_none (h : b.password? = none) (title : String) (rest : Entries Blueprint)
    (answers : List Blueprint) :
    revealed ((title, b) :: rest) answers = (title, b) :: revealed rest answers := by
  simp [revealed, h]

theorem revealed_of_some (h : b.password? = some stored) (title : String)
    (rest : Entries Blueprint) (p : Blueprint) (answers : List Blueprint) :
    revealed ((title, b) :: rest) (p :: answers)
      = (title, b.withPassword p) :: revealed rest answers := by
  simp [revealed, h]

@[simp] theorem keys_revealed (fields : Entries Blueprint) (answers : List Blueprint) :
    (revealed fields answers).keys = fields.keys := by
  induction fields generalizing answers with
  | nil => rfl
  | cons e rest ih =>
    obtain ⟨title, b⟩ := e
    rw [revealed]
    split <;> exact congrArg (title :: ·) (ih _)

/-- A password that is listed stands in a section. -/
theorem mem_of_mem_passwords {e : String × Blueprint} (h : e ∈ passwords fields) :
    ∃ b, (e.1, b) ∈ fields ∧ b.password? = some e.2 := by
  obtain ⟨⟨title, b⟩, he, hb⟩ := List.mem_filterMap.mp h
  obtain ⟨stored, hstored, rfl⟩ := Option.map_eq_some_iff.mp hb
  exact ⟨b, he, hstored⟩

theorem mem_passwords (h : (title, b) ∈ fields) (hb : b.password? = some stored) :
    (title, stored) ∈ passwords fields :=
  List.mem_filterMap.mpr ⟨(title, b), h, by rw [hb, Option.map_some]⟩

/-- A section without a password is as it was. -/
theorem find?_revealed_of_none {answers : List Blueprint} (hb : b.password? = none)
    (h : fields.find? title = some b) : (revealed fields answers).find? title = some b := by
  induction fields generalizing answers with
  | nil => cases h
  | cons e rest ih =>
    obtain ⟨k, c⟩ := e
    rw [Entries.find?] at h
    by_cases hk : k = title
    · rw [if_pos hk] at h
      rw [Option.some.inj h, revealed_of_none hb, Entries.find?, if_pos hk]
    · rw [if_neg hk] at h
      rw [revealed]
      split <;> rw [Entries.find?, if_neg hk, ih h]

/-- A section with a password has the answer that stands in the same place of the list. -/
theorem find?_revealed_of_mem {answers : List Blueprint} {x : (String × Blueprint) × Blueprint}
    (hkeys : fields.keys.Nodup) (hx : x ∈ (passwords fields).zip answers) :
    ∃ b, fields.find? x.1.1 = some b ∧ b.password? = some x.1.2 ∧
      (revealed fields answers).find? x.1.1 = some (b.withPassword x.2) := by
  induction fields generalizing answers with
  | nil => cases hx
  | cons e rest ih =>
    obtain ⟨k, c⟩ := e
    rw [Entries.keys, List.map_cons, List.nodup_cons] at hkeys
    -- the section of a password further on is another one
    have hrest : ∀ {answers}, x ∈ (passwords rest).zip answers → k ≠ x.1.1 := by
      intro answers hx heq
      obtain ⟨b, hb, -⟩ := mem_of_mem_passwords (List.of_mem_zip hx).1
      exact hkeys.1 (heq ▸ Entries.mem_keys_of_mem hb)
    rw [passwords_cons] at hx
    cases hc : c.password? with
    | none =>
      rw [hc] at hx
      obtain ⟨b, hb, hstored, hfind⟩ := ih hkeys.2 hx
      refine ⟨b, ?_, hstored, ?_⟩
      · rw [Entries.find?, if_neg (hrest hx), hb]
      · rw [revealed_of_none hc, Entries.find?, if_neg (hrest hx), hfind]
    | some stored =>
      rw [hc] at hx
      cases answers with
      | nil => cases hx
      | cons p answers =>
        rw [revealed_of_some hc]
        rcases List.mem_cons.mp hx with rfl | hx
        · exact ⟨c, by rw [Entries.find?, if_pos rfl], hc, by rw [Entries.find?, if_pos rfl]⟩
        · obtain ⟨b, hb, hstored, hfind⟩ := ih hkeys.2 hx
          refine ⟨b, ?_, hstored, ?_⟩
          · rw [Entries.find?, if_neg (hrest hx), hb]
          · rw [Entries.find?, if_neg (hrest hx), hfind]

/-! ## What revealing changes -/

/-- **An answer is where the password was.** -/
theorem at?_revealed {answers : List Blueprint} {x : (String × Blueprint) × Blueprint}
    (hkeys : fields.keys.Nodup) (hx : x ∈ (passwords fields).zip answers) :
    (node (revealed fields answers)).at? [x.1.1, "database", "password"] = some x.2 := by
  obtain ⟨b, -, hstored, hfind⟩ := find?_revealed_of_mem hkeys hx
  rw [at?_node, hfind, Option.bind_some]
  exact at?_withPassword hstored

/-- **Nothing else is changed**, and the keys keep their order. -/
theorem surface_at?_revealed {answers : List Blueprint} (hkeys : fields.keys.Nodup)
    (hlength : answers.length = (passwords fields).length) {path : List String}
    (hpath : ∀ e ∈ passwords fields, ¬[e.1, "database", "password"] <+: path) :
    ((node (revealed fields answers)).at? path).map surface
      = ((node fields).at? path).map surface := by
  cases path with
  | nil =>
    rw [at?_nil, at?_nil, Option.map_some, Option.map_some, surface_congr (keys_revealed _ _)]
  | cons title rest =>
    rw [at?_node, at?_node]
    cases hb : fields.find? title with
    | none =>
      have hnone : (revealed fields answers).find? title = none := by
        rw [Entries.find?_eq_none_iff, keys_revealed]
        exact Entries.find?_eq_none_iff.mp hb
      rw [hnone]
    | some b =>
      cases hstored : b.password? with
      | none => rw [find?_revealed_of_none hstored hb]
      | some stored =>
        have hmem := mem_passwords (Entries.mem_of_find? hb) hstored
        -- as many answers as passwords, so there is one for this password
        obtain ⟨i, hi, hget⟩ := List.getElem_of_mem hmem
        have hzip : ((title, stored), answers[i]) ∈ (passwords fields).zip answers := by
          refine List.mem_iff_getElem.mpr ⟨i, ?_, ?_⟩
          · rw [List.length_zip, hlength, Nat.min_self]
            exact hi
          · rw [List.getElem_zip, hget]
        obtain ⟨c, hc, -, hfind⟩ := find?_revealed_of_mem hkeys hzip
        obtain rfl : b = c := Option.some.inj (hb.symm.trans hc)
        rw [hfind, Option.bind_some, Option.bind_some]
        refine surface_at?_withPassword hstored fun hprefix ↦ hpath _ hmem ?_
        exact List.cons_prefix_cons.mpr ⟨rfl, hprefix⟩

end Blueprint

end LayeredConfig
