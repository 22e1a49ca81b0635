import LayeredConfig.Proofs.Rule.Violation
import LayeredConfig.Rule.Katello

/-!
# Passing the rules

What is known of a content in which the rules find no violation. Each kind of rule is passed
exactly if a statement about the content holds that mentions neither an order of checking nor a
message, and the rules of a Katello configuration together amount to `Katello.Passed`.
-/

namespace LayeredConfig

/-! ## Matching a scalar -/

namespace Blueprint

variable {b : Blueprint} {s : String} {x : Bool}

/-- Only a text equals a text. -/
theorem equal_text_iff : b.tree.equal (.scalar (.text s)) = true ↔ b = .scalar (.text s) := by
  constructor
  · intro h
    cases b with
    | scalar a =>
      cases a with
      | text t => rw [beq_iff_eq.mp h]
      | _ => cases h
    | list items =>
      rw [tree_list] at h
      cases h
    | node fields =>
      rw [tree_node] at h
      cases h
    | _ => cases h
  · rintro rfl
    exact beq_self_eq_true s

/-- A number may equal a truth value, but it is of another kind. -/
theorem equal_bool_iff : (b.tree.equal (.scalar (.bool x)) = true ∧
    b.tree.sameKind (.scalar (.bool x)) = true) ↔ b = .scalar (.bool x) := by
  constructor
  · rintro ⟨hequal, hkind⟩
    cases b with
    | scalar a =>
      cases a with
      | bool y =>
        have hnumber : (if y then 1 else 0 : Int) = if x then 1 else 0 := beq_iff_eq.mp hequal
        cases x <;> cases y <;> simp_all
      | _ => simp [tree, Tree.sameKind, Scalar.kindName] at hkind
    | list items =>
      rw [tree_list] at hequal
      cases hequal
    | node fields =>
      rw [tree_node] at hequal
      cases hequal
    | _ => cases hequal
  · rintro rfl
    cases x <;> decide

/-- The content is a text, a sequence or a node with something in it. -/
def Filled : Blueprint → Prop
  | .scalar (.text s) => s ≠ ""
  | .list items => items ≠ []
  | .node fields => fields ≠ []
  | _ => False

end Blueprint

/-! ## Passing one rule -/

namespace Inspection

variable {i : Inspection} {key : Value} {allowed : List Value}

theorem mismatch?_eq_none_iff : i.mismatch? key allowed = none ↔
    ∃ a ∈ allowed, (i.found key).tree.equal (i.view a) = true ∧
      (i.found key).tree.sameKind (i.view a) = true := by
  simp [mismatch?]

theorem emptiness?_eq_none_iff : i.emptiness? key = none ↔ (i.found key).Filled := by
  unfold emptiness?
  split <;> simp_all [Blueprint.Filled]

end Inspection

theorem firstViolation?_eq_none_iff {i : Inspection} {rules : List Rule} :
    firstViolation? i rules = none ↔ ∀ rule ∈ rules, rule.violation? i = none := by
  induction rules with
  | nil => simp [firstViolation?]
  | cons rule rest ih => simp [firstViolation?, ih]

namespace Rule

variable {i : Inspection}

theorem violation?_hasKeys_eq_none_iff {keys : List String} :
    violation? i (.hasKeys (keys.map .text)) = none ↔
      ∀ key ∈ keys, (i.fields.find? key).isSome = true := by
  rw [violation?, List.findSome?_eq_none_iff, List.forall_mem_map]
  refine forall₂_congr fun key _ ↦ ?_
  have hname : Inspection.name (.text key) = key := rfl
  rw [hname]
  split <;> simp_all

theorem violation?_hasValues_eq_none_iff (hview : ∀ s, i.view (.scalar s) = .scalar s)
    {key : Value} {texts : List String} :
    violation? i (.hasValues key (texts.map .text) (.bool false)) = none ↔
      ∃ s ∈ texts, i.found key = .scalar (.text s) := by
  have hnull : (i.view (.bool false)).truthy = false := by
    rw [hview]
    rfl
  rw [violation?, hnull, if_neg Bool.false_ne_true, List.append_nil,
    Inspection.mismatch?_eq_none_iff]
  constructor
  · rintro ⟨a, ha, hequal, _⟩
    obtain ⟨s, hs, rfl⟩ := List.mem_map.mp ha
    rw [hview, Blueprint.equal_text_iff] at hequal
    exact ⟨s, hs, hequal⟩
  · rintro ⟨s, hs, hfound⟩
    refine ⟨.text s, List.mem_map_of_mem hs, ?_, ?_⟩
    · rw [hview, Blueprint.equal_text_iff]
      exact hfound
    · rw [hview, hfound]
      rfl

theorem violation?_areBooleans_eq_none_iff (hview : ∀ s, i.view (.scalar s) = .scalar s)
    {keys : List String} : violation? i (.areBooleans (keys.map .text)) = none ↔
      ∀ key ∈ keys, ∃ b, i.found (.text key) = .scalar (.bool b) := by
  rw [violation?, List.findSome?_eq_none_iff, List.forall_mem_map]
  refine forall₂_congr fun key _ ↦ ?_
  simp only [Inspection.mismatch?_eq_none_iff, List.mem_cons, List.not_mem_nil, or_false,
    exists_eq_or_imp, exists_eq_left, hview, Blueprint.equal_bool_iff, Bool.exists_bool]
  exact or_comm

theorem violation?_isNotEmpty_eq_none_iff {key : Value} :
    violation? i (.isNotEmpty key) = none ↔ (i.found key).Filled := by
  rw [violation?, Inspection.emptiness?_eq_none_iff]

theorem violation?_when_eq_none_iff {condition : Condition} {rules : List Rule} :
    violation? i (.when condition rules) = none ↔
      (condition.applies i = true → ∀ rule ∈ rules, rule.violation? i = none) := by
  rw [violation?, ← firstViolation?_eq_none_iff]
  split <;> simp_all

/-- Rules that ask for keys inside a block are passed only by a block. -/
theorem exists_node_of_violation?_nested {key : Value} {first : String} {rest : List String}
    (h : violation? i (.nested key [.hasKeys ((first :: rest).map .text)]) = none) :
    ∃ block : Entries Blueprint, i.found key = .node block ∧
      ∀ name ∈ first :: rest, (block.find? name).isSome = true := by
  by_cases hnode : ∃ block, i.found key = .node block
  · obtain ⟨block, hblock⟩ := hnode
    rw [violation?_nested_of_node hblock, firstViolation?_eq_none_iff] at h
    have hkeys := violation?_hasKeys_eq_none_iff.mp (h _ List.mem_cons_self)
    exact ⟨block, hblock, hkeys⟩
  · rw [violation?_nested_of_ne fun block hblock ↦ hnode ⟨block, hblock⟩] at h
    split at h
    · cases h
    · -- a block that is missing reads as one without keys
      rw [firstViolation?_eq_none_iff] at h
      have hkeys := violation?_hasKeys_eq_none_iff.mp (h _ List.mem_cons_self)
      exact absurd (hkeys first List.mem_cons_self) Bool.false_ne_true

end Rule

/-! ## Passing the rules of a Katello configuration -/

namespace Katello

/-- What the rules of a Katello configuration ask of its fields, given the environment. -/
structure Passed (environment : Tree) (fields : Entries Blueprint) : Prop where
  required : ∀ key ∈ requiredKeys, (fields.find? key).isSome = true
  mode : ∃ mode ∈ appModes, fields.find? "app_mode" = some (.scalar (.text mode))
  boolean : ∀ key ∈ booleanKeys, ∃ b, fields.find? key = some (.scalar (.bool b))
  thumbslug : fields.find? "is_katello" = some (.scalar (.bool false)) →
    ∃ b, fields.find? "thumbslug_url" = some b ∧ b.Filled
  database : environment.truthy = true →
    environment.equal (.scalar (.text buildEnvironment)) = false →
    ∃ block : Entries Blueprint, fields.find? "database" = some (.node block) ∧
      ∀ key ∈ databaseKeys, (block.find? key).isSome = true

/-- What is found under a key and is not nothing stands there. -/
private theorem find?_of_found {i : Inspection} {key : String} {b : Blueprint}
    (h : i.found (.text key) = b) (hb : b ≠ .scalar .null) : i.fields.find? key = some b := by
  have hfound : (i.fields.find? key).getD (.scalar .null) = b := h
  cases hfind : i.fields.find? key with
  | none =>
    rw [hfind, Option.getD_none] at hfound
    exact absurd hfound.symm hb
  | some c =>
    rw [hfind, Option.getD_some] at hfound
    rw [hfound]

/-- **Passing the rules** of a Katello configuration. -/
theorem passed_of_firstViolation? {i : Inspection} (hview : ∀ s, i.view (.scalar s) = .scalar s)
    (h : firstViolation? i rules = none) : Passed i.environment i.fields := by
  have hpasses : ∀ rule ∈ rules, rule.violation? i = none := firstViolation?_eq_none_iff.mp h
  simp only [rules, List.forall_mem_cons] at hpasses
  obtain ⟨hkeys, hmode, -, -, -, hthumbslug, hbooleans, hdatabase, -⟩ := hpasses
  refine ⟨?_, ?_, ?_, ?_, ?_⟩
  · exact Rule.violation?_hasKeys_eq_none_iff.mp hkeys
  · obtain ⟨mode, hmem, hfound⟩ := (Rule.violation?_hasValues_eq_none_iff hview).mp hmode
    exact ⟨mode, hmem, find?_of_found hfound (by simp)⟩
  · intro key hkey
    obtain ⟨b, hb⟩ := (Rule.violation?_areBooleans_eq_none_iff hview).mp hbooleans key hkey
    exact ⟨b, find?_of_found hb (by simp)⟩
  · intro hkatello
    have happlies : (Condition.flag (.text "is_katello") (.bool false)).applies i = true := by
      have hfound : i.found (.text "is_katello") = .scalar (.bool false) := by
        rw [Inspection.found, show Inspection.name (.text "is_katello") = "is_katello" from rfl,
          hkatello, Option.getD_some]
      simp [Condition.applies, hfound, Blueprint.tree, Tree.truthy, Scalar.truthy]
    have hfilled := Rule.violation?_isNotEmpty_eq_none_iff.mp
      (Rule.violation?_when_eq_none_iff.mp hthumbslug happlies _ List.mem_cons_self)
    refine ⟨_, find?_of_found rfl fun hnull ↦ ?_, hfilled⟩
    rw [hnull] at hfilled
    exact hfilled
  · intro hnamed hbuild
    have happlies : (Condition.concreteEnvironment (.text buildEnvironment)).applies i = true := by
      simp [Condition.applies, hview, hnamed, hbuild]
    obtain ⟨block, hblock, hall⟩ := Rule.exists_node_of_violation?_nested
      (Rule.violation?_when_eq_none_iff.mp hdatabase happlies _ List.mem_cons_self)
    exact ⟨block, find?_of_found hblock (by simp), hall⟩

end Katello

end LayeredConfig
