import LayeredConfig.Proofs.Node.Likeness
import LayeredConfig.Proofs.Rule.Violation

/-!
# Checking like nodes

Two nodes that present the same fields pass the same rules and violate the same ones: what a check
reports depends on what is read, not on which node it was read from. This holds of rules of every
kind, with keys of every kind. Of the values that the rules mention it is only asked that they were
there before the two runs parted, so that they look the same in both.

The induction is on the rules. A nested rule goes on in two nodes of their own, which are like each
other again (`Scope.Level`).
-/

namespace LayeredConfig

open Memory (Beyond Stored Presents Known)

/-- The condition mentions known values only. -/
inductive Condition.Knows (known : Value → Prop) : Condition → Prop
  | concreteEnvironment {excluding : Value} (h : known excluding) :
      Knows known (.concreteEnvironment excluding)
  | flag (key expected : Value) : Knows known (.flag key expected)

/-- The rule mentions known values only. Its keys may be anything. -/
inductive Rule.Knows (known : Value → Prop) : Rule → Prop
  | hasKeys (keys : List Value) : Knows known (.hasKeys keys)
  | hasValues (key : Value) {values : List Value} {allowNull : Value}
      (h : ∀ v ∈ values, known v) (hnull : known allowNull) :
      Knows known (.hasValues key values allowNull)
  | areBooleans (keys : List Value) : Knows known (.areBooleans keys)
  | isNotEmpty (key : Value) : Knows known (.isNotEmpty key)
  | nested (key : Value) {rules : List Rule} (h : ∀ rule ∈ rules, Knows known rule) :
      Knows known (.nested key rules)
  | when {condition : Condition} {rules : List Rule} (hcondition : condition.Knows known)
      (h : ∀ rule ∈ rules, Knows known rule) : Knows known (.when condition rules)

/-- Rules over texts are a special case. -/
theorem Rule.OverTexts.knows {known : Value → Prop} {rule : Rule} (h : rule.OverTexts known) :
    rule.Knows known := by
  induction h with
  | hasKeys keys => exact .hasKeys _
  | hasValues key h hnull => exact .hasValues _ h hnull
  | areBooleans keys => exact .areBooleans _
  | isNotEmpty key => exact .isNotEmpty _
  | nested key _ ih => exact .nested _ ih
  | @when condition rules hcondition _ ih =>
    refine .when ?_ ih
    cases hcondition with
    | concreteEnvironment hknown => exact .concreteEnvironment hknown
    | flag key expected => exact .flag _ expected

/-- What is wrong with a value that has to be a collection with something in it. -/
def Tree.emptiness? : Tree → Option Problem
  | .scalar .null => some .empty
  | .scalar (.text s) => if s = "" then some .empty else none
  | .seq _ items => if items.isEmpty then some .empty else none
  | .node _ _ fields => if fields.isEmpty then some .empty else none
  | found => some (.notCollection found)

theorem Tree.emptiness?_anonymous (t : Tree) :
    t.anonymous.emptiness? = t.emptiness?.map Problem.anonymous := by
  cases t with
  | scalar s =>
    cases s with
    | text s =>
      rw [anonymous_scalar, emptiness?]
      split <;> rfl
    | _ => rfl
  | seq kind items => cases items <;> simp [emptiness?, Problem.anonymous]
  | mapping entries => simp [emptiness?, Problem.anonymous]
  | node id frozen fields =>
    cases fields <;> simp [emptiness?, Problem.anonymous, Entries.mapValues]
  | _ => rfl

namespace Scope

variable {m₀ m m' t t' : Memory} {s : Scope} {n' : NodeId} {fields : Entries Blueprint}

/-- Checking goes on alike in the two scopes that differ in their nodes: both nodes present the
fields, and what the scope and the rules mention was there before. -/
structure Level (m₀ m m' : Memory) (s : Scope) (n' : NodeId) (fields : Entries Blueprint) :
    Prop where
  sound : m₀.forest.Sound
  beyond : Beyond m₀ m
  beyond' : Beyond m₀ m'
  known : m₀.Known s.environment
  presents : Presents m s.node fields
  presents' : Presents m' n' fields

/-- The same scope with another node. -/
def moved (s : Scope) (n : NodeId) : Scope := { s with node := n }

/-- The requirement in terms of what is wrong. -/
theorem requireNotEmpty_eq (s : Scope) (key : Value) :
    s.requireNotEmpty key = (do
      let found ← snapshot (← s.valueOf key)
      found.emptiness?.elim (pure ()) (s.fail key)) := by
  unfold requireNotEmpty
  refine congrArg (s.valueOf key >>= ·) (funext fun v ↦ ?_)
  refine congrArg (snapshot v >>= ·) (funext fun found ↦ ?_)
  cases found with
  | scalar a =>
    cases a with
    | text a =>
      rw [Tree.emptiness?]
      by_cases ha : a = ""
      · subst ha
        rfl
      · rw [if_neg ha]
        split
        · next heq => cases heq
        · next heq => exact absurd (Scalar.text.inj (Tree.scalar.inj heq)) ha
        · rfl
        · next heq => cases heq
        · next heq => cases heq
        · next htext _ _ => exact absurd rfl (htext a)
    | _ => rfl
  | seq kind items => cases items <;> rfl
  | node id frozen fields => cases fields <;> rfl
  | _ => rfl

namespace Level

variable (h : Level m₀ m m' s n' fields)

include h

theorem later (ht : Beyond m t) (ht' : Beyond m' t') : Level m₀ t t' s n' fields :=
  ⟨h.sound, h.beyond.trans ht, h.beyond'.trans ht', h.known, h.presents.beyond ht,
    h.presents'.beyond ht'⟩

theorem view_eq {v : Value} (hv : m₀.Known v) : m'.view v = m.view v :=
  (h.beyond'.view_eq h.sound hv).trans (h.beyond.view_eq h.sound hv).symm

theorem truthy_eq {v : Value} (hv : m₀.Known v) : m'.forest.truthy v = m.forest.truthy v := by
  rw [← Memory.truthy_view h.beyond'.sound, ← Memory.truthy_view h.beyond.sound, h.view_eq hv]

theorem pure_unit : Concur Beyond m m' (fun _ _ _ _ ↦ True) ((pure () : Eval Unit) m)
    ((pure () : Eval Unit) m') := ⟨.refl h.beyond.sound, .refl h.beyond'.sound, trivial⟩

/-- What is reported names no identity. -/
theorem fail {key : Value} {problem problem' : Problem}
    (hproblem : problem.anonymous = problem'.anonymous) :
    Concur Beyond m m' (fun _ _ _ _ ↦ True) ((s.fail key problem : Eval Unit) m)
      (((s.moved n').fail key problem' : Eval Unit) m') := by
  unfold Scope.fail
  have hpath : (s.moved n').path = s.path := rfl
  rw [hpath]
  cases joinPath 0 (s.path ++ [key]) with
  | error e => exact ⟨.refl h.beyond.sound, .refl h.beyond'.sound, rfl⟩
  | ok segments =>
    have henvironment : m'.view (s.moved n').environment = m.view s.environment := h.view_eq h.known
    refine ⟨.refl h.beyond.sound, .refl h.beyond'.sound, ?_⟩
    rw [henvironment, Failure.anonymous, Failure.anonymous, ConfigurationError.anonymous,
      ConfigurationError.anonymous, hproblem]

theorem hasKey (key : Value) :
    Concur Beyond m m' (fun b _ b' _ ↦ b = b') (Node.hasKey s.node key m)
      (Node.hasKey n' key m') := by
  have hm := Beyond.refl h.beyond.sound
  have hm' := Beyond.refl h.beyond'.sound
  by_cases htext : ∃ name, key = .text name
  · obtain ⟨name, rfl⟩ := htext
    rw [h.presents.hasKey hm name, h.presents'.hasKey hm' name]
    exact ⟨hm, hm', rfl⟩
  · have hne : ∀ name, key ≠ .text name := fun name heq ↦ htext ⟨name, heq⟩
    refine (Node.concur_hasKey_of_not_text h.beyond.sound h.beyond'.sound hne s.node n').mono ?_
    exact fun b t b' t' _ _ ⟨hb, hb', _⟩ ↦ hb.trans hb'.symm

/-- What is found under a key is the same. -/
theorem valueOf (key : Value) :
    Concur Beyond m m' (fun v t v' t' ↦ ∃ b, Stored t v b ∧ Stored t' v' b) (s.valueOf key m)
      ((s.moved n').valueOf key m') := by
  have hm := Beyond.refl h.beyond.sound
  have hm' := Beyond.refl h.beyond'.sound
  by_cases htext : ∃ name, key = .text name
  · obtain ⟨name, rfl⟩ := htext
    obtain ⟨v, t, hv, ht, hstored⟩ := h.presents.valueOf hm name
    obtain ⟨v', t', hv', ht', hstored'⟩ := h.presents'.valueOf hm' name
    have hvalue : s.valueOf (.text name) m = .ok v t := hv
    have hvalue' : (s.moved n').valueOf (.text name) m' = .ok v' t' := hv'
    rw [hvalue, hvalue']
    exact ⟨ht, ht', _, hstored, hstored'⟩
  · -- a key that is no text is not there, unless it is refused
    have hne : ∀ name, key ≠ .text name := fun name heq ↦ htext ⟨name, heq⟩
    rw [Scope.valueOf, Scope.valueOf, Node.valueOf, Node.valueOf]
    refine (Node.concur_hasKey_of_not_text h.beyond.sound h.beyond'.sound hne s.node n').bind ?_
    rintro b t b' t' ht ht' ⟨rfl, rfl, -, -⟩
    exact ⟨ht, ht', _, Memory.stored_scalar t .null, Memory.stored_scalar t' .null⟩

/-! ## Single demands -/

theorem requireValue (key : Value) {allowed : List Value} (hallowed : ∀ v ∈ allowed, m₀.Known v) :
    Concur Beyond m m' (fun _ _ _ _ ↦ True) (s.requireValue key allowed m)
      ((s.moved n').requireValue key allowed m') := by
  unfold Scope.requireValue
  refine (h.valueOf key).bind fun v t v' t' ht ht' ⟨b, hv, hv'⟩ ↦ ?_
  have h' := h.later ht ht'
  have hsnapshots : ∀ u : Memory, allowed.mapM snapshot u = .ok (allowed.map u.view) u := fun u ↦
    mapM_of_ok fun _ _ ↦ rfl
  have hviews : allowed.map t'.view = allowed.map t.view :=
    List.map_congr_left fun a ha ↦ h'.view_eq (hallowed a ha)
  -- whether a value is one of the allowed ones depends on its content only
  have hsame : ∀ a : Tree, ((t'.view v').equal a && (t'.view v').sameKind a)
      = ((t.view v).equal a && (t.view v).sameKind a) := by
    intro a
    rw [← hv.writable.equal_content, ← hv'.writable.equal_content, ← hv.writable.sameKind_content,
      ← hv'.writable.sameKind_content, hv.content, hv'.content]
  refine .of_read rfl rfl (.of_read (hsnapshots t) (hsnapshots t') ?_)
  simp only [hviews, hsame]
  cases (allowed.map t.view).any fun a ↦ (t.view v).equal a && (t.view v).sameKind a with
  | true => exact h'.pure_unit.since ht ht'
  | false =>
    rw [Bool.not_false, if_pos rfl, if_pos rfl]
    refine (h'.fail ?_).since ht ht'
    rw [Problem.anonymous, Problem.anonymous, (hv.likened hv').anonymous_eq]

theorem requireNotEmpty (key : Value) :
    Concur Beyond m m' (fun _ _ _ _ ↦ True) (s.requireNotEmpty key m)
      ((s.moved n').requireNotEmpty key m') := by
  rw [requireNotEmpty_eq, requireNotEmpty_eq]
  refine (h.valueOf key).bind fun v t v' t' ht ht' ⟨b, hv, hv'⟩ ↦ ?_
  have h' := h.later ht ht'
  refine .of_read rfl rfl ?_
  have hempty := Tree.emptiness?_anonymous (t.view v)
  rw [(hv.likened hv').anonymous_eq, Tree.emptiness?_anonymous] at hempty
  cases hproblem : (t.view v).emptiness? with
  | none =>
    rw [hproblem, Option.map_none, Option.map_eq_none_iff] at hempty
    rw [hempty]
    exact h'.pure_unit.since ht ht'
  | some problem =>
    rw [hproblem, Option.map_some] at hempty
    obtain ⟨problem', hproblem', hsame⟩ := Option.map_eq_some_iff.mp hempty
    rw [hproblem']
    exact (h'.fail hsame.symm).since ht ht'

/-- Conditions apply alike. -/
theorem holds {condition : Condition} (hcondition : condition.Knows m₀.Known) :
    Concur Beyond m m' (fun b _ b' _ ↦ b = b') (condition.holds s m)
      (condition.holds (s.moved n') m') := by
  have hm := Beyond.refl h.beyond.sound
  have hm' := Beyond.refl h.beyond'.sound
  cases hcondition with
  | @concreteEnvironment excluding hknown =>
    have hset : m'.forest.truthy (s.moved n').environment = m.forest.truthy s.environment :=
      h.truthy_eq h.known
    have hearly : s.early m = .ok (!m.forest.truthy s.environment) m := rfl
    have hearly' : (s.moved n').early m' = .ok (!m.forest.truthy s.environment) m' :=
      congrArg (fun b ↦ EStateM.Result.ok (!b) m') hset
    rw [Condition.holds, Condition.holds]
    refine .of_read hearly hearly' ?_
    cases m.forest.truthy s.environment with
    | false => exact ⟨hm, hm', rfl⟩
    | true =>
      have henvironment : m'.view (s.moved n').environment = m.view s.environment :=
        h.view_eq h.known
      rw [Bool.not_true, if_neg Bool.false_ne_true, if_neg Bool.false_ne_true]
      refine .of_read rfl rfl ⟨hm, hm', ?_⟩
      rw [henvironment, h.view_eq hknown]
  | flag key expected =>
    rw [Condition.holds, Condition.holds]
    refine (h.valueOf key).bind fun v t v' t' ht ht' ⟨b, hv, hv'⟩ ↦ ?_
    have htruthy : truthyValue v t = .ok b.tree.truthy t :=
      congrArg (EStateM.Result.ok · t) (hv.truthy_eq ht.sound)
    have htruthy' : truthyValue v' t' = .ok b.tree.truthy t' :=
      congrArg (EStateM.Result.ok · t') (hv'.truthy_eq ht'.sound)
    refine .of_read htruthy htruthy' ?_
    split
    · exact ⟨ht, ht', rfl⟩
    · exact ⟨ht, ht', rfl⟩

/-! ## Nested rules -/

/-- The scopes of the nodes under a key. -/
theorem down {c c' : NodeId} {inner : Entries Blueprint} (hc : Presents m c inner)
    (hc' : Presents m' c' inner) (key : Value) :
    Level m₀ m m' { s with node := c, path := s.path ++ [key] } c' inner :=
  ⟨h.sound, h.beyond, h.beyond', h.known, hc, hc'⟩

section Nested

variable {key : Value} {rules : List Rule}
  (hrules : ∀ {t t' : Memory} {s : Scope} {n' : NodeId} {fields : Entries Blueprint},
    Level m₀ t t' s n' fields →
      Concur Beyond t t' (fun _ _ _ _ ↦ True) (checkRules s rules t)
        (checkRules (s.moved n') rules t'))

include hrules

theorem inside {v v' : Value} {b : Blueprint} (hv : Stored m v b) (hv' : Stored m' v' b) :
    Concur Beyond m m' (fun _ _ _ _ ↦ True) (s.inside key (fun s ↦ checkRules s rules) v m)
      ((s.moved n').inside key (fun s ↦ checkRules s rules) v' m') := by
  by_cases hnode : ∃ inner, b = .node inner
  · obtain ⟨inner, rfl⟩ := hnode
    obtain ⟨c, rfl⟩ := hv.eq_node
    obtain ⟨c', rfl⟩ := hv'.eq_node
    exact hrules (h.down (hv.presents h.beyond.sound) (hv'.presents h.beyond'.sound) key)
  · -- what is no node is reported on both sides
    have hfail : ∀ {u : Memory} {v : Value}, u.forest.Sound → Stored u v b → ∀ s : Scope,
        s.inside key (fun s ↦ checkRules s rules) v = s.fail key .notMapping := by
      intro u v hu hv s
      cases v with
      | node c =>
        have hcontent := hv.content
        rw [Memory.view, hu.view_node, Tree.content_node] at hcontent
        exact absurd ⟨_, hcontent.symm⟩ hnode
      | _ => rfl
    rw [hfail h.beyond.sound hv, hfail h.beyond'.sound hv']
    exact h.fail rfl

theorem nested : Concur Beyond m m' (fun _ _ _ _ ↦ True) (Rule.check s (.nested key rules) m)
    (Rule.check (s.moved n') (.nested key rules) m') := by
  rw [Rule.check, Rule.check]
  refine (h.valueOf key).bind ?_
  rintro v t v' t' ht ht' ⟨b, hv, hv'⟩
  have h' := h.later ht ht'
  have htruthy : truthyValue v t = .ok b.tree.truthy t :=
    congrArg (EStateM.Result.ok · t) (hv.truthy_eq ht.sound)
  have htruthy' : truthyValue v' t' = .ok b.tree.truthy t' :=
    congrArg (EStateM.Result.ok · t') (hv'.truthy_eq ht'.sound)
  refine .of_read htruthy htruthy' ?_
  cases b.tree.truthy with
  | true => exact (h'.inside hrules hv hv').since ht ht'
  | false =>
    -- both go on in a new node without entries
    obtain ⟨c, u, hcreate, hu, -, hempty⟩ := Memory.create_null ht.sound
    obtain ⟨c', u', hcreate', hu', -, hempty'⟩ := Memory.create_null ht'.sound
    refine .of_read (map_of_ok hcreate) (map_of_ok hcreate') ?_
    exact ((h'.later hu hu').inside hrules hempty hempty').since (ht.trans hu) (ht'.trans hu')

end Nested

/-! ## Rules -/

private theorem checkRules_of_each {rules : List Rule}
    (hrules : ∀ rule ∈ rules, ∀ {t t' : Memory}, Level m₀ t t' s n' fields →
      Concur Beyond t t' (fun _ _ _ _ ↦ True) (rule.check s t) (rule.check (s.moved n') t')) :
    Concur Beyond m m' (fun _ _ _ _ ↦ True) (checkRules s rules m)
      (checkRules (s.moved n') rules m') := by
  induction rules generalizing m m' with
  | nil => exact h.pure_unit
  | cons rule rest ih =>
    rw [checkRules, checkRules]
    refine (hrules rule List.mem_cons_self h).bind fun _ t _ t' ht ht' _ ↦ ?_
    refine (ih (h.later ht ht') fun rule hrule ↦ ?_).since ht ht'
    exact hrules rule (List.mem_cons_of_mem _ hrule)

end Level

end Scope

open Scope (Level)

/-- **Checking a rule** reports the same of like nodes. -/
theorem Rule.Knows.check {m₀ m m' : Memory} {s : Scope} {n' : NodeId} {fields : Entries Blueprint}
    {rule : Rule} (hrule : rule.Knows m₀.Known) (h : Level m₀ m m' s n' fields) :
    Concur Beyond m m' (fun _ _ _ _ ↦ True) (rule.check s m) (rule.check (s.moved n') m') := by
  have hscalar : ∀ a : Scalar, m₀.Known (.scalar a) := m₀.known_scalar
  induction hrule generalizing m m' s n' fields with
  | hasKeys keys =>
    rw [Rule.check, Rule.check]
    refine .forM (.refl h.beyond.sound) (.refl h.beyond'.sound) fun key _ t t' ht ht' ↦ ?_
    have h' := h.later ht ht'
    refine ((h'.hasKey key).since ht ht').bind fun b u b' u' hu hu' hb ↦ ?_
    obtain rfl : b = b' := hb
    have h'' := h.later hu hu'
    cases b with
    | true => exact h''.pure_unit.since hu hu'
    | false => exact (h''.fail rfl).since hu hu'
  | @hasValues key values allowNull hvalues hnull =>
    rw [Rule.check, Rule.check]
    have htruthy : truthyValue allowNull m = .ok (m.forest.truthy allowNull) m := rfl
    have htruthy' : truthyValue allowNull m' = .ok (m.forest.truthy allowNull) m' :=
      congrArg (EStateM.Result.ok · m') (h.truthy_eq hnull)
    refine .of_read htruthy htruthy' (h.requireValue key fun v hv ↦ ?_)
    rcases List.mem_append.mp hv with hv | hv
    · exact hvalues v hv
    · split at hv
      · exact List.mem_singleton.mp hv ▸ hscalar .null
      · exact absurd hv List.not_mem_nil
  | areBooleans keys =>
    rw [Rule.check, Rule.check]
    refine .forM (.refl h.beyond.sound) (.refl h.beyond'.sound) fun key _ t t' ht ht' ↦ ?_
    refine ((h.later ht ht').requireValue key fun v hv ↦ ?_).since ht ht'
    rcases List.mem_pair.mp hv with rfl | rfl
    · exact hscalar (.bool true)
    · exact hscalar (.bool false)
  | isNotEmpty key =>
    rw [Rule.check, Rule.check]
    exact h.requireNotEmpty key
  | nested key _ ih =>
    exact h.nested fun hc ↦ hc.checkRules_of_each fun rule hrule _ _ ht ↦ ih rule hrule ht
  | when hcondition _ ih =>
    rw [Rule.check, Rule.check]
    refine (h.holds hcondition).bind fun b t b' t' ht ht' hb ↦ ?_
    obtain rfl : b = b' := hb
    have h' := h.later ht ht'
    cases b with
    | true =>
      exact (h'.checkRules_of_each fun rule hrule _ _ hu ↦ ih rule hrule hu).since ht ht'
    | false => exact h'.pure_unit.since ht ht'

/-- **Checking rules** reports the same of like nodes. -/
theorem Scope.Level.checkRules {m₀ m m' : Memory} {s : Scope} {n' : NodeId}
    {fields : Entries Blueprint} (h : Level m₀ m m' s n' fields) {rules : List Rule}
    (hrules : ∀ rule ∈ rules, rule.Knows m₀.Known) :
    Concur Beyond m m' (fun _ _ _ _ ↦ True) (checkRules s rules m)
      (checkRules (s.moved n') rules m') :=
  h.checkRules_of_each fun rule hrule _ _ ht ↦ (hrules rule hrule).check ht

end LayeredConfig
