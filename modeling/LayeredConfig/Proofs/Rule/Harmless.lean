import LayeredConfig.Proofs.Node.Reading
import LayeredConfig.Rule.Basic

/-!
# Checking changes no node

Checking rules reads keys, which may run computations, and makes nodes where sub-trees are missing,
but it changes no node that was there. This holds of all rules, whatever their keys and values are,
and whether or not they are satisfied.

The statement about a rule is `Harmless`, for a node of which reading is known to change nothing. A
nested rule goes on in another node, so the statement about its rules has to be one about every
scope.
-/

namespace LayeredConfig

open Memory (Beyond Presents)

/-- The evaluation changes no node, if the given node presents some fields. -/
def Harmless {α : Type} (n : NodeId) (x : Eval α) : Prop :=
  ∀ m, m.forest.Sound → (∃ fields, Presents m n fields) → Beyond m (after x m)

/-- What was read can be read in turn: if it is a node, that presents some fields as well. -/
def Memory.Readable (m : Memory) (v : Value) : Prop :=
  ∀ c, v = .node c → ∃ fields, Presents m c fields

namespace Harmless

variable {α β : Type} {n : NodeId}

theorem of_keeps {x : Eval α} (h : Keeps Eq x) : Harmless n x := by
  intro m hm _
  rw [← h m]
  exact .refl hm

protected theorem pure (a : α) : Harmless n (pure a : Eval α) := of_keeps (.pure a)

protected theorem bind {x : Eval α} {k : α → Eval β} (hx : Harmless n x)
    (hk : ∀ a, Harmless n (k a)) : Harmless n (x >>= k) := by
  intro m hm hn
  have hfirst := hx m hm hn
  cases hrun : x m with
  | error e m' =>
    rw [after_of_error hrun] at hfirst
    rw [after_of_error (bind_of_error hrun)]
    exact hfirst
  | ok a m' =>
    rw [after_of_ok hrun] at hfirst
    obtain ⟨fields, hfields⟩ := hn
    have hrest := hk a m' hfirst.sound ⟨fields, hfields.beyond hfirst⟩
    rw [after, bind_of_ok hrun]
    exact hfirst.trans hrest

protected theorem forM {f : α → Eval Unit} {items : List α} (h : ∀ a, Harmless n (f a)) :
    Harmless n (items.forM f) := by
  induction items with
  | nil => exact .pure ()
  | cons a rest ih => exact (h a).bind fun _ ↦ ih

end Harmless

/-! ## Reading -/

/-- **Reading a key** of any kind changes no node, and what is read can be read in turn. -/
theorem Memory.Presents.valueOf_any {m : Memory} {n : NodeId} {fields : Entries Blueprint}
    (h : Presents m n fields) (hm : m.forest.Sound) (key : Value) :
    (∃ v m', Node.valueOf n key m = .ok v m' ∧ Beyond m m' ∧ m'.Readable v) ∨
      ∃ e, Node.valueOf n key m = .error e m := by
  by_cases htext : ∃ s, key = .text s
  · obtain ⟨s, rfl⟩ := htext
    obtain ⟨v, m', hv, hbeyond, hstored⟩ := h.valueOf (.refl hm) s
    refine .inl ⟨v, m', hv, hbeyond, ?_⟩
    rintro c rfl
    have hcontent := hstored.content
    rw [Memory.view, hbeyond.sound.view_node, Tree.content_node] at hcontent
    rw [← hcontent] at hstored
    exact ⟨_, hstored.presents hbeyond.sound⟩
  · rcases Node.hasKey_of_not_text (fun s hs ↦ htext ⟨s, hs⟩) n m with hkey | ⟨e, hkey⟩
    · exact .inl ⟨.null, m, bind_of_ok hkey, .refl hm, fun c hc ↦ by cases hc⟩
    · exact .inr ⟨e, bind_of_error hkey⟩

theorem harmless_valueOf (n : NodeId) (key : Value) : Harmless n (Node.valueOf n key) := by
  rintro m hm ⟨fields, h⟩
  rcases h.valueOf_any hm key with ⟨v, m', hv, hbeyond, _⟩ | ⟨e, he⟩
  · rw [after_of_ok hv]
    exact hbeyond
  · rw [after_of_error he]
    exact .refl hm

/-! ## Single demands -/

namespace Scope

variable {α : Type} (s : Scope)

theorem keeps_fail (key : Value) (problem : Problem) :
    Keeps Eq (s.fail key problem : Eval α) := by
  unfold fail
  split
  · exact .throw _
  · exact (keeps_snapshot _).bind fun _ ↦ .throw _

theorem harmless_requireValue (key : Value) (allowed : List Value) :
    Harmless s.node (s.requireValue key allowed) := by
  refine (harmless_valueOf s.node key).bind fun v ↦ .of_keeps ?_
  refine (keeps_snapshot v).bind fun found ↦ .bind (.mapM fun a _ ↦ keeps_snapshot a) fun _ ↦ ?_
  split
  · exact s.keeps_fail _ _
  · exact .pure _

theorem harmless_requireNotEmpty (key : Value) : Harmless s.node (s.requireNotEmpty key) := by
  refine (harmless_valueOf s.node key).bind fun v ↦ .of_keeps ?_
  refine (keeps_snapshot v).bind fun found ↦ ?_
  split
  · exact s.keeps_fail _ _
  · exact s.keeps_fail _ _
  · exact .pure _
  · split
    · exact s.keeps_fail _ _
    · exact .pure _
  · split
    · exact s.keeps_fail _ _
    · exact .pure _
  · exact s.keeps_fail _ _

theorem harmless_holds (condition : Condition) : Harmless s.node (condition.holds s) := by
  cases condition with
  | concreteEnvironment excluding =>
    refine .of_keeps (.bind ((keeps_truthyValue _).bind fun _ ↦ .pure _) fun early ↦ ?_)
    split
    · exact .pure _
    · exact .bind (.bind .get fun _ ↦ .pure _) fun _ ↦ .pure _
  | flag key expected =>
    refine (harmless_valueOf s.node key).bind fun v ↦ .of_keeps ?_
    refine (keeps_truthyValue v).bind fun set ↦ ?_
    split <;> exact .pure _

/-- What stands under a key is checked without changing a node, if that holds of the check of any
node. -/
theorem beyond_inside {m : Memory} (hm : m.forest.Sound) (key : Value) {check : Scope → Eval Unit}
    (h : ∀ s' : Scope, Harmless s'.node (check s')) {v : Value} (hv : m.Readable v) :
    Beyond m (after (s.inside key check v) m) := by
  by_cases hnode : ∃ c, v = .node c
  · obtain ⟨c, rfl⟩ := hnode
    exact h { s with node := c, path := s.path ++ [key] } m hm (hv c rfl)
  · have hfail : s.inside key check v = s.fail key .notMapping := by
      cases v with
      | node c => exact absurd ⟨c, rfl⟩ hnode
      | _ => rfl
    rw [hfail, ← s.keeps_fail key .notMapping m]
    exact .refl hm

theorem harmless_nested (key : Value) {rules : List Rule}
    (h : ∀ s' : Scope, Harmless s'.node (checkRules s' rules)) :
    Harmless s.node (Rule.check s (.nested key rules)) := by
  rintro m hm ⟨fields, hfields⟩
  rw [Rule.check]
  rcases hfields.valueOf_any hm key with ⟨v, m', hv, hbeyond, hreadable⟩ | ⟨e, he⟩
  · have hm' := hbeyond.sound
    have hvalue : s.valueOf key m = .ok v m' := hv
    have htruthy : truthyValue v m' = .ok (m'.forest.truthy v) m' := rfl
    rw [after, bind_of_ok hvalue, bind_of_ok htruthy]
    cases m'.forest.truthy v with
    | true => exact hbeyond.trans (s.beyond_inside hm' key h hreadable)
    | false =>
      -- what does not count as set is checked as a new node
      obtain ⟨c, m'', hcreate, hnew, _, hempty⟩ := Memory.create_null hm'
      have hinner : (Value.node <$> Node.create .null : Eval Value) m' = .ok (.node c) m'' :=
        map_of_ok hcreate
      rw [if_neg Bool.false_ne_true, bind_of_ok hinner]
      refine (hbeyond.trans hnew).trans (s.beyond_inside hnew.sound key h ?_)
      rintro c' hc'
      rw [← Value.node.inj hc']
      exact ⟨_, hempty.presents hnew.sound⟩
  · have herror : s.valueOf key m = .error e m := he
    rw [after_of_error (bind_of_error herror)]
    exact .refl hm

end Scope

/-! ## Rules -/

mutual

/-- **Checking a rule** changes no node. -/
theorem Rule.harmless_check (s : Scope) : (rule : Rule) → Harmless s.node (rule.check s)
  | .hasKeys keys => by
    rw [Rule.check]
    refine .forM fun key ↦ .of_keeps (.bind ?_ fun defined ↦ ?_)
    · unfold Node.hasKey
      split
      · exact .bind .get fun _ ↦ .pure _
      · split
        · exact .throw _
        · exact .pure _
    · split
      · exact s.keeps_fail _ _
      · exact .pure _
  | .hasValues key values allowNull => by
    rw [Rule.check]
    exact (Harmless.of_keeps (keeps_truthyValue _)).bind fun _ ↦ s.harmless_requireValue _ _
  | .areBooleans keys => by
    rw [Rule.check]
    exact .forM fun key ↦ s.harmless_requireValue key _
  | .isNotEmpty key => by
    rw [Rule.check]
    exact s.harmless_requireNotEmpty key
  | .nested key rules => s.harmless_nested key fun s' ↦ harmless_checkRules s' rules
  | .when condition rules => by
    rw [Rule.check]
    refine (s.harmless_holds condition).bind fun applies ↦ ?_
    split
    · exact harmless_checkRules s rules
    · exact .pure _
termination_by structural rule => rule

/-- **Checking rules** changes no node. -/
theorem harmless_checkRules (s : Scope) : (rules : List Rule) → Harmless s.node (checkRules s rules)
  | [] => .pure ()
  | rule :: rest => by
    rw [checkRules]
    exact (rule.harmless_check s).bind fun _ ↦ harmless_checkRules s rest
termination_by structural rules => rules

end

end LayeredConfig
