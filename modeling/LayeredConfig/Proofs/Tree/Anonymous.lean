import LayeredConfig.Proofs.Tree.Blueprint

/-!
# Trees without identities

Two runs of the same program make different nodes. What they have in common is what is left of a
tree when the identities of its nodes are forgotten: the keys and their order, the values, the kinds
of the sequences, and which nodes are frozen (`Tree.anonymous`). The wording of a failure names no
identity, so failures whose trees agree in this sense read the same (`Failure.message_anonymous`).

In a tree whose nodes are all frozen, or all open, the content says everything else.
-/

namespace LayeredConfig

/-- Of two lists, what can be told from the images of their members is the same if the images
are. -/
private theorem map_eq_map_of_images {α β γ : Type} {f : α → β} {g : α → γ} {xs ys : List α}
    (h : xs.map f = ys.map f) (hfg : ∀ x ∈ xs, ∀ y ∈ ys, f x = f y → g x = g y) :
    xs.map g = ys.map g := by
  induction xs generalizing ys with
  | nil =>
    cases ys with
    | nil => rfl
    | cons y ys => cases h
  | cons x xs ih =>
    cases ys with
    | nil => cases h
    | cons y ys =>
      obtain ⟨hhead, htail⟩ := List.cons.inj h
      rw [List.map_cons, List.map_cons, hfg x List.mem_cons_self y List.mem_cons_self hhead,
        ih htail fun x hx y hy ↦ hfg x (List.mem_cons_of_mem _ hx) y (List.mem_cons_of_mem _ hy)]

namespace Tree

mutual

/-- The tree with the identities of its nodes forgotten. -/
def anonymous : Tree → Tree
  | .scalar s => .scalar s
  | .seq kind items => .seq kind (anonymousItems items)
  | .set items => .set items
  | .mapping entries => .mapping (anonymousEntries entries)
  | .node _ frozen fields => .node ⟨0⟩ frozen (anonymousFields fields)
  | .deferred id => .deferred id
termination_by structural x => x

private def anonymousItems : List Tree → List Tree
  | [] => []
  | t :: rest => anonymous t :: anonymousItems rest
termination_by structural x => x

private def anonymousEntries : List (Tree × Tree) → List (Tree × Tree)
  | [] => []
  | (k, v) :: rest => (anonymous k, anonymous v) :: anonymousEntries rest
termination_by structural x => x

private def anonymousFields : List (String × Tree) → List (String × Tree)
  | [] => []
  | (k, v) :: rest => (k, anonymous v) :: anonymousFields rest
termination_by structural x => x

end

private theorem anonymousItems_eq (items : List Tree) :
    anonymousItems items = items.map anonymous := by
  induction items with
  | nil => rfl
  | cons t rest ih => rw [anonymousItems, ih, List.map_cons]

private theorem anonymousEntries_eq (entries : List (Tree × Tree)) :
    anonymousEntries entries = entries.map fun e ↦ (e.1.anonymous, e.2.anonymous) := by
  induction entries with
  | nil => rfl
  | cons e rest ih => rw [anonymousEntries, ih, List.map_cons]

private theorem anonymousFields_eq (fields : Entries Tree) :
    anonymousFields fields = fields.mapValues anonymous := by
  induction fields with
  | nil => rfl
  | cons e rest ih => rw [anonymousFields, ih, Entries.mapValues, Entries.mapValues, List.map_cons]

@[simp] theorem anonymous_scalar (s : Scalar) : anonymous (.scalar s) = .scalar s := rfl

@[simp] theorem anonymous_seq (kind : SeqKind) (items : List Tree) :
    anonymous (.seq kind items) = .seq kind (items.map anonymous) :=
  congrArg (Tree.seq kind) (anonymousItems_eq items)

@[simp] theorem anonymous_set (items : List Scalar) : anonymous (.set items) = .set items := rfl

@[simp] theorem anonymous_mapping (entries : List (Tree × Tree)) :
    anonymous (.mapping entries)
      = .mapping (entries.map fun e ↦ (e.1.anonymous, e.2.anonymous)) :=
  congrArg Tree.mapping (anonymousEntries_eq entries)

@[simp] theorem anonymous_node (id : NodeId) (frozen : Bool) (fields : Entries Tree) :
    anonymous (.node id frozen fields) = .node ⟨0⟩ frozen (fields.mapValues anonymous) :=
  congrArg (Tree.node ⟨0⟩ frozen) (anonymousFields_eq fields)

@[simp] theorem anonymous_deferred (id : DeferredId) : anonymous (.deferred id) = .deferred id :=
  rfl

/-! ## What does not ask for identities -/

theorem truthy_anonymous (t : Tree) : t.anonymous.truthy = t.truthy := by
  cases t with
  | seq kind items => cases items <;> simp [truthy]
  | mapping entries => cases entries <;> simp [truthy]
  | node id frozen fields => cases fields <;> simp [truthy, Entries.mapValues]
  | _ => rfl

private theorem keyText_anonymous (t : Tree) :
    t.anonymous.keyText.toOption = t.keyText.toOption := by
  cases t with
  | scalar s => rfl
  | _ => simp [keyText, Except.toOption]

theorem content_anonymous (t : Tree) : t.anonymous.content = t.content := by
  induction t with
  | seq kind items ih =>
    rw [anonymous_seq, content_seq, content_seq, List.map_map]
    exact congrArg Blueprint.list (List.map_congr_left ih)
  | mapping entries ih =>
    rw [anonymous_mapping, content_mapping, content_mapping, List.map_map]
    refine congrArg (fun pairs ↦ Blueprint.node (Entries.ofPairs pairs))
      (List.map_congr_left fun e he ↦ ?_)
    rw [Function.comp_apply, keyText_anonymous, (ih e he).2]
  | node id frozen fields ih =>
    rw [anonymous_node, content_node, content_node, Entries.mapValues_mapValues]
    exact congrArg Blueprint.node (Entries.mapValues_congr ih)
  | _ => rfl

theorem mapValues_content_anonymous (fields : Entries Tree) :
    (fields.mapValues anonymous).mapValues content = fields.mapValues content := by
  rw [Entries.mapValues_mapValues]
  exact Entries.mapValues_congr fun e _ ↦ content_anonymous e.2

theorem branches?_anonymous (t : Tree) :
    t.anonymous.branches? = t.branches?.map (Entries.mapValues anonymous) := by
  cases t with
  | seq kind items => rw [anonymous_seq]; rfl
  | mapping entries =>
    rw [anonymous_mapping, branches?, branches?, Option.map_some, Entries.mapValues_ofPairs,
      Entries.mapValues, List.map_map, List.map_map]
    refine congrArg (fun pairs ↦ some (Entries.ofPairs pairs)) (List.map_congr_left fun e _ ↦ ?_)
    rw [Function.comp_apply, Function.comp_apply, keyText_anonymous]
  | node id frozen fields => rw [anonymous_node]; rfl
  | _ => rfl

theorem at?_anonymous (p : List String) (t : Tree) :
    t.anonymous.at? p = (t.at? p).map anonymous := by
  induction p generalizing t with
  | nil => rfl
  | cons key rest ih =>
    rw [at?, at?, branches?_anonymous]
    cases t.branches? with
    | none => rfl
    | some fields =>
      rw [Option.map_some, Option.bind_some, Option.bind_some, Entries.find?_mapValues]
      cases fields.find? key with
      | none => rfl
      | some u => exact ih u

theorem quoted_anonymous (names : DeferredId → String) (t : Tree) :
    t.anonymous.quoted names = t.quoted names := by
  induction t with
  | seq kind items ih =>
    have hitems : (items.map anonymous).map (quoted names) = items.map (quoted names) := by
      rw [List.map_map]
      exact List.map_congr_left ih
    rw [anonymous_seq]
    cases kind with
    | list => rw [quoted_list, quoted_list, hitems]
    | tuple => rw [quoted_tuple, quoted_tuple, hitems]
  | mapping entries ih =>
    rw [anonymous_mapping, quoted_mapping, quoted_mapping, List.map_map]
    refine congrArg (bracketed _ _) (List.map_congr_left fun e he ↦ ?_)
    rw [Function.comp_apply, (ih e he).1, (ih e he).2]
  | node id frozen fields ih =>
    rw [anonymous_node, quoted_node, quoted_node, Entries.mapValues, List.map_map]
    refine congrArg (bracketed _ _) (List.map_congr_left fun e he ↦ ?_)
    rw [Function.comp_apply, ih e he]
  | _ => rfl

theorem display_anonymous (names : DeferredId → String) (t : Tree) :
    t.anonymous.display names = t.display names := by
  have hquoted := quoted_anonymous names t
  cases t with
  | seq kind items => rwa [anonymous_seq] at hquoted ⊢
  | mapping entries => rwa [anonymous_mapping] at hquoted ⊢
  | node id frozen fields => rwa [anonymous_node] at hquoted ⊢
  | _ => rfl

/-- Comparing trees does not compare identities. -/
theorem itemEqual_anonymous (t u : Tree) : t.anonymous.itemEqual u = t.itemEqual u := by
  induction t generalizing u with
  | seq kind items ih =>
    rw [anonymous_seq]
    cases u with
    | seq kind' ys =>
      rw [itemEqual_seq, itemEqual_seq, List.length_map,
        all_zip_map anonymous itemEqual itemEqual fun x hx y ↦ ih x hx y]
    | _ => rfl
  | mapping entries ih =>
    rw [anonymous_mapping]
    cases u with
    | mapping ys =>
      rw [itemEqual_mapping, itemEqual_mapping, List.length_map, List.all_map]
      refine congrArg (entries.length == ys.length && ·) ?_
      rw [Bool.eq_iff_iff, List.all_eq_true, List.all_eq_true]
      refine forall₂_congr fun e he ↦ ?_
      simp only [Function.comp_apply, (ih e he).1, (ih e he).2]
    | _ => rfl
  | node id frozen fields ih =>
    rw [anonymous_node]
    cases u with
    | node id' frozen' ys =>
      rw [itemEqual_node, itemEqual_node, Entries.mapValues, List.length_map, List.all_map]
      refine congrArg (fields.length == ys.length && ·) ?_
      rw [Bool.eq_iff_iff, List.all_eq_true, List.all_eq_true]
      refine forall₂_congr fun e he ↦ ?_
      simp only [Function.comp_apply, ih e he]
    | _ => rfl
  | _ => rfl

theorem equal_anonymous (t u : Tree) : t.anonymous.equal u = t.equal u := by
  have hitem := itemEqual_anonymous t u
  cases t with
  | seq kind items => rwa [anonymous_seq] at hitem ⊢
  | mapping entries => rwa [anonymous_mapping] at hitem ⊢
  | node id frozen fields => rwa [anonymous_node] at hitem ⊢
  | _ => rfl

theorem sameKind_anonymous (t u : Tree) : t.anonymous.sameKind u = t.sameKind u := by
  cases t with
  | seq kind items => rw [anonymous_seq]; cases u <;> rfl
  | mapping entries => rw [anonymous_mapping]; cases u <;> rfl
  | node id frozen fields => rw [anonymous_node]; cases u <;> rfl
  | _ => rfl

/-! ## Storing -/

end Tree

/-- The fault with the identities of nodes forgotten. -/
def StructureFault.anonymous : StructureFault → StructureFault
  | .notMapping found => .notMapping found.anonymous
  | .keyNotText key => .keyNotText key.anonymous
  | .databaseNotMapping place found => .databaseNotMapping place found.anonymous
  | .stated arguments => .stated (arguments.map Tree.anonymous)
  | fault => fault

namespace Tree

private theorem keyText_mapError (t : Tree) :
    t.anonymous.keyText = t.keyText.mapError StructureFault.anonymous := by
  cases t with
  | scalar s => cases s <;> rfl
  | _ => simp [keyText, Except.mapError, StructureFault.anonymous]

private theorem checkKeys_mapError (entries : List (Tree × Tree)) :
    checkKeys (entries.map fun e ↦ (e.1.anonymous, e.2.anonymous))
      = (checkKeys entries).mapError StructureFault.anonymous := by
  induction entries with
  | nil => rfl
  | cons e rest ih =>
    rw [List.map_cons, checkKeys_cons, checkKeys_cons, ih, keyText_mapError]
    cases e.1.keyText with
    | error fault => rfl
    | ok s => rfl

/-- Storing a tree makes the same of it, or fails for the same reason. -/
theorem blueprint_anonymous (t : Tree) :
    t.anonymous.blueprint = t.blueprint.mapError StructureFault.anonymous := by
  induction t with
  | seq kind items ih =>
    rw [anonymous_seq, blueprint_seq, blueprint_seq, mapM_mapError ih]
    cases items.mapM blueprint <;> rfl
  | mapping entries ih =>
    let step (e : Tree × Tree) : Except StructureFault (String × Blueprint) := do
      return (← e.1.keyText, ← e.2.blueprint)
    have hstep : ∀ e ∈ entries, step (e.1.anonymous, e.2.anonymous)
        = (step e).mapError StructureFault.anonymous := by
      intro e he
      simp only [step]
      rw [keyText_mapError, (ih e he).2]
      cases e.1.keyText with
      | error fault => rfl
      | ok s => cases e.2.blueprint <;> rfl
    rw [anonymous_mapping, blueprint_mapping, blueprint_mapping, checkKeys_mapError,
      mapM_mapError hstep]
    cases checkKeys entries with
    | error fault => rfl
    | ok u => cases entries.mapM step <;> rfl
  | node id frozen fields ih =>
    let step (e : String × Tree) : Except StructureFault (String × Blueprint) := do
      return (e.1, ← e.2.blueprint)
    have hstep : ∀ e ∈ fields, step (e.1, e.2.anonymous)
        = (step e).mapError StructureFault.anonymous := by
      intro e he
      simp only [step]
      rw [ih e he]
      cases e.2.blueprint <;> rfl
    rw [anonymous_node, blueprint_node, blueprint_node, Entries.mapValues, mapM_mapError hstep]
    cases fields.mapM step <;> rfl
  | _ => rfl

/-- Of trees that are all frozen, or all open, the content says everything but the identities. -/
theorem Standing.anonymous_congr {t u : Tree} {frozen : Bool} (ht : t.Standing frozen)
    (hu : u.Standing frozen) (h : t.content = u.content) : t.anonymous = u.anonymous := by
  induction ht generalizing u with
  | scalar s => rw [eq_scalar_of_content h.symm]
  | @seq items _ ih =>
    cases hu with
    | @seq items' hu =>
      rw [content_seq, content_seq] at h
      rw [anonymous_seq, anonymous_seq]
      refine congrArg (Tree.seq _) ?_
      exact map_eq_map_of_images (Blueprint.list.inj h) fun x hx y hy ↦ ih x hx (hu y hy)
    | node id hall => rw [content_seq, content_node] at h; cases h
    | _ => rw [content_seq] at h; cases h
  | set items =>
    cases hu with
    | set items' => rw [Blueprint.set.inj h]
    | seq hall => rw [content_seq] at h; cases h
    | node id hall => rw [content_node] at h; cases h
    | _ => cases h
  | @node id fields _ ih =>
    cases hu with
    | @node id' fields' hu =>
      rw [content_node, content_node] at h
      rw [anonymous_node, anonymous_node]
      refine congrArg (Tree.node ⟨0⟩ frozen) ?_
      refine map_eq_map_of_images (Blueprint.node.inj h) fun x hx y hy hxy ↦ ?_
      exact Prod.ext (Prod.mk.inj hxy).1 (ih x hx (hu y hy) (Prod.mk.inj hxy).2)
    | seq hall => rw [content_seq, content_node] at h; cases h
    | _ => rw [content_node] at h; cases h
  | deferred id =>
    cases hu with
    | deferred id' => rw [Blueprint.deferred.inj h]
    | seq hall => rw [content_seq] at h; cases h
    | node id hall => rw [content_node] at h; cases h
    | _ => cases h

end Tree

/-! ## Failures -/

/-- The fault with the identities of nodes forgotten. -/
def SecretFault.anonymous : SecretFault → SecretFault
  | .stated arguments => .stated (arguments.map Tree.anonymous)
  | fault => fault

/-- The problem with the identities of nodes forgotten. -/
def Problem.anonymous : Problem → Problem
  | .notOneOf allowed found => .notOneOf (allowed.map Tree.anonymous) found.anonymous
  | .notCollection found => .notCollection found.anonymous
  | .stated problem => .stated problem.anonymous
  | problem => problem

/-- The error with the identities of nodes forgotten. -/
def ConfigurationError.anonymous : ConfigurationError → ConfigurationError
  | .general arguments => .general (arguments.map Tree.anonymous)
  | .notFound key => .notFound key.anonymous
  | .invalidKeyType key => .invalidKeyType key.anonymous
  | .invalidStructure fault => .invalidStructure fault.anonymous
  | .validationFailure keyPath environment problem =>
    .validationFailure keyPath environment.anonymous problem.anonymous
  | .sourceNotFound candidates => .sourceNotFound candidates
  | .secretDecryption fault => .secretDecryption fault.anonymous
  | .readOnlyNode key => .readOnlyNode key.anonymous

/-- The failure with the identities of nodes forgotten. -/
def Failure.anonymous : Failure → Failure
  | .configuration error => .configuration error.anonymous
  | .notCallable found => .notCallable found.anonymous
  | .missingItem key => .missingItem key.anonymous
  | .improperlyConfigured adapter => .improperlyConfigured adapter.anonymous
  | failure => failure

section Message

variable (names : DeferredId → String)

theorem statedText_anonymous (arguments : List Tree) :
    statedText names (arguments.map Tree.anonymous) = statedText names arguments := by
  have hquoted := Tree.quoted_anonymous names (.seq .tuple arguments)
  rw [Tree.anonymous_seq] at hquoted
  cases arguments with
  | nil => rfl
  | cons t rest =>
    cases rest with
    | nil => exact t.display_anonymous names
    | cons u rest => exact hquoted

theorem StructureFault.message_anonymous (fault : StructureFault) :
    fault.anonymous.message names = fault.message names := by
  delta anonymous message
  cases fault <;> dsimp only <;> simp only [Tree.quoted_anonymous, statedText_anonymous]

theorem SecretFault.message_anonymous (fault : SecretFault) :
    fault.anonymous.message names = fault.message names := by
  delta anonymous message
  cases fault <;> dsimp only
  exact statedText_anonymous names _

theorem Problem.message_anonymous (problem : Problem) :
    problem.anonymous.message names = problem.message names := by
  delta anonymous message
  cases problem <;> dsimp only <;>
    simp only [← Tree.anonymous_seq, Tree.quoted_anonymous, Tree.display_anonymous]

theorem ConfigurationError.message_anonymous (error : ConfigurationError) :
    error.anonymous.message names = error.message names := by
  cases error with
  | readOnlyNode key =>
    -- whether there is a key is part of the wording
    have hdisplay := key.display_anonymous names
    delta anonymous message
    cases key <;> dsimp only [Tree.anonymous] at hdisplay ⊢ <;> rw [hdisplay]
  | _ =>
    delta anonymous message
    dsimp only <;>
      simp only [statedText_anonymous, Tree.display_anonymous, Tree.quoted_anonymous,
        Tree.truthy_anonymous, StructureFault.message_anonymous, SecretFault.message_anonymous,
        Problem.message_anonymous]

/-- **The wording of a failure** names no identity of a node. -/
theorem Failure.message_anonymous (failure : Failure) :
    failure.anonymous.message names = failure.message names := by
  delta anonymous message
  cases failure <;> dsimp only <;>
    simp only [ConfigurationError.message_anonymous, Tree.quoted_anonymous, Tree.display_anonymous]

end Message

end LayeredConfig
