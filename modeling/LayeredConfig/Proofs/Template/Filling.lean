import LayeredConfig.Proofs.Node.Run
import LayeredConfig.Template.Fill

/-!
# What filling in a template does to nodes

A template may be given nodes and computations. Looking something up in a node runs the
computation that stands there, which may write, and an expression may ask a node for a copy. None
of this is more than what a run of operations may do, so after a template was filled in, also if
that failed, the forest is one that may have arisen from the forest before.
-/

namespace LayeredConfig

open Memory (Follows)

variable {α β : Type}

theorem Node.keeps_keys (n : NodeId) : Keeps Follows (keys n) := .bind .get fun _ ↦ .pure _

namespace Template

/-! ## Data -/

namespace Datum

theorem keeps_truthy (d : Datum) : Keeps Follows d.truthy := .bind .get fun _ ↦ .pure _

theorem keeps_display (d : Datum) : Keeps Follows d.display := by
  cases d with
  | value v => exact .bind .get fun _ ↦ .pure _
  | markup s => exact .pure _
  | view name items => exact .bind (.bind .get fun _ ↦ .pure _) fun _ ↦ .pure _

theorem keeps_inWords (d : Datum) : Keeps Follows d.inWords := by
  unfold inWords
  split
  · exact .pure _
  · exact .pure _
  · exact .pure _
  · exact keeps_display _

theorem keeps_written (escaping : Bool) (d : Datum) : Keeps Follows (d.written escaping) := by
  unfold written
  split
  · exact .pure _
  · exact (keeps_inWords _).bind fun _ ↦ .pure _

theorem keeps_elements? (d : Datum) : Keeps Follows d.elements? := by
  cases d with
  | markup s => exact .pure _
  | view name items => exact .pure _
  | value v =>
    unfold elements?
    dsimp only
    split
    all_goals first | exact .pure _ | exact (Node.keeps_keys _).bind fun _ ↦ .pure _

theorem keeps_occurs? (d whole : Datum) : Keeps Follows (d.occurs? whole) := by
  unfold occurs?
  split
  · exact .pure _
  · exact .pure _
  · exact .pure _
  · exact (Node.keeps_hasKey _ _).map _
  · refine (keeps_elements? _).bind fun elements ↦ ?_
    split
    · exact .pure _
    · exact .bind .get fun _ ↦ .pure _

theorem keeps_lookUp (name : String) (d : Datum) : Keeps Follows <| entry? name d := by
  unfold entry?
  split
  · exact .pure _
  · refine (Node.keeps_hasKey _ _).bind fun b ↦ ?_
    split
    · exact .pure _
    · refine .tryCatch (((Node.keeps_getWith keeps_evaluate _ _).map _).map _) fun f ↦ ?_
      split
      · exact .pure _
      · exact .throw _
  · exact .pure _

theorem keeps_feature? (name : String) (v : Value) : Keeps Follows (feature? name v) := by
  unfold feature?
  split
  · exact .pure _
  · exact .pure _
  · -- only a node is asked for more than what it holds
    split
    · exact (Node.keeps_itemsWith keeps_evaluate _).bind fun _ ↦ .pure _
    split
    · exact (Node.keeps_keys _).bind fun _ ↦ .pure _
    split
    · exact (((Node.keeps_create _).map _).map _).map _
    split
    · exact ((Node.keeps_exportWith keeps_evaluate _).map _).map _
    split
    · exact .bind .get fun _ ↦ .pure _
    · exact .pure _
  · exact .pure _
  · exact .pure _
  · exact .pure _

theorem keeps_settle (d : Datum) : Keeps Follows d.settle := by
  unfold settle
  split
  · exact (keeps_evaluate _).map _
  · exact .pure _

theorem keeps_member? (d : Datum) (name : String) : Keeps Follows (d.member? name) := by
  unfold member?
  refine (keeps_lookUp name d).bind fun entry ↦ ?_
  split
  · exact (keeps_settle _).bind fun _ ↦ .pure _
  refine (keeps_feature? name _).bind fun feature ↦ ?_
  split
  · exact (keeps_settle _).bind fun _ ↦ .pure _
  split
  · exact (keeps_settle _).map _
  · exact .pure _

theorem keeps_walk? (path : List String) (d : Datum) : Keeps Follows (d.walk? path) := by
  induction path generalizing d with
  | nil => exact .pure _
  | cons name rest ih =>
    rw [walk?]
    refine (keeps_member? d name).bind fun found ↦ ?_
    split
    · exact ih _
    · exact .pure _

theorem keeps_wholeNumber? (d : Datum) : Keeps Follows d.wholeNumber? := by
  unfold wholeNumber?
  split
  · exact .pure _
  · split
    all_goals first | exact .pure _ | exact .throw _
  · exact .pure _

theorem keeps_sum (a b : Datum) : Keeps Follows (a.sum b) := by
  unfold sum
  refine (keeps_wholeNumber? a).bind fun m ↦ ?_
  split
  · exact .pure _
  refine (keeps_wholeNumber? b).bind fun n ↦ ?_
  split
  · exact .pure _
  · exact .pure _

theorem keeps_length (d : Datum) : Keeps Follows d.length :=
  (keeps_elements? d).bind fun _ ↦ .pure _

theorem keeps_first (d : Datum) : Keeps Follows d.first := by
  unfold first
  split
  all_goals try first | exact .pure _ | exact .throw _
  · split
    · exact .pure _
    · exact .throw _
  · exact (Node.keeps_getWith keeps_evaluate _ _).map _

end Datum

/-! ## Expressions and tests -/

variable (b : Bindings)

theorem Operand.keeps_find? (o : Operand) : Keeps Follows (o.find? b) := by
  unfold find?
  split
  · exact .pure _
  · exact .pure _
  · exact .pure _
  · split
    · exact (Datum.keeps_settle _).bind fun d ↦ d.keeps_walk? _
    · exact .pure _

theorem Operand.keeps_require (o : Operand) : Keeps Follows (o.require b) := by
  unfold require
  refine (o.keeps_find? b).bind fun found ↦ ?_
  split
  · exact .pure _
  · exact .throw _

theorem Filter.keeps_apply (d : Datum) (f : Filter) : Keeps Follows (f.apply b d) := by
  cases f with
  | default fallback =>
    refine (fallback.keeps_require b).bind fun other ↦ d.keeps_truthy.bind fun set ↦ ?_
    exact .pure _
  | defaultIfNull fallback => exact (fallback.keeps_require b).bind fun _ ↦ .pure _
  | upper => exact d.keeps_display.bind fun _ ↦ .pure _
  | lower =>
    cases d with
    | markup s => exact .pure _
    | _ => exact (Datum.keeps_display _).bind fun _ ↦ .pure _
  | length => exact d.keeps_length.bind fun _ ↦ .pure _
  | add summand => exact (summand.keeps_require b).bind fun _ ↦ d.keeps_sum _
  | escape =>
    cases d with
    | markup s => exact .pure _
    | _ => exact (Datum.keeps_display _).bind fun _ ↦ .pure _
  | safe => exact d.keeps_display.bind fun _ ↦ .pure _
  | first => exact d.keeps_first
  | cut needle =>
    rw [apply]
    refine (needle.keeps_require b).bind fun found ↦ ?_
    split
    · exact .throw _
    · exact d.keeps_display.bind fun _ ↦ .pure _

theorem Expression.keeps_find (fallback : Datum) (e : Expression) :
    Keeps Follows (e.find b fallback) := by
  unfold find
  refine (e.operand.keeps_find? b).bind fun found ↦ ?_
  -- one filter after the other
  generalize found.getD fallback = d
  induction e.filters generalizing d with
  | nil => exact .pure _
  | cons f rest ih =>
    rw [List.foldlM_cons]
    exact (f.keeps_apply b d).bind fun d ↦ ih d

theorem Relation.keeps_holds? (x y : Datum) (r : Relation) : Keeps Follows (r.holds? x y) := by
  have hordered : ∀ wanted, Keeps Follows (holds?.ordered x y wanted) := fun _ ↦
    .bind .get fun _ ↦ .pure _
  have hequal : Keeps Follows (equalValues x.toValue y.toValue) := .bind .get fun _ ↦ .pure _
  cases r with
  | within => exact x.keeps_occurs? y
  | notWithin => exact (x.keeps_occurs? y).bind fun _ ↦ .pure _
  | same => exact .pure _
  | notSame => exact .pure _
  | equal => exact hequal.map _
  | notEqual => exact hequal.bind fun _ ↦ .pure _
  | greater => exact hordered _
  | atLeast => exact hordered _
  | less => exact hordered _
  | atMost => exact hordered _

theorem Test.keeps_find (t : Test) : Keeps Follows (t.find b) := by
  have hguarded : ∀ {x : Eval Datum}, Keeps Follows x → Keeps Follows (find.guarded x) :=
    fun hx ↦ hx.tryCatch fun _ ↦ .pure _
  induction t with
  | operand e => exact e.keeps_find b _
  | not t ih =>
    exact hguarded (ih.bind fun d ↦ d.keeps_truthy.bind fun _ ↦ .pure _)
  | and s t ihs iht =>
    refine hguarded (ihs.bind fun first ↦ first.keeps_truthy.bind fun set ↦ ?_)
    split
    · exact iht
    · exact .pure _
  | or s t ihs iht =>
    refine hguarded (ihs.bind fun first ↦ first.keeps_truthy.bind fun set ↦ ?_)
    split
    · exact .pure _
    · exact iht
  | related r s t ihs iht =>
    exact hguarded (ihs.bind fun x ↦ iht.bind fun y ↦ (r.keeps_holds? x y).bind fun _ ↦ .pure _)

theorem Test.keeps_holds (t : Test) : Keeps Follows (t.holds b) := by
  unfold holds
  refine .tryCatch ((t.keeps_find b).bind fun d ↦ d.keeps_truthy) fun f ↦ ?_
  split
  · exact .pure _
  · exact .throw _

theorem keeps_loopVariables (names : List String) (item : Value) :
    Keeps Follows (loopVariables names item) := by
  unfold loopVariables
  split
  · exact .pure _
  · refine (Datum.keeps_elements? _).bind fun elements ↦ ?_
    split
    · exact .throw _
    · split
      · exact .throw _
      · exact .pure _

theorem keeps_loopItems (backwards : Bool) (d : Datum) : Keeps Follows (loopItems backwards d) := by
  unfold loopItems
  split
  · exact .pure _
  · refine (Datum.keeps_elements? _).bind fun elements ↦ ?_
    split
    · exact .throw _
    · exact .pure _

theorem keeps_inclusionFault (d : Datum) : Keeps Follows (inclusionFault d) := by
  unfold inclusionFault
  refine d.keeps_truthy.bind fun set ↦ ?_
  split
  · exact .pure _
  · refine d.keeps_elements?.bind fun elements ↦ ?_
    split
    · exact .pure _
    · exact .pure _

theorem keeps_firstSet (candidates : List Expression) : Keeps Follows (firstSet b candidates) := by
  induction candidates with
  | nil => exact .pure _
  | cons e rest ih =>
    rw [firstSet]
    refine (e.keeps_find b _).bind fun d ↦ d.keeps_truthy.bind fun set ↦ ?_
    split
    · exact d.keeps_written _
    · exact ih

/-! ## Parts -/

/-- With any bindings, the filling does no more to the forest than a run of operations may. -/
def Filling.Follows (x : Filling α) : Prop := ∀ b, Keeps Memory.Follows (x b)

namespace Filling.Follows

variable {x : Filling α}

protected theorem pure (a : α) : Follows (Pure.pure a : Filling α) := fun b ↦ Keeps.pure (a, b)

protected theorem get : Follows (get : Filling Bindings) := fun b ↦ Keeps.pure (b, b)

protected theorem set (b : Bindings) : Follows (set b : Filling PUnit) := fun _ ↦ Keeps.pure (_, b)

protected theorem modify (change : Bindings → Bindings) :
    Follows (modify change : Filling PUnit) := fun b ↦ Keeps.pure (_, change b)

protected theorem lift {x : Eval α} (hx : Keeps Memory.Follows x) :
    Follows (liftM x : Filling α) := fun _ ↦ hx.bind fun _ ↦ .pure _

protected theorem bind {k : α → Filling β} (hx : Follows x) (hk : ∀ a, Follows (k a)) :
    Follows (x >>= k) := fun b ↦ (hx b).bind fun r ↦ hk r.1 r.2

protected theorem mapM {f : α → Filling β} {items : List α} (h : ∀ a ∈ items, Follows (f a)) :
    Follows (items.mapM f) := by
  induction items with
  | nil => exact .pure _
  | cons a rest ih =>
    rw [List.mapM_cons]
    exact (h a List.mem_cons_self).bind fun _ ↦
      (ih fun c hc ↦ h c (List.mem_cons_of_mem _ hc)).bind fun _ ↦ .pure _

protected theorem inside (hx : Follows x) (change : Bindings → Bindings) :
    Follows (Filling.inside change x) :=
  .bind .get fun _ ↦ .bind (.set _) fun _ ↦ hx.bind fun _ ↦ .bind (.set _) fun _ ↦ .pure _

end Filling.Follows

mutual

/-- What a part does to the forest is what a run of operations may do. -/
theorem Part.follows_fill : ∀ part : Part, Filling.Follows part.fill
  | .text _ => .pure _
  | .expression e => .bind .get fun b ↦ .lift ((e.keeps_find b _).bind fun d ↦ d.keeps_written _)
  | .choice branches otherwise => by
    rw [Part.fill]
    refine (follows_fillBranches branches).bind fun text ↦ ?_
    split
    · exact .pure _
    · exact follows_fillParts otherwise
  | .loop names backwards source body empty => by
    rw [Part.fill]
    refine .inside (.bind ?_ fun items ↦ ?_) _
    · exact .bind .get fun b ↦ .bind (.lift (source.keeps_find b _)) fun d ↦
        .lift (keeps_loopItems _ d)
    · split
      · exact follows_fillParts empty
      · refine .bind .get fun b ↦ .bind (.mapM fun item _ ↦ ?_) fun _ ↦ .pure _
        refine .bind (.lift (keeps_loopVariables names _)) fun frame ↦ .bind (.modify _) fun _ ↦ ?_
        split
        · exact .bind (.modify _) fun _ ↦ follows_fillParts body
        · exact (follows_fillParts body).inside _
  | .binding bindings body => by
    rw [Part.fill]
    refine .bind .get fun b ↦ .bind (.lift (.mapM fun e _ ↦ ?_)) fun frame ↦ ?_
    · exact (e.2.keeps_find b _).bind fun _ ↦ .pure _
    · exact (follows_fillParts body).inside _
  | .escaping on body => by
    rw [Part.fill]
    exact .bind .get fun _ ↦ .bind (.modify _) fun _ ↦ (follows_fillParts body).bind fun _ ↦
      .bind (.modify _) fun _ ↦ .pure _
  | .spaceless body => by
    rw [Part.fill]
    exact (follows_fillParts body).bind fun _ ↦ .pure _
  | .firstOf candidates name => by
    rw [Part.fill]
    refine .bind .get fun b ↦ .bind (.lift (keeps_firstSet b candidates)) fun text ↦ ?_
    split
    · exact .pure _
    · exact .bind (.modify _) fun _ ↦ .pure _
  | .inclusion source => by
    rw [Part.fill]
    refine .bind (.bind .get fun b ↦ ?_) fun f ↦ .lift (.throw f)
    exact .bind (.lift (source.keeps_find b _)) fun d ↦ .lift (keeps_inclusionFault d)
  | .extension parent => by
    rw [Part.fill]
    refine .bind (.bind .get fun b ↦ .lift (parent.keeps_find b _)) fun d ↦ ?_
    exact .bind (.lift d.keeps_truthy) fun named ↦ .lift (.throw _)
  | .silent => .pure _
termination_by structural x => x

private theorem follows_fillParts : ∀ parts : List Part, Filling.Follows (fillParts parts)
  | [] => .pure _
  | part :: rest => by
    rw [fillParts]
    exact part.follows_fill.bind fun _ ↦ (follows_fillParts rest).bind fun _ ↦ .pure _
termination_by structural x => x

private theorem follows_fillBranches :
    ∀ branches : List (Test × List Part), Filling.Follows (fillBranches branches)
  | [] => .pure _
  | (test, body) :: rest => by
    rw [fillBranches]
    refine .bind .get fun b ↦ .bind (.lift (test.keeps_holds b)) fun holds ↦ ?_
    split
    · exact .bind (follows_fillParts body) fun _ ↦ .pure _
    · exact follows_fillBranches rest
termination_by structural x => x

end

/-- **Filling in a template** does to the forest what a run of operations may do. -/
theorem keeps_fill (parts : List Part) (given : List (Value × Value)) :
    Keeps Memory.Follows (fill parts given) :=
  (follows_fillParts parts _).bind fun _ ↦ .pure _

end Template

end LayeredConfig
