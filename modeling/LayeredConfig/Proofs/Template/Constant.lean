import LayeredConfig.Proofs.Node.Run
import LayeredConfig.Proofs.Yaml.Plain
import LayeredConfig.Template.Fill

/-!
# Templates that are given plain values

A template whose names stand for neither nodes nor computations reads nothing of the memory. What it
comes to is the same whenever it is filled in, and it leaves the memory as it was. `Constant` says
so of an evaluation.

The invariant of the filling is that all its names stand for plain values. Nothing in the text of a
template can stand for anything else.
-/

namespace LayeredConfig

variable {α β : Type} {P : α → Prop} {Q : β → Prop}

/-- In every memory the evaluation gives the same value, which has the property, or fails with the
same fault of a template, and it changes nothing. -/
def Constant (P : α → Prop) (x : Eval α) : Prop :=
  (∃ a, P a ∧ x = pure a) ∨ ∃ fault, x = throw (.template fault)

namespace Constant

variable {x : Eval α}

protected theorem pure {a : α} (h : P a) : Constant P (Pure.pure a : Eval α) := .inl ⟨a, h, rfl⟩

protected theorem throw (fault : TemplateFault) : Constant P (throw (.template fault) : Eval α) :=
  .inr ⟨fault, rfl⟩

/-- What is the same for all memories may be read. -/
protected theorem reads {f : Memory → α} (h : ∀ m m', f m = f m') (hP : ∀ m, P (f m)) :
    Constant P (get >>= fun m ↦ Pure.pure (f m)) := by
  refine .inl ⟨f default, hP default, funext fun m ↦ ?_⟩
  rw [get_bind, h m default]

protected theorem bind {k : α → Eval β} (hx : Constant P x) (hk : ∀ a, P a → Constant Q (k a)) :
    Constant Q (x >>= k) := by
  rcases hx with ⟨a, ha, rfl⟩ | ⟨f, rfl⟩
  · rw [pure_bind]
    exact hk a ha
  · exact .inr ⟨f, rfl⟩

protected theorem map {f : α → β} (hx : Constant P x) (hf : ∀ a, P a → Q (f a)) :
    Constant Q (f <$> x) := by
  rw [map_eq_pure_bind]
  exact hx.bind fun a ha ↦ .pure (hf a ha)

protected theorem tryCatch {handler : Failure → Eval α} (hx : Constant P x)
    (hhandler : ∀ fault, Constant P (handler (.template fault))) :
    Constant P (tryCatch x handler) := by
  rcases hx with ⟨a, ha, rfl⟩ | ⟨fault, rfl⟩
  · exact .inl ⟨a, ha, funext fun m ↦ tryCatch_of_ok rfl⟩
  · have heq : tryCatch (throw (.template fault)) handler = handler (.template fault) :=
      funext fun m ↦ tryCatch_of_error rfl
    rw [heq]
    exact hhandler fault

protected theorem mapM {f : α → Eval β} {items : List α} (h : ∀ a ∈ items, Constant Q (f a)) :
    Constant (fun results ↦ ∀ b ∈ results, Q b) (items.mapM f) := by
  induction items with
  | nil => exact .pure fun b hb ↦ absurd hb List.not_mem_nil
  | cons a rest ih =>
    rw [List.mapM_cons]
    refine (h a List.mem_cons_self).bind fun b hb ↦ ?_
    refine (ih fun c hc ↦ h c (List.mem_cons_of_mem _ hc)).bind fun results hresults ↦ ?_
    exact .pure (List.forall_mem_cons.mpr ⟨hb, hresults⟩)

end Constant

/-! ## Plain values -/

namespace Value

/-- The written form of a plain value does not depend on the names of computations. -/
theorem Plain.quoted_graft {v : Value} (hv : v.Plain) (sub : NodeId → Tree)
    (names names' : DeferredId → String) :
    (v.graft sub).quoted names = (v.graft sub).quoted names' := by
  induction hv with
  | scalar s => rfl
  | @seq kind items _ ih =>
    have hitems : (items.map (graft sub)).map (Tree.quoted names) =
        (items.map (graft sub)).map (Tree.quoted names') := by
      rw [List.map_map, List.map_map]
      exact List.map_congr_left ih
    rw [graft_seq]
    cases kind with
    | list => rw [Tree.quoted_list, Tree.quoted_list, hitems]
    | tuple => rw [Tree.quoted_tuple, Tree.quoted_tuple, hitems]
  | set items => cases items <;> rfl
  | mapping _ _ ihkeys ihvalues =>
    rw [graft_mapping, Tree.quoted_mapping, Tree.quoted_mapping, List.map_map, List.map_map]
    refine congrArg (Tree.bracketed _ _) (List.map_congr_left fun e he ↦ ?_)
    rw [Function.comp_apply, Function.comp_apply, ihkeys e he, ihvalues e he]

theorem Plain.quoted_eq {v : Value} (hv : v.Plain) (m m' : Memory) : m.quoted v = m'.quoted v := by
  have hview : m.view v = m'.view v := hv.graft_eq _ _
  rw [Memory.quoted, Memory.quoted, hview]
  exact hv.quoted_graft _ _ _

theorem Plain.display_eq {v : Value} (hv : v.Plain) (m m' : Memory) :
    m.display v = m'.display v := by
  cases hv with
  | scalar s => rfl
  | set items => exact (Plain.set items).quoted_eq m m'
  | seq kind h => exact (Plain.seq kind h).quoted_eq m m'
  | mapping keys values => exact (Plain.mapping keys values).quoted_eq m m'

theorem Plain.truthy_eq {v : Value} (hv : v.Plain) (f f' : Forest) : f.truthy v = f'.truthy v := by
  cases hv <;> rfl

theorem mem_of_lookupEntry? {key value : Value} {entries : List (Value × Value)}
    (h : lookupEntry? key entries = some value) : ∃ e ∈ entries, e.2 = value := by
  obtain ⟨e, he, heq⟩ := Option.map_eq_some_iff.mp h
  exact ⟨e, List.mem_of_find?_eq_some he, heq⟩

end Value

namespace Template

/-! ## Data -/

/-- Neither a node nor a computation stands in the datum. -/
def Datum.Plain (d : Datum) : Prop := d.toValue.Plain

namespace Datum

variable {d : Datum} {v : Value} {P : α → Prop}

/-- What was found, if anything was, is plain. -/
def PlainIfAny (found : Option Datum) : Prop := ∀ d ∈ found, d.Plain

namespace PlainIfAny

protected theorem none : PlainIfAny none := fun _ h ↦ by cases h

protected theorem some (hd : d.Plain) : PlainIfAny (some d) := fun _ h ↦ Option.some.inj h ▸ hd

protected theorem ite {c : Prop} [Decidable c] {found found' : Option Datum}
    (h : PlainIfAny found) (h' : PlainIfAny found') : PlainIfAny (if c then found else found') := by
  split
  · exact h
  · exact h'

protected theorem map {f : α → Datum} {found : Option α} (h : ∀ a ∈ found, (f a).Plain) :
    PlainIfAny (found.map f) := by
  intro d hd
  obtain ⟨a, ha, rfl⟩ := Option.map_eq_some_iff.mp hd
  exact h a ha

protected theorem orElse {found : Option Datum} {other : Unit → Option Datum}
    (h : PlainIfAny found) (hother : PlainIfAny (other ())) :
    PlainIfAny (found.orElse other) := by
  cases found with
  | none => exact hother
  | some d => exact h

end PlainIfAny

theorem plain_text (s : String) : Plain (.text s) := .scalar (.text s)

theorem plain_missing : Plain missing := plain_text ""

theorem constant_truthy (hd : d.Plain) : Constant (fun _ ↦ True) d.truthy :=
  .reads (fun m m' ↦ hd.truthy_eq m.forest m'.forest) fun _ ↦ trivial

theorem constant_display (hd : d.Plain) : Constant (fun _ ↦ True) d.display := by
  cases d with
  | value v => exact .reads hd.display_eq fun _ ↦ trivial
  | markup s => exact .pure trivial
  | view name items =>
    have hquoted : Constant (fun _ ↦ True) (quotedValue (.list items)) :=
      .reads hd.quoted_eq fun _ ↦ trivial
    exact hquoted.bind fun _ _ ↦ .pure trivial

theorem constant_inWords (hd : d.Plain) : Constant (fun _ ↦ True) d.inWords := by
  unfold inWords
  split
  · exact .pure trivial
  · exact .pure trivial
  · exact .pure trivial
  · exact constant_display hd

theorem constant_written (escaping : Bool) (hd : d.Plain) :
    Constant (fun _ ↦ True) (d.written escaping) := by
  unfold written
  split
  · exact .pure trivial
  · exact (constant_inWords hd).bind fun _ _ ↦ .pure trivial

/-- The elements of what is plain are plain. -/
theorem constant_elements? (hd : d.Plain) :
    Constant (fun items? ↦ ∀ items ∈ items?, ∀ v ∈ items, v.Plain) d.elements? := by
  have hcharacters : ∀ s : String, ∀ v ∈ s.toList.map fun c ↦ Value.text (String.singleton c),
      v.Plain := by
    intro s v hv
    obtain ⟨c, -, rfl⟩ := List.mem_map.mp hv
    exact .scalar _
  have hsome : ∀ {items : List Value}, (∀ v ∈ items, v.Plain) →
      Constant (fun items? ↦ ∀ items ∈ items?, ∀ v ∈ items, v.Plain)
        (pure (some items) : Eval (Option (List Value))) := by
    intro items h
    exact .pure fun _ heq ↦ Option.some.inj heq ▸ h
  cases d with
  | markup s => exact hsome (hcharacters s)
  | view name items =>
    cases hd with
    | seq _ h => exact hsome h
  | value v =>
    cases hd with
    | scalar s =>
      cases s with
      | text s => exact hsome (hcharacters s)
      | bytes bs =>
        refine hsome fun v hv ↦ ?_
        obtain ⟨b, -, rfl⟩ := List.mem_map.mp hv
        exact .scalar _
      | _ => exact .pure fun _ heq ↦ by cases heq
    | seq kind h => exact hsome h
    | set items =>
      refine hsome fun v hv ↦ ?_
      obtain ⟨s, -, rfl⟩ := List.mem_map.mp hv
      exact .scalar s
    | mapping keys values =>
      refine hsome fun v hv ↦ ?_
      obtain ⟨e, he, rfl⟩ := List.mem_map.mp hv
      exact keys e he

theorem constant_occurs? {whole : Datum} (hd : d.Plain) (hwhole : whole.Plain) :
    Constant (fun _ ↦ True) (d.occurs? whole) := by
  unfold occurs?
  split
  · exact .pure trivial
  · exact .pure trivial
  · exact .pure trivial
  · cases hwhole
  · refine (constant_elements? hwhole).bind fun items? hitems ↦ ?_
    split
    · exact .pure trivial
    · next items =>
      refine .reads (fun m m' ↦ ?_) fun _ ↦ trivial
      have hview : m.view d.toValue = m'.view d.toValue := hd.graft_eq _ _
      have hviews : items.map m.view = items.map m'.view :=
        List.map_congr_left fun v hv ↦ (hitems _ rfl v hv).graft_eq _ _
      change some (items.any ((m.view d.toValue).itemEqual ∘ m.view)) =
        some (items.any ((m'.view d.toValue).itemEqual ∘ m'.view))
      rw [← List.any_map, ← List.any_map, hview, hviews]

/-! ### Members -/

theorem plain_entry {entries : List (Value × Value)} (h : ∀ e ∈ entries, e.2.Plain) (key : Value) :
    PlainIfAny ((Value.lookupEntry? key entries).map Datum.value) := by
  refine .map fun v hv ↦ ?_
  obtain ⟨e, he, rfl⟩ := Value.mem_of_lookupEntry? hv
  exact h e he

theorem constant_lookUp (name : String) (hd : d.Plain) :
    Constant PlainIfAny <| entry? name d := by
  unfold entry?
  split
  · cases hd with
    | mapping _ values => exact .pure (plain_entry values _)
  · cases hd
  · exact .pure .none

theorem plain_datePart? (name : String) (date : Date) : PlainIfAny (datePart? name date) :=
  .ite (.some (.scalar _)) (.ite (.some (.scalar _)) (.ite (.some (.scalar _)) .none))

theorem constant_feature? (name : String) (hv : v.Plain) :
    Constant PlainIfAny (feature? name v) := by
  cases hv with
  | scalar s =>
    cases s with
    | text s =>
      exact .pure (.ite (.some (plain_text _)) (.ite (.some (plain_text _))
        (.ite (.some (plain_text _)) .none)))
    | date date => exact .pure (plain_datePart? name date)
    | time t =>
      exact .pure (.ite (.some (.scalar _)) (.ite (.some (.scalar _)) (.ite (.some (.scalar _))
        (plain_datePart? name _))))
    | _ => exact .pure .none
  | seq kind h => exact .pure .none
  | set items => exact .pure .none
  | @mapping entries keys values =>
    have hitems : ∀ pair ∈ entries.map fun e ↦ Value.tuple [e.1, e.2], pair.Plain := by
      intro pair hpair
      obtain ⟨e, he, rfl⟩ := List.mem_map.mp hpair
      exact .seq _ (List.forall_mem_cons.mpr
        ⟨keys e he, List.forall_mem_singleton.mpr (values e he)⟩)
    have hkeys : ∀ k ∈ entries.map (·.1), k.Plain := List.forall_mem_map.mpr keys
    have hvalues : ∀ v ∈ entries.map (·.2), v.Plain := List.forall_mem_map.mpr values
    exact .pure (.ite (.some (.seq _ hitems)) (.ite (.some (.seq _ hkeys))
      (.ite (.some (.seq _ hvalues)) (.ite (.some (.mapping keys values)) .none))))

theorem settle_of_plain (hd : d.Plain) : d.settle = pure d := by
  unfold settle
  split
  · cases hd
  · rfl

theorem plain_item? (position : Int) (hv : v.Plain) : PlainIfAny (item? position v) := by
  cases hv with
  | scalar s =>
    cases s with
    | text s => exact .map fun _ _ ↦ plain_text _
    | bytes bs => exact .map fun _ _ ↦ .scalar _
    | _ => exact .none
  | seq kind h => exact .map fun v hv ↦ h v (List.mem_of_getElem? hv)
  | set items => exact .none
  | mapping keys values => exact plain_entry values _

/-- What a name means inside a plain datum is plain. -/
theorem constant_member? (name : String) (hd : d.Plain) :
    Constant PlainIfAny (d.member? name) := by
  have hsettled : ∀ {found : Datum}, found.Plain →
      Constant PlainIfAny (some <$> found.settle) := by
    intro found hfound
    rw [settle_of_plain hfound]
    exact .pure (.some hfound)
  unfold member?
  refine (constant_lookUp name hd).bind fun entry hentry ↦ ?_
  split
  · exact hsettled (hentry _ rfl)
  refine (constant_feature? name hd).bind fun feature hfeature ↦ ?_
  split
  · exact hsettled (hfeature _ rfl)
  split
  · next found heq =>
    obtain ⟨i, -, hi⟩ := Option.bind_eq_some_iff.mp heq
    exact hsettled (plain_item? i hd _ hi)
  · exact .pure .none

theorem constant_walk? (path : List String) (hd : d.Plain) :
    Constant PlainIfAny (d.walk? path) := by
  induction path generalizing d with
  | nil => exact .pure (.some hd)
  | cons name rest ih =>
    rw [walk?]
    refine (constant_member? name hd).bind fun found hfound ↦ ?_
    split
    · exact ih (hfound _ rfl)
    · exact .pure .none

theorem constant_wholeNumber? (hd : d.Plain) : Constant (fun _ ↦ True) d.wholeNumber? := by
  unfold wholeNumber?
  split
  · exact .pure trivial
  · split
    all_goals first | exact .pure trivial | exact .throw _
  · exact .pure trivial

theorem plain_join {e : Datum} (hd : d.Plain) (he : e.Plain) : (d.join e).Plain := by
  unfold join
  split
  · exact plain_text _
  · split
    · cases hd with
      | seq _ hd =>
        cases he with
        | seq _ he => exact .seq _ (List.forall_mem_append.mpr ⟨hd, he⟩)
    · exact plain_missing
  · exact .scalar _
  · split
    · exact plain_text _
    · split
      · exact .scalar _
      · exact plain_missing

theorem constant_sum {e : Datum} (hd : d.Plain) (he : e.Plain) : Constant Plain (d.sum e) := by
  unfold sum
  refine (constant_wholeNumber? hd).bind fun m _ ↦ ?_
  split
  · exact .pure (plain_join hd he)
  refine (constant_wholeNumber? he).bind fun n _ ↦ ?_
  split
  · exact .pure (plain_join hd he)
  · exact .pure (.scalar _)

theorem constant_length (hd : d.Plain) : Constant (fun _ ↦ True) d.length :=
  (constant_elements? hd).bind fun _ _ ↦ .pure trivial

theorem constant_first (hd : d.Plain) : Constant Plain d.first := by
  unfold first
  split
  · exact .pure (plain_text _)
  · exact .pure (plain_text _)
  · exact .pure (.scalar _)
  · exact .pure plain_missing
  · cases hd with
    | seq _ h => exact .pure (h _ List.mem_cons_self)
  · exact .pure plain_missing
  · cases hd with
    | mapping _ values =>
      split
      · next v hv => exact .pure (plain_entry values _ (.value v) (by rw [hv]; rfl))
      · exact .throw _
  · cases hd
  · exact .throw _

end Datum

/-! ## Expressions and tests -/

/-- All that the names stand for is plain. -/
structure Bindings.Plain (b : Bindings) : Prop where
  frames : ∀ frame ∈ b.frames, ∀ e ∈ frame, e.2.Plain
  given : ∀ e ∈ b.given, e.2.Plain

namespace Bindings.Plain

variable {b : Bindings} {name : String} {d : Datum} {frame : Entries Datum}

theorem find? (hb : b.Plain) (name : String) : Datum.PlainIfAny (b.find? name) := by
  have hconstants : ∀ e ∈ constants, e.2.Plain := by
    simp [constants, Datum.Plain, Datum.toValue, Value.Plain.scalar]
  refine .orElse (fun d hd ↦ ?_) (.orElse (Datum.plain_entry hb.given _) (.orElse ?_ ?_))
  · obtain ⟨frame, hframe, hfind⟩ := List.exists_of_findSome?_eq_some hd
    exact hb.frames frame hframe _ (Entries.mem_of_find? hfind)
  · exact fun d hd ↦ hconstants _ (Entries.mem_of_find? hd)
  · refine .map fun v hv ↦ ?_
    obtain ⟨i, -, hi⟩ := Option.bind_eq_some_iff.mp hv
    obtain ⟨e, he, rfl⟩ := Value.mem_of_lookupEntry? hi
    exact hb.given e he

theorem put (hb : b.Plain) (name : String) (hd : d.Plain) : (b.put name d).Plain := by
  unfold Bindings.put
  split
  · next frame rest heq =>
    have hframes := hb.frames
    rw [heq] at hframes
    obtain ⟨hframe, hrest⟩ := List.forall_mem_cons.mp hframes
    refine ⟨List.forall_mem_cons.mpr ⟨fun e he ↦ ?_, hrest⟩, hb.given⟩
    rcases Entries.mem_put he with rfl | he
    · exact hd
    · exact hframe e he
  · exact ⟨List.forall_mem_singleton.mpr (List.forall_mem_singleton.mpr hd), hb.given⟩

theorem putAll (hb : b.Plain) (hframe : ∀ e ∈ frame, e.2.Plain) :
    (frame.foldl (fun b (name, d) ↦ b.put name d) b).Plain := by
  induction frame generalizing b with
  | nil => exact hb
  | cons e rest ih =>
    obtain ⟨he, hrest⟩ := List.forall_mem_cons.mp hframe
    exact ih (hb.put e.1 he) hrest

theorem within (hb : b.Plain) (hframe : ∀ e ∈ frame, e.2.Plain) : (b.within frame).Plain :=
  ⟨List.forall_mem_cons.mpr ⟨hframe, hb.frames⟩, hb.given⟩

end Bindings.Plain

variable {b : Bindings} {d : Datum} {P : α → Prop} {Q : β → Prop}

theorem Operand.constant_find? (hb : b.Plain) (o : Operand) :
    Constant Datum.PlainIfAny (o.find? b) := by
  unfold find?
  split
  · exact .pure (.some (Datum.plain_text _))
  · exact .pure (.some (.scalar _))
  · exact .pure .none
  · next name rest =>
    split
    · next d hd =>
      have hplain := hb.find? name d hd
      rw [Datum.settle_of_plain hplain, pure_bind]
      exact Datum.constant_walk? rest hplain
    · exact .pure .none

theorem Operand.constant_require (hb : b.Plain) (o : Operand) :
    Constant Datum.Plain (o.require b) := by
  unfold require
  refine (o.constant_find? hb).bind fun found hfound ↦ ?_
  split
  · exact .pure (hfound _ rfl)
  · exact .throw _

theorem Filter.constant_apply (hb : b.Plain) (hd : d.Plain) (f : Filter) :
    Constant Datum.Plain (f.apply b d) := by
  have hdisplay := Datum.constant_display hd
  cases f with
  | default fallback =>
    refine (fallback.constant_require hb).bind fun other hother ↦ ?_
    refine (Datum.constant_truthy hd).bind fun set _ ↦ .pure ?_
    split
    · exact hd
    · exact hother
  | defaultIfNull fallback =>
    refine (fallback.constant_require hb).bind fun other hother ↦ .pure ?_
    split
    · exact hother
    · exact hd
  | upper => exact hdisplay.bind fun _ _ ↦ .pure (Datum.plain_text _)
  | lower =>
    cases d with
    | markup s => exact .pure (Datum.plain_text _)
    | _ => exact hdisplay.bind fun _ _ ↦ .pure (Datum.plain_text _)
  | length => exact (Datum.constant_length hd).bind fun _ _ ↦ .pure (.scalar _)
  | add summand => exact (summand.constant_require hb).bind fun _ h ↦ Datum.constant_sum hd h
  | escape =>
    cases d with
    | markup s => exact .pure (Datum.plain_text _)
    | _ => exact hdisplay.bind fun _ _ ↦ .pure (Datum.plain_text _)
  | safe => exact hdisplay.bind fun _ _ ↦ .pure (Datum.plain_text _)
  | first => exact Datum.constant_first hd
  | cut needle =>
    rw [apply]
    refine (needle.constant_require hb).bind fun found _ ↦ ?_
    split
    · exact .throw _
    · refine hdisplay.bind fun _ _ ↦ .pure ?_
      split
      · split
        · exact Datum.plain_text _
        · exact Datum.plain_text _
      · exact Datum.plain_text _

theorem Expression.constant_find (hb : b.Plain) {fallback : Datum} (hfallback : fallback.Plain)
    (e : Expression) : Constant Datum.Plain (e.find b fallback) := by
  unfold find
  refine (e.operand.constant_find? hb).bind fun found hfound ↦ ?_
  have hstart : (found.getD fallback).Plain := by
    cases found with
    | none => exact hfallback
    | some d => exact hfound d rfl
  -- one filter after the other
  generalize found.getD fallback = d at hstart
  induction e.filters generalizing d with
  | nil => exact .pure hstart
  | cons f rest ih =>
    rw [List.foldlM_cons]
    exact (f.constant_apply hb hstart).bind fun d hd ↦ ih d hd

theorem Expression.constant_resolve (hb : b.Plain) (e : Expression) :
    Constant Datum.Plain (e.resolve b) :=
  e.constant_find hb Datum.plain_missing

theorem Expression.constant_resolveOrNull (hb : b.Plain) (e : Expression) :
    Constant Datum.Plain (e.resolveOrNull b) := by
  have hnull : Datum.Plain (.value .null) := .scalar .null
  exact e.constant_find hb hnull

theorem Relation.constant_holds? {x y : Datum} (hx : x.Plain) (hy : y.Plain) (r : Relation) :
    Constant (fun _ ↦ True) (r.holds? x y) := by
  have hview : ∀ {d : Datum}, d.Plain → ∀ m m' : Memory, m.view d.toValue = m'.view d.toValue :=
    fun hd _ _ ↦ hd.graft_eq _ _
  have hordered : ∀ wanted, Constant (fun _ ↦ True) (holds?.ordered x y wanted) := fun _ ↦
    .reads (fun m m' ↦ by rw [hview hx m m', hview hy m m']) fun _ ↦ trivial
  have hequal : Constant (fun _ ↦ True) (equalValues x.toValue y.toValue) :=
    .reads (fun m m' ↦ by rw [hview hx m m', hview hy m m']) fun _ ↦ trivial
  have hoccurs := Datum.constant_occurs? hx hy
  cases r with
  | within => exact hoccurs
  | notWithin => exact hoccurs.bind fun _ _ ↦ .pure trivial
  | same => exact .pure trivial
  | notSame => exact .pure trivial
  | equal => exact hequal.map fun _ _ ↦ trivial
  | notEqual => exact hequal.bind fun _ _ ↦ .pure trivial
  | greater => exact hordered _
  | atLeast => exact hordered _
  | less => exact hordered _
  | atMost => exact hordered _

theorem Test.constant_find (hb : b.Plain) (t : Test) : Constant Datum.Plain (t.find b) := by
  have hguarded : ∀ {x : Eval Datum}, Constant Datum.Plain x →
      Constant Datum.Plain (find.guarded x) :=
    fun hx ↦ hx.tryCatch fun _ ↦ .pure (.scalar _)
  induction t with
  | operand e => exact e.constant_resolveOrNull hb
  | not t ih =>
    exact hguarded (ih.bind fun d hd ↦ (Datum.constant_truthy hd).bind fun _ _ ↦ .pure (.scalar _))
  | and s t ihs iht =>
    refine hguarded (ihs.bind fun first hfirst ↦ (Datum.constant_truthy hfirst).bind fun set _ ↦ ?_)
    split
    · exact iht
    · exact .pure hfirst
  | or s t ihs iht =>
    refine hguarded (ihs.bind fun first hfirst ↦ (Datum.constant_truthy hfirst).bind fun set _ ↦ ?_)
    split
    · exact .pure hfirst
    · exact iht
  | related r s t ihs iht =>
    exact hguarded (ihs.bind fun x hx ↦ iht.bind fun y hy ↦
      (r.constant_holds? hx hy).bind fun _ _ ↦ .pure (.scalar _))

theorem Test.constant_holds (hb : b.Plain) (t : Test) : Constant (fun _ ↦ True) (t.holds b) := by
  unfold holds
  refine .tryCatch ((t.constant_find hb).bind fun d hd ↦ Datum.constant_truthy hd) fun f ↦ ?_
  split
  · exact .pure trivial
  · exact .throw _

/-! ## Loops and candidates -/

/-- What a loop finds under the name that it gives its state. -/
private theorem plain_outer (hb : b.Plain) :
    (((b.find? "forloop").map Datum.toValue).getD (.mapping [])).Plain := by
  have hfound := hb.find? "forloop"
  cases h : b.find? "forloop" with
  | none => exact .mapping (fun e he ↦ by cases he) fun e he ↦ by cases he
  | some d => exact hfound d h

theorem plain_loopState {outer : Value} (h : outer.Plain) (round count : Nat) :
    (loopState outer round count).Plain :=
  .mapping (by simp [Value.Plain.scalar]) (by simp [Value.Plain.scalar, h])

private theorem plain_putAll {pairs : List (String × Value)} {frame : Entries Datum}
    (hpairs : ∀ e ∈ pairs, e.2.Plain) (hframe : ∀ e ∈ frame, e.2.Plain) :
    ∀ e ∈ pairs.foldl (fun frame (name, v) ↦ frame.put name (.value v)) frame, e.2.Plain := by
  induction pairs generalizing frame with
  | nil => exact hframe
  | cons e rest ih =>
    obtain ⟨he, hrest⟩ := List.forall_mem_cons.mp hpairs
    refine ih hrest fun d hd ↦ ?_
    rcases Entries.mem_put hd with rfl | hd
    · exact he
    · exact hframe d hd

/-- The variables of a loop over plain items stand for plain values. -/
theorem constant_loopVariables (names : List String) {item : Value} (h : item.Plain) :
    Constant (fun frame : Entries Datum ↦ ∀ e ∈ frame, e.2.Plain) (loopVariables names item) := by
  unfold loopVariables
  split
  · exact .pure (List.forall_mem_singleton.mpr h)
  · refine (Datum.constant_elements? (d := .value item) h).bind fun elements helements ↦ ?_
    split
    · exact .throw _
    · next elements =>
      split
      · exact .throw _
      · refine .pure (plain_putAll (fun e he ↦ ?_) fun e he ↦ by cases he)
        exact helements elements rfl e.2 (List.of_mem_zip he).2

theorem constant_loopItems (backwards : Bool) (hd : d.Plain) :
    Constant (fun items ↦ ∀ v ∈ items, v.Plain) (loopItems backwards d) := by
  unfold loopItems
  split
  · exact .pure fun _ h ↦ absurd h List.not_mem_nil
  · refine (Datum.constant_elements? hd).bind fun elements helements ↦ ?_
    split
    · exact .throw _
    · next items =>
      have hitems := helements items rfl
      refine .pure ?_
      split
      · exact fun v hv ↦ hitems v (List.mem_reverse.mp hv)
      · exact hitems

theorem constant_inclusionFault (hd : d.Plain) :
    Constant (fun f ↦ ∃ fault, f = .template fault) (inclusionFault d) := by
  unfold inclusionFault
  refine (Datum.constant_truthy hd).bind fun set _ ↦ ?_
  split
  · exact .pure ⟨_, rfl⟩
  · refine (Datum.constant_elements? hd).bind fun elements _ ↦ ?_
    split
    · exact .pure ⟨_, rfl⟩
    · exact .pure ⟨_, rfl⟩

theorem constant_firstSet (hb : b.Plain) (candidates : List Expression) :
    Constant (fun _ ↦ True) (firstSet b candidates) := by
  induction candidates with
  | nil => exact .pure trivial
  | cons e rest ih =>
    rw [firstSet]
    refine (e.constant_resolveOrNull hb).bind fun d hd ↦ ?_
    refine (Datum.constant_truthy hd).bind fun set _ ↦ ?_
    split
    · exact Datum.constant_written _ hd
    · exact ih

/-! ## Parts -/

/-- With plain bindings the filling comes to the same in every memory, and what it gives has the
property. The bindings remain plain. -/
def Filling.Constant (P : α → Prop) (x : Filling α) : Prop :=
  ∀ b : Bindings, b.Plain →
    LayeredConfig.Constant (fun r : α × Bindings ↦ P r.1 ∧ r.2.Plain) (x b)

namespace Filling.Constant

variable {x : Filling α}

protected theorem pure {a : α} (h : P a) : Constant P (Pure.pure a : Filling α) :=
  fun _ hb ↦ .pure ⟨h, hb⟩

protected theorem get : Constant Bindings.Plain (get : Filling Bindings) :=
  fun _ hb ↦ .pure ⟨hb, hb⟩

protected theorem set (hb : b.Plain) : Constant (fun _ ↦ True) (set b : Filling PUnit) :=
  fun _ _ ↦ .pure ⟨trivial, hb⟩

protected theorem modify {change : Bindings → Bindings}
    (h : ∀ b : Bindings, b.Plain → (change b).Plain) :
    Constant (fun _ ↦ True) (modify change : Filling PUnit) :=
  fun b hb ↦ .pure ⟨trivial, h b hb⟩

protected theorem lift {x : Eval α} (hx : LayeredConfig.Constant P x) :
    Constant P (liftM x : Filling α) :=
  fun _ hb ↦ hx.bind fun _ ha ↦ .pure ⟨ha, hb⟩

protected theorem bind {k : α → Filling β} (hx : Constant P x) (hk : ∀ a, P a → Constant Q (k a)) :
    Constant Q (x >>= k) :=
  fun b hb ↦ (hx b hb).bind fun r hr ↦ hk r.1 hr.1 r.2 hr.2

protected theorem mapM {f : α → Filling β} {items : List α}
    (h : ∀ a ∈ items, Constant (fun _ ↦ True) (f a)) :
    Constant (fun _ ↦ True) (items.mapM f) := by
  induction items with
  | nil => exact .pure trivial
  | cons a rest ih =>
    rw [List.mapM_cons]
    exact (h a List.mem_cons_self).bind fun _ _ ↦
      (ih fun c hc ↦ h c (List.mem_cons_of_mem _ hc)).bind fun _ _ ↦ .pure trivial

protected theorem inside (hx : Constant P x) {change : Bindings → Bindings}
    (h : ∀ b : Bindings, b.Plain → (change b).Plain) : Constant P (Filling.inside change x) :=
  .bind .get fun _ houter ↦ .bind (.set (h _ houter)) fun _ _ ↦ hx.bind fun _ ha ↦
    .bind (.set houter) fun _ _ ↦ .pure ha

end Filling.Constant

mutual

/-- A part comes to the same in every memory. -/
theorem Part.constant_fill : ∀ part : Part, Filling.Constant (fun _ ↦ True) part.fill
  | .text _ => .pure trivial
  | .expression e => .bind .get fun _ hb ↦ .lift ((e.constant_resolve hb).bind fun _ hd ↦
      Datum.constant_written _ hd)
  | .choice branches otherwise => by
    rw [Part.fill]
    refine (constant_fillBranches branches).bind fun text _ ↦ ?_
    split
    · exact .pure trivial
    · exact constant_fillParts otherwise
  | .loop names backwards source body empty => by
    rw [Part.fill]
    refine .inside (.bind (P := fun items : List Value ↦ ∀ v ∈ items, v.Plain) ?_
      fun items hitems ↦ ?_) fun b hb ↦ hb.within fun e he ↦ by cases he
    · exact .bind .get fun b hb ↦ .bind (.lift (source.constant_resolveOrNull hb)) fun d hd ↦
        .lift (constant_loopItems _ hd)
    · split
      · exact constant_fillParts empty
      · refine .bind .get fun b hb ↦ .bind (.mapM fun item hitem ↦ ?_) fun _ _ ↦ .pure trivial
        have hround := plain_loopState (plain_outer hb)
        refine .bind (.lift (constant_loopVariables names
          (hitems item.1 (List.fst_mem_of_mem_zipIdx hitem)))) fun frame hframe ↦ ?_
        refine .bind (.modify fun b hb ↦ hb.put _ (hround _ _)) fun _ _ ↦ ?_
        split
        · exact .bind (.modify fun b hb ↦ hb.putAll hframe) fun _ _ ↦ constant_fillParts body
        · exact (constant_fillParts body).inside fun b hb ↦ hb.within hframe
  | .binding bindings body => by
    rw [Part.fill]
    refine .bind .get fun b hb ↦ .bind (.lift (.mapM (Q := fun e : String × Datum ↦ e.2.Plain)
      fun e _ ↦ ?_)) fun frame hframe ↦ ?_
    · exact (e.2.constant_resolve hb).bind fun _ hd ↦ .pure hd
    · exact (constant_fillParts body).inside fun b hb ↦ hb.within hframe
  | .escaping on body => by
    rw [Part.fill]
    have hescaping : ∀ on : Bool, ∀ b : Bindings, b.Plain → { b with escaping := on }.Plain :=
      fun _ _ hb ↦ ⟨hb.frames, hb.given⟩
    exact .bind .get fun _ _ ↦ .bind (.modify (hescaping _)) fun _ _ ↦
      (constant_fillParts body).bind fun _ _ ↦ .bind (.modify (hescaping _)) fun _ _ ↦
        .pure trivial
  | .spaceless body => by
    rw [Part.fill]
    exact (constant_fillParts body).bind fun _ _ ↦ .pure trivial
  | .firstOf candidates name => by
    rw [Part.fill]
    refine .bind .get fun b hb ↦ .bind (.lift (constant_firstSet hb candidates)) fun text _ ↦ ?_
    split
    · exact .pure trivial
    · refine .bind (.modify fun b hb ↦ hb.put _ ?_) fun _ _ ↦ .pure trivial
      split
      · exact Datum.plain_text _
      · exact Datum.plain_text _
  | .inclusion source => by
    rw [Part.fill]
    refine .bind (P := fun f ↦ ∃ fault, f = .template fault) (.bind .get fun b hb ↦ ?_) ?_
    · exact .bind (.lift (source.constant_resolve hb)) fun d hd ↦ .lift (constant_inclusionFault hd)
    · rintro _ ⟨fault, rfl⟩
      exact .lift (.throw fault)
  | .extension parent => by
    rw [Part.fill]
    refine .bind (.bind .get fun b hb ↦ .lift (parent.constant_resolve hb)) fun d hd ↦ ?_
    exact .bind (.lift (Datum.constant_truthy hd)) fun named _ ↦ .lift (.throw _)
  | .silent => .pure trivial
termination_by structural x => x

private theorem constant_fillParts :
    ∀ parts : List Part, Filling.Constant (fun _ ↦ True) (fillParts parts)
  | [] => .pure trivial
  | part :: rest => by
    rw [fillParts]
    exact part.constant_fill.bind fun _ _ ↦ (constant_fillParts rest).bind fun _ _ ↦ .pure trivial
termination_by structural x => x

private theorem constant_fillBranches :
    ∀ branches : List (Test × List Part), Filling.Constant (fun _ ↦ True) (fillBranches branches)
  | [] => .pure trivial
  | (test, body) :: rest => by
    rw [fillBranches]
    refine .bind .get fun b hb ↦ .bind (.lift (test.constant_holds hb)) fun holds _ ↦ ?_
    split
    · exact .bind (constant_fillParts body) fun _ _ ↦ .pure trivial
    · exact constant_fillBranches rest
termination_by structural x => x

end

/-- **A template that is given plain values** comes to the same in every memory. -/
theorem constant_fill (parts : List Part) {given : List (Value × Value)}
    (hgiven : ∀ e ∈ given, e.2.Plain) : Constant (fun _ ↦ True) (fill parts given) := by
  have hb : Bindings.Plain ⟨[[]], given, true⟩ :=
    ⟨List.forall_mem_singleton.mpr fun e he ↦ (by cases he), hgiven⟩
  exact (constant_fillParts parts _ hb).bind fun _ _ ↦ .pure trivial

end Template

end LayeredConfig
