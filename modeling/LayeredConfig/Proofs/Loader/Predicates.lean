import LayeredConfig.Proofs.Loader.Calm
import LayeredConfig.Proofs.Loader.Promises
import LayeredConfig.Proofs.Node.Carrying

/-!
# Whose mode the predicates follow

Deriving values stores two computations that ask the node for its mode each time they are read.
Copies and merges hand these computations on as they are, and so they go on asking the node that
they were made for, wherever they are read from. `Loader.predicates_follow_origin` states this of
every tree that they have been handed on to; a copy whose own mode is changed later shows that they
do not follow the tree that they stand in (`Loader.predicates_of_copy`).
-/

namespace LayeredConfig

open Memory (HandedOn Lasting Retains Run)

variable {m m' : Memory} {n s t : NodeId} {key mode : String}

/-- Whether a node is in the given mode. If it has none, its mode is nothing. -/
def Memory.modeIs (m : Memory) (n : NodeId) (mode : String) : Bool :=
  (m.view ((m.forest.find? n "app_mode").getD .null)).equal (.scalar (.text mode))

namespace Loader

/-- The keys of the predicates, and the modes that they ask for. -/
def modePredicates : List (String × String) :=
  [("is_katello", "katello"), ("is_headpin", "headpin")]

/-- The keys of the predicates. -/
def modeKeys : List String := modePredicates.map Prod.fst

/-! ## Nodes that hold predicates -/

/-- What stands under the key of `t` is a computation that asks whether `n` is in the given mode. -/
def Asks (m : Memory) (t n : NodeId) (key mode : String) : Prop :=
  ∃ d, m.forest.find? t key = some (.deferred d) ∧ d.index < m.computations.size ∧
    (m.computation d).body = (Computation.holds n "app_mode" (.text mode)).body

/-- A predicate that is handed on asks the same node. -/
theorem Asks.handedOn (h : Asks m s n key mode) (hretains : Retains m m')
    (hfind : ∀ d, m.forest.find? s key = some (.deferred d) →
      m'.forest.find? t key = some (.deferred d)) : Asks m' t n key mode := by
  obtain ⟨d, hd, hlt, hbody⟩ := h
  exact ⟨d, hfind d hd, Nat.lt_of_lt_of_le hlt hretains.size_le,
    (hretains.body_eq d hlt).trans hbody⟩

/-- Defining a predicate stores it and leaves the other keys as they are. -/
theorem asks_definePredicate (h : definePredicate n key mode m = .ok () m') :
    Asks m' n n key mode ∧
      ∀ other, other ≠ key → m'.forest.find? n other = m.forest.find? n other := by
  let c := Computation.holds n "app_mode" (.text mode)
  let d := (m.define c).1
  have hdefine : (modifyGet fun m ↦ m.define c : Eval DeferredId) m = .ok d (m.define c).2 := rfl
  rw [definePredicate, bind_of_ok hdefine] at h
  change onForest (Forest.assign n key _) (m.define c).2 = _ at h
  cases hn : m.forest.frozen n with
  | true =>
    have hfrozen : (m.define c).2.forest.frozen n = true := hn
    rw [onForest_of_error (Forest.assign_of_frozen hfrozen key _)] at h
    cases h
  | false =>
    have hopen : (m.define c).2.forest.frozen n = false := hn
    rw [onForest_of_ok ((Forest.assign_of_writable hopen key _).trans
      (Forest.write_eq_ok rfl n key))] at h
    obtain rfl := (EStateM.Result.ok.inj h).2
    refine ⟨⟨d, Forest.find?_store_self (Forest.mem_of_frozen_eq_false hn), ?_, ?_⟩, ?_⟩
    · exact Nat.lt_of_lt_of_eq (Nat.lt_succ_self _) (Array.size_push _).symm
    · exact congrArg Computation.body (Memory.computation_define m c)
    · exact fun other hother ↦ Forest.find?_store_of_ne hother

/-- The predicates that stand in `t` ask the node `n`. -/
def AsksMode (m : Memory) (t n : NodeId) : Prop := ∀ p ∈ modePredicates, Asks m t n p.1 p.2

theorem asksMode_definePredicates (h : definePredicates n m = .ok () m') : AsksMode m' n n := by
  obtain ⟨⟨⟩, m₁, h₁, h₂⟩ := bind_eq_ok.mp h
  obtain ⟨hkatello, -⟩ := asks_definePredicate h₁
  obtain ⟨hheadpin, hothers⟩ := asks_definePredicate h₂
  have hretains : Retains m₁ m' := (keeps_definePredicate n _ _).of_ok h₂
  have hkept := hkatello.handedOn hretains fun d hd ↦ (hothers _ (by decide)).trans hd
  exact List.forall_mem_cons.mpr ⟨hkept, List.forall_mem_singleton.mpr hheadpin⟩

/-- **Reading a predicate** reads the mode of the node that it was made for. -/
theorem AsksMode.get_eq (h : AsksMode m t n) {p : String × String} (hp : p ∈ modePredicates) :
    ∃ d, m.forest.find? t p.1 = some (.deferred d) ∧
      Node.get t (.text p.1) m = (do
        let mode ← Node.valueWith (evaluateWithin 255) n (.text "app_mode")
        return .bool (← equalValues mode (.text p.2)) : Eval Value) (m.countRun d) ∧
      ((∀ e, m.forest.find? n "app_mode" ≠ some (.deferred e)) →
        Node.get t (.text p.1) m = .ok (.bool (m.modeIs n p.2)) (m.countRun d)) := by
  obtain ⟨d, hd, -, hbody⟩ := h p hp
  have hget : Node.get t (.text p.1) m = evaluate d m := Node.getWith_of_some hd
  refine ⟨d, hd, ?_, fun hplain ↦ ?_⟩
  · rw [hget]
    exact evaluateWithin_holds hbody 255
  · rw [hget]
    exact evaluate_holds hbody hplain

/-! ## Deriving values -/

/-- Deriving values stores the predicates first, and does then what programs do. -/
theorem stages_of_derive {l : Loader} {w w' : World}
    (hversion : ∀ package, Keeps (fun w w' : World ↦ Run w.memory w'.memory) (l.version package))
    (h : l.derive n w = .ok () w') :
    ∃ m, definePredicates n w.memory = .ok () m ∧ Run w.memory m ∧ Run m w'.memory := by
  obtain ⟨katello, w₁, hlift, hrest⟩ := bind_eq_ok.mp h
  obtain ⟨m₁, hvalues, rfl⟩ := onMemory_eq_ok (x := deriveValues n) hlift
  rw [deriveValues_eq] at hvalues
  obtain ⟨⟨⟩, m, hdefine, hdefaults⟩ := bind_eq_ok.mp hvalues
  obtain ⟨version, w₂, hversion₂, hset⟩ := bind_eq_ok.mp hrest
  refine ⟨m, hdefine, (keeps_definePredicates n).of_ok hdefine, ?_⟩
  calc Run m m₁ := (keeps_deriveDefaults n).of_ok hdefaults
    Run _ w₂.memory := (hversion _).of_ok hversion₂
    Run _ w'.memory := (keeps_onMemory (Node.keeps_set n _ version)).of_ok hset

theorem reachable_of_derive {l : Loader} {w w' : World} (hw : w.memory.Reachable)
    (hversion : ∀ package, Keeps (fun w w' : World ↦ Run w.memory w'.memory) (l.version package))
    (h : l.derive n w = .ok () w') : w'.memory.Reachable := by
  obtain ⟨m, -, hrun, hrun'⟩ := stages_of_derive hversion h
  exact hw.trans (hrun.trans hrun')

/-- After deriving values the predicates stand in the node, unless something that was read on the
way has replaced them. -/
theorem asksMode_of_derive {l : Loader} {w w' : World}
    (hversion : ∀ package, Keeps (fun w w' : World ↦ Run w.memory w'.memory) (l.version package))
    (h : l.derive n w = .ok () w')
    (hkept : ∀ p ∈ modePredicates, w'.memory.forest.find? n p.1
      = (after (definePredicates n) w.memory).forest.find? n p.1) : AsksMode w'.memory n n := by
  obtain ⟨m, hdefine, -, hrun⟩ := stages_of_derive hversion h
  rw [after_of_ok hdefine] at hkept
  exact fun p hp ↦ (asksMode_definePredicates hdefine p hp).handedOn hrun.lasting
    fun d hd ↦ (hkept p hp).trans hd

/-- The predicates ask the same node wherever they have been handed on to. -/
theorem AsksMode.of_handedOn (h : AsksMode m s n) (hm : m.forest.Sound)
    (ht : HandedOn s modeKeys m t m') : AsksMode m' t n := fun p hp ↦
  (h p hp).handedOn ht.run.lasting fun _ hd ↦ ht.find?_eq hm (List.mem_map_of_mem hp) hd

/-- **The predicates on the mode follow the node that they were made for**, in every tree that they
have been handed on to. Values were derived in the node `n`, and what was read on the way did not
assign the predicates. Then copies were made, and merges into other nodes; each of these trees may
have been written to, except under the keys of the predicates, and anything else may have happened.
Reading a predicate in such a tree `t` reads the mode of `n` as it is at that time, a mode that is
missing as nothing, and compares it. So `t` follows its own mode if it is `n`, and otherwise just as
long as its mode and that of `n` compare alike. -/
theorem predicates_follow_origin {l : Loader} {w w' : World} (hw : w.memory.Reachable)
    (hversion : ∀ package, Keeps (fun w w' : World ↦ Run w.memory w'.memory) (l.version package))
    (h : l.derive n w = .ok () w')
    (hkept : ∀ p ∈ modePredicates, w'.memory.forest.find? n p.1
      = (after (definePredicates n) w.memory).forest.find? n p.1)
    (ht : HandedOn n modeKeys w'.memory t m) :
    ∀ p ∈ modePredicates, ∃ d, m.forest.find? t p.1 = some (.deferred d) ∧
      Node.get t (.text p.1) m = (do
        let mode ← Node.valueWith (evaluateWithin 255) n (.text "app_mode")
        return .bool (← equalValues mode (.text p.2)) : Eval Value) (m.countRun d) ∧
      ((∀ e, m.forest.find? n "app_mode" ≠ some (.deferred e)) →
        Node.get t (.text p.1) m = .ok (.bool (m.modeIs n p.2)) (m.countRun d)) := by
  have hsound := (reachable_of_derive hw hversion h).sound
  have hasks := (asksMode_of_derive hversion h hkept).of_handedOn hsound ht
  exact fun p hp ↦ hasks.get_eq hp

/-- A loader that is told the version. -/
def versionedLoader : Loader := { Katello.sampleLoader with version := fun _ ↦ pure (.text "1.0") }

/-- A world with one node in it, which is in the mode `katello`. -/
def katelloWorld : World :=
  { (default : World) with
    memory := after (Node.create (.keyed [("app_mode", .text "katello")])) default }

/-- Values are derived in the node. -/
def derivedWorld : World := after (versionedLoader.derive ⟨0⟩) katelloWorld

/-- A copy of the node is in the mode `headpin`. -/
def changedCopy : Memory :=
  after (Operation.set ⟨1⟩ (.text "app_mode") (.text "headpin")).perform
    (after (Operation.copy ⟨0⟩).perform derivedWorld.memory)

theorem reachable_katelloWorld : katelloWorld.memory.Reachable :=
  Node.keeps_create (R := Run) (.keyed [("app_mode", .text "katello")]) default

set_option maxRecDepth 20000 in
theorem derive_katelloWorld : versionedLoader.derive ⟨0⟩ katelloWorld = .ok () derivedWorld :=
  eq_ok_of_result? (by decide +kernel)

set_option maxRecDepth 20000 in
theorem handedOn_changedCopy :
    HandedOn ⟨0⟩ modeKeys derivedWorld.memory ⟨1⟩ changedCopy := by
  have hcopy : Node.copy ⟨0⟩ derivedWorld.memory = .ok ⟨1⟩ _ :=
    eq_ok_of_result? (by decide +kernel)
  have hperform : (Operation.copy ⟨0⟩).perform derivedWorld.memory = .ok (.node ⟨1⟩) _ :=
    bind_eq_ok.mpr ⟨_, _, hcopy, rfl⟩
  refine .spare (HandedOn.origin.copy (hperform.trans ?_))
    (.set _ (.text "headpin") fun k hk heq ↦ ?_)
  · rw [after_of_ok hperform]
  · cases heq
    exact absurd hk (by decide)

/-- The computation that stands under a key of a node. -/
def heldDeferred? (m : Memory) (n : NodeId) (key : String) : Option DeferredId :=
  match m.forest.find? n key with
  | some (.deferred d) => some d
  | _ => none

theorem heldDeferred?_eq_some {d : DeferredId} :
    heldDeferred? m n key = some d ↔ m.forest.find? n key = some (.deferred d) := by
  unfold heldDeferred?
  split
  · next e he => rw [he, Option.some.injEq, Option.some.injEq, Value.deferred.injEq]
  · next hne => exact ⟨nofun, fun h ↦ absurd h (hne d)⟩

theorem heldDeferred?_eq_none :
    heldDeferred? m n key = none ↔ ∀ e, m.forest.find? n key ≠ some (.deferred e) := by
  rw [Option.eq_none_iff_forall_ne_some]
  exact forall_congr' fun e ↦ not_congr heldDeferred?_eq_some

set_option maxRecDepth 20000 in
theorem kept_derivedWorld : ∀ p ∈ modePredicates, derivedWorld.memory.forest.find? ⟨0⟩ p.1
    = (after (definePredicates ⟨0⟩) katelloWorld.memory).forest.find? ⟨0⟩ p.1 := by
  have hheld : ∀ p ∈ modePredicates, ∃ d, heldDeferred? derivedWorld.memory ⟨0⟩ p.1 = some d ∧
      heldDeferred? (after (definePredicates ⟨0⟩) katelloWorld.memory) ⟨0⟩ p.1 = some d :=
    List.forall_mem_cons.mpr ⟨⟨⟨0⟩, by decide +kernel⟩,
      List.forall_mem_singleton.mpr ⟨⟨1⟩, by decide +kernel⟩⟩
  intro p hp
  obtain ⟨d, hd, hd'⟩ := hheld p hp
  rw [heldDeferred?_eq_some.mp hd, heldDeferred?_eq_some.mp hd']

set_option maxRecDepth 20000 in
theorem plain_changedCopy : ∀ e, changedCopy.forest.find? ⟨0⟩ "app_mode" ≠ some (.deferred e) :=
  heldDeferred?_eq_none.mp (by decide +kernel)

/-- A copy whose mode is changed is handed the predicates. -/
theorem predicates_follow_origin_sample : katelloWorld.memory.Reachable ∧
    versionedLoader.derive ⟨0⟩ katelloWorld = .ok () derivedWorld ∧
    HandedOn ⟨0⟩ modeKeys derivedWorld.memory ⟨1⟩ changedCopy ∧
    ∀ p ∈ modePredicates, ∃ d, Node.get ⟨1⟩ (.text p.1) changedCopy
      = .ok (.bool (changedCopy.modeIs ⟨0⟩ p.2)) (changedCopy.countRun d) := by
  refine ⟨reachable_katelloWorld, derive_katelloWorld, handedOn_changedCopy, fun p hp ↦ ?_⟩
  obtain ⟨d, -, -, hread⟩ := predicates_follow_origin reachable_katelloWorld (fun _ ↦ .pure _)
    derive_katelloWorld kept_derivedWorld handedOn_changedCopy p hp
  exact ⟨d, hread plain_changedCopy⟩

set_option maxRecDepth 20000 in
/-- **A copy does not follow its own mode.** -/
theorem predicates_of_copy :
    versionedLoader.derive ⟨0⟩ katelloWorld = .ok () derivedWorld ∧
    HandedOn ⟨0⟩ modeKeys derivedWorld.memory ⟨1⟩ changedCopy ∧
    changedCopy.forest.frozen ⟨1⟩ = false ∧
    (∃ m, Node.get ⟨1⟩ (.text "is_katello") changedCopy = .ok (.bool true) m) ∧
    changedCopy.modeIs ⟨1⟩ "katello" = false ∧
    (∃ m, Node.get ⟨1⟩ (.text "is_headpin") changedCopy = .ok (.bool false) m) ∧
    changedCopy.modeIs ⟨1⟩ "headpin" = true := by
  have hversion : ∀ package, Keeps (fun w w' : World ↦ Run w.memory w'.memory)
      (versionedLoader.version package) := fun _ ↦ .pure _
  have hsound := (reachable_of_derive reachable_katelloWorld hversion derive_katelloWorld).sound
  have hasks := (asksMode_of_derive hversion derive_katelloWorld kept_derivedWorld).of_handedOn
    hsound handedOn_changedCopy
  have hread : ∀ p ∈ modePredicates, ∃ m, Node.get ⟨1⟩ (.text p.1) changedCopy
      = .ok (.bool (changedCopy.modeIs ⟨0⟩ p.2)) m := fun p hp ↦ by
    obtain ⟨d, -, -, h⟩ := hasks.get_eq hp
    exact ⟨_, h plain_changedCopy⟩
  have hkatello : changedCopy.modeIs ⟨0⟩ "katello" = true := by decide +kernel
  have hheadpin : changedCopy.modeIs ⟨0⟩ "headpin" = false := by decide +kernel
  refine ⟨derive_katelloWorld, handedOn_changedCopy, by decide +kernel, ?_, by decide +kernel, ?_,
    by decide +kernel⟩
  · rw [← hkatello]
    exact hread ("is_katello", "katello") (by decide)
  · rw [← hheadpin]
    exact hread ("is_headpin", "headpin") (by decide)

end Loader

end LayeredConfig
