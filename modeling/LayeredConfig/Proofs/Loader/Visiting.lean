import LayeredConfig.Proofs.Loader.Succeeding
import LayeredConfig.Proofs.Loader.Twins

/-!
# What a call does

Of all that a loader may be asked for, some calls come to ask for the contents of the file
(`Loader.ComesTo`), and then they compute their results from these, remember them, and do nothing
else. The others know their results, or are only about the path, or fail before (`Loader.Aside`).
Neither kind decrypts anything but for the contents of the file, and apart from what is remembered
both are like all that happens elsewhere.
-/

namespace LayeredConfig

open World (Elsewhere)

namespace Loader

variable {l : Loader} {w u : World}

/-- What a loader may be asked for. -/
inductive Query where
  | path
  | view (c : Call)
  | load (environment : Value)

/-- The environment that is asked for is a text, or none. -/
def Query.Named : Query → Prop
  | .load environment => ∃ name, environment = environmentValue name
  | _ => True

/-- What it gives. -/
inductive Answer where
  | path (p : String)
  | product (p : Product)

/-- Asks a loader. -/
def ask (l : Loader) : Query → Action Answer
  | .path => .path <$> l.path
  | .view c => .product <$> l.call c
  | .load environment => (fun n ↦ .product (.tree n)) <$> l.load environment

/-- What is remembered of a view. -/
def recalled (m : Memo) : Call → Option Product
  | .data => m.data.map .tree
  | .config => m.config.map .tree
  | .early => m.early.map .tree
  | .databases => m.databases.map .settings

/-- A call: what is asked for, and in which world. -/
structure Visit where
  query : Query
  world : World

/-- The same loader with another collaborator that decrypts. -/
def decryptingWith (l : Loader) (password : Value → Action Value) : Loader := { l with password }

/-- Builds the configuration of an environment from the contents of the file. -/
def loadFrom (l : Loader) (environment : Value) (data : NodeId) : Action NodeId := do
  let n ← (mergeSections environment data : Eval NodeId)
  l.derive n
  l.validate environment n
  l.giveOut environment n

/-- Builds the database settings from the contents of the file. -/
def databasesFrom (l : Loader) (data : NodeId) : Action DatabaseSettings := do
  let common ← (databaseBlock data (.text commonSection) : Eval (List (Value × Value)))
  onMemory (collectDatabases data common [] l.databaseEnvironments)

theorem load_eq (l : Loader) (environment : Value) :
    l.load environment = l.data >>= l.loadFrom environment := rfl

theorem readDatabases_eq (l : Loader) : l.readDatabases = l.data >>= l.databasesFrom := rfl

/-- In the world `u` the call asks for the contents of the file, and from these it computes its
result. -/
inductive ComesTo (l : Loader) (w : World) : Query → World → (NodeId → Action Product) → Prop
  | data : ComesTo l w (.view .data) w fun d ↦ return .tree d
  | load (environment : Value) :
      ComesTo l w (.load environment) w fun d ↦ .tree <$> l.loadFrom environment d
  | early (unknown : (w.memo l.number).early = none) :
      ComesTo l w (.view .early) w fun d ↦ .tree <$> l.loadFrom .null d
  | config (unknown : (w.memo l.number).config = none) {environment : Value} {u : World}
      (asked : l.currentEnvironment w = .ok environment u) :
      ComesTo l w (.view .config) u fun d ↦ .tree <$> l.loadFrom environment d
  | databases (unknown : (w.memo l.number).databases = none) :
      ComesTo l w (.view .databases) w fun d ↦ .settings <$> l.databasesFrom d

/-- Remembers a view. -/
def remember {α : Type} (l : Loader) (v : View α) (a : α) : Action Unit :=
  modify fun w ↦ { w with memos := w.memos.modify l.number (v.keep a) }

/-- Remembers what was computed, if it is to be remembered, and gives it out. -/
def conclude (l : Loader) (q : Query) (p : Product) : Action Answer := do
  match q, p with
  | .view .config, .tree n => l.remember .config n
  | .view .early, .tree n => l.remember .early n
  | .view .databases, .settings all => l.remember .databases all
  | _, _ => pure ()
  return .product p

/-- The memo with a product that a call remembers. -/
def kept : Query → Product → Memo → Memo
  | .view .config, .tree n => View.config.keep n
  | .view .early, .tree n => View.early.keep n
  | .view .databases, .settings all => View.databases.keep all
  | _, _ => id

theorem path_kept (q : Query) (p : Product) (memo : Memo) : (kept q p memo).path = memo.path := by
  unfold kept
  split <;> rfl

theorem data_kept (q : Query) (p : Product) (memo : Memo) : (kept q p memo).data = memo.data := by
  unfold kept
  split <;> rfl

/-- Of what is remembered at most the product is new. -/
theorem recalled_kept {q : Query} {p p' : Product} {memo : Memo} {c : Call}
    (h : recalled (kept q p memo) c = some p') :
    recalled memo c = some p' ∨ q = .view c ∧ p = p' := by
  unfold kept at h
  split at h
  case h_4 => exact .inl h
  all_goals
    cases c <;> first | exact .inl h | exact .inr ⟨rfl, Option.some.inj h⟩

/-- Concluding gives the product out and remembers at most that. -/
theorem conclude_eq (l : Loader) (q : Query) (p : Product) (w : World) :
    ∃ w', l.conclude q p w = .ok (.product p) w' ∧
      (w' = w ∨ w' = { w with memos := w.memos.modify l.number (kept q p) }) := by
  unfold conclude kept
  split
  case h_4 => exact ⟨w, rfl, .inl rfl⟩
  all_goals exact ⟨_, rfl, .inr rfl⟩

/-- What is not remembered is computed and remembered. -/
theorem map_remembered_of_unknown {α : Type} {v : View α} {compute : Action α}
    (h : v.known (w.memo l.number) = none) (f : α → Product) :
    ((fun a ↦ Answer.product (f a)) <$> l.remembered v compute) w
      = (compute >>= fun a ↦ l.remember v a >>= fun _ ↦ return .product (f a)) w := by
  have hrun : l.remembered v compute w = _ := remembered_of_unknown h
  cases hcompute : compute w with
  | ok a w₁ =>
    rw [bind_of_ok hcompute] at hrun
    rw [bind_of_ok hcompute]
    exact map_of_ok hrun
  | error failure w₁ =>
    rw [bind_of_error hcompute] at hrun
    rw [map_eq_pure_bind, bind_of_error hrun, bind_of_error hcompute]

/-- Finding the file is nothing but remembering a path. -/
theorem elsewhere_path : Keeps (Elsewhere l.number) l.path := by
  intro w
  cases hknown : (w.memo l.number).path with
  | some p =>
    rw [after_of_ok (show l.path w = .ok p w from remembered_of_known hknown)]
    exact Std.Refl.refl w
  | none =>
    rw [after, path, remembered_of_unknown hknown, discover, bind_assoc, get_bind]
    cases l.paths.find? w.files.exists? with
    | none => exact Std.Refl.refl w
    | some p =>
      let noted : World :=
        { w with log := w.log.push ⟨.info, "config_source_selected", [("path", .text p)], none⟩ }
      have hmemo : (World.memo { noted with
          memos := noted.memos.modify l.number (View.path.keep p) } l.number).pathless
            = (noted.memo l.number).pathless := by
        rcases Nat.lt_or_ge l.number w.memos.size with hmade | hmade
        · exact (congrArg Memo.pathless
            (noted.memo_modify l.number (View.path.keep p) hmade)).trans rfl
        · -- the memo of a loader that was never made reads as empty
          rw [noted.memo_of_le hmade, World.memo_of_le]
          exact Nat.le_trans (Nat.le_of_eq Array.size_modify) hmade
      exact ⟨Std.Refl.refl w.memory, Nat.le_of_eq Array.size_modify.symm, hmemo⟩

theorem elsewhere_databasesFrom (data : NodeId) :
    Keeps (Elsewhere l.number) (l.databasesFrom data) := by
  have hc := composite_elsewhere l.number
  refine hc.bind (hc.evaluate (keeps_databaseBlock data _)) fun common ↦ ?_
  exact hc.evaluate (keeps_collectDatabases data common [] _)

section Uncalled

variable (hl : l.Uncalled)

include hl

theorem elsewhere_loadFrom (environment : Value) (data : NodeId) :
    Keeps (Elsewhere l.number) (l.loadFrom environment data) := by
  have hc := composite_elsewhere l.number
  have hrecord : ∀ level event details,
      Keeps (Elsewhere l.number) (record level event details) := fun level event details w ↦
    ((discreet_record level event details).keeps w).elsewhere _
  refine hc.bind (hc.evaluate (keeps_mergeSections environment data)) fun n ↦ ?_
  refine hc.bind (hc.derive hl.version n) fun _ ↦ ?_
  refine hc.bind (hc.validate hrecord environment n) fun _ ↦ ?_
  refine hc.bind (hc.evaluate (Node.keeps_freeze n)) fun _ ↦ ?_
  refine hc.bind (hc.evaluate (keeps_truthyValue environment).of_eq) fun named ↦ ?_
  exact hc.bind elsewhere_path fun path ↦ hc.bind (hrecord _ _ _) fun _ ↦ hc.pure n

theorem elsewhere_readData : Keeps (Elsewhere l.number) l.readData :=
  .bind elsewhere_path fun path ↦ (composite_elsewhere _).readFrom hl.password path

theorem elsewhere_currentEnvironment : Keeps (Elsewhere l.number) l.currentEnvironment := by
  unfold currentEnvironment
  split
  · next ask hask => exact hl.environment ask hask
  · exact .throw _

end Uncalled

section ComesTo

variable {q : Query} {k : NodeId → Action Product} (h : l.ComesTo w q u k)

include h

/-- Decrypting has nothing to do with what a call computes from the contents of the file. -/
theorem ask_decryptingWith (password : Value → Action Value) :
    (l.decryptingWith password).ask q w
      = ((l.decryptingWith password).data >>= fun d ↦ k d >>= l.conclude q) u := by
  cases h with
  | data =>
    rw [ask, call, Functor.map_map, map_eq_pure_bind]
    rfl
  | load environment =>
    rw [ask, load_eq, map_bind]
    simp only [bind_map_left]
    rfl
  | early unknown =>
    rw [ask, call, Functor.map_map]
    refine (map_remembered_of_unknown unknown Product.tree).trans ?_
    rw [load_eq, bind_assoc]
    simp only [bind_map_left]
    rfl
  | @config unknown environment _ asked =>
    have asked : (l.decryptingWith password).currentEnvironment w = .ok environment u := asked
    rw [ask, call, Functor.map_map]
    refine (map_remembered_of_unknown unknown Product.tree).trans ?_
    rw [bind_assoc, bind_of_ok asked, load_eq, bind_assoc]
    simp only [bind_map_left]
    rfl
  | databases unknown =>
    rw [ask, call, Functor.map_map]
    refine (map_remembered_of_unknown unknown Product.settings).trans ?_
    rw [readDatabases_eq, bind_assoc]
    simp only [bind_map_left]
    rfl

/-- **What a call does** that comes to ask for the contents of the file: it computes its result from
them and concludes. -/
theorem ask_of_comesTo : l.ask q w = (l.data >>= fun d ↦ k d >>= l.conclude q) u :=
  ask_decryptingWith h l.password

/-- Neither on the way there nor in what it computes does the call do anything but elsewhere. -/
theorem elsewhere_of_comesTo (hl : l.Uncalled) :
    Elsewhere l.number w u ∧ ∀ d, Keeps (Elsewhere l.number) (k d) := by
  cases h with
  | data => exact ⟨Std.Refl.refl w, fun d ↦ .pure _⟩
  | load environment =>
    exact ⟨Std.Refl.refl w, fun d ↦ (elsewhere_loadFrom hl environment d).map _⟩
  | early unknown => exact ⟨Std.Refl.refl w, fun d ↦ (elsewhere_loadFrom hl .null d).map _⟩
  | @config unknown environment _ asked =>
    exact ⟨(elsewhere_currentEnvironment hl).of_ok asked,
      fun d ↦ (elsewhere_loadFrom hl environment d).map _⟩
  | databases unknown => exact ⟨Std.Refl.refl w, fun d ↦ (elsewhere_databasesFrom d).map _⟩

end ComesTo

/-- Without an environment there is no configuration of the current one. -/
theorem ask_config_of_error (hunknown : (w.memo l.number).config = none) {failure : Failure}
    (hasked : l.currentEnvironment w = .error failure u) :
    l.ask (.view .config) w = .error failure u := by
  rw [ask, call, Functor.map_map]
  refine (map_remembered_of_unknown hunknown Product.tree).trans ?_
  rw [bind_assoc, bind_of_error hasked]

/-- What is remembered is given out. -/
theorem ask_of_recalled {c : Call} {p : Product} (h : recalled (w.memo l.number) c = some p) :
    l.ask (.view c) w = .ok (.product p) w := by
  cases c <;>
  · obtain ⟨a, ha, rfl⟩ := Option.map_eq_some_iff.mp h
    exact map_of_ok (map_of_ok (remembered_of_known ha))

/-- The call ends before it would ask for the contents of the file: it is about the path, its result
is remembered, or nobody tells the environment. -/
inductive StopsShort (l : Loader) (w : World) : Query → Prop
  | path : StopsShort l w .path
  | recalled {c : Call} {p : Product} (other : c ≠ .data)
      (known : recalled (w.memo l.number) c = some p) : StopsShort l w (.view c)
  | unnamed (unknown : (w.memo l.number).config = none) {failure : Failure} {u : World}
      (asked : l.currentEnvironment w = .error failure u) : StopsShort l w (.view .config)

theorem comesTo_or_stopsShort (l : Loader) (q : Query) (w : World) :
    (∃ u k, l.ComesTo w q u k) ∨ l.StopsShort w q := by
  cases q with
  | path => exact .inr .path
  | load environment => exact .inl ⟨w, _, .load environment⟩
  | view c =>
    by_cases hc : c = .data
    · subst hc
      exact .inl ⟨w, _, .data⟩
    cases hrecalled : Loader.recalled (w.memo l.number) c with
    | some p => exact .inr (.recalled hc hrecalled)
    | none =>
      cases c with
      | data => exact absurd rfl hc
      | early => exact .inl ⟨w, _, .early (Option.map_eq_none_iff.mp hrecalled)⟩
      | databases => exact .inl ⟨w, _, .databases (Option.map_eq_none_iff.mp hrecalled)⟩
      | config =>
        have hunknown : (w.memo l.number).config = none := Option.map_eq_none_iff.mp hrecalled
        cases hasked : l.currentEnvironment w with
        | ok environment u => exact .inl ⟨u, _, .config hunknown hasked⟩
        | error failure u => exact .inr (.unnamed hunknown hasked)

/-- The call does not ask for the contents of the file, and it gives only what was remembered. -/
structure Aside (l : Loader) (x : Visit) : Prop where
  elsewhere : Elsewhere l.number x.world (after (l.ask x.query) x.world)
  unasked : ∀ password, (l.decryptingWith password).ask x.query x.world = l.ask x.query x.world
  known : ∀ p w', l.ask x.query x.world = .ok (.product p) w' →
    ∃ c, x.query = .view c ∧ c ≠ .data ∧ recalled (x.world.memo l.number) c = some p

/-- A view that is remembered does not come to ask for the contents of the file. -/
theorem aside_of_recalled {c : Call} {p : Product} (hc : c ≠ .data)
    (h : recalled (w.memo l.number) c = some p) : l.Aside ⟨.view c, w⟩ where
  elsewhere := by
    rw [after_of_ok (ask_of_recalled h)]
    exact Std.Refl.refl w
  unasked password := by
    have hother : (l.decryptingWith password).ask (.view c) w = _ := ask_of_recalled h
    exact hother.trans (ask_of_recalled h).symm
  known p' w' hp := by
    rw [ask_of_recalled h] at hp
    cases hp
    exact ⟨c, rfl, hc, h⟩

/-- **A call either comes to ask** for the contents of the file, or it does nothing of
importance. -/
theorem comesTo_or_aside (hl : l.Uncalled) (x : Visit) :
    (∃ u k, l.ComesTo x.world x.query u k) ∨ l.Aside x := by
  obtain ⟨q, w⟩ := x
  refine (comesTo_or_stopsShort l q w).imp_right fun hshort ↦ ?_
  cases hshort with
  | path =>
    refine ⟨elsewhere_path.map _ w, fun _ ↦ rfl, fun p w' hp ↦ ?_⟩
    rw [ask, map_eq_pure_bind] at hp
    obtain ⟨_, _, _, heq⟩ := bind_eq_ok.mp hp
    cases heq
  | recalled other known => exact aside_of_recalled other known
  | @unnamed unknown failure u asked =>
    have hrun : ∀ password,
        (l.decryptingWith password).ask (.view .config) w = .error failure u := by
      intro password
      have hasked : (l.decryptingWith password).currentEnvironment w = .error failure u := asked
      exact ask_config_of_error (l := l.decryptingWith password) unknown hasked
    have hask : l.ask (.view .config) w = .error failure u := hrun l.password
    refine ⟨?_, fun password ↦ (hrun password).trans hask.symm, fun p w' hp ↦ ?_⟩
    · rw [after_of_error hask]
      exact (elsewhere_currentEnvironment hl).of_error asked
    · rw [hask] at hp
      cases hp

end Loader

end LayeredConfig
