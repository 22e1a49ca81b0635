import LayeredConfig.Proofs.Loader.Composing
import Mathlib.Data.Nat.Notation

/-!
# What reading the file leaves alone

Loading ends with one of two lines in the log, and it mentions the path of the file there, which it
has to know by then. `World.Calm` says that nothing of this changes: no such line is added, and a
path that is remembered stays so. Reading the file is calm if asking for passwords is, and
afterwards the path is remembered.
-/

namespace LayeredConfig

/-- How often the log mentions an event. -/
def World.logged (w : World) (event : String) : ℕ := w.log.countP (·.event == event)

/-- A path that the loader remembers stays remembered, and loading has not ended in between. -/
structure World.Calm (number : ℕ) (w w' : World) : Prop where
  size_le : w.memos.size ≤ w'.memos.size
  path_eq : ∀ {p}, (w.memo number).path = some p → (w'.memo number).path = some p
  logged_eq : ∀ event ∈ Loader.endings, w'.logged event = w.logged event

instance (number : ℕ) : IsPreorder World (World.Calm number) where
  refl _ := ⟨Nat.le_refl _, fun h ↦ h, fun _ _ ↦ rfl⟩
  trans _ _ _ h h' := ⟨Nat.le_trans h.size_le h'.size_le, fun hp ↦ h'.path_eq (h.path_eq hp),
    fun event he ↦ (h'.logged_eq event he).trans (h.logged_eq event he)⟩

namespace World

variable {w : World} {number : ℕ}

theorem calm_memory (w : World) (m : Memory) : Calm number w { w with memory := m } :=
  ⟨Nat.le_refl _, fun h ↦ h, fun _ _ ↦ rfl⟩

theorem logged_push (w : World) (e : LogEntry) (event : String) :
    logged { w with log := w.log.push e } event
      = w.logged event + if e.event = event then 1 else 0 := by
  rw [logged, Array.countP_push, ← logged]
  simp only [beq_iff_eq]

/-- A line that loading does not end with is calm. -/
theorem calm_push (w : World) (e : LogEntry) (h : e.event ∉ Loader.endings) :
    Calm number w { w with log := w.log.push e } := by
  refine ⟨Nat.le_refl _, fun h ↦ h, fun event hevent ↦ ?_⟩
  have hne : e.event ≠ event := fun heq ↦ h (heq ▸ hevent)
  rw [logged_push, if_neg hne]
  rfl

theorem memo_modify (w : World) (number : ℕ) (change : Memo → Memo) (h : number < w.memos.size) :
    memo { w with memos := w.memos.modify number change } number = change (w.memo number) := by
  rw [memo, memo, Array.getElem?_modify, if_pos rfl, Array.getElem?_eq_getElem h]
  rfl

theorem memo_of_le (h : w.memos.size ≤ number) : w.memo number = default := by
  rw [memo, Array.getElem?_eq_none h, Option.getD_none]

/-- A new loader remembers nothing. -/
theorem memo_push (w : World) :
    memo { w with memos := w.memos.push default } w.memos.size = default := by
  rw [memo, Array.getElem?_push_size, Option.getD_some]

end World

open World (Calm)

variable {α : Type} {number : ℕ}

theorem of_ofOutcome {x : Except Failure α} {w w' : World} {a : α}
    (h : ofOutcome x w = .ok a w') : x = .ok a ∧ w' = w := by
  cases x with
  | ok b =>
    cases h
    exact ⟨rfl, rfl⟩
  | error f => cases h

theorem calm_record (level : LogLevel) {event : String} (h : event ∉ Loader.endings)
    (details : Entries Value) : Keeps (Calm number) (record level event details) :=
  .modify fun w ↦ w.calm_push ⟨level, event, details, none⟩ h

namespace Loader

variable {l : Loader}

/-! ## Remembering -/

theorem remembered_of_known {v : View α} {compute : Action α} {w : World} {a : α}
    (h : v.known (w.memo l.number) = some a) : l.remembered v compute w = .ok a w := by
  rw [remembered, get_bind, h]
  rfl

theorem remembered_of_unknown {v : View α} {compute : Action α} {w : World}
    (h : v.known (w.memo l.number) = none) :
    l.remembered v compute w = (do
      let a ← compute
      modify fun w : World ↦ { w with memos := w.memos.modify l.number (v.keep a) }
      return a) w := by
  rw [remembered, get_bind, h]

theorem calm_discover : Keeps (Calm number) l.discover := by
  unfold discover
  refine .bind .get fun w ↦ ?_
  split
  · exact (calm_record _ (by decide) _).bind fun _ ↦ .pure _
  · exact .throw _

/-- Computing what was not remembered is calm if keeping it changes no remembered path. -/
theorem calm_remembered {v : View α} {compute : Action α} (h : Keeps (Calm l.number) compute)
    (hkeep : ∀ {w : World}, v.known (w.memo l.number) = none →
      ∀ {a w' p}, compute w = .ok a w' → (w.memo l.number).path = some p →
        (v.keep a (w'.memo l.number)).path = some p) :
    Keeps (Calm l.number) (l.remembered v compute) := by
  intro w
  cases hknown : v.known (w.memo l.number) with
  | some a =>
    rw [after_of_ok (remembered_of_known hknown)]
    exact Std.Refl.refl w
  | none =>
    rw [after, remembered_of_unknown hknown]
    cases hrun : compute w with
    | error e w' =>
      rw [bind_of_error hrun]
      exact h.of_error hrun
    | ok a w' =>
      have hcalm := h.of_ok hrun
      rw [bind_of_ok hrun]
      refine ⟨?_, fun {p} hp ↦ ?_, hcalm.logged_eq⟩
      · exact Nat.le_trans hcalm.size_le (Nat.le_of_eq Array.size_modify.symm)
      · -- the memo of a loader that was never made reads as empty
        rcases Nat.lt_or_ge l.number w.memos.size with hnumber | hnumber
        · have hmemo := World.memo_modify w' l.number (v.keep a)
            (Nat.lt_of_lt_of_le hnumber hcalm.size_le)
          exact (congrArg Memo.path hmemo).trans (hkeep hknown hrun hp)
        · rw [World.memo_of_le hnumber] at hp
          cases hp

theorem calm_path : Keeps (Calm l.number) l.path := by
  refine calm_remembered calm_discover fun hnone a w' p _ hp ↦ ?_
  rw [show (_ : Memo).path = none from hnone] at hp
  cases hp

/-- Once the path was asked for it is remembered. -/
theorem path_of_ok {w w' : World} {p : String} (hnumber : l.number < w.memos.size)
    (h : l.path w = .ok p w') : (w'.memo l.number).path = some p := by
  cases hknown : (w.memo l.number).path with
  | some q =>
    have hok : l.path w = .ok q w := remembered_of_known hknown
    rw [hok] at h
    cases h
    exact hknown
  | none =>
    rw [path, remembered_of_unknown hknown] at h
    obtain ⟨q, t, hdiscover, ht⟩ := bind_eq_ok.mp h
    have hcalm : Keeps (Calm l.number) l.discover := calm_discover
    have hsize := (hcalm.of_ok hdiscover).size_le
    cases ht
    exact congrArg Memo.path (World.memo_modify t l.number (View.path.keep p)
      (Nat.lt_of_lt_of_le hnumber hsize))

/-- Finding the file changes neither nodes nor files. -/
theorem scene_path :
    Keeps (fun w w' : World ↦ w'.memory = w.memory ∧ w'.files = w.files) l.path := by
  intro w
  cases hknown : (w.memo l.number).path with
  | some p =>
    rw [after_of_ok (show l.path w = .ok p w from remembered_of_known hknown)]
    exact ⟨rfl, rfl⟩
  | none =>
    rw [after, path, remembered_of_unknown hknown, discover, bind_assoc, get_bind]
    cases l.paths.find? w.files.exists? <;> exact ⟨rfl, rfl⟩

/-! ## Reading the file -/

/-- What is composed of calm actions is calm. -/
theorem composite_calm : Composite Memory.Follows fun _ x ↦ Keeps (Calm number) x :=
  .keeps (fun w m _ ↦ w.calm_memory m) (fun w ↦ w.calm_push) fun _ _ ↦
    ⟨Nat.le_refl _, fun h ↦ h, fun _ _ ↦ rfl⟩

section Data

variable (hpassword : ∀ v, Keeps (Calm l.number) (l.password v))

include hpassword

theorem calm_readFrom (path : String) : Keeps (Calm l.number) (l.readFrom path) :=
  composite_calm.readFrom hpassword path

theorem calm_readData : Keeps (Calm l.number) l.readData :=
  calm_path.bind (calm_readFrom hpassword)

/-- **Reading the file is calm** if asking for passwords is. -/
theorem calm_data : Keeps (Calm l.number) l.data :=
  calm_remembered (calm_readData hpassword) fun _ _ _ _ hrun hp ↦
    ((calm_readData hpassword).of_ok hrun).path_eq hp

/-- **The path is remembered** once the contents of the file are. -/
theorem path_of_data {w w' : World} {n : NodeId} (hnumber : l.number < w.memos.size)
    (hmemo : (w.memo l.number).data.isSome → (w.memo l.number).path.isSome)
    (h : l.data w = .ok n w') : ∃ p, (w'.memo l.number).path = some p := by
  cases hknown : (w.memo l.number).data with
  | some d =>
    rw [data, remembered_of_known hknown] at h
    cases h
    rw [hknown] at hmemo
    exact Option.isSome_iff_exists.mp (hmemo rfl)
  | none =>
    rw [data, remembered_of_unknown hknown] at h
    obtain ⟨d, t, hread, ht⟩ := bind_eq_ok.mp h
    have hsize := ((calm_readData hpassword).of_ok hread).size_le
    obtain ⟨p, w₁, hpath, hrest⟩ := bind_eq_ok.mp hread
    have hp := ((calm_readFrom hpassword p).of_ok hrest).path_eq (path_of_ok hnumber hpath)
    cases ht
    refine ⟨p, (congrArg Memo.path (World.memo_modify t l.number (View.data.keep n) ?_)).trans hp⟩
    exact Nat.lt_of_lt_of_le hnumber hsize

end Data

end Loader

end LayeredConfig
