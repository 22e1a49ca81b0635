import LayeredConfig.Proofs.Loader.Retrying
import LayeredConfig.Proofs.Loader.Revealing
import LayeredConfig.Proofs.Loader.Visiting

/-!
# One snapshot

However a loader is called, and whatever happens to files, to the process environment and to nodes
in between, all that it ever gives out is computed from one tree: the one that its first successful
reading gave. Before that reading every attempt parses the file anew, and the collaborator that
decrypts is asked only about what was just parsed. From then on it is not asked at all: a call comes
to the same with any other in its place, even with one that always fails.

So there are two phases, `Loader.Unread` and `Loader.HasRead`. All that happens elsewhere keeps
either of them, and a call that the first reading succeeds in leads from the one to the other.
-/

namespace LayeredConfig

open World (Elsewhere)

namespace World

/-- Files and the process environment are no business of the loader's memory. -/
theorem elsewhere_changed (number : ℕ) (w : World) (files : FileSystem)
    (environment : Entries String) : Elsewhere number w (w.changed files environment) :=
  ⟨Std.Refl.refl w.memory, Nat.le_refl _, rfl⟩

end World

namespace Loader

variable {l : Loader} {w w₀ w' u u' : World} {x : Visit} {calls : List Visit} {d n : NodeId}
  {t : Tree}

/-! ## What calls do -/

/-- In this call the product is computed from the tree `t`, which stands at the node `d`. -/
inductive Computes (l : Loader) (d : NodeId) (t : Tree) (x : Visit) (p : Product) : Prop
  | intro {u u' w' : World} {k : NodeId → Action Product}
      (comesTo : l.ComesTo x.world x.query u k) (data : l.data u = .ok d u')
      (view : u'.memory.view (.node d) = t) (computed : k d u' = .ok p w')

/-- Asking for the contents of the file asks for no password, or it makes a new tree of what the
file holds by then and asks about the secrets of that tree, with what the document says. If that
fails, so does the call, and otherwise the tree is given out with the answers in the places of the
secrets. The document has to be plain, as every one is that was parsed from a text. -/
inductive ReadsAnew (l : Loader) (w : World) : Prop
  | unasked (same : ∀ password, (l.decryptingWith password).data w = l.data w)
  | parsed {path : String} {v : Value} {w₀ w₁ : World} {n : NodeId} {m : Memory}
      (found : l.path w = .ok path w₀) (read : l.readDocument path w₀ = .ok v w₁)
      (created : Node.create v w₁.memory = .ok n m) (new : n ∉ w₁.memory.forest)
      (asked : v.Plain → l.Respects n →
        (m.secrets n).map (fun s ↦ (s.title, (m.view s.stored).content))
          = Blueprint.passwords (w₁.memory.view v).fields ∧
        ∃ answers r, Interview l m (m.secrets n) { w₁ with memory := m } answers r ∧
          (∀ failure w', r = .error failure w' → l.data w = .error failure w') ∧
          ∀ w₂, r = .ok () w₂ → ∃ w', l.data w = .ok n w' ∧
            (w'.memory.view (.node n)).content
              = .node (Blueprint.revealed (w₁.memory.view v).fields answers))

/-- In this call the contents of the file are read anew, in the world `u`, and decrypting has
nothing to do with it otherwise. -/
structure Tries (l : Loader) (x : Visit) (u : World) : Prop where
  comesTo : ∃ k, l.ComesTo x.world x.query u k
  anew : l.ReadsAnew u
  only : ∀ password, (l.decryptingWith password).data u = l.data u →
    (l.decryptingWith password).ask x.query x.world = l.ask x.query x.world

/-- The call gives nothing that was computed from a file: it does not ask for the contents, or it
fails to read them. -/
inductive Fruitless (l : Loader) (x : Visit) : Prop
  | aside (unasked : ∀ password,
        (l.decryptingWith password).ask x.query x.world = l.ask x.query x.world)
      (nothing : ∀ p w', l.ask x.query x.world ≠ .ok (.product p) w')
  | failed {u u' : World} {failure : Failure} (tries : l.Tries x u)
      (data : l.data u = .error failure u')
      (fails : l.ask x.query x.world = .error failure u')

/-- In this call the contents of the file are read with success, and the tree is `t`. -/
inductive FirstReads (l : Loader) (x : Visit) (d : NodeId) (t : Tree) : Prop
  | intro {u u' : World} (tries : l.Tries x u) (data : l.data u = .ok d u')
      (view : u'.memory.view (.node d) = t)

/-- The call starts from the tree `t`, whatever happens elsewhere until it asks for it, and it does
not decrypt anything. -/
structure RestsOn (l : Loader) (d : NodeId) (t : Tree) (x : Visit) : Prop where
  data : ∀ w, Elsewhere l.number x.world w → l.data w = .ok d w ∧ w.memory.view (.node d) = t
  unasked : ∀ password, (l.decryptingWith password).ask x.query x.world = l.ask x.query x.world

/-! ## The two phases -/

/-- The loader has not read its file. -/
structure Unread (l : Loader) (w : World) : Prop where
  sound : w.memory.forest.Sound
  made : l.number < w.memos.size
  memo_eq : (w.memo l.number).pathless = default

/-- The loader has read its file. The tree `t` that came of it still stands at the node `d`, frozen,
and all that the loader remembers was computed from it in one of the calls. -/
structure HasRead (l : Loader) (calls : List Visit) (d : NodeId) (t : Tree) (w : World) :
    Prop where
  sound : w.memory.forest.Sound
  made : l.number < w.memos.size
  data_eq : (w.memo l.number).data = some d
  mem : d ∈ w.memory.forest
  frozen : w.memory.forest.frozen d = true
  view_eq : w.memory.view (.node d) = t
  stems : ∀ c p, c ≠ .data → recalled (w.memo l.number) c = some p →
    ∃ x ∈ calls, x.query = .view c ∧ l.Computes d t x p

theorem recalled_pathless (m : Memo) (c : Call) : recalled m.pathless c = recalled m c := by
  cases c <;> rfl

namespace Unread

/-- What happens elsewhere does not matter to a loader that has not read its file. -/
theorem elsewhere (h : l.Unread w) (hw : Elsewhere l.number w w') : l.Unread w' where
  sound := (hw.follows h.sound).sound
  made := Nat.lt_of_lt_of_le h.made hw.size_le
  memo_eq := hw.memo_eq.trans h.memo_eq

theorem recalled_eq (h : l.Unread w) (c : Call) : recalled (w.memo l.number) c = none := by
  rw [← recalled_pathless, h.memo_eq]
  cases c <;> rfl

theorem data_eq (h : l.Unread w) : (w.memo l.number).data = none :=
  Option.map_eq_none_iff.mp (h.recalled_eq .data)

end Unread

namespace HasRead

/-- **What happens elsewhere** does not matter to a loader that has read its file either. -/
theorem elsewhere (h : l.HasRead calls d t w) (hw : Elsewhere l.number w w') :
    l.HasRead calls d t w' := by
  have hlater := hw.follows h.sound
  refine ⟨hlater.sound, Nat.lt_of_lt_of_le h.made hw.size_le, ?_, hlater.mem h.mem, ?_, ?_, ?_⟩
  · have hdata : (w'.memo l.number).pathless.data = (w.memo l.number).pathless.data := by
      rw [hw.memo_eq]
    exact hdata.trans h.data_eq
  · rw [Forest.frozen, hlater.frozen h.mem h.frozen]
    exact h.frozen
  · exact (hlater.view_of_frozen h.sound h.mem h.frozen).trans h.view_eq
  · intro c p hc hp
    rw [← recalled_pathless, hw.memo_eq, recalled_pathless] at hp
    exact h.stems c p hc hp

/-- From here on the contents of the file are known. -/
theorem data (h : l.HasRead calls d t w) : l.data w = .ok d w := remembered_of_known h.data_eq

end HasRead

/-! ## The first phase -/

/-- A reading that succeeds ends the first phase, and one that fails does not. -/
theorem Unread.data (hl : l.Uncalled) (h : l.Unread w) :
    (∃ failure w', l.data w = .error failure w' ∧ l.Unread w') ∨
      ∃ d w', l.data w = .ok d w' ∧ l.HasRead [] d (w'.memory.view (.node d)) w' := by
  have hrun : l.data w = _ := remembered_of_unknown h.data_eq
  cases hread : l.readData w with
  | error failure w₁ =>
    refine .inl ⟨failure, w₁, hrun.trans (bind_of_error hread), ?_⟩
    exact h.elsewhere ((elsewhere_readData hl).of_error hread)
  | ok d w₁ =>
    have h₁ := h.elsewhere ((elsewhere_readData hl).of_ok hread)
    obtain ⟨path, w₀, hpath, hfrom⟩ := bind_eq_ok.mp hread
    have hsound₀ := (h.elsewhere (elsewhere_path.of_ok hpath)).sound
    obtain ⟨_, hmem, hfrozen⟩ := frozen_of_readFrom hl hsound₀ hfrom
    have hmemo := w₁.memo_modify l.number (View.data.keep d) h₁.made
    refine .inr ⟨d, _, hrun.trans (bind_of_ok hread), h₁.sound, ?_, ?_, hmem, hfrozen, rfl, ?_⟩
    · exact Nat.lt_of_lt_of_eq h₁.made Array.size_modify.symm
    · exact congrArg Memo.data hmemo
    · intro c p hc hp
      -- nothing else was remembered before
      have hp : recalled (View.data.keep d (w₁.memo l.number)) c = some p := hmemo ▸ hp
      cases c with
      | data => exact absurd rfl hc
      | config => exact absurd ((h₁.recalled_eq .config).symm.trans hp) (Option.some_ne_none p).symm
      | early => exact absurd ((h₁.recalled_eq .early).symm.trans hp) (Option.some_ne_none p).symm
      | databases =>
        exact absurd ((h₁.recalled_eq .databases).symm.trans hp) (Option.some_ne_none p).symm

/-- **Before the first reading** that succeeds, every reading starts from the file. -/
theorem Unread.readsAnew (h : l.Unread w) : l.ReadsAnew w := by
  have hstop : ∀ failure w', (∀ password,
      (l.decryptingWith password).data w = .error failure w') → l.ReadsAnew w := by
    intro failure w' hall
    exact .unasked fun password ↦ (hall password).trans (hall l.password).symm
  cases hpath : l.path w with
  | error failure w₀ =>
    refine hstop failure w₀ fun password ↦ ?_
    have hrun : (l.decryptingWith password).data w = _ := remembered_of_unknown h.data_eq
    have hpath : (l.decryptingWith password).path w = .error failure w₀ := hpath
    rw [hrun, readData, bind_assoc, bind_of_error hpath]
  | ok path w₀ =>
    have hanew : ∀ password, (l.decryptingWith password).data w
        = (l.decryptingWith password).readAnew path w₀ := by
      intro password
      have hpath : (l.decryptingWith password).path w = .ok path w₀ := hpath
      exact data_eq_readAnew h.data_eq hpath
    have hw₀ := (h.elsewhere (elsewhere_path.of_ok hpath)).sound
    cases hdocument : l.readDocument path w₀ with
    | error failure w₁ =>
      refine hstop failure w₁ fun password ↦ ?_
      have hdocument : (l.decryptingWith password).readDocument path w₀ = .error failure w₁ :=
        hdocument
      exact (hanew password).trans (bind_of_error (bind_of_error hdocument))
    | ok v w₁ =>
      cases hcreate : Node.create v w₁.memory with
      | error failure m =>
        refine hstop failure { w₁ with memory := m } fun password ↦ ?_
        have hdocument : (l.decryptingWith password).readDocument path w₀ = .ok v w₁ := hdocument
        have hread : (l.decryptingWith password).readFrom path w₀
            = .error failure { w₁ with memory := m } := by
          rw [readFrom, bind_of_ok hdocument]
          exact bind_of_error (onMemory_of_error hcreate)
        exact (hanew password).trans (bind_of_error hread)
      | ok n m =>
        have hread := (composite_discreet.readDocument path).keeps.of_ok hdocument
        have hw₁ := (hread.follows hw₀).sound
        have hdraft := draft_of_create hw₁ hcreate
        refine .parsed hpath hdocument hcreate hdraft.new fun hplain hrespects ↦ ?_
        have hpasswords := Memory.passwords_content hdraft.sound n
        rw [hdraft.content] at hpasswords
        obtain ⟨answers, r, hinterview, hfailed, hend⟩ :=
          readFrom_eq_interview hw₀ hdocument hplain hcreate hrespects
        refine ⟨hpasswords.symm, answers, r, hinterview, fun failure w' hr ↦ ?_, fun w₂ hr ↦ ?_⟩
        · exact (hanew l.password).trans (bind_of_error (hfailed failure w' hr))
        · obtain ⟨hread, hsound₂, -, -, hcontent⟩ := hend w₂ hr
          refine ⟨_, (hanew l.password).trans (bind_of_ok hread), ?_⟩
          exact (hsound₂.content_freeze n n).trans hcontent

/-! ## A call in either phase -/

/-- What is concluded is given out, and of what is remembered at most this result is new. -/
theorem concluded_memo (q : Query) (p : Product) (hmade : l.number < w.memos.size) :
    ∃ w', l.conclude q p w = .ok (.product p) w' ∧ w'.memory = w.memory ∧
      l.number < w'.memos.size ∧ (w'.memo l.number).data = (w.memo l.number).data ∧
      ∀ c p', recalled (w'.memo l.number) c = some p' →
        recalled (w.memo l.number) c = some p' ∨ q = .view c ∧ p = p' := by
  obtain ⟨w', hrun, rfl | rfl⟩ := conclude_eq l q p w
  · exact ⟨w', hrun, rfl, hmade, rfl, fun _ _ hp ↦ .inl hp⟩
  · refine ⟨_, hrun, rfl, Nat.lt_of_lt_of_eq hmade Array.size_modify.symm, ?_, fun c p' hp ↦ ?_⟩
    · rw [w.memo_modify l.number (kept q p) hmade, data_kept]
    · rw [w.memo_modify l.number (kept q p) hmade] at hp
      exact recalled_kept hp

theorem HasRead.mono (h : l.HasRead calls d t w) (x : Visit) :
    l.HasRead (calls ++ [x]) d t w where
  __ := h
  stems c p hc hp := by
    obtain ⟨y, hy, hquery, hcomputes⟩ := h.stems c p hc hp
    exact ⟨y, List.mem_append_left _ hy, hquery, hcomputes⟩

/-- **With the contents of the file at hand**, a call computes its result from them and leaves a
loader behind that has read its file. -/
theorem HasRead.concluded (hl : l.Uncalled) (h : l.HasRead calls d t u')
    {k : NodeId → Action Product} (hcomes : l.ComesTo x.world x.query u k) (hdata : l.data u = .ok d u') :
    l.HasRead (calls ++ [x]) d t (after (l.ask x.query) x.world) ∧
    ∀ p w', l.ask x.query x.world = .ok (.product p) w' → l.Computes d t x p := by
  have hask : l.ask x.query x.world = (k d >>= l.conclude x.query) u' :=
    (ask_of_comesTo hcomes).trans (bind_of_ok hdata)
  have hkeeps := (elsewhere_of_comesTo hcomes hl).2 d
  cases hcomputed : k d u' with
  | error failure w₁ =>
    rw [bind_of_error hcomputed] at hask
    refine ⟨?_, fun p w' hp ↦ ?_⟩
    · rw [after_of_error hask]
      exact (h.elsewhere (hkeeps.of_error hcomputed)).mono x
    · rw [hask] at hp
      cases hp
  | ok p w₁ =>
    have h₁ := h.elsewhere (hkeeps.of_ok hcomputed)
    have hcomputes : l.Computes d t x p := .intro hcomes hdata h.view_eq hcomputed
    obtain ⟨w₂, hconclude, hmemory, hmade, hmemo, hnew⟩ := concluded_memo x.query p h₁.made
    rw [bind_of_ok hcomputed, hconclude] at hask
    refine ⟨?_, fun p' w' hp ↦ ?_⟩
    · rw [after_of_ok hask]
      refine ⟨hmemory ▸ h₁.sound, hmade, hmemo.trans h₁.data_eq, hmemory ▸ h₁.mem,
        hmemory ▸ h₁.frozen, hmemory ▸ h₁.view_eq, fun c p' hc hp' ↦ ?_⟩
      rcases hnew c p' hp' with hold | ⟨hquery, rfl⟩
      · exact (h₁.mono x).stems c p' hc hold
      · exact ⟨x, List.mem_append_right _ List.mem_cons_self, hquery, hcomputes⟩
    · rw [hask] at hp
      cases hp
      exact hcomputes

/-- **A call in the first phase** gives nothing, or the first reading that succeeds is made in
it. -/
theorem Unread.visit (hl : l.Uncalled) (h : l.Unread x.world) :
    l.Fruitless x ∧ l.Unread (after (l.ask x.query) x.world) ∨
      ∃ d t, l.FirstReads x d t ∧ l.HasRead [x] d t (after (l.ask x.query) x.world) ∧
        ∀ p w', l.ask x.query x.world = .ok (.product p) w' → l.Computes d t x p := by
  rcases comesTo_or_aside hl x with ⟨u, k, hcomes⟩ | haside
  · have hu := h.elsewhere (elsewhere_of_comesTo hcomes hl).1
    have htries : l.Tries x u := by
      refine ⟨⟨k, hcomes⟩, hu.readsAnew, fun password hsame ↦ ?_⟩
      rw [ask_decryptingWith hcomes password, ask_of_comesTo hcomes]
      cases hdata : l.data u with
      | error failure u' =>
        rw [bind_of_error (hsame.trans hdata), bind_of_error hdata]
      | ok d u' =>
        rw [bind_of_ok (hsame.trans hdata), bind_of_ok hdata]
    rcases hu.data hl with ⟨failure, u', hdata, hu'⟩ | ⟨d, u', hdata, hread⟩
    · have hask : l.ask x.query x.world = .error failure u' :=
        (ask_of_comesTo hcomes).trans (bind_of_error hdata)
      refine .inl ⟨.failed htries hdata hask, ?_⟩
      rw [after_of_error hask]
      exact hu'
    · obtain ⟨hhas, hproducts⟩ := hread.concluded hl hcomes hdata
      exact .inr ⟨d, _, .intro htries hdata rfl, hhas, hproducts⟩
  · refine .inl ⟨.aside haside.unasked fun p w' hp ↦ ?_, h.elsewhere haside.elsewhere⟩
    obtain ⟨c, -, -, hrecalled⟩ := haside.known p w' hp
    rw [h.recalled_eq] at hrecalled
    cases hrecalled

/-- **A call in the second phase** starts from the tree that was read. -/
theorem HasRead.visit (hl : l.Uncalled) (h : l.HasRead calls d t x.world) :
    l.HasRead (calls ++ [x]) d t (after (l.ask x.query) x.world) ∧ l.RestsOn d t x ∧
    ∀ p w', l.ask x.query x.world = .ok (.product p) w' →
      ∃ y ∈ calls ++ [x], y.query = x.query ∧ l.Computes d t y p := by
  have hdata : ∀ w, Elsewhere l.number x.world w →
      l.data w = .ok d w ∧ w.memory.view (.node d) = t :=
    fun w hw ↦ ⟨(h.elsewhere hw).data, (h.elsewhere hw).view_eq⟩
  rcases comesTo_or_aside hl x with ⟨u, k, hcomes⟩ | haside
  · have hu := h.elsewhere (elsewhere_of_comesTo hcomes hl).1
    obtain ⟨hhas, hproducts⟩ := hu.concluded hl hcomes hu.data
    refine ⟨hhas, ⟨hdata, fun password ↦ ?_⟩, fun p w' hp ↦ ?_⟩
    · have hother : (l.decryptingWith password).data u = .ok d u := remembered_of_known hu.data_eq
      rw [ask_decryptingWith hcomes password, ask_of_comesTo hcomes, bind_of_ok hother,
        bind_of_ok hu.data]
    · exact ⟨x, List.mem_append_right _ List.mem_cons_self, rfl, hproducts p w' hp⟩
  · refine ⟨(h.elsewhere haside.elsewhere).mono x, ⟨hdata, haside.unasked⟩, fun p w' hp ↦ ?_⟩
    obtain ⟨c, hquery, hc, hrecalled⟩ := haside.known p w' hp
    obtain ⟨y, hy, hyquery, hcomputes⟩ := h.stems c p hc hrecalled
    exact ⟨y, List.mem_append_left _ hy, hyquery.trans hquery.symm, hcomputes⟩

/-! ## Runs -/

/-- A run of the loader: calls, and between them whatever does not call the loader. Files and the
process environment may change at will. -/
inductive History (l : Loader) (w₀ : World) : List Visit → World → Prop
  | start : History l w₀ [] w₀
  | meanwhile {calls : List Visit} {w w' : World} (run : History l w₀ calls w)
      (elsewhere : Elsewhere l.number w w') : History l w₀ calls w'
  | call {calls : List Visit} {w : World} (run : History l w₀ calls w) (q : Query) :
      History l w₀ (calls ++ [⟨q, w⟩]) (after (l.ask q) w)

/-- The contents of the file are read in the first of these calls. The others start from the tree of
that reading, and all that is given out is computed from it in one of the calls. -/
structure ShareTree (l : Loader) (d : NodeId) (t : Tree) (x : Visit) (later : List Visit) :
    Prop where
  reads : l.FirstReads x d t
  rests : ∀ y ∈ later, l.RestsOn d t y
  computes : ∀ y ∈ x :: later, ∀ p w', l.ask y.query y.world = .ok (.product p) w' →
    ∃ z ∈ x :: later, z.query = y.query ∧ l.Computes d t z p

theorem ShareTree.snoc {y : Visit} {later : List Visit} (h : l.ShareTree d t x later)
    (hrests : l.RestsOn d t y)
    (hproducts : ∀ p w', l.ask y.query y.world = .ok (.product p) w' →
      ∃ z ∈ x :: later ++ [y], z.query = y.query ∧ l.Computes d t z p) :
    l.ShareTree d t x (later ++ [y]) where
  reads := h.reads
  rests := by
    rw [List.forall_mem_append, List.forall_mem_singleton]
    exact ⟨h.rests, hrests⟩
  computes := by
    rw [← List.cons_append, List.forall_mem_append, List.forall_mem_singleton]
    refine ⟨fun z hz p w' hp ↦ ?_, hproducts⟩
    obtain ⟨c, hc, hquery, hcomputes⟩ := h.computes z hz p w' hp
    exact ⟨c, List.mem_append_left _ hc, hquery, hcomputes⟩

/-- Throughout a run, the loader is in one of the two phases. -/
theorem History.phase (hl : l.Uncalled) (hw : l.Unread w₀) (h : l.History w₀ calls w) :
    (∀ x ∈ calls, l.Fruitless x) ∧ l.Unread w ∨
      ∃ before x later d t, calls = before ++ x :: later ∧ (∀ y ∈ before, l.Fruitless y) ∧
        l.ShareTree d t x later ∧ l.HasRead (x :: later) d t w := by
  induction h with
  | start => exact .inl ⟨fun _ hx ↦ (List.not_mem_nil hx).elim, hw⟩
  | meanwhile run elsewhere ih =>
    rcases ih with ⟨hall, hunread⟩ | ⟨before, x, later, d, t, hcalls, hbefore, hshare, hread⟩
    · exact .inl ⟨hall, hunread.elsewhere elsewhere⟩
    · exact .inr ⟨before, x, later, d, t, hcalls, hbefore, hshare, hread.elsewhere elsewhere⟩
  | @call calls w run q ih =>
    rcases ih with ⟨hall, hunread⟩ | ⟨before, x, later, d, t, hcalls, hbefore, hshare, hread⟩
    · rcases Unread.visit (x := ⟨q, w⟩) hl hunread with
        ⟨hfruitless, hunread'⟩ | ⟨d, t, hreads, hhas, hproducts⟩
      · left
        rw [List.forall_mem_append, List.forall_mem_singleton]
        exact ⟨⟨hall, hfruitless⟩, hunread'⟩
      · refine .inr ⟨calls, ⟨q, w⟩, [], d, t, rfl, hall, ⟨hreads, ?_, ?_⟩, hhas⟩
        · exact fun _ hy ↦ (List.not_mem_nil hy).elim
        · rw [List.forall_mem_singleton]
          exact fun p w' hp ↦ ⟨_, List.mem_cons_self, rfl, hproducts p w' hp⟩
    · obtain ⟨hhas, hrests, hproducts⟩ := HasRead.visit (x := ⟨q, w⟩) hl hread
      have hhas : l.HasRead (x :: (later ++ [⟨q, w⟩])) d t (after (l.ask q) w) := hhas
      refine .inr ⟨before, x, later ++ [⟨q, w⟩], d, t, ?_, hbefore,
        hshare.snoc hrests hproducts, hhas⟩
      rw [hcalls, List.append_assoc]
      rfl

/-- **One snapshot for each loader.** Take any run of a loader whose collaborators do not call it.
Either no call gave anything that was computed from a file. Or there is a first call in which the
contents of the file were read with success. All that was given out in this call and later was
computed from the one tree that this reading gave. Every later call starts from that tree, whatever
files and process environment are by then, and decrypts nothing. All calls before were fruitless:
those that asked for the contents of the file read it anew each time, and asked only about the
secrets of what they had just parsed. -/
theorem one_snapshot (hl : l.Uncalled) (hw : w₀.memory.forest.Sound)
    (hmade : l.number < w₀.memos.size) (hfresh : w₀.memo l.number = default)
    (h : l.History w₀ calls w) :
    (∀ x ∈ calls, l.Fruitless x) ∨
      ∃ before x later d t, calls = before ++ x :: later ∧ (∀ y ∈ before, l.Fruitless y) ∧
        l.ShareTree d t x later := by
  have hunread : l.Unread w₀ := ⟨hw, hmade, by rw [hfresh]; rfl⟩
  rcases h.phase hl hunread with ⟨hall, -⟩ | ⟨before, x, later, d, t, hcalls, hbefore, hshare, -⟩
  · exact .inl hall
  · exact .inr ⟨before, x, later, d, t, hcalls, hbefore, hshare⟩

/-- A call that gives something is not fruitless. -/
theorem Fruitless.ne_ok (h : l.Fruitless x) (p : Product) (w' : World) :
    l.ask x.query x.world ≠ .ok (.product p) w' := by
  intro hp
  cases h with
  | aside unasked nothing => exact nothing p w' hp
  | failed tries data fails =>
    rw [fails] at hp
    cases hp

open Katello in
set_option maxRecDepth 20000 in
/-- After the files and the process environment are gone, the configuration is still built from the
tree that was read. -/
theorem one_snapshot_sample : ∃ (d : NodeId) (t : Tree),
    sampleLoader.ShareTree d t ⟨.view .data, worldOf sampleDocument⟩
      [⟨.view .early, (after (sampleLoader.ask (.view .data)) (worldOf sampleDocument)).changed
        ⟨[], []⟩ []⟩] := by
  have hl : sampleLoader.SelfContained :=
    selfContained_of_decrypt (fun _ hask ↦ by cases hask) rfl rfl
  have hrun : sampleLoader.History (worldOf sampleDocument)
      [⟨.view .data, worldOf sampleDocument⟩, ⟨.view .early, _⟩] _ :=
    ((History.start.call (.view .data)).meanwhile
      (World.elsewhere_changed _ _ ⟨[], []⟩ [])).call (.view .early)
  obtain ⟨d, w', hdata⟩ := exists_ok_of_succeeds
    (by decide +kernel : succeeds sampleLoader.data (worldOf sampleDocument) = true)
  have hgives : sampleLoader.ask (.view .data) (worldOf sampleDocument)
      = .ok (.product (.tree d)) w' := map_of_ok (map_of_ok hdata)
  have hmade : sampleLoader.number < (worldOf sampleDocument).memos.size := Nat.zero_lt_one
  rcases one_snapshot hl.uncalled Forest.sound_empty hmade rfl hrun with
    hall | ⟨before, x, later, d, t, hcalls, hbefore, hshare⟩
  · exact ((hall _ List.mem_cons_self).ne_ok _ _ hgives).elim
  · cases before with
    | nil =>
      obtain ⟨rfl, rfl⟩ := List.cons.inj hcalls
      exact ⟨d, t, hshare⟩
    | cons y before =>
      obtain ⟨rfl, -⟩ := List.cons.inj hcalls
      exact ((hbefore _ List.mem_cons_self).ne_ok _ _ hgives).elim

end Loader

end LayeredConfig
