import LayeredConfig.Secret.Aes

/-!
# The size of an encrypted block

Under a key of 32 bytes a block of sixteen bytes is encrypted as a block of sixteen bytes. Every
round makes a block of whatever it is given, as long as its key is one, so most of this is about the
key schedule: it goes on in words of four bytes, because all words before were such words
(`Schedule`).
-/

namespace LayeredConfig

/-- Pieces of one length, joined. -/
theorem length_flatten_of_forall {α : Type} {size : Nat} {pieces : List (List α)}
    (h : ∀ piece ∈ pieces, piece.length = size) : pieces.flatten.length = size * pieces.length := by
  rw [List.length_flatten, List.map_congr_left h, List.map_const', List.sum_replicate_nat,
    Nat.mul_comm]

namespace Aes

theorem length_sum (a b : List UInt8) : (sum a b).length = min a.length b.length :=
  List.length_zipWith

theorem length_shiftRows (block : List UInt8) : (shiftRows block).length = 16 := by
  rw [shiftRows, List.length_map, List.length_range]

/-- Mixing works off whole columns. -/
theorem length_mixColumns {columns : Nat} {block : List UInt8} (h : block.length = 4 * columns) :
    (mixColumns block).length = block.length := by
  induction columns generalizing block with
  | zero =>
    rw [List.eq_nil_of_length_eq_zero h]
    rfl
  | succ columns ih =>
    match block, h with
    | a :: b :: c :: d :: rest, h =>
      have hrest : rest.length = 4 * columns := by
        simp only [List.length_cons] at h
        omega
      simp only [mixColumns, List.length_cons, ih hrest]

/-! ## The key schedule -/

/-- So many words were made, and each of them has four bytes. -/
structure Schedule (words : Array (List UInt8)) (count : Nat) : Prop where
  size_eq : words.size = count
  length_eq : ∀ word ∈ words.toList, word.length = 4

theorem Schedule.length_getD {words : Array (List UInt8)} {count i : Nat}
    (h : Schedule words count) (hi : i < count) : (words.getD i []).length = 4 := by
  have hlt : i < words.size := by rw [h.size_eq]; exact hi
  rw [Array.getD_eq_getD_getElem?, Array.getElem?_eq_getElem hlt, Option.getD_some]
  exact h.length_eq _ (Array.getElem_mem_toList hlt)

/-- The next word has four bytes, whichever way it is mixed. -/
theorem Schedule.length_nextWord {words : Array (List UInt8)} {count : Nat}
    (h : Schedule words count) (hcount : 8 ≤ count) : (nextWord words).length = 4 := by
  have hprevious : (words.getD (words.size - 1) []).length = 4 :=
    h.length_getD (by rw [h.size_eq]; omega)
  have hearlier : (words.getD (words.size - 8) []).length = 4 :=
    h.length_getD (by rw [h.size_eq]; omega)
  have hmixed : ∀ mixed : List UInt8, mixed.length = 4 →
      (sum (words.getD (words.size - 8) []) mixed).length = 4 := by
    intro mixed hlength
    rw [length_sum, hearlier, hlength]
    rfl
  refine hmixed _ ?_
  split
  · rw [length_sum, List.length_map, List.length_append, List.length_drop, List.length_take,
      hprevious]
    rfl
  · split
    · rw [List.length_map, hprevious]
    · exact hprevious

theorem Schedule.push {words : Array (List UInt8)} {count : Nat} (h : Schedule words count)
    (hcount : 8 ≤ count) : Schedule (words.push (nextWord words)) (count + 1) where
  size_eq := by rw [Array.size_push, h.size_eq]
  length_eq word hword := by
    rw [Array.toList_push, List.mem_append, List.mem_singleton] at hword
    rcases hword with hword | rfl
    · exact h.length_eq word hword
    · exact h.length_nextWord hcount

/-- The schedule goes on from the eight words of the key. -/
theorem Schedule.expand {start : Array (List UInt8)} (h : Schedule start 8) (steps : Nat) :
    Schedule ((List.range steps).foldl (fun words _ ↦ words.push (nextWord words)) start)
      (8 + steps) := by
  induction steps with
  | zero => exact h
  | succ steps ih =>
    rw [List.range_succ, List.foldl_append]
    exact ih.push (Nat.le_add_right _ _)

/-- The words of a key. -/
theorem schedule_start {key : List UInt8} (hkey : key.length = 32) :
    Schedule ((List.range 8).map fun i ↦ (key.drop (4 * i)).take 4).toArray 8 where
  size_eq := by rw [List.size_toArray, List.length_map, List.length_range]
  length_eq word hword := by
    obtain ⟨i, hi, rfl⟩ := List.mem_map.mp hword
    have hlt := List.mem_range.mp hi
    rw [List.length_take, List.length_drop, hkey]
    omega

/-- **Every round key** of a key of 32 bytes is a block. -/
theorem length_of_mem_roundKeys {key roundKey : List UInt8} (hkey : key.length = 32)
    (h : roundKey ∈ roundKeys key) : roundKey.length = 16 := by
  obtain ⟨i, hi, rfl⟩ := List.mem_map.mp h
  have hlt := List.mem_range.mp hi
  have hschedule := (schedule_start hkey).expand 52
  have hwords : ∀ word ∈ (_ : Array (List UInt8)).toList, word.length = 4 := hschedule.length_eq
  rw [length_flatten_of_forall fun word hword ↦
    hwords word (List.mem_of_mem_drop (List.mem_of_mem_take hword)), List.length_take, List.length_drop, Array.length_toList, hschedule.size_eq]
  omega

/-! ## Rounds -/

theorem length_rounds {keys : List (List UInt8)} (hkeys : ∀ key ∈ keys, key.length = 16)
    {block : List UInt8} (hblock : block.length = 16) : (rounds block keys).length = 16 := by
  induction keys generalizing block with
  | nil => exact hblock
  | cons key rest ih =>
    have hkey := hkeys key List.mem_cons_self
    cases rest with
    | nil =>
      rw [rounds, length_sum, length_shiftRows, hkey]
      rfl
    | cons next rest =>
      have hround : rounds block (key :: next :: rest)
          = rounds (sum (mixColumns (shiftRows (block.map substituted))) key) (next :: rest) := rfl
      rw [hround]
      refine ih (fun k hk ↦ hkeys k (List.mem_cons_of_mem _ hk)) ?_
      have hrows : (shiftRows (block.map substituted)).length = 4 * 4 := length_shiftRows _
      rw [length_sum, length_mixColumns hrows, hrows, hkey]
      rfl

/-- **A block is encrypted as a block.** -/
theorem length_encryptBlock {key block : List UInt8} (hkey : key.length = 32)
    (hblock : block.length = 16) : (encryptBlock (roundKeys key) block).length = 16 := by
  have hkeys : ∀ roundKey ∈ roundKeys key, roundKey.length = 16 := fun _ h ↦
    length_of_mem_roundKeys hkey h
  cases hall : roundKeys key with
  | nil => exact hblock
  | cons first rest =>
    rw [hall] at hkeys
    rw [encryptBlock]
    refine length_rounds (fun k hk ↦ hkeys k (List.mem_cons_of_mem _ hk)) ?_
    rw [length_sum, hblock, hkeys first List.mem_cons_self]
    rfl

end Aes

end LayeredConfig
