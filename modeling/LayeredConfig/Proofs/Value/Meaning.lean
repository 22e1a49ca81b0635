import LayeredConfig.Value
import Mathlib.Data.Nat.Basic
import Mathlib.Tactic.Ring

/-!
# What scalars stand for

Scalars of different kinds may be equal, `true`, `1` and `1.0` for instance. Equality of items means
that both stand for the same thing (`Scalar.sameOrEqual_iff`), and is therefore an equivalence
relation. A number stands for a multiple of the smallest positive one, `2 ^ -1074`. This needs
floating-point numbers in canonical form, in which no number is written in two ways.
-/

namespace LayeredConfig

namespace Binary64

/-- The form in which every number is kept. -/
def Canonical : Binary64 → Prop
  | .finite _ m e => m < 2 * normalLeast ∧ minExponent ≤ e ∧ (e = minExponent ∨ normalLeast ≤ m)
  | _ => True

instance (x : Binary64) : Decidable x.Canonical := by
  cases x <;> unfold Canonical <;> infer_instance

/-- How many times the smallest positive number goes into `1`. -/
def wholeUnits : ℤ := 2 ^ (-minExponent).toNat

theorem wholeUnits_pos : 0 < wholeUnits := Int.pow_pos (by decide)

/-- The multiple of the smallest positive number that `± m · 2 ^ e` is. -/
def units (negative : Bool) (m : ℕ) (e : ℤ) : ℤ :=
  signed negative m * 2 ^ (e - minExponent).toNat

theorem natAbs_signed (s : Bool) (m : ℕ) : (signed s m).natAbs = m := by
  cases s <;> simp [signed]

/-- Of two canonical forms of a magnitude, none has the larger exponent. -/
private theorem exponent_le {m n : ℕ} {e f : ℤ} (hm : m < 2 * normalLeast)
    (hn : f = minExponent ∨ normalLeast ≤ n) (he : minExponent ≤ e)
    (h : m * 2 ^ (e - minExponent).toNat = n * 2 ^ (f - minExponent).toNat) : f ≤ e := by
  by_contra hlt
  obtain ⟨d, hd⟩ : ∃ d, (f - minExponent).toNat = (e - minExponent).toNat + (d + 1) :=
    ⟨(f - e).toNat - 1, by omega⟩
  have hlarge : normalLeast ≤ n := hn.resolve_left (by omega)
  -- the form with the larger exponent has more digits than a significand may have
  have hdouble : m = n * 2 ^ d * 2 := by
    refine Nat.eq_of_mul_eq_mul_right (Nat.two_pow_pos (e - minExponent).toNat) ?_
    rw [h, hd]
    ring
  have hn_le : n ≤ n * 2 ^ d := Nat.le_mul_of_pos_right n (Nat.two_pow_pos d)
  omega

/-- **A number has one canonical form**, up to the sign of zero. -/
theorem equal_iff_units {s t : Bool} {m n : ℕ} {e f : ℤ} (hx : (finite s m e).Canonical)
    (hy : (finite t n f).Canonical) :
    (finite s m e).equal (finite t n f) = true ↔ units s m e = units t n f := by
  obtain ⟨hm, he, hm'⟩ := hx
  obtain ⟨hn, hf, hn'⟩ := hy
  have hpos : ∀ k : ℕ, (0 : ℤ) < 2 ^ k := fun k ↦ Int.pow_pos (by decide)
  constructor
  · intro h
    simp only [equal, Bool.or_eq_true, Bool.and_eq_true, beq_iff_eq] at h
    rcases h with ⟨rfl, rfl⟩ | ⟨⟨rfl, rfl⟩, rfl⟩
    · cases s <;> cases t <;> simp [units, signed]
    · rfl
  · intro h
    have habs : m * 2 ^ (e - minExponent).toNat = n * 2 ^ (f - minExponent).toNat := by
      have := congrArg Int.natAbs h
      rwa [units, units, Int.natAbs_mul, Int.natAbs_mul, natAbs_signed, natAbs_signed,
        Int.natAbs_pow, Int.natAbs_pow] at this
    obtain rfl : e = f :=
      Int.le_antisymm (exponent_le hn hm' hf habs.symm) (exponent_le hm hn' he habs)
    obtain rfl : m = n := Nat.eq_of_mul_eq_mul_right (Nat.two_pow_pos _) habs
    have hsigned : signed s m = signed t m := Int.eq_of_mul_eq_mul_right (hpos _).ne' h
    simp only [equal, Bool.or_eq_true, Bool.and_eq_true, beq_iff_eq]
    by_cases hzero : m = 0
    · exact .inl ⟨hzero, hzero⟩
    · have hsign : s = t := by
        cases s <;> cases t <;> simp [signed] at hsigned ⊢ <;> omega
      exact .inr ⟨⟨hsign, trivial⟩, trivial⟩

theorem equalInt_iff_units {s : Bool} {m : ℕ} {e : ℤ} (hx : (finite s m e).Canonical) (k : ℤ) :
    (finite s m e).equalInt k = true ↔ units s m e = k * wholeUnits := by
  have he := hx.2.1
  have hsigned : signed s (raise m e) = signed s m * 2 ^ e.toNat := by
    cases s <;> simp [signed, raise, Nat.shiftLeft_eq]
  have hraise : ((raise 1 (-e) : ℕ) : ℤ) = 2 ^ (-e).toNat := by simp [raise, Nat.shiftLeft_eq]
  have hwhole : wholeUnits = 2 ^ (-minExponent).toNat := rfl
  rw [equalInt, beq_iff_eq, hsigned, hraise, units]
  -- the power of two on one side is `1`; the other sides are scaled by the same power
  by_cases h : 0 ≤ e
  · have hsplit : (e - minExponent).toNat = e.toNat + (-minExponent).toNat := by
      unfold minExponent
      omega
    rw [hsplit, pow_add, ← mul_assoc, ← hwhole, Int.mul_eq_mul_right_iff wholeUnits_pos.ne',
      Int.toNat_of_nonpos (by omega : -e ≤ 0), pow_zero, mul_one]
  · have hsplit : (-minExponent).toNat = (-e).toNat + (e - minExponent).toNat := by omega
    rw [hwhole, hsplit, pow_add, ← mul_assoc,
      Int.mul_eq_mul_right_iff (Int.pow_pos (by decide)).ne',
      Int.toNat_of_nonpos (by omega : e ≤ 0), pow_zero, mul_one]

end Binary64

namespace Scalar

/-- What a scalar stands for, whatever its kind. A NaN stands for itself. -/
inductive Meaning where
  | nothing
  | number (units : ℤ)
  | infinite (negative : Bool)
  | nan (mark : ℕ)
  | text (s : String)
  | bytes (bs : List UInt8)
  | date (d : Date)
  | time (placed : Bool) (instant : ℤ)

/-- What an integer stands for. -/
def Meaning.whole (n : ℤ) : Meaning := .number (n * Binary64.wholeUnits)

@[simp] theorem Meaning.whole_inj {j k : ℤ} : whole j = whole k ↔ j = k := by
  rw [whole, whole, number.injEq, Int.mul_eq_mul_right_iff Binary64.wholeUnits_pos.ne']

/-- What the scalar stands for. -/
def meaning : Scalar → Meaning
  | .null => .nothing
  | .bool b => .whole (if b then 1 else 0)
  | .int n => .whole n
  | .float (.finite s m e) => .number (Binary64.units s m e)
  | .float (.infinite s) => .infinite s
  | .float (.nan mark) => .nan mark
  | .text s => .text s
  | .bytes bs => .bytes bs
  | .date d => .date d
  | .time t => .time t.offset.isSome t.instant

/-- A number of the scalar is in canonical form. -/
def Canonical : Scalar → Prop
  | .float x => x.Canonical
  | _ => True

instance (s : Scalar) : Decidable s.Canonical := by
  cases s <;> unfold Canonical <;> infer_instance

/-- A floating-point number equals an integer that it stands for. -/
private theorem equalInt_iff {x : Binary64} (hx : x.Canonical) (k : ℤ) :
    x.equalInt k = true ↔ (float x).meaning = .whole k := by
  cases x with
  | finite s m e =>
    rw [Binary64.equalInt_iff_units hx, meaning, Meaning.whole, Meaning.number.injEq]
  | _ => simp [Binary64.equalInt, meaning, Meaning.whole]

private theorem float_iff {x : Binary64} {b : Scalar} (hx : x.Canonical) (hb : b.Canonical) :
    (float x).sameOrEqual b = true ↔ (float x).meaning = b.meaning := by
  cases b with
  | bool c => cases x <;> exact equalInt_iff hx _
  | int n => cases x <;> exact equalInt_iff hx n
  | float y =>
    cases x with
    | finite s m e =>
      cases y with
      | finite t n f =>
        rw [meaning, meaning, Meaning.number.injEq]
        exact Binary64.equal_iff_units hx hb
      | _ => simp [sameOrEqual, equal, Binary64.equal, meaning]
    | _ => cases y <;> simp [sameOrEqual, equal, Binary64.equal, meaning]
  | _ => cases x <;> simp [sameOrEqual, equal, asInt?, meaning]

/-- A truth value or an integer equals what stands for the same integer. -/
private theorem asInt?_iff {a b : Scalar} {j : ℤ} (ha : a.asInt? = some j) (hb : b.Canonical) :
    a.sameOrEqual b = true ↔ .whole j = b.meaning := by
  have hwhole : ∀ {k : ℤ}, (j == k) = true ↔ Meaning.whole j = .whole k :=
    beq_iff_eq.trans Meaning.whole_inj.symm
  cases a with
  | bool c =>
    cases ha
    cases b with
    | bool d => exact hwhole
    | int n => exact hwhole
    | float y => exact (equalInt_iff hb _).trans eq_comm
    | _ => simp [sameOrEqual, equal, asInt?, meaning, Meaning.whole]
  | int m =>
    cases ha
    cases b with
    | bool d => exact hwhole
    | int n => exact hwhole
    | float y => exact (equalInt_iff hb _).trans eq_comm
    | _ => simp [sameOrEqual, equal, asInt?, meaning, Meaning.whole]
  | _ => cases ha

/-- **Items are equal** if they stand for the same. -/
theorem sameOrEqual_iff {a b : Scalar} (ha : a.Canonical) (hb : b.Canonical) :
    a.sameOrEqual b = true ↔ a.meaning = b.meaning := by
  cases a with
  | bool c => exact asInt?_iff rfl hb
  | int n => exact asInt?_iff rfl hb
  | float x => exact float_iff ha hb
  | _ =>
    cases b with
    | float y => cases y <;> simp [sameOrEqual, equal, asInt?, meaning]
    | _ => simp [sameOrEqual, equal, asInt?, meaning, DateTime.equal, Meaning.whole]

end Scalar

end LayeredConfig
