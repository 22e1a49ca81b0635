import LayeredConfig.Text.Base64

/-!
# Reading what was written in base64

The strict reading of the letters of some bytes gives the bytes back. Writing works off three bytes
at a time and reading one letter at a time, so the induction is the one of writing, and after each
group of four letters the reading is where it started.
-/

namespace LayeredConfig

namespace Base64

/-- A value below 64 is read back from its letter, which is no padding. -/
theorem value?_letter : ∀ n < 64, value? (letter n) = some n ∧ letter n ≠ '=' := by decide

variable {n : Nat}

/-! ## Reading one letter -/

section Letter

variable (hn : n < 64) (carry pads : Nat) (rest : List Char)

include hn

theorem decodeFrom_first :
    decodeFrom true ⟨0, carry, pads, false⟩ (letter n :: rest)
      = decodeFrom true ⟨1, n, 0, false⟩ rest := by
  rw [decodeFrom, if_neg (value?_letter n hn).2, (value?_letter n hn).1]
  rfl

theorem decodeFrom_second :
    decodeFrom true ⟨1, carry, pads, false⟩ (letter n :: rest)
      = (decodeFrom true ⟨2, n % 16, 0, false⟩ rest).map (UInt8.ofNat (carry * 4 + n / 16) :: ·) := by
  rw [decodeFrom, if_neg (value?_letter n hn).2, (value?_letter n hn).1]
  rfl

theorem decodeFrom_third :
    decodeFrom true ⟨2, carry, pads, false⟩ (letter n :: rest)
      = (decodeFrom true ⟨3, n % 4, 0, false⟩ rest).map (UInt8.ofNat (carry * 16 + n / 4) :: ·) := by
  rw [decodeFrom, if_neg (value?_letter n hn).2, (value?_letter n hn).1]
  rfl

theorem decodeFrom_fourth :
    decodeFrom true ⟨3, carry, pads, false⟩ (letter n :: rest)
      = (decodeFrom true ⟨0, 0, 0, false⟩ rest).map (UInt8.ofNat (carry * 64 + n) :: ·) := by
  rw [decodeFrom, if_neg (value?_letter n hn).2, (value?_letter n hn).1]
  rfl

end Letter

/-! ## Reading one byte -/

section Byte

variable (a b : UInt8) (rest : List Char)

/-- The two letters that begin with a byte, when the second one holds nothing else. -/
theorem decodeFrom_byte :
    decodeFrom true ⟨0, 0, 0, false⟩ (letter (a.toNat / 4) :: letter (a.toNat % 4 * 16) :: rest)
      = (decodeFrom true ⟨2, 0, 0, false⟩ rest).map (a :: ·) := by
  have ha := a.toNat_lt
  rw [decodeFrom_first (by omega), decodeFrom_second (by omega)]
  have hcarry : a.toNat % 4 * 16 % 16 = 0 := by omega
  have hbyte : UInt8.ofNat (a.toNat / 4 * 4 + a.toNat % 4 * 16 / 16) = a := by
    rw [show a.toNat / 4 * 4 + a.toNat % 4 * 16 / 16 = a.toNat by omega, UInt8.ofNat_toNat]
  rw [hcarry, hbyte]

/-- The same when the second letter goes on with the next byte. -/
theorem decodeFrom_byte_next :
    decodeFrom true ⟨0, 0, 0, false⟩
        (letter (a.toNat / 4) :: letter (a.toNat % 4 * 16 + b.toNat / 16) :: rest)
      = (decodeFrom true ⟨2, b.toNat / 16, 0, false⟩ rest).map (a :: ·) := by
  have ha := a.toNat_lt
  have hb := b.toNat_lt
  rw [decodeFrom_first (by omega), decodeFrom_second (by omega)]
  have hcarry : (a.toNat % 4 * 16 + b.toNat / 16) % 16 = b.toNat / 16 := by omega
  have hbyte : UInt8.ofNat (a.toNat / 4 * 4 + (a.toNat % 4 * 16 + b.toNat / 16) / 16) = a := by
    rw [show a.toNat / 4 * 4 + (a.toNat % 4 * 16 + b.toNat / 16) / 16 = a.toNat by omega,
      UInt8.ofNat_toNat]
  rw [hcarry, hbyte]

end Byte

/-! ## Reading all letters -/

theorem decodeFrom_encode (bytes : List UInt8) :
    decodeFrom true ⟨0, 0, 0, false⟩ (encode bytes) = some bytes := by
  induction bytes using encode.induct with
  | case1 => rfl
  | case2 a =>
    rw [encode, decodeFrom_byte]
    rfl
  | case3 a b =>
    have hb := b.toNat_lt
    rw [encode, decodeFrom_byte_next, decodeFrom_third (by omega)]
    have hbyte : UInt8.ofNat (b.toNat / 16 * 16 + b.toNat % 16 * 4 / 4) = b := by
      rw [show b.toNat / 16 * 16 + b.toNat % 16 * 4 / 4 = b.toNat by omega, UInt8.ofNat_toNat]
    rw [hbyte]
    rfl
  | case4 a b c rest ih =>
    have hb := b.toNat_lt
    have hc := c.toNat_lt
    rw [encode, decodeFrom_byte_next, decodeFrom_third (by omega), decodeFrom_fourth (by omega), ih]
    have hsecond : UInt8.ofNat (b.toNat / 16 * 16 + (b.toNat % 16 * 4 + c.toNat / 64) / 4) = b := by
      rw [show b.toNat / 16 * 16 + (b.toNat % 16 * 4 + c.toNat / 64) / 4 = b.toNat by omega,
        UInt8.ofNat_toNat]
    have hthird : UInt8.ofNat ((b.toNat % 16 * 4 + c.toNat / 64) % 4 * 64 + c.toNat % 64) = c := by
      rw [show (b.toNat % 16 * 4 + c.toNat / 64) % 4 * 64 + c.toNat % 64 = c.toNat by omega,
        UInt8.ofNat_toNat]
    rw [hsecond, hthird]
    rfl

/-- The letters of some bytes do not begin with padding. -/
theorem head?_encode_ne (bytes : List UInt8) : (encode bytes).head? ≠ some '=' := by
  have hletter : ∀ a : UInt8, some (letter (a.toNat / 4)) ≠ some '=' := by
    intro a h
    have ha := a.toNat_lt
    exact (value?_letter (a.toNat / 4) (by omega)).2 (Option.some.inj h)
  cases bytes using encode.fun_cases with
  | case1 => exact Option.some_ne_none _ |>.symm
  | case2 a => exact hletter a
  | case3 a b => exact hletter a
  | case4 a b c rest => exact hletter a

/-- **The strict reading** gives back the bytes that were written. -/
theorem decode?_encode (bytes : List UInt8) : decode? (encode bytes) = some bytes := by
  rw [decode?, if_neg (head?_encode_ne bytes), decodeFrom_encode]

end Base64

end LayeredConfig
