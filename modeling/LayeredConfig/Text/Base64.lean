/-!
# Base64

Three bytes are written as four letters of a 64-letter alphabet; a group that ends early is filled
up with `=`.

Two readings are needed. The strict one takes letters and padding only: no blank, nothing behind
the padding, and no letter between two padding characters. The lenient one passes over every
other character. Both stop at the padding that completes a group, ignore padding where no group
is open far enough, and do not look at the unused bits of the last letter.
-/

namespace LayeredConfig

namespace Base64

/-- The letter of a value below 64. -/
def letter (n : Nat) : Char :=
  if n < 26 then Char.ofNat (65 + n)
  else if n < 52 then Char.ofNat (71 + n)
  else if n < 62 then Char.ofNat (n - 4)
  else if n = 62 then '+' else '/'

/-- The value of a letter. -/
def value? (c : Char) : Option Nat :=
  if 'A' ≤ c ∧ c ≤ 'Z' then some (c.toNat - 65)
  else if 'a' ≤ c ∧ c ≤ 'z' then some (c.toNat - 71)
  else if '0' ≤ c ∧ c ≤ '9' then some (c.toNat + 4)
  else if c = '+' then some 62
  else if c = '/' then some 63
  else none

/-- The letters of a sequence of bytes. -/
def encode : List UInt8 → List Char
  | [] => []
  | [a] => [letter (a.toNat / 4), letter (a.toNat % 4 * 16), '=', '=']
  | [a, b] =>
    [letter (a.toNat / 4), letter (a.toNat % 4 * 16 + b.toNat / 16), letter (b.toNat % 16 * 4), '=']
  | a :: b :: c :: rest =>
    letter (a.toNat / 4) :: letter (a.toNat % 4 * 16 + b.toNat / 16) ::
      letter (b.toNat % 16 * 4 + c.toNat / 64) :: letter (c.toNat % 64) :: encode rest

/-- How far a reading has come inside a group of four letters. -/
structure Group where
  /-- The letters of the open group read so far. -/
  letters : Nat
  /-- The bits of the last letter that belong to the next byte. -/
  carry : Nat
  /-- The padding characters directly before, counted once two letters are there. -/
  pads : Nat
  /-- Whether any padding came before. -/
  padded : Bool

/-- Reads letters from a given place inside a group; `none` when the text is malformed. -/
def decodeFrom (strict : Bool) (g : Group) : List Char → Option (List UInt8)
  | [] => if g.letters = 0 then some [] else none
  | c :: rest =>
    if c = '=' then
      if 2 ≤ g.letters ∧ 4 ≤ g.letters + g.pads + 1 then
        if strict && !rest.isEmpty then none else some []
      else
        let pads := if 2 ≤ g.letters then g.pads + 1 else g.pads
        decodeFrom strict { g with pads := pads, padded := true } rest
    else
      match value? c with
      | none => if strict then none else decodeFrom strict g rest
      | some v =>
        if strict && g.padded then none else
          match g.letters with
          | 0 => decodeFrom strict { g with letters := 1, carry := v, pads := 0 } rest
          | 1 => (decodeFrom strict { g with letters := 2, carry := v % 16, pads := 0 } rest).map
              (UInt8.ofNat (g.carry * 4 + v / 16) :: ·)
          | 2 => (decodeFrom strict { g with letters := 3, carry := v % 4, pads := 0 } rest).map
              (UInt8.ofNat (g.carry * 16 + v / 4) :: ·)
          | _ => (decodeFrom strict { g with letters := 0, carry := 0, pads := 0 } rest).map
              (UInt8.ofNat (g.carry * 64 + v) :: ·)

/-- The strict reading. Padding does not come first. -/
def decode? (cs : List Char) : Option (List UInt8) :=
  if cs.head? = some '=' then none else decodeFrom true ⟨0, 0, 0, false⟩ cs

/-- The lenient reading. -/
def decodeLenient? (cs : List Char) : Option (List UInt8) := decodeFrom false ⟨0, 0, 0, false⟩ cs

end Base64

end LayeredConfig
