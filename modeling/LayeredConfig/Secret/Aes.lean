/-!
# The AES-256 block cipher

A block of sixteen bytes is encrypted in fourteen rounds under a key of 32 bytes. Bytes are
polynomials over the field with two elements modulo `x⁸ + x⁴ + x³ + x + 1`. Only encryption is
here: counter mode never decrypts a block.

A block is a list of its bytes; the byte in row `r` and column `c` of the state stands at place
`r + 4 · c`.
-/

namespace LayeredConfig

namespace Aes

/-- Multiplication by `x`. -/
def double (b : UInt8) : UInt8 := (b <<< 1) ^^^ (if b < 0x80 then 0 else 0x1b)

/-- Multiplication of bytes, over the lowest `bits` bits of the second one. -/
def mulBits : (bits : Nat) → UInt8 → UInt8 → UInt8
  | 0, _, _ => 0
  | bits + 1, a, b => (if b % 2 = 1 then a else 0) ^^^ mulBits bits (double a) (b >>> 1)

/-- Multiplication of bytes. -/
def mul (a b : UInt8) : UInt8 := mulBits 8 a b

/-- The inverse of a byte, zero for zero: its power 254. -/
def inverse (b : UInt8) : UInt8 :=
  let square := fun x ↦ mul x x
  let b2 := square b
  let b4 := square b2
  let b8 := square b4
  let b16 := square b8
  let b32 := square b16
  let b64 := square b32
  let b128 := square b64
  mul b2 (mul b4 (mul b8 (mul b16 (mul b32 (mul b64 b128)))))

private def rotateLeft (b : UInt8) (n : UInt8) : UInt8 := (b <<< n) ||| (b >>> (8 - n))

/-- The substitution of a byte: its inverse under an affine map. -/
def substitute (b : UInt8) : UInt8 :=
  let i := inverse b
  i ^^^ rotateLeft i 1 ^^^ rotateLeft i 2 ^^^ rotateLeft i 3 ^^^ rotateLeft i 4 ^^^ 0x63

/-- The substitutions of all bytes. -/
def substitutions : Array UInt8 := (Array.range 256).map fun n ↦ substitute (UInt8.ofNat n)

/-- The substitution of a byte, looked up. -/
def substituted (b : UInt8) : UInt8 := substitutions.getD b.toNat 0

/-- The byte-wise sum of two lists of bytes. -/
def sum (a b : List UInt8) : List UInt8 := List.zipWith (· ^^^ ·) a b

/-- The round constant of the given number, counted from 1. -/
def roundConstant : Nat → UInt8
  | 0 => 0x8d
  | n + 1 => double (roundConstant n)

/-- The next four bytes of the key schedule, given those so far. -/
def nextWord (words : Array (List UInt8)) : List UInt8 :=
  let i := words.size
  let previous := words.getD (i - 1) []
  let mixed :=
    if i % 8 = 0 then
      sum ((previous.drop 1 ++ previous.take 1).map substituted) [roundConstant (i / 8), 0, 0, 0]
    else if i % 8 = 4 then previous.map substituted
    else previous
  sum (words.getD (i - 8) []) mixed

/-- The fifteen round keys of a key. -/
def roundKeys (key : List UInt8) : List (List UInt8) :=
  let start := (List.range 8).map fun i ↦ (key.drop (4 * i)).take 4
  let words := (List.range 52).foldl (fun words _ ↦ words.push (nextWord words)) start.toArray
  (List.range 15).map fun i ↦ ((words.toList.drop (4 * i)).take 4).flatten

/-- Row `r` rotated by `r` columns. -/
def shiftRows (block : List UInt8) : List UInt8 :=
  (List.range 16).map fun i ↦ block.getD (i % 4 + 4 * ((i / 4 + i % 4) % 4)) 0

/-- Every column multiplied by a fixed matrix. -/
def mixColumns : List UInt8 → List UInt8
  | a :: b :: c :: d :: rest =>
    let triple := fun x ↦ double x ^^^ x
    (double a ^^^ triple b ^^^ c ^^^ d) :: (a ^^^ double b ^^^ triple c ^^^ d) ::
      (a ^^^ b ^^^ double c ^^^ triple d) :: (triple a ^^^ b ^^^ c ^^^ double d) :: mixColumns rest
  | _ => []

/-- The rounds behind the first key; the last one does not mix columns. -/
def rounds (block : List UInt8) : List (List UInt8) → List UInt8
  | [] => block
  | [last] => sum (shiftRows (block.map substituted)) last
  | key :: rest => rounds (sum (mixColumns (shiftRows (block.map substituted))) key) rest

/-- A block encrypted under the given round keys. -/
def encryptBlock (keys : List (List UInt8)) (block : List UInt8) : List UInt8 :=
  match keys with
  | first :: rest => rounds (sum block first) rest
  | [] => block

end Aes

end LayeredConfig
