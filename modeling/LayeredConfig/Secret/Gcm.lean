/-!
# Galois/counter mode

Authenticated encryption on top of a block cipher. The text is added to a key stream of encrypted
counters, and a tag of sixteen bytes authenticates it. The tag hashes the ciphertext with
polynomials over the field with `2 ^ 128` elements. Nonces have twelve bytes and there is no
associated data.

`openSealed` recomputes the tag and refuses a text whose tag differs; sealing and opening share
the key stream, so opening gives back what was sealed whatever the block cipher is.
-/

namespace LayeredConfig

namespace Gcm

/-- A block cipher under a fixed key. -/
abbrev BlockCipher := List UInt8 → List UInt8

/-- The length of a nonce in bytes. -/
def nonceLength : Nat := 12

/-- The length of a tag in bytes. -/
def tagLength : Nat := 16

/-- The number whose bytes are given, the most significant first. -/
def toNat (bytes : List UInt8) : Nat := bytes.foldl (fun n b ↦ 256 * n + b.toNat) 0

/-- The `count` lowest bytes of a number, the most significant first. -/
def ofNat : (count : Nat) → Nat → List UInt8
  | 0, _ => []
  | count + 1, n => ofNat count (n / 256) ++ [UInt8.ofNat n]

/-- Consecutive pieces of sixteen bytes, the last one filled up with zeros. -/
def blocks (bytes : List UInt8) : List (List UInt8) :=
  (List.range ((bytes.length + 15) / 16)).map fun i ↦
    let block := (bytes.drop (16 * i)).take 16
    block ++ List.replicate (16 - block.length) 0

/-- The product of field elements, over the lowest `bits` bits of `x`; the bit of the highest value
is the coefficient of degree zero. -/
private def multiplyBits : (bits : Nat) → (x v z : Nat) → Nat
  | 0, _, _, z => z
  | bits + 1, x, v, z =>
    let z := if x.testBit bits then z ^^^ v else z
    let v := if v % 2 = 1 then (v >>> 1) ^^^ (0xe1 <<< 120) else v >>> 1
    multiplyBits bits x v z

/-- The product of field elements. -/
def multiply (x h : Nat) : Nat := multiplyBits 128 x h 0

/-- The hash of a ciphertext under the hash key. -/
def hash (h : Nat) (ciphertext : List UInt8) : Nat :=
  let parts := (blocks ciphertext).map toNat ++ [8 * ciphertext.length]
  parts.foldl (fun y part ↦ multiply (y ^^^ part) h) 0

/-- The counter block of the given number. -/
def counter (nonce : List UInt8) (n : Nat) : List UInt8 := nonce ++ ofNat 4 n

/-- The first bytes of the key stream. -/
def keyStream (cipher : BlockCipher) (nonce : List UInt8) (length : Nat) : List UInt8 :=
  let blocks := (List.range ((length + 15) / 16)).map fun i ↦ cipher (counter nonce (i + 2))
  blocks.flatten.take length

/-- A text under the key stream; doing it twice gives the text back. -/
def mask (cipher : BlockCipher) (nonce text : List UInt8) : List UInt8 :=
  List.zipWith (· ^^^ ·) text (keyStream cipher nonce text.length)

/-- The tag of a ciphertext. -/
def tag (cipher : BlockCipher) (nonce ciphertext : List UInt8) : List UInt8 :=
  let h := toNat (cipher (List.replicate 16 0))
  ofNat tagLength (hash h ciphertext ^^^ toNat (cipher (counter nonce 1)))

/-- The ciphertext of a text, with its tag behind it. -/
def sealText (cipher : BlockCipher) (nonce text : List UInt8) : List UInt8 :=
  let ciphertext := mask cipher nonce text
  ciphertext ++ tag cipher nonce ciphertext

/-- The text behind a ciphertext with its tag, if the tag is right. -/
def openSealed (cipher : BlockCipher) (nonce sealed : List UInt8) : Option (List UInt8) :=
  if sealed.length < tagLength then none else
    let ciphertext := sealed.take (sealed.length - tagLength)
    if sealed.drop (sealed.length - tagLength) = tag cipher nonce ciphertext then
      some (mask cipher nonce ciphertext)
    else none

end Gcm

end LayeredConfig
