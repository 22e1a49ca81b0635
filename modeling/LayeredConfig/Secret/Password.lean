import LayeredConfig.Node.Basic
import LayeredConfig.Secret.Aes
import LayeredConfig.Secret.Gcm
import LayeredConfig.Text.Base64

/-!
# Encrypted passwords

A password in a configuration file may be stored encrypted: the mark `$1$`, then in base64 the
nonce and the sealed text under AES-256 in Galois/counter mode. Everything without the mark is a
plain password and stands for itself. The key is 32 bytes in base64; without a key plain
passwords still work.
-/

namespace LayeredConfig

/-- Reads and writes encrypted passwords. -/
structure PasswordCipher where
  /-- The key of 32 bytes, if there is one. -/
  key : Option (List UInt8)
deriving DecidableEq, Repr, Inhabited

namespace PasswordCipher

/-- The mark in front of an encrypted password. -/
def mark : List Char := ['$', '1', '$']

/-- Refuses with a secret fault. -/
private def decline {α : Type} (fault : SecretFault) : Except Failure α :=
  .error (.configuration (.secretDecryption fault))

/-- The cipher of a key in base64. -/
def ofBase64 (letters : List Char) : Except Failure PasswordCipher :=
  match Base64.decode? letters with
  | none => decline .keyNotBase64
  | some bytes =>
    if bytes.length = 32 then .ok ⟨some bytes⟩ else decline (.keyLength bytes.length)

/-- The cipher of a key given as a value; a value that does not count as set is no key. -/
def ofValue (f : Forest) (v : Value) : Except Failure PasswordCipher :=
  if !f.truthy v then .ok ⟨none⟩ else
    match v with
    | .text s => ofBase64 s.toList
    | .scalar (.bytes bs) => ofBase64 (bs.map fun b ↦ Char.ofNat b.toNat)
    | v => .error (.passphraseKind v.kindName)

/-- Whether a text carries the mark. -/
def isEncrypted (s : String) : Bool := mark.isPrefixOf s.toList

/-- The block cipher under the key. -/
def blockCipher (key : List UInt8) : Gcm.BlockCipher := Aes.encryptBlock (Aes.roundKeys key)

/-- The key, which has to be there. -/
def requireKey (c : PasswordCipher) : Except Failure (List UInt8) :=
  match c.key with
  | some key => .ok key
  | none => decline .keyMissing

/-- The encrypted form of a password under the given nonce. -/
def encrypt (c : PasswordCipher) (plain : String) (nonce : List UInt8) : Except Failure String := do
  let sealed := Gcm.sealText (blockCipher (← c.requireKey)) nonce plain.toUTF8.toList
  return String.ofList (mark ++ Base64.encode (nonce ++ sealed))

/-- The password that a marked text stands for. -/
def decryptText (c : PasswordCipher) (s : String) : Except Failure String := do
  match Base64.decode? (s.toList.drop mark.length) with
  | none => decline .passwordNotBase64
  | some blob =>
    let key ← c.requireKey
    let nonce := blob.take Gcm.nonceLength
    if nonce.length < 8 then throw .nonceLength
    match Gcm.openSealed (blockCipher key) nonce (blob.drop Gcm.nonceLength) with
    | none => decline .mismatch
    | some bytes =>
      match String.fromUTF8? ⟨bytes.toArray⟩ with
      | some plain => return plain
      | none => throw .notUtf8

/-- The password that a value stands for; what is not a marked text stands for itself. -/
def decrypt (c : PasswordCipher) : Value → Except Failure Value
  | .text s => if isEncrypted s then .text <$> c.decryptText s else .ok (.text s)
  | v => .ok v

end PasswordCipher

end LayeredConfig
