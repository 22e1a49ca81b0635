import LayeredConfig.Proofs.Secret.Blocks
import LayeredConfig.Proofs.Text.Base64
import LayeredConfig.Secret.Password
import Mathlib.Data.List.Basic

/-!
# Decrypting accepts what encrypting produces

Opening a sealed text adds the same key stream that sealing added, and it refuses a text whose tag
is not the one that sealing would have made. So a sealed text opens exactly to what it was made of
(`Gcm.openSealed_eq_some_iff`). The rest of the way from a password to its encrypted form, by UTF-8
and base64, is undone step by step.
-/

namespace LayeredConfig

/-! ## Counter mode -/

namespace Gcm

variable {cipher : BlockCipher} {nonce text sealed : List UInt8}

theorem length_ofNat (count n : Nat) : (ofNat count n).length = count := by
  induction count generalizing n with
  | zero => rfl
  | succ count ih => rw [ofNat, List.length_append, ih, List.length_singleton]

theorem length_tag (cipher : BlockCipher) (nonce ciphertext : List UInt8) :
    (tag cipher nonce ciphertext).length = tagLength := length_ofNat _ _

/-- The cipher makes blocks of blocks. -/
def KeepsBlocks (cipher : BlockCipher) : Prop :=
  ∀ block : List UInt8, block.length = 16 → (cipher block).length = 16

/-- The key stream does not end early. -/
theorem length_keyStream (hcipher : KeepsBlocks cipher) (hnonce : nonce.length = nonceLength)
    (length : Nat) : (keyStream cipher nonce length).length = length := by
  have hcounter : ∀ n, (cipher (counter nonce n)).length = 16 := by
    intro n
    refine hcipher _ ?_
    rw [counter, List.length_append, hnonce, length_ofNat]
    rfl
  have hblocks : ∀ block ∈ (List.range ((length + 15) / 16)).map
      fun i ↦ cipher (counter nonce (i + 2)), block.length = 16 := by
    intro block hblock
    obtain ⟨i, _, rfl⟩ := List.mem_map.mp hblock
    exact hcounter (i + 2)
  rw [keyStream, List.length_take, length_flatten_of_forall hblocks, List.length_map,
    List.length_range]
  omega

/-- Adding the same stream twice changes nothing, if the stream is long enough. -/
theorem zipWith_xor_cancel {text stream : List UInt8} (h : text.length ≤ stream.length) :
    List.zipWith (· ^^^ ·) (List.zipWith (· ^^^ ·) text stream) stream = text := by
  induction text generalizing stream with
  | nil => rfl
  | cons b text ih =>
    cases stream with
    | nil => exact absurd h (Nat.not_succ_le_zero _)
    | cons s stream =>
      rw [List.zipWith_cons_cons, List.zipWith_cons_cons, ih (Nat.le_of_succ_le_succ h),
        UInt8.xor_assoc, UInt8.xor_self, UInt8.xor_zero]

section Mask

variable (hcipher : KeepsBlocks cipher) (hnonce : nonce.length = nonceLength)

include hcipher hnonce

theorem length_mask (text : List UInt8) : (mask cipher nonce text).length = text.length := by
  rw [mask, List.length_zipWith, length_keyStream hcipher hnonce, Nat.min_self]

theorem mask_mask (text : List UInt8) : mask cipher nonce (mask cipher nonce text) = text := by
  rw [mask, length_mask hcipher hnonce, mask]
  exact zipWith_xor_cancel (Nat.le_of_eq (length_keyStream hcipher hnonce text.length).symm)

/-- The tag has its own length behind a ciphertext that is as long as the text. -/
theorem length_sealText (text : List UInt8) :
    (sealText cipher nonce text).length = text.length + tagLength := by
  rw [sealText, List.length_append, length_mask hcipher hnonce, length_tag]

/-- **A sealed text opens** exactly to the text that it was made of. -/
theorem openSealed_eq_some_iff :
    openSealed cipher nonce sealed = some text ↔ sealed = sealText cipher nonce text := by
  constructor
  · intro h
    unfold openSealed at h
    split at h
    · cases h
    · dsimp only at h
      split at h
      · next htag =>
        obtain rfl := Option.some.inj h
        rw [sealText, mask_mask hcipher hnonce, ← htag, List.take_append_drop]
      · cases h
  · rintro rfl
    have hlength := length_sealText hcipher hnonce text
    have hshort : ¬(sealText cipher nonce text).length < tagLength := by omega
    have hend : (sealText cipher nonce text).length - tagLength
        = (mask cipher nonce text).length := by
      rw [length_mask hcipher hnonce]
      omega
    have htake : (sealText cipher nonce text).take (mask cipher nonce text).length
        = mask cipher nonce text := List.take_left
    have hdrop : (sealText cipher nonce text).drop (mask cipher nonce text).length
        = tag cipher nonce (mask cipher nonce text) := List.drop_left
    rw [openSealed, if_neg hshort, hend]
    dsimp only
    rw [htake, hdrop, if_pos rfl, mask_mask hcipher hnonce]

/-- Under one nonce different texts are sealed differently. -/
theorem sealText_injective : Function.Injective (sealText cipher nonce) := by
  intro text text' h
  have hopen := (openSealed_eq_some_iff hcipher hnonce).mpr h
  rw [(openSealed_eq_some_iff hcipher hnonce).mpr rfl] at hopen
  exact Option.some.inj hopen

end Mask

end Gcm

/-! ## UTF-8 -/

private theorem toList_loop (bytes : ByteArray) (i : Nat) (front : List UInt8) :
    ByteArray.toList.loop bytes i front = front.reverse ++ bytes.data.toList.drop i := by
  fun_induction ByteArray.toList.loop bytes i front with
  | case1 i front h ih =>
    have hi : i < bytes.data.toList.length := by simpa using h
    rw [ih, List.drop_eq_getElem_cons hi]
    simp [ByteArray.get!, h]
  | case2 i front h =>
    rw [List.drop_eq_nil_of_le (by simpa using h)]
    simp

/-- The bytes of a sequence of bytes in a list. -/
theorem toList_eq_data (bytes : ByteArray) : bytes.toList = bytes.data.toList := by
  rw [ByteArray.toList, toList_loop]
  rfl

/-- Bytes are decoded to the text that they encode, and to no other. -/
theorem fromUTF8?_eq_some_iff {bytes : List UInt8} {s : String} :
    String.fromUTF8? ⟨bytes.toArray⟩ = some s ↔ bytes = s.toUTF8.toList := by
  rw [toList_eq_data]
  constructor
  · intro h
    unfold String.fromUTF8? at h
    split at h
    · rw [← Option.some.inj h]
      rfl
    · cases h
  · rintro rfl
    have hvalid : (⟨s.toUTF8.data.toList.toArray⟩ : ByteArray).IsValidUTF8 := s.isValidUTF8
    rw [String.fromUTF8?, dif_pos hvalid]
    rfl

/-! ## Encrypted passwords -/

namespace PasswordCipher

variable {key blob bytes : List UInt8} {v p : String}

theorem keepsBlocks_blockCipher (hkey : key.length = 32) : Gcm.KeepsBlocks (blockCipher key) :=
  fun _ hblock ↦ Aes.length_encryptBlock hkey hblock

/-- Behind the mark stand these bytes, sealed under the key. -/
def Seals (key bytes : List UInt8) (v : String) : Prop :=
  ∃ nonce : List UInt8, nonce.length = Gcm.nonceLength ∧
    Base64.decode? (v.toList.drop mark.length)
      = some (nonce ++ Gcm.sealText (blockCipher key) nonce bytes)

/-- **Encrypted forms.** The text behind the mark is the strict base64 of a nonce and of the
password sealed under it. -/
def Encrypts (key : List UInt8) (p v : String) : Prop :=
  ∃ nonce : List UInt8, nonce.length = Gcm.nonceLength ∧
    Base64.decode? (v.toList.drop mark.length)
      = some (nonce ++ Gcm.sealText (blockCipher key) nonce p.toUTF8.toList)

/-- What opens holds a tag at least. -/
theorem tagLength_le_of_openSealed {cipher : Gcm.BlockCipher} {nonce sealed text : List UInt8}
    (h : Gcm.openSealed cipher nonce sealed = some text) : Gcm.tagLength ≤ sealed.length := by
  unfold Gcm.openSealed at h
  split at h
  · cases h
  · next hlength => exact Nat.le_of_not_lt hlength

/-- A blob that opens is a nonce with what was sealed under it. -/
theorem seals_of_openSealed (hkey : key.length = 32)
    (hblob : Base64.decode? (v.toList.drop mark.length) = some blob)
    (hopen : Gcm.openSealed (blockCipher key) (blob.take Gcm.nonceLength)
      (blob.drop Gcm.nonceLength) = some bytes) : Seals key bytes v := by
  -- what opens holds a tag behind the nonce, so the nonce is whole
  have htag := tagLength_le_of_openSealed hopen
  have hnonce : (blob.take Gcm.nonceLength).length = Gcm.nonceLength := by
    rw [List.length_drop] at htag
    simp only [List.length_take, Gcm.tagLength, Gcm.nonceLength] at htag ⊢
    omega
  have hsealed := (Gcm.openSealed_eq_some_iff (keepsBlocks_blockCipher hkey) hnonce).mp hopen
  refine ⟨_, hnonce, ?_⟩
  rw [← hsealed, List.take_append_drop, hblob]

theorem decryptText_of_seals (hkey : key.length = 32) (h : Seals key bytes v) :
    decryptText ⟨some key⟩ v = (String.fromUTF8? ⟨bytes.toArray⟩).elim (.error .notUtf8) .ok := by
  obtain ⟨nonce, hnonce, hblob⟩ := h
  have htake : (nonce ++ Gcm.sealText (blockCipher key) nonce bytes).take Gcm.nonceLength
      = nonce := hnonce ▸ List.take_left
  have hdrop : (nonce ++ Gcm.sealText (blockCipher key) nonce bytes).drop Gcm.nonceLength
      = Gcm.sealText (blockCipher key) nonce bytes := hnonce ▸ List.drop_left
  have hlong : ¬nonce.length < 8 := by rw [hnonce]; decide
  have hopen := (Gcm.openSealed_eq_some_iff (keepsBlocks_blockCipher hkey) hnonce).mpr
    (Eq.refl (Gcm.sealText (blockCipher key) nonce bytes))
  simp only [decryptText, hblob, requireKey, Bind.bind, Except.bind, htake, hdrop, if_neg hlong,
    hopen]
  cases String.fromUTF8? ⟨bytes.toArray⟩ <;> rfl

/-- **Decrypting accepts what encrypting makes.** A marked text is decrypted to a password exactly
when it is an encrypted form of it. -/
theorem decryptText_eq_ok_iff (hkey : key.length = 32) :
    decryptText ⟨some key⟩ v = .ok p ↔ Encrypts key p v := by
  constructor
  · intro h
    unfold decryptText at h
    split at h
    · cases h
    · next blob hblob =>
      dsimp only [requireKey, Bind.bind, Except.bind] at h
      split at h
      · cases h
      · split at h
        · cases h
        · next bytes hopen =>
          split at h
          · next plain hplain =>
            obtain rfl : plain = p := Except.ok.inj h
            have hseals := seals_of_openSealed hkey hblob hopen
            rwa [fromUTF8?_eq_some_iff.mp hplain] at hseals
          · cases h
  · intro h
    rw [decryptText_of_seals hkey h, fromUTF8?_eq_some_iff.mpr rfl]
    rfl

/-- A text under the mark is cut off it again. -/
theorem drop_mark (letters : List Char) :
    (String.ofList (mark ++ letters)).toList.drop mark.length = letters := by
  rw [String.toList_ofList, List.drop_left]

theorem isEncrypted_mark (letters : List Char) :
    isEncrypted (String.ofList (mark ++ letters)) = true := by
  rw [isEncrypted, String.toList_ofList, List.isPrefixOf_iff_prefix]
  exact List.prefix_append _ _

/-- What encrypting makes is marked, and it is an encrypted form of the password. -/
theorem encrypts_encrypt {nonce : List UInt8} (hnonce : nonce.length = Gcm.nonceLength)
    (p : String) : ∃ v, encrypt ⟨some key⟩ p nonce = .ok v ∧ isEncrypted v = true ∧
      Encrypts key p v := by
  refine ⟨_, rfl, isEncrypted_mark _, nonce, hnonce, ?_⟩
  rw [drop_mark, Base64.decode?_encode]

theorem decrypt_of_isEncrypted (c : PasswordCipher) (h : isEncrypted v = true) :
    c.decrypt (.text v) = .text <$> c.decryptText v := if_pos h

/-- The cipher of a text that is the base64 of a key. -/
theorem ofValue_text (f : Forest) {letters : String} (hletters : letters ≠ "")
    (hdecode : Base64.decode? letters.toList = some key) (hkey : key.length = 32) :
    ofValue f (.text letters) = .ok ⟨some key⟩ := by
  have htruthy : f.truthy (.text letters) = true := by
    simpa [Forest.truthy, Scalar.truthy] using hletters
  rw [ofValue, htruthy]
  simp only [Bool.not_true, Bool.false_eq_true, ↓reduceIte, ofBase64, hdecode, if_pos hkey]

/-- Marked texts that are the same password under the same nonce are made of the same bytes. -/
theorem Encrypts.blob_eq {nonce blob blob' : List UInt8} {v' : String}
    (hnonce : nonce.length = Gcm.nonceLength)
    (hv : Base64.decode? (v.toList.drop mark.length) = some (nonce ++ blob))
    (hv' : Base64.decode? (v'.toList.drop mark.length) = some (nonce ++ blob'))
    (h : Encrypts key p v) (h' : Encrypts key p v') : blob = blob' := by
  have hsealed : ∀ {v : String} {blob : List UInt8}, Encrypts key p v →
      Base64.decode? (v.toList.drop mark.length) = some (nonce ++ blob) →
      blob = Gcm.sealText (blockCipher key) nonce p.toUTF8.toList := by
    rintro v blob ⟨nonce', hnonce', hblob⟩ hv
    obtain ⟨rfl, hrest⟩ := List.append_inj (Option.some.inj (hv.symm.trans hblob))
      (hnonce.trans hnonce'.symm)
    exact hrest
  rw [hsealed h hv, hsealed h' hv']

/-- **The round trip of passwords.** Under a key of 32 bytes a marked text is decrypted to a
password exactly when it is an encrypted form of it. So what encrypting makes is marked and comes
back, whatever the password and the nonce, and different blobs with one nonce never stand for the
same password. -/
theorem round_trip (f : Forest) {letters : String} {key : List UInt8}
    (hdecode : Base64.decode? letters.toList = some key) (hkey : key.length = 32) :
    ∃ c, ofValue f (.text letters) = .ok c ∧
      (∀ v p : String, isEncrypted v = true →
        (c.decrypt (.text v) = .ok (.text p) ↔ Encrypts key p v)) ∧
      (∀ (p : String) (nonce : List UInt8), nonce.length = Gcm.nonceLength →
        ∃ v, c.encrypt p nonce = .ok v ∧ isEncrypted v = true ∧
          c.decrypt (.text v) = .ok (.text p)) ∧
      ∀ (v v' p p' : String) (nonce blob blob' : List UInt8), nonce.length = Gcm.nonceLength →
        isEncrypted v = true → Base64.decode? (v.toList.drop mark.length) = some (nonce ++ blob) →
        isEncrypted v' = true →
        Base64.decode? (v'.toList.drop mark.length) = some (nonce ++ blob') → blob ≠ blob' →
        c.decrypt (.text v) = .ok (.text p) → c.decrypt (.text v') = .ok (.text p') → p ≠ p' := by
  have hletters : letters ≠ "" := by
    rintro rfl
    obtain rfl : [] = key := Option.some.inj hdecode
    cases hkey
  have haccepts : ∀ v p : String, isEncrypted v = true →
      (decrypt ⟨some key⟩ (.text v) = .ok (.text p) ↔ Encrypts key p v) := by
    intro v p hv
    rw [decrypt_of_isEncrypted _ hv, ← decryptText_eq_ok_iff hkey]
    cases decryptText ⟨some key⟩ v <;> simp [Functor.map, Except.map]
  refine ⟨_, ofValue_text f hletters hdecode hkey, haccepts, ?_, ?_⟩
  · intro p nonce hnonce
    obtain ⟨v, hmade, hv, hencrypts⟩ := encrypts_encrypt hnonce p
    exact ⟨v, hmade, hv, (haccepts v p hv).mpr hencrypts⟩
  · rintro v v' p _ nonce blob blob' hnonce hv hblob hv' hblob' hne h h' rfl
    exact hne (Encrypts.blob_eq hnonce hblob hblob' ((haccepts v p hv).mp h)
      ((haccepts v' p hv').mp h'))

/-- The key of 32 zero bytes. -/
theorem round_trip_zeros : ∃ c, ofValue default (.text "AAAAAAAAAAAAAAAAAAAAAAAAAAAAAAAAAAAAAAAAAAA=")
    = .ok c ∧ ∀ (p : String) (nonce : List UInt8), nonce.length = Gcm.nonceLength →
      ∃ v, c.encrypt p nonce = .ok v ∧ isEncrypted v = true ∧
        c.decrypt (.text v) = .ok (.text p) := by
  have hdecode : Base64.decode? "AAAAAAAAAAAAAAAAAAAAAAAAAAAAAAAAAAAAAAAAAAA=".toList
      = some (List.replicate 32 0) := by decide
  obtain ⟨c, hc, -, hreturns, -⟩ := round_trip default hdecode (by decide)
  exact ⟨c, hc, hreturns⟩

end PasswordCipher

end LayeredConfig
