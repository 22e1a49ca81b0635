import LayeredConfig.Proofs.Secret.Sealing

/-!
# How decrypting fails

Whoever reveals a password is prepared for a complaint about the secret. A marked text that is no
base64, a blob that was not sealed under the key, and a missing key all end in one
(`PasswordCipher.Prepared`). Two kinds of text end otherwise, and only under a key: a blob that is
too short for a nonce, and one that was sealed over bytes that are no text. Since the nonce comes in
the front of the blob, the short ones are told by their length alone.
-/

namespace LayeredConfig

namespace PasswordCipher

variable {f : Forest} {c : PasswordCipher} {key blob bytes : List UInt8} {k : Value} {s : String}

/-! ## What the blob behind the mark holds -/

/-- The blob behind the mark is too short for a nonce. -/
def Truncated (s : String) : Prop :=
  ∃ blob, Base64.decode? (s.toList.drop mark.length) = some blob ∧ blob.length < 8

/-- Bytes that are sealed under the key, but that encode no text. -/
def Garbles (key : List UInt8) (s : String) : Prop :=
  ∃ bytes, Seals key bytes s ∧ ∀ p : String, bytes ≠ p.toUTF8.toList

/-- The first bytes of a blob are as many as a nonce has, or all of them. -/
theorem length_take_nonceLength (blob : List UInt8) :
    (blob.take Gcm.nonceLength).length = min 12 blob.length := List.length_take

/-- Each blob behind a mark is too short, or it is refused, or it was sealed. -/
theorem truncated_or_forged_or_seals (hkey : key.length = 32)
    (hblob : Base64.decode? (s.toList.drop mark.length) = some blob) :
    Truncated s ∨ (8 ≤ blob.length ∧ Gcm.openSealed (blockCipher key) (blob.take Gcm.nonceLength)
      (blob.drop Gcm.nonceLength) = none) ∨ ∃ bytes, Seals key bytes s := by
  by_cases hshort : blob.length < 8
  · exact .inl ⟨blob, hblob, hshort⟩
  · cases hopen : Gcm.openSealed (blockCipher key) (blob.take Gcm.nonceLength)
      (blob.drop Gcm.nonceLength) with
    | none => exact .inr (.inl ⟨Nat.le_of_not_lt hshort, rfl⟩)
    | some bytes => exact .inr (.inr ⟨bytes, seals_of_openSealed hkey hblob hopen⟩)

/-- Whatever the bytes are, some marked text holds them sealed. -/
theorem exists_seals (key bytes : List UInt8) :
    ∃ s : String, isEncrypted s = true ∧ Seals key bytes s := by
  refine ⟨String.ofList (mark ++ Base64.encode (List.replicate 12 0 ++
    Gcm.sealText (blockCipher key) (List.replicate 12 0) bytes)), isEncrypted_mark _,
    List.replicate 12 0, rfl, ?_⟩
  rw [drop_mark, Base64.decode?_encode]

/-- Under every key some marked text is garbled: a lone byte of the highest value is no text. -/
theorem exists_garbles (key : List UInt8) : ∃ s : String, isEncrypted s = true ∧ Garbles key s := by
  obtain ⟨s, hs, hseals⟩ := exists_seals key [0xff]
  refine ⟨s, hs, [0xff], hseals, fun p hp ↦ ?_⟩
  have hplain : String.fromUTF8? ⟨[0xff].toArray⟩ = none := by decide
  rw [fromUTF8?_eq_some_iff.mpr hp] at hplain
  cases hplain

/-! ## The outcome in each case -/

theorem decryptText_of_not_base64 (c : PasswordCipher)
    (h : Base64.decode? (s.toList.drop mark.length) = none) :
    c.decryptText s = .error (.configuration (.secretDecryption .passwordNotBase64)) := by
  rw [decryptText, h]
  rfl

theorem decryptText_of_keyless (h : Base64.decode? (s.toList.drop mark.length) = some blob) :
    decryptText ⟨none⟩ s = .error (.configuration (.secretDecryption .keyMissing)) := by
  rw [decryptText, h]
  rfl

theorem decryptText_of_truncated (h : Truncated s) :
    decryptText ⟨some key⟩ s = .error .nonceLength := by
  obtain ⟨blob, hblob, hshort⟩ := h
  have hnonce : (blob.take Gcm.nonceLength).length < 8 := by
    rw [length_take_nonceLength]
    omega
  simp only [decryptText, hblob, requireKey, Bind.bind, Except.bind, if_pos hnonce]
  rfl

theorem decryptText_of_forged (hblob : Base64.decode? (s.toList.drop mark.length) = some blob)
    (hlength : 8 ≤ blob.length) (hopen : Gcm.openSealed (blockCipher key)
      (blob.take Gcm.nonceLength) (blob.drop Gcm.nonceLength) = none) :
    decryptText ⟨some key⟩ s = .error (.configuration (.secretDecryption .mismatch)) := by
  have hnonce : ¬(blob.take Gcm.nonceLength).length < 8 := by
    rw [length_take_nonceLength]
    omega
  simp only [decryptText, hblob, requireKey, Bind.bind, Except.bind, if_neg hnonce, hopen]
  rfl

/-! ## The outcomes that callers are prepared for -/

/-- A text, or a complaint about the secret. -/
def Prepared (r : Except Failure Value) : Prop :=
  (∃ p : String, r = .ok (.text p)) ∨ ∃ fault, r = .error (.configuration (.secretDecryption fault))

theorem not_prepared_error {e : Failure} (h : ∀ fault, e ≠ .configuration (.secretDecryption fault)) :
    ¬Prepared (.error e) := by
  rintro (⟨_, hp⟩ | ⟨fault, he⟩)
  · cases hp
  · exact h fault (Except.error.inj he)

/-- Every cipher that is made has no key or one of 32 bytes. -/
theorem length_of_ofValue (h : ofValue f k = .ok c) (hkey : c.key = some key) :
    key.length = 32 := by
  have hbase64 : ∀ {letters}, ofBase64 letters = .ok c → key.length = 32 := by
    intro letters hletters
    unfold ofBase64 at hletters
    split at hletters
    · cases hletters
    · split at hletters
      · next hlength =>
        obtain rfl := Except.ok.inj hletters
        rwa [← Option.some.inj hkey]
      · cases hletters
  unfold ofValue at h
  split at h
  · obtain rfl := Except.ok.inj h
    cases hkey
  · split at h
    · exact hbase64 h
    · exact hbase64 h
    · cases h

theorem prepared_decrypt_of_plain (c : PasswordCipher) (h : ¬isEncrypted s = true) :
    Prepared (c.decrypt (.text s)) := .inl ⟨s, if_neg h⟩

/-- The four ways in which decrypting a marked text ends: it is prepared for, or the key is there
and the blob is too short or garbled. -/
theorem decrypt_cases (hc : ofValue f k = .ok c) (s : String) :
    Prepared (c.decrypt (.text s)) ∨
      ∃ key, c.key = some key ∧ isEncrypted s = true ∧ (Truncated s ∨ Garbles key s) := by
  by_cases hs : isEncrypted s = true
  · rw [decrypt_of_isEncrypted _ hs]
    cases hblob : Base64.decode? (s.toList.drop mark.length) with
    | none =>
      rw [decryptText_of_not_base64 c hblob]
      exact .inl (.inr ⟨_, rfl⟩)
    | some blob =>
      obtain ⟨key⟩ := c
      cases key with
      | none =>
        rw [decryptText_of_keyless hblob]
        exact .inl (.inr ⟨_, rfl⟩)
      | some key =>
        have hkey : key.length = 32 := length_of_ofValue hc rfl
        obtain hshort | ⟨hlength, hopen⟩ | ⟨bytes, hseals⟩ :=
          truncated_or_forged_or_seals hkey hblob
        · exact .inr ⟨key, rfl, hs, .inl hshort⟩
        · rw [decryptText_of_forged hblob hlength hopen]
          exact .inl (.inr ⟨_, rfl⟩)
        · rw [decryptText_of_seals hkey hseals]
          cases hplain : String.fromUTF8? ⟨bytes.toArray⟩ with
          | some p => exact .inl (.inl ⟨p, rfl⟩)
          | none =>
            refine .inr ⟨key, rfl, hs, .inr ⟨bytes, hseals, fun p hp ↦ ?_⟩⟩
            rw [fromUTF8?_eq_some_iff.mpr hp] at hplain
            cases hplain
  · exact .inl (prepared_decrypt_of_plain c hs)

theorem decrypt_of_truncated (hkey : c.key = some key) (hs : isEncrypted s = true)
    (h : Truncated s) : c.decrypt (.text s) = .error .nonceLength := by
  obtain ⟨_⟩ := c
  obtain rfl : _ = some key := hkey
  rw [decrypt_of_isEncrypted _ hs, decryptText_of_truncated h]
  rfl

theorem decrypt_of_garbles (hc : ofValue f k = .ok c) (hkey : c.key = some key)
    (hs : isEncrypted s = true) (h : Garbles key s) : c.decrypt (.text s) = .error .notUtf8 := by
  have hlength := length_of_ofValue hc hkey
  obtain ⟨_⟩ := c
  obtain rfl : _ = some key := hkey
  obtain ⟨bytes, hseals, hbytes⟩ := h
  rw [decrypt_of_isEncrypted _ hs, decryptText_of_seals hlength hseals]
  cases hplain : String.fromUTF8? ⟨bytes.toArray⟩ with
  | none => rfl
  | some p => exact absurd (fromUTF8?_eq_some_iff.mp hplain) (hbytes p)

/-- **How decrypting fails.** Whatever the cipher was made of, a text is decrypted to a text, or the
failure is a complaint about the secret, unless there is a key and the blob behind the mark is too
short for a nonce or seals bytes that are no text. In these two cases the failure is another one,
each its own. -/
theorem prepared_decrypt_iff (hc : ofValue f k = .ok c) (s : String) :
    (Prepared (c.decrypt (.text s)) ↔
      ∀ key, c.key = some key → isEncrypted s = true → ¬Truncated s ∧ ¬Garbles key s) ∧
    (c.decrypt (.text s) = .error .nonceLength ↔
      ∃ key, c.key = some key ∧ isEncrypted s = true ∧ Truncated s) ∧
    (c.decrypt (.text s) = .error .notUtf8 ↔
      ∃ key, c.key = some key ∧ isEncrypted s = true ∧ Garbles key s) := by
  -- neither of the two other failures is prepared for
  have hnonce : ¬Prepared (.error .nonceLength) := not_prepared_error fun _ ↦ by simp
  have hutf8 : ¬Prepared (.error .notUtf8) := not_prepared_error fun _ ↦ by simp
  refine ⟨⟨fun h key hkey hs ↦ ⟨fun hshort ↦ ?_, fun hgarbles ↦ ?_⟩, fun h ↦ ?_⟩,
    ⟨fun h ↦ ?_, ?_⟩, ⟨fun h ↦ ?_, ?_⟩⟩
  · rw [decrypt_of_truncated hkey hs hshort] at h
    exact hnonce h
  · rw [decrypt_of_garbles hc hkey hs hgarbles] at h
    exact hutf8 h
  · obtain hprepared | ⟨key, hkey, hs, hshort | hgarbles⟩ := decrypt_cases hc s
    · exact hprepared
    · exact absurd hshort (h key hkey hs).1
    · exact absurd hgarbles (h key hkey hs).2
  · obtain hprepared | ⟨key, hkey, hs, hshort | hgarbles⟩ := decrypt_cases hc s
    · exact absurd (h ▸ hprepared) hnonce
    · exact ⟨key, hkey, hs, hshort⟩
    · rw [decrypt_of_garbles hc hkey hs hgarbles] at h
      cases h
  · rintro ⟨key, hkey, hs, hshort⟩
    exact decrypt_of_truncated hkey hs hshort
  · obtain hprepared | ⟨key, hkey, hs, hshort | hgarbles⟩ := decrypt_cases hc s
    · exact absurd (h ▸ hprepared) hutf8
    · rw [decrypt_of_truncated hkey hs hshort] at h
      cases h
    · exact ⟨key, hkey, hs, hgarbles⟩
  · rintro ⟨key, hkey, hs, hgarbles⟩
    exact decrypt_of_garbles hc hkey hs hgarbles

theorem ofValue_zeros : ofValue default (.text "AAAAAAAAAAAAAAAAAAAAAAAAAAAAAAAAAAAAAAAAAAA=")
    = .ok ⟨some (List.replicate 32 0)⟩ :=
  ofValue_text default (by decide) (by decide) (by decide)

/-- Under the key of 32 zero bytes a plain password and a marked text that is no base64 end as
expected; a mark with nothing behind it does not. -/
theorem prepared_decrypt_zeros :
    ∃ c, ofValue default (.text "AAAAAAAAAAAAAAAAAAAAAAAAAAAAAAAAAAAAAAAAAAA=") = .ok c ∧
      Prepared (c.decrypt (.text "s3cret")) ∧ Prepared (c.decrypt (.text "$1$not base64!")) ∧
      c.decrypt (.text "$1$") = .error .nonceLength := by
  have hc := ofValue_zeros
  have hmalformed : Base64.decode? ("$1$not base64!".toList.drop mark.length) = none := by decide
  refine ⟨_, hc, ?_, ?_, ?_⟩
  · exact (prepared_decrypt_iff hc "s3cret").1.mpr fun _ _ hs ↦ absurd hs (by decide)
  · refine (prepared_decrypt_iff hc "$1$not base64!").1.mpr fun _ _ _ ↦ ⟨?_, ?_⟩
    · rintro ⟨_, hblob, _⟩
      cases hmalformed.symm.trans hblob
    · rintro ⟨_, ⟨_, _, hblob⟩, _⟩
      cases hmalformed.symm.trans hblob
  · exact (prepared_decrypt_iff hc "$1$").2.1.mpr ⟨_, rfl, by decide, [], by decide, by decide⟩

/-- **Not every failure is a complaint** about the secret. Under the key of 32 zero bytes a mark with
nothing behind it ends otherwise, and so does some text whose tag is right. -/
theorem unprepared_zeros :
    ∃ c, ofValue default (.text "AAAAAAAAAAAAAAAAAAAAAAAAAAAAAAAAAAAAAAAAAAA=") = .ok c ∧
      ¬Prepared (c.decrypt (.text "$1$")) ∧
      ∃ s, Garbles (List.replicate 32 0) s ∧ ¬Prepared (c.decrypt (.text s)) := by
  have hc := ofValue_zeros
  obtain ⟨s, hs, hgarbles⟩ := exists_garbles (List.replicate 32 0)
  refine ⟨_, hc, ?_, s, hgarbles, ?_⟩
  · rw [decrypt_of_truncated rfl (by decide) ⟨[], by decide, by decide⟩]
    exact not_prepared_error fun _ ↦ by simp
  · rw [decrypt_of_garbles hc rfl hs hgarbles]
    exact not_prepared_error fun _ ↦ by simp

end PasswordCipher

end LayeredConfig
