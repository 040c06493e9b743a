import SalientGraph.Cipher.TenantKeyed

/-!
# Sealed bytes

Masking a text twice gives the text back, and a tag has a fixed length, so the bytes
that a mode of operation opens are those that it makes, and no others. With the nonce in
front of them the same holds of a tenant's sealed bytes: each text has one sealed form for
each nonce, and whatever opens is the sealed form of what it opens to.
-/

namespace SalientGraph

/-- Every byte of a text as long as the stream comes back. -/
theorem Bytes.xor_xor_cancel (text stream : Bytes) (h : text.length ≤ stream.length) :
    xor (xor text stream) stream = text := by
  induction text generalizing stream with
  | nil => rfl
  | cons b text ih =>
      cases stream with
      | nil => simp at h
      | cons k stream =>
          simp only [xor, List.zipWith_cons_cons, List.cons.injEq] at ih ⊢
          refine ⟨?_, ih stream (by simpa using h)⟩
          rw [UInt8.xor_assoc, UInt8.xor_self, UInt8.xor_zero]

namespace Gcm

variable (cipher : BlockCipher) (nonce text : Bytes)

@[simp] theorem length_keystream (n : Nat) : (keystream cipher nonce n).length = n := by
  have hblocks : ((List.range ((n + 15) / 16)).flatMap fun i =>
      (cipher (counterBlock nonce (i + 2))).toList).length = (n + 15) / 16 * 16 := by
    simp [List.length_flatMap, List.map_const']
  rw [keystream, List.length_take, hblocks]
  omega

@[simp] theorem length_mask : (mask cipher nonce text).length = text.length := by
  simp [mask]

@[simp] theorem mask_mask : mask cipher nonce (mask cipher nonce text) = text := by
  rw [mask, length_mask]
  exact Bytes.xor_xor_cancel _ _ (by simp)

@[simp] theorem length_tag : (tag cipher nonce text).length = tagSize := by
  simp [tag]

@[simp] theorem length_encrypt : (encrypt cipher nonce text).length = text.length + tagSize := by
  simp [encrypt]

variable {cipher nonce text}

theorem decrypt?_encrypt : decrypt? cipher nonce (encrypt cipher nonce text) = some text := by
  have hsize : (encrypt cipher nonce text).length - tagSize
      = (mask cipher nonce text).length := by
    simp
  rw [decrypt?, hsize, encrypt, List.take_left, List.drop_left, if_pos rfl, mask_mask]

/-- The tag is made from the masked text, which masking the opened text gives again. -/
theorem eq_encrypt_of_decrypt? {body : Bytes} (h : decrypt? cipher nonce body = some text) :
    body = encrypt cipher nonce text := by
  unfold decrypt? at h
  dsimp only at h
  split at h
  · rename_i htag
    rw [← Option.some.inj h, encrypt, mask_mask, ← htag, List.take_append_drop]
  · contradiction

/-- The texts that bodies open to are those that they are made from. -/
theorem decrypt?_eq_some_iff {body : Bytes} :
    decrypt? cipher nonce body = some text ↔ body = encrypt cipher nonce text := by
  constructor
  · exact eq_encrypt_of_decrypt?
  · rintro rfl
    exact decrypt?_encrypt

end Gcm

namespace TenantKeyed

variable {master nonce plain sealed : Bytes} {tenant : Tenant}

theorem length_sealBytes (master : Bytes) (tenant : Tenant) (plain : Bytes)
    (hnonce : nonce.length = nonceSize) :
    (sealBytes master nonce tenant plain).length = nonceSize + Gcm.tagSize + plain.length := by
  simp only [sealBytes, List.length_append, Gcm.length_encrypt, hnonce]
  omega

/-- The nonce stands in front. -/
theorem take_sealBytes (master : Bytes) (tenant : Tenant) (plain : Bytes)
    (hnonce : nonce.length = nonceSize) :
    (sealBytes master nonce tenant plain).take nonceSize = nonce := by
  rw [sealBytes, List.take_left' hnonce]

theorem openBytes_of_length_lt (h : sealed.length < nonceSize + Gcm.tagSize) :
    openBytes master tenant sealed = .error (.crypto "ciphertext too short") := by
  rw [openBytes, if_pos h]

/-- Bytes are opened if there is room for a nonce and a tag and they are what would be sealed under
the nonce in front of them. -/
theorem openBytes_eq_ok_iff :
    openBytes master tenant sealed = .ok plain ↔ nonceSize + Gcm.tagSize ≤ sealed.length ∧
      sealBytes master (sealed.take nonceSize) tenant plain = sealed := by
  unfold openBytes
  split
  · rename_i hshort
    constructor
    · exact fun h => nomatch h
    · exact fun h => absurd h.1 (Nat.not_le_of_lt hshort)
  · rename_i hlong
    -- both have the same nonce in front, so it is what follows that decides
    have hbody : sealBytes master (sealed.take nonceSize) tenant plain = sealed ↔
        Gcm.decrypt? (blockCipher master tenant) (sealed.take nonceSize)
          (sealed.drop nonceSize) = some plain := by
      rw [Gcm.decrypt?_eq_some_iff, sealBytes]
      constructor
      · intro h
        have hsplit := h.trans (List.take_append_drop nonceSize sealed).symm
        exact (List.append_cancel_left hsplit).symm
      · intro h
        rw [← h, List.take_append_drop]
    rw [hbody]
    split
    · rename_i opened hopened
      simp [hopened, Nat.le_of_not_lt hlong]
    · rename_i hrefused
      simp [hrefused]

/-- Under every master key and for every tenant: a text of any length is sealed under a nonce to 28
bytes more, the nonce in front, and opened again for the same tenant; bytes are opened to a text if
and only if they are 28 at least and what this text is sealed to under the nonce in front of them; and
fewer bytes are refused. -/
theorem opens_exactly_what_is_sealed (master : Bytes) (tenant : Tenant) :
    (∀ nonce plain : Bytes, nonce.length = 12 →
      ∃ sealed, (cipher master).encrypt nonce tenant plain = .ok sealed ∧
        sealed.length = 28 + plain.length ∧ sealed.take 12 = nonce ∧
        (cipher master).decrypt tenant sealed = .ok plain) ∧
    (∀ sealed plain : Bytes, (cipher master).decrypt tenant sealed = .ok plain ↔
      28 ≤ sealed.length ∧ (cipher master).encrypt (sealed.take 12) tenant plain = .ok sealed) ∧
    (∀ sealed : Bytes, sealed.length < 28 →
      (cipher master).decrypt tenant sealed = .error (.crypto "ciphertext too short")) := by
  refine ⟨?_, ?_, ?_⟩
  · intro nonce plain hnonce
    have hlength := length_sealBytes master tenant plain hnonce
    have hfront := take_sealBytes master tenant plain hnonce
    refine ⟨_, rfl, hlength, hfront, openBytes_eq_ok_iff.2 ⟨?_, ?_⟩⟩
    · rw [hlength]
      exact Nat.le_add_right _ _
    · rw [hfront]
  · intro sealed plain
    have hseal : (cipher master).encrypt (sealed.take 12) tenant plain = .ok sealed ↔
        sealBytes master (sealed.take 12) tenant plain = sealed :=
      ⟨Except.ok.inj, congrArg Except.ok⟩
    rw [hseal]
    exact openBytes_eq_ok_iff
  · exact fun sealed hshort => openBytes_of_length_lt hshort

/-- The empty text is sealed to 28 bytes, which are opened again, and 27 bytes are refused. -/
theorem opens_exactly_what_is_sealed_of_no_bytes :
    let c := cipher (List.replicate 32 7)
    let acme : Tenant := ⟨"acme"⟩
    let nonce : Bytes := List.replicate 12 0
    let short : Bytes := List.replicate 27 0
    nonce.length = 12 ∧ short.length < 28 ∧
      (∃ sealed, c.encrypt nonce acme [] = .ok sealed ∧ sealed.length = 28 ∧
        c.decrypt acme sealed = .ok [] ∧ c.encrypt (sealed.take 12) acme [] = .ok sealed) ∧
      c.decrypt acme short = .error (.crypto "ciphertext too short") := by
  intro c acme nonce short
  have hnonce : nonce.length = 12 := rfl
  have hshort : short.length < 28 := by decide
  obtain ⟨hsealed, hopened, hrefused⟩ := opens_exactly_what_is_sealed (List.replicate 32 7) acme
  obtain ⟨sealed, hseal, hlength, _, hopen⟩ := hsealed nonce [] hnonce
  exact ⟨hnonce, hshort, ⟨sealed, hseal, hlength, hopen, ((hopened sealed []).1 hopen).2⟩,
    hrefused short hshort⟩

end TenantKeyed
end SalientGraph
