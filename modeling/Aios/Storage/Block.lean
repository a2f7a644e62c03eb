import Aios.Storage.Index

/-!
From data to a block on disk and back.

A block is the nonce and the encrypted envelope of its data. Opening the bytes of a block
undoes sealing, given that decryption and decompression undo encryption and compression; a
write that has put all its sectors on disk has put the sealed block there.
-/

namespace Aios.Storage

open Aios.Lib Prog List Bytes

variable {env : Env}

/-- The bytes are the sealed block of `data`. -/
def SealedAs (env : Env) (data C : List UInt8) : Prop :=
  ∃ n c, n.length = 12 ∧ env.encrypt n (envelope env data) = some c ∧ C = n ++ c

lemma Sealed.sealedAs {e : Engine} {data C : List UInt8} (h : Sealed env e data C) :
    SealedAs env data C := by
  obtain ⟨k, c, -, hc, rfl⟩ := h
  exact ⟨k.nonce, c, length_nonce k, hc, rfl⟩

def wrapped (env : Env) (data : List UInt8) : List UInt8 :=
  Bytes.le 1 (payloadOf env data).1 ++ Bytes.le 4 data.length ++ (payloadOf env data).2

lemma length_wrapped (env : Env) (data : List UInt8) :
    (wrapped env data).length = wrappedLen env data := by
  simp only [wrapped, wrappedLen, compressionHeaderSize, length_append, length_le]

lemma envelope_eq (env : Env) (data : List UInt8) : envelope env data =
    Bytes.le 4 (crc32c data) ++ (Bytes.le 4 (wrappedLen env data) ++ wrapped env data) := by
  simp only [envelope, wrapped, append_assoc]

lemma openBlock_sealed {data C : List UInt8} {size bufLen : ℕ}
    (hdec : ∀ n p c, env.encrypt n p = some c → env.decrypt n c = some p)
    (h : SealedAs env data C) (hsize : size = wrappedLen env data) (hlt : size < 2 ^ 32) :
    openBlock env (some ⟨0, 0⟩) C size bufLen =
      decompressAndVerify env (wrapped env data) (crc32c data) bufLen := by
  obtain ⟨n, c, hn, hc, rfl⟩ := h
  have hlen : (n ++ c).length = 8 + size + encryptionOverhead := by
    rw [length_append, hn, env.encrypt_length _ _ _ hc, length_envelope, hsize]
    unfold encryptionOverhead
    omega
  have hdecrypt : decrypt env (n ++ c) = .ok (envelope env data) := by
    unfold decrypt
    rw [if_neg (by omega), take_left' hn, drop_left' hn, hdec _ _ _ hc]
  have hcrc : Bytes.ofLe ((envelope env data).take 4) = crc32c data := by
    rw [envelope_eq, take_left' (length_le 4 _), ofLe_le (crc32c_lt data)]
  have hstored : Bytes.ofLe (((envelope env data).drop 4).take 4) = size := by
    rw [envelope_eq, drop_left' (length_le 4 _), take_left' (length_le 4 _),
      ofLe_le (by rw [← hsize]; omega), hsize]
  have hwrapped : ((envelope env data).drop 8).take size = wrapped env data := by
    rw [envelope_eq, ← append_assoc, drop_left' (by simp), hsize, ← length_wrapped, take_length]
  have henv := length_envelope env data
  unfold openBlock
  simp only [Option.isSome_some, if_true, hdecrypt, bind, Except.bind]
  rw [if_neg (by omega), hcrc, hstored, hwrapped]
  simp

section Decompress

variable {data : List UInt8} {bufLen : ℕ}

lemma payloadOf_cases (env : Env) (data : List UInt8) :
    payloadOf env data = (1, env.compress data) ∨ payloadOf env data = (0, data) := by
  unfold payloadOf
  split_ifs
  · exact .inl rfl
  · exact .inr rfl

lemma decompressAndVerify_wrapped (env : Env) (data : List UInt8) (crc bufLen : ℕ) :
    decompressAndVerify env (wrapped env data) crc bufLen =
      if bufLen < Bytes.ofLe (Bytes.le 4 data.length) then .error .ioError
      else if (payloadOf env data).1 = 1 then
        match env.decompressInto (env.compress data) (Bytes.ofLe (Bytes.le 4 data.length)) with
        | none => .error .ioError
        | some out =>
          if out.length = Bytes.ofLe (Bytes.le 4 data.length) then
            if crc32c out = crc then .ok out else .error .checksumFailed
          else .error .ioError
      else if data.length = Bytes.ofLe (Bytes.le 4 data.length) then
        if crc32c data = crc then .ok data else .error .checksumFailed
      else .error .ioError := by
  have hlen : ¬ (wrapped env data).length < compressionHeaderSize := by
    rw [length_wrapped]
    unfold wrappedLen
    omega
  have hsize : ((wrapped env data).drop 1).take 4 = Bytes.le 4 data.length := by
    rw [wrapped, append_assoc, drop_left' (length_le 1 _), take_left' (length_le 4 _)]
  have hpay : (wrapped env data).drop compressionHeaderSize = (payloadOf env data).2 := by
    rw [wrapped, drop_left']
    simp [compressionHeaderSize]
  have hhead : (wrapped env data).headD 0 = UInt8.ofNat (payloadOf env data).1 := rfl
  unfold decompressAndVerify
  rw [if_neg hlen]
  simp only [hsize, hpay, hhead]
  rcases payloadOf_cases env data with hp | hp <;> rw [hp] <;> rfl

lemma decompress_ok (hlz4 : ∀ data, env.decompressInto (env.compress data) data.length = some data)
    (hlen : data.length < 2 ^ 32) (hbuf : data.length ≤ bufLen) :
    decompressAndVerify env (wrapped env data) (crc32c data) bufLen = .ok data := by
  rw [decompressAndVerify_wrapped, ofLe_le (by omega), if_neg (by omega), hlz4]
  simp

lemma decompress_sound
    (hlz4 : ∀ data n out, env.decompressInto (env.compress data) n = some out → out = data)
    {crc : ℕ} {out : List UInt8}
    (h : decompressAndVerify env (wrapped env data) crc bufLen = .ok out) : out = data := by
  rw [decompressAndVerify_wrapped] at h
  split_ifs at h
  · cases hd : env.decompressInto (env.compress data)
        (Bytes.ofLe (Bytes.le 4 data.length)) with
    | none =>
      rw [hd] at h
      cases h
    | some out' =>
      rw [hd] at h
      dsimp only at h
      split_ifs at h
      cases h
      exact hlz4 data _ _ hd
  · cases h
    rfl

end Decompress

lemma plainEnv_decrypt (n p c : List UInt8) (h : plainEnv.encrypt n p = some c) :
    plainEnv.decrypt n c = some p := by
  cases h
  simp [plainEnv]

/-! ### Blocks on disk -/

section OnDisk

variable {r : Rec} {C : List UInt8} {m m' : Mem}

lemma Rec.size_le_sectors (r : Rec) : 8 + r.size + encryptionOverhead ≤ sectorSize * r.sectors := by
  unfold Rec.sectors divCeil sectorSize
  omega

lemma raw_written (hr : r.Ok env) (hC : C.length = 8 + r.size + encryptionOverhead)
    (hm : ∀ x, dataBase ≤ x → m' x = m.write (sectorSize * r.start)
      ((padded sectorSize C).take (sectorSize * r.sectors)) x) : r.raw m' = C := by
  have hlen : (padded sectorSize C).length = sectorSize * r.sectors := by
    rw [length_padded (by decide), hC]
    rfl
  rw [hr.raw_congr hm, take_of_length_le hlen.le]
  unfold Rec.raw
  rw [← hC, Mem.read_write_take _ _ (by rw [hlen, hC]; exact r.size_le_sectors)]
  exact take_left

lemma raw_below {start : ℕ} (hr : r.Ok env) (hle : r.endSector ≤ start) {l : List UInt8}
    (hm : ∀ x, dataBase ≤ x → m' x = m.write (sectorSize * start) l x) : r.raw m' = r.raw m := by
  rw [hr.raw_congr hm]
  have hend : sectorSize * r.start + sectorSize * r.sectors ≤ sectorSize * start := by
    rw [← Nat.mul_add]
    exact Nat.mul_le_mul_left _ hle
  have hsize := r.size_le_sectors
  exact Mem.read_write_outside (.inl (by omega))

end OnDisk

end Aios.Storage
