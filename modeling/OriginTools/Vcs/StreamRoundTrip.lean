import OriginTools.Vcs.Stream

/-!
# Streamed and buffered blobs

`stream_blob_id` reads a file twice, in blocks of its own size: once for the length
that the hashed bytes start with, once to hash them piece by piece.
-/

namespace OriginTools.Vcs.Stream
open List
variable {σ : Type}

namespace OneChunk

def padding : Aead where
  encrypt _ _ pt := .ok (pt++List.replicate 16 0)
  decrypt _ _ ct := some (ct.take (ct.length-16))

end OneChunk
/-- Records that each decrypt, up to a sentinel. -/
inductive Decodable (aead : Aead) (key base : Bytes) : ℕ → Bytes → Prop where
  | sentinel {counter : ℕ} {cursor : Bytes} : 4≤cursor.length →
      beValue (cursor.take 4)=0 → Decodable aead key base counter cursor
  | record {counter : ℕ} {cursor pt : Bytes} : 4≤cursor.length →
      beValue (cursor.take 4)≤(cursor.drop 4).length →
      aead.decrypt key (chunkNonce base counter)
        ((cursor.drop 4).take (beValue (cursor.take 4)))=some pt →
      Decodable aead key base (counter+1) ((cursor.drop 4).drop (beValue (cursor.take 4))) →
      Decodable aead key base counter cursor

theorem decodeLoop_decodable (msgs msgs' aead key base fuel counter) (cursor : Bytes)
    (hfuel : cursor.length<fuel) :
    (Decodable aead key base counter cursor ∧ ∃ r,
      decodeLoop msgs aead key base fuel counter cursor=.ok r ∧
      decodeLoop msgs' aead key base fuel counter cursor=.ok r) ∨
    (¬Decodable aead key base counter cursor ∧ ∃ e e',
      decodeLoop msgs aead key base fuel counter cursor=.error e ∧
      decodeLoop msgs' aead key base fuel counter cursor=.error e') := by
  induction fuel generalizing counter cursor with
  | zero => omega
  | succ fuel ih =>
    simp only [decodeLoop]
    by_cases hshort : cursor.length<4
    · refine .inr ⟨fun h => ?_,_,_,if_pos hshort,if_pos hshort⟩
      cases h <;> omega
    simp only [if_neg hshort]
    by_cases hzero : beValue (cursor.take 4)=0
    · exact .inl ⟨.sentinel (by omega) hzero,_,if_pos hzero,if_pos hzero⟩
    simp only [if_neg hzero]
    by_cases hfull : (cursor.drop 4).length<beValue (cursor.take 4)
    · refine .inr ⟨fun h => ?_,_,_,if_pos hfull,if_pos hfull⟩
      cases h <;> omega
    simp only [if_neg hfull]
    cases hpt : aead.decrypt key (chunkNonce base counter)
        ((cursor.drop 4).take (beValue (cursor.take 4))) with
    | none =>
      refine .inr ⟨fun h => ?_,_,_,rfl,rfl⟩
      cases h with
      | sentinel _ h => exact hzero h
      | record _ _ h _ => exact absurd (hpt.symm.trans h) (by simp)
    | some pt =>
      rcases ih (counter+1) ((cursor.drop 4).drop (beValue (cursor.take 4)))
        (by simp only [length_drop]; omega) with ⟨hd,r,hr,hr'⟩ | ⟨hd,e,e',he,he'⟩
      · exact .inl ⟨.record (by omega) (by omega) hpt hd,_,by rw [hr],by rw [hr']⟩
      refine .inr ⟨fun h => ?_,e,e',by rw [he],by rw [he']⟩
      cases h with
      | sentinel _ h => exact hzero h
      | record _ _ _ h => exact hd h

def DecodersAgree (aead : Aead) (key bytes : Bytes) : Prop :=
  (∃ e e',streamDecryptToFile aead key bytes=.error e ∧
    streamDecryptToVec aead key bytes=.error e') ∨
  ∃ pt,streamDecryptToFile aead key bytes=.ok (pt.length,pt) ∧
    streamDecryptToVec aead key bytes=.ok pt

theorem decoders_agree_iff (aead : Aead) (key bytes : Bytes) : DecodersAgree aead key bytes ↔
      bytes[4]? = some streamVersion ∨ bytes.length<streamHeaderLen+4 ∨ bytes.take 4≠streamMagic ∨
        ¬Decodable aead key ((bytes.drop 7).take 24) 0 (bytes.drop streamHeaderLen) := by
  unfold DecodersAgree streamDecryptToFile streamDecryptToVec toFileRun toVecRun
  by_cases hshort : bytes.length<streamHeaderLen+4
  · simp [hshort,Except.map]
  by_cases hmagic : bytes.take 4=streamMagic
  · rcases decodeLoop_decodable toFileMessages toVecMessages aead key ((bytes.drop 7).take 24)
      (bytes.length+1) 0 (bytes.drop streamHeaderLen) (by simp only [length_drop]; omega)
      with ⟨hd,r,hr,hr'⟩ | ⟨hd,e,e',he,he'⟩
    · by_cases hver : bytes[4]? = some streamVersion
      · simp [hshort,hmagic,hver,decode,hr,hr',Except.map]
      · simp [hshort,hmagic,hver,decode,hr',hd,Except.map]
    · by_cases hver : bytes[4]? = some streamVersion
      · simp [hshort,hmagic,hver,decode,he,he',Except.map]
      · simp [hshort,hmagic,hver,decode,he',hd,Except.map]
  · simp [hshort,hmagic,Except.map]

open OneChunk in
def OneChunk.laterVersion : Bytes := streamMagic++[2,0,0]++zeroNonce.bytes++sentinel

open OneChunk in
theorem later_version_decoded : streamDecryptToFile padding [] laterVersion=
      .error "unsupported streamed blob version 2" ∧
    streamDecryptToVec padding [] laterVersion=.ok [] := by
  decide

end OriginTools.Vcs.Stream
