import OriginTools.Foundation.Chunks
import OriginTools.Vcs.Sample

/-!
# Streamed blobs

`stream.rs`: a large file is encrypted chunk by chunk into a header, a record for each
chunk and four zero bytes at the end, and decoded by two loops that read records up to
the first zero length.
-/

namespace OriginTools.Vcs.Stream
open List
variable {σ : Type}

structure Aead where
  encrypt : Bytes → Bytes → Bytes → Except String Bytes
  decrypt : Bytes → Bytes → Bytes → Option Bytes

structure BaseNonce where
  bytes : Bytes
  length_eq : bytes.length=24

structure File where
  data : Bytes
  fits : data.length<2^64

structure Hasher (σ : Type) where
  new : σ
  update : σ → Bytes → σ
  finalize : σ → ObjectId

def chunkNonce (base : Bytes) (counter : ℕ) : Bytes :=
  base.take 16++List.zipWith (· ^^^ ·) (base.drop 16) (beBytes 8 counter)

theorem zipWith_xor_inj (a b c : Bytes) (hb : b.length=a.length) (hc : c.length=a.length)
    (h : List.zipWith (· ^^^ ·) a b=List.zipWith (· ^^^ ·) a c) : b=c := by
  induction a generalizing b c with
  | nil =>
    rw [length_eq_zero_iff.mp hb,length_eq_zero_iff.mp hc]
  | cons x a ih =>
    rcases b with _ | ⟨y,b⟩
    · simp at hb
    rcases c with _ | ⟨z,c⟩
    · simp at hc
    simp only [length_cons,Nat.add_right_cancel_iff] at hb hc
    simp only [zipWith_cons_cons,List.cons.injEq] at h
    rw [ih b c hb hc h.2,(UInt8.xor_right_inj x).mp h.1]

theorem chunkNonce_inj {base : BaseNonce} {i j} (hi : i<2^64) (hj : j<2^64)
    (h : chunkNonce base.bytes i=chunkNonce base.bytes j) : i=j := by
  have hlow:=append_cancel_left h
  have hdrop : (base.bytes.drop 16).length=8 := by
    rw [length_drop,base.length_eq]
  have hbytes:=zipWith_xor_inj _ _ _ (by rw [length_beBytes,hdrop])
    (by rw [length_beBytes,hdrop]) hlow
  have hvalue:=congrArg beValue hbytes
  rw [beValue_beBytes,beValue_beBytes] at hvalue
  have hpow : (256 : ℕ)^8=2^64 := by norm_num
  rwa [hpow,Nat.mod_eq_of_lt hi,Nat.mod_eq_of_lt hj] at hvalue

def streamMagic : Bytes := utf8 "OVCS"
def streamVersion : UInt8 := 1
def streamHeaderLen : ℕ := 31
def header (base : BaseNonce) : Bytes := streamMagic++[streamVersion,0,0]++base.bytes
def sentinel : Bytes := beBytes 4 0
def record (ct : Bytes) : Bytes := beBytes 4 ct.length++ct

def encryptChunks (aead : Aead) (key base : Bytes) : ℕ → List Bytes → Except String (List Bytes)
  | _,[] => .ok []
  | counter,chunk::rest =>
    match aead.encrypt key (chunkNonce base counter) chunk with
    | .error e => .error s!"chunk {counter} encrypt: {e}"
    | .ok ct =>
      match encryptChunks aead key base (counter+1) rest with
      | .error e => .error e
      | .ok records => .ok (record ct::records)

def blockSize : ℕ := 64*1024

def streamBlobId (hasher : Hasher σ) (file : File) : ObjectId :=
  let blocks:=chunks blockSize file.data
  let len:=blocks.foldl (fun n block => n+block.length) 0
  hasher.finalize (blocks.foldl hasher.update (hasher.update hasher.new (utf8 s!"blob:{len}\n")))

def streamEncryptFile (hasher : Hasher σ) (aead : Aead) (key : Bytes)
    (base : Except String BaseNonce) (file : File) (chunkSize : ℕ) :
    Except String (ObjectId × Bytes) :=
  if chunkSize<1024 ∨ 2^30<chunkSize then
    .error s!"chunk size {chunkSize} out of range (1024..={2 ^ 30})"
  else match base with
    | .error e => .error s!"nonce generation failed: {e}"
    | .ok base =>
      match encryptChunks aead key base.bytes 0 (chunks chunkSize file.data) with
      | .error e => .error e
      | .ok records =>
        .ok (streamBlobId hasher file,header base++records.flatten++sentinel)

structure Messages where
  noSentinel : ℕ → String
  shortChunk : ℕ → ℕ → ℕ → String
  failed : ℕ → String

def toFileMessages : Messages where
  noSentinel n := s!"truncated stream: expected 4-byte chunk length, got {n} bytes (no sentinel)"
  shortChunk counter expected got :=
    s!"truncated stream: chunk {counter} expected {expected} bytes, got {got}"
  failed counter := s!"chunk {counter} decryption failed (corrupt or wrong key)"

def toVecMessages : Messages where
  noSentinel _ := "truncated stream (no sentinel)"
  shortChunk _ _ _ := "truncated stream (short chunk)"
  failed counter := s!"chunk {counter} decryption failed"

/-- The loop over the records: the plaintext and the bytes behind the sentinel,
which are not looked at. Every pass reads four bytes, so the length of the input
bounds the loop. -/
def decodeLoop (msgs : Messages) (aead : Aead) (key base : Bytes) :
    ℕ → ℕ → Bytes → Except String (Bytes × Bytes)
  | 0,_,cursor => .error (msgs.noSentinel cursor.length)
  | fuel+1,counter,cursor =>
    if cursor.length<4 then .error (msgs.noSentinel cursor.length)
    else
      let chunkLen:=beValue (cursor.take 4)
      let cursor:=cursor.drop 4
      if chunkLen=0 then .ok ([],cursor)
      else if cursor.length<chunkLen then
        .error (msgs.shortChunk counter chunkLen cursor.length)
      else match aead.decrypt key (chunkNonce base counter) (cursor.take chunkLen) with
        | none => .error (msgs.failed counter)
        | some pt =>
          match decodeLoop msgs aead key base fuel (counter+1) (cursor.drop chunkLen) with
          | .error e => .error e
          | .ok (out,left) => .ok (pt++out,left)

def decode (msgs : Messages) (aead : Aead) (key bytes : Bytes) : Except String (Bytes × Bytes) :=
  decodeLoop msgs aead key ((bytes.drop 7).take 24) (bytes.length+1) 0 (bytes.drop streamHeaderLen)

/-- `stream_decrypt_to_file` up to the rename, with what it leaves unread. -/
def toFileRun (aead : Aead) (key bytes : Bytes) : Except String (Bytes × Bytes) :=
  if bytes.length<streamHeaderLen+4 then .error "streamed blob too short"
  else if bytes.take 4≠streamMagic then .error "not a streamed (OVCS) blob"
  else if bytes[4]? ≠ some streamVersion then
    .error s!"unsupported streamed blob version {(bytes[4]?.getD 0).toNat}"
  else decode toFileMessages aead key bytes

def streamDecryptToFile (aead : Aead) (key bytes : Bytes) : Except String (ℕ × Bytes) :=
  (toFileRun aead key bytes).map fun r => (r.1.length,r.1)

def toVecRun (aead : Aead) (key bytes : Bytes) : Except String (Bytes × Bytes) :=
  if bytes.length<streamHeaderLen+4 then .error "not a streamed (OVCS) blob"
  else if bytes.take 4≠streamMagic then .error "not a streamed (OVCS) blob"
  -- the version is not looked at here
  else decode toVecMessages aead key bytes

def streamDecryptToVec (aead : Aead) (key bytes : Bytes) : Except String Bytes :=
  (toVecRun aead key bytes).map Prod.fst

/-- Decryption succeeds on what was encrypted in this stream, and on nothing else. -/
structure Ideal (aead : Aead) (key base : Bytes) (cs : List Bytes) : Prop where
  length : ∀ nonce pt ct,aead.encrypt key nonce pt=.ok ct → ct.length=pt.length+16
  decrypt : ∀ nonce ct pt,aead.decrypt key nonce ct=some pt ↔
    ∃ i,cs[i]? = some pt ∧ nonce=chunkNonce base i ∧ aead.encrypt key nonce pt=.ok ct

def DecryptsAt (aead : Aead) (key base : Bytes) (start : ℕ) (cs : List Bytes) : Prop :=
  ∀ j ct pt,start+j<2^64 → (aead.decrypt key (chunkNonce base (start+j)) ct=some pt ↔
      cs[j]? = some pt ∧ aead.encrypt key (chunkNonce base (start+j)) pt=.ok ct)

variable {aead : Aead} {key : Bytes} {cs : List Bytes}

theorem decryptsAt_of_ideal {base : BaseNonce} (h : Ideal aead key base.bytes cs)
    (hlen : cs.length<2^64) : DecryptsAt aead key base.bytes 0 cs := by
  intro j ct pt hj
  rw [Nat.zero_add] at hj ⊢
  rw [h.decrypt]
  constructor
  · rintro ⟨i,hget,hnonce,henc⟩
    have hi : i<cs.length := (List.getElem?_eq_some_iff.mp hget).1
    have hij : j=i := chunkNonce_inj hj (by omega) hnonce
    rw [hij]
    exact ⟨hget,hij ▸ henc⟩
  · rintro ⟨hget,henc⟩
    exact ⟨j,hget,rfl,henc⟩

theorem decryptsAt_tail {base start c} (h : DecryptsAt aead key base start (c::cs)) :
    DecryptsAt aead key base (start+1) cs := by
  intro j ct pt hj
  have hnext:=h (j+1) ct pt (by omega)
  rw [getElem?_cons_succ,show start+(j+1)=start+1+j by omega] at hnext
  exact hnext

variable {cursor : Bytes}

theorem take_four_of_value {n} (hlen : ¬ cursor.length<4) (h : beValue (cursor.take 4)=n) :
    cursor=beBytes 4 n++cursor.drop 4 := by
  have htake : (cursor.take 4).length=4 := by
    rw [length_take]
    omega
  have hbytes:=beBytes_beValue (cursor.take 4)
  rw [htake,h] at hbytes
  rw [hbytes,take_append_drop]

theorem decodeLoop_sentinel (msgs aead key base fuel counter left) :
    decodeLoop msgs aead key base (fuel+1) counter (sentinel++left)=.ok ([],left) := by
  have hlen : sentinel.length=4 := length_beBytes 4 0
  have htake : (sentinel++left).take 4=sentinel := take_left' hlen
  have hdrop : (sentinel++left).drop 4=left := drop_left' hlen
  have hvalue : beValue sentinel=0 := by decide
  have hge : ¬ (sentinel++left).length<4 := by
    rw [length_append,hlen]
    omega
  simp only [decodeLoop,if_neg hge,htake,hvalue,hdrop,if_true]

theorem decodeLoop_record (msgs) {base} (fuel counter) (ct pt rest : Bytes) (hpos : 0<ct.length)
    (hfit : ct.length<2^32) (hdec : aead.decrypt key (chunkNonce base counter) ct=some pt) :
    decodeLoop msgs aead key base (fuel+1) counter (record ct++rest)=
      (decodeLoop msgs aead key base fuel (counter+1) rest).map fun r => (pt++r.1,r.2) := by
  have hlen : (beBytes 4 ct.length).length=4 := length_beBytes 4 ct.length
  have hsplit : record ct++rest=beBytes 4 ct.length++(ct++rest) := by
    rw [record,append_assoc]
  have htake : (record ct++rest).take 4=beBytes 4 ct.length := by
    rw [hsplit,take_left' hlen]
  have hdrop : (record ct++rest).drop 4=ct++rest := by
    rw [hsplit,drop_left' hlen]
  have hvalue : beValue (beBytes 4 ct.length)=ct.length := by
    rw [beValue_beBytes,Nat.mod_eq_of_lt (by norm_num; omega)]
  have hge : ¬ (record ct++rest).length<4 := by
    rw [hsplit,length_append,hlen]
    omega
  have hfull : ¬ (ct++rest).length<ct.length := by
    rw [length_append]
    omega
  simp only [decodeLoop,if_neg hge,htake,hvalue,hdrop,if_neg (Nat.ne_of_gt hpos),
    if_neg hfull,take_left,drop_left,hdec]
  rcases decodeLoop msgs aead key base fuel (counter+1) rest with e | ⟨out,left⟩
  · rfl
  · rfl

theorem decodeLoop_cases {msgs base fuel counter out left}
    (h : decodeLoop msgs aead key base (fuel+1) counter cursor=.ok (out,left)) :
    (cursor=sentinel++left ∧ out=[]) ∨ ∃ ct pt rest out',cursor=record ct++rest ∧
        aead.decrypt key (chunkNonce base counter) ct=some pt ∧ out=pt++out' ∧
        decodeLoop msgs aead key base fuel (counter+1) rest=.ok (out',left) := by
  simp only [decodeLoop] at h
  split_ifs at h with hshort hzero hfull
  · left
    simp only [Except.ok.injEq,Prod.mk.injEq] at h
    refine ⟨?_,h.1.symm⟩
    rw [← h.2]
    exact take_four_of_value hshort hzero
  · right
    set n := beValue (cursor.take 4) with hn
    set rest := cursor.drop 4 with hrest
    rcases hdec : aead.decrypt key (chunkNonce base counter) (rest.take n) with - | pt
    · simp [hdec] at h
    simp only [hdec] at h
    rcases hloop : decodeLoop msgs aead key base fuel (counter+1) (rest.drop n) with
      e | ⟨out',left'⟩
    · simp [hloop] at h
    simp only [hloop,Except.ok.injEq,Prod.mk.injEq] at h
    obtain ⟨rfl,rfl⟩ := h
    have hct : (rest.take n).length=n := by
      rw [length_take]
      omega
    refine ⟨rest.take n,pt,rest.drop n,out',?_,hdec,rfl,hloop⟩
    rw [record,hct,append_assoc,take_append_drop]
    exact take_four_of_value hshort hn.symm

theorem encryptChunks_cons {base c start rs}
    (h : encryptChunks aead key base start (c::cs)=.ok rs) :
    ∃ ct rs',aead.encrypt key (chunkNonce base start) c=.ok ct ∧
      encryptChunks aead key base (start+1) cs=.ok rs' ∧ rs=record ct::rs' := by
  simp only [encryptChunks] at h
  rcases hc : aead.encrypt key (chunkNonce base start) c with e | ct
  · simp [hc] at h
  rcases hrest : encryptChunks aead key base (start+1) cs with e | rs'
  · simp [hc,hrest] at h
  simp only [hc,hrest,Except.ok.injEq] at h
  exact ⟨ct,rs',rfl,rfl,h.symm⟩

theorem decodeLoop_ok_iff (msgs key base)
    (hct : ∀ nonce pt ct,aead.encrypt key nonce pt=.ok ct → ct.length=pt.length+16)
    (cs rs : List Bytes) (start fuel) (cursor out left : Bytes)
    (hsmall : ∀ c∈cs,c.length≤2^30) (hstart : start+cs.length<2^64)
    (hfuel : cursor.length<fuel) (hdec : DecryptsAt aead key base start cs)
    (henc : encryptChunks aead key base start cs=.ok rs) :
    decodeLoop msgs aead key base fuel start cursor=.ok (out,left) ↔
      ∃ k,k≤cs.length ∧ cursor=(rs.take k).flatten++sentinel++left ∧ out=(cs.take k).flatten := by
  induction cs generalizing rs start fuel cursor out with
  | nil =>
    simp only [encryptChunks,Except.ok.injEq] at henc
    subst henc
    obtain ⟨fuel,rfl⟩ : ∃ f,fuel=f+1 := ⟨fuel-1,by omega⟩
    constructor
    · intro h
      rcases decodeLoop_cases h with
        ⟨hcur,hout⟩ | ⟨ct,pt,rest,out',_,hpt,-,-⟩
      · exact ⟨0,le_rfl,by simpa using hcur,hout⟩
      · have habsent:=(hdec 0 ct pt (by simpa using hstart)).mp hpt
        simp at habsent
    · rintro ⟨k,-,hcur,hout⟩
      simp only [take_nil,flatten_nil,nil_append] at hcur hout
      rw [hcur,hout]
      exact decodeLoop_sentinel msgs aead key base fuel start left
  | cons c cs ih =>
    obtain ⟨fuel,rfl⟩ : ∃ f,fuel=f+1 := ⟨fuel-1,by omega⟩
    simp only [length_cons] at hstart
    have hfirst (ct pt : Bytes) : aead.decrypt key (chunkNonce base start) ct=some pt ↔
        c=pt ∧ aead.encrypt key (chunkNonce base start) pt=.ok ct := by
      have hzero:=hdec 0 ct pt (by omega)
      simpa using hzero
    obtain ⟨ct,rs',hc,hrest,rfl⟩ := encryptChunks_cons henc
    have htail:=fun fuel cursor out hfuel => ih rs' (start+1) fuel cursor out
      (fun d hd => hsmall d (.tail _ hd)) (by omega) hfuel
      (decryptsAt_tail hdec) hrest
    constructor
    · intro h
      rcases decodeLoop_cases h with
        ⟨hcur,hout⟩ | ⟨ct',pt,rest,out',hcur,hpt,hout,hloop⟩
      · exact ⟨0,Nat.zero_le _,by simpa using hcur,hout⟩
      obtain ⟨rfl,henc'⟩ := (hfirst ct' pt).mp hpt
      have heq : ct=ct' := Except.ok.inj (hc.symm.trans henc')
      have hlen : rest.length<fuel := by
        rw [hcur,record,length_append,length_append,length_beBytes] at hfuel
        omega
      obtain ⟨k,hk,hrest',hout'⟩ := (htail fuel rest out' hlen).mp hloop
      refine ⟨k+1,by simpa using hk,?_,?_⟩
      · rw [hcur,hrest',heq]
        simp
      · rw [hout,hout']
        simp
    · rintro ⟨k,hk,hcur,hout⟩
      cases k with
      | zero =>
        simp only [take_zero,flatten_nil,nil_append] at hcur hout
        rw [hcur,hout]
        exact decodeLoop_sentinel msgs aead key base fuel start left
      | succ k =>
        simp only [take_succ_cons,flatten_cons,append_assoc] at hcur hout
        have hctlen : ct.length=c.length+16 := hct _ _ _ hc
        have hclen : c.length≤2^30 := hsmall c (.head _)
        have hlen : ((rs'.take k).flatten++(sentinel++left)).length<fuel := by
          rw [hcur,record,length_append,length_append,length_beBytes] at hfuel
          omega
        have hloop:=(htail fuel _ (cs.take k).flatten hlen).mpr
          ⟨k,by simpa using hk,by rw [append_assoc],rfl⟩
        rw [hcur,hout,decodeLoop_record msgs fuel start ct c _ (by omega)
          (by omega) ((hfirst ct c).mpr ⟨rfl,hc⟩),hloop]
        rfl

theorem length_header (base : BaseNonce) : (header base).length=31 := by
  simp only [header,length_append,base.length_eq]
  rfl

theorem header_nonce (base : BaseNonce) (rest : Bytes) :
    ((header base++rest).drop 7).take 24=base.bytes := by
  have hfront : (streamMagic++[streamVersion,0,0]).length=7 := by decide
  rw [header,append_assoc _ base.bytes,drop_left' hfront,take_left' base.length_eq]

theorem header_magic (base rest) : (header base++rest).take 4=streamMagic := by
  have hmagic : streamMagic.length=4 := by decide
  rw [header,append_assoc,append_assoc,take_left' hmagic]

theorem header_version (base rest) : (header base++rest)[4]? = some streamVersion := by
  have hmagic : streamMagic.length=4 := by decide
  rw [header,append_assoc,append_assoc,getElem?_append_right (by omega),hmagic]
  rfl

theorem decodeLoop_short (msgs : Messages) (aead key base fuel counter) (h : cursor.length<4) :
    decodeLoop msgs aead key base fuel counter cursor=.error (msgs.noSentinel cursor.length) := by
  cases fuel with
  | zero => rfl
  | succ fuel => simp only [decodeLoop,if_pos h]

theorem decode_header (msgs aead key) (base : BaseNonce) (rest) :
    decode msgs aead key (header base++rest)=
      decodeLoop msgs aead key base.bytes ((header base++rest).length+1) 0 rest := by
  rw [decode,header_nonce,streamHeaderLen,drop_left' (length_header base)]

theorem decode_header_ok_iff (msgs aead key) (base : BaseNonce) (rest e r) :
    (if (header base++rest).length<streamHeaderLen+4 then .error e
      else decode msgs aead key (header base++rest))=.ok r ↔
      decodeLoop msgs aead key base.bytes ((header base++rest).length+1) 0 rest=.ok r := by
  split_ifs with hshort
  · have hrest : rest.length<4 := by
      rw [length_append,length_header,streamHeaderLen] at hshort
      omega
    rw [decodeLoop_short _ _ _ _ _ _ hrest]
    simp
  · rw [decode_header]

theorem toFileRun_header (aead key) (base : BaseNonce) (rest r) :
    toFileRun aead key (header base++rest)=.ok r ↔
      decodeLoop toFileMessages aead key base.bytes ((header base++rest).length+1) 0 rest=
        .ok r := by
  rw [toFileRun,if_neg (not_not.mpr (header_magic base rest)),
    if_neg (not_not.mpr (header_version base rest)),decode_header_ok_iff]

theorem toVecRun_header (aead key) (base : BaseNonce) (rest r) :
    toVecRun aead key (header base++rest)=.ok r ↔
      decodeLoop toVecMessages aead key base.bytes ((header base++rest).length+1) 0 rest=
        .ok r := by
  rw [toVecRun,if_neg (not_not.mpr (header_magic base rest)),decode_header_ok_iff]

inductive Piece (n : ℕ)
  | header
  | record (i : Fin n)
  | sentinel

def Piece.bytes (base : BaseNonce) (rs : List Bytes) : Piece rs.length → Bytes
  | .header => Stream.header base
  | .record i => rs.get i
  | .sentinel => Stream.sentinel

def assemble (base : BaseNonce) (rs : List Bytes) (pieces : List (Piece rs.length))
    (appended : Bytes) : Bytes :=
  pieces.flatMap (Piece.bytes base rs)++appended

def Intact (run : Except String (Bytes × Bytes)) (file : File) : Prop :=
  ∀ pt left,run=.ok (pt,left) → pt=file.data ∧ left=[]

def EndsEarly (base : BaseNonce) (rs : List Bytes) (bytes : Bytes) : Prop :=
  ∃ k rest,bytes=header base++(rs.take k).flatten++sentinel++rest ∧ (k<rs.length ∨ rest≠[])

theorem encryptChunks_length {base} (cs rs : List Bytes) (start : ℕ)
    (h : encryptChunks aead key base start cs=.ok rs) : rs.length=cs.length := by
  induction cs generalizing start rs with
  | nil =>
    simp only [encryptChunks,Except.ok.injEq] at h
    rw [← h]
  | cons c cs ih =>
    obtain ⟨ct,rs',-,hrest,rfl⟩ := encryptChunks_cons h
    rw [length_cons,length_cons,ih rs' (start+1) hrest]

theorem encryptChunks_mem {base} (cs rs start) (h : encryptChunks aead key base start cs=.ok rs)
    {r} (hr : r∈rs) :
    ∃ c∈cs,∃ nonce ct,aead.encrypt key nonce c=.ok ct ∧ r=record ct := by
  induction cs generalizing start rs with
  | nil =>
    simp only [encryptChunks,Except.ok.injEq] at h
    simp [← h] at hr
  | cons c cs ih =>
    obtain ⟨ct,rs',hc,hrest,rfl⟩ := encryptChunks_cons h
    rcases mem_cons.mp hr with hr | hr
    · exact ⟨c,.head _,chunkNonce base start,ct,hc,hr⟩
    · obtain ⟨d,hd,hrec⟩ := ih rs' (start+1) hrest hr
      exact ⟨d,.tail _ hd,hrec⟩

theorem rejected_of_length {n} (hn : n≤2^30+16) (rest : Bytes) :
    (beBytes 4 n++rest).take 4≠streamMagic := by
  intro h
  rw [take_left' (length_beBytes 4 n)] at h
  have hvalue:=congrArg beValue h
  rw [beValue_beBytes,Nat.mod_eq_of_lt (by norm_num; omega)] at hvalue
  have hmagic : beValue streamMagic=1331053395 := by decide
  omega

theorem intact_of_not_magic (aead) (key bytes : Bytes) (file) (h : bytes.take 4≠streamMagic) :
    Intact (toFileRun aead key bytes) file ∧ Intact (toVecRun aead key bytes) file := by
  constructor
  · intro pt left hrun
    unfold toFileRun at hrun
    split_ifs at hrun
  · intro pt left hrun
    unfold toVecRun at hrun
    split_ifs at hrun

theorem not_endsEarly_of_not_magic (base rs) {bytes} (h : bytes.take 4≠streamMagic) :
    ¬ EndsEarly base rs bytes := by
  rintro ⟨k,rest,rfl,-⟩
  apply h
  rw [append_assoc,append_assoc]
  exact header_magic base _

theorem flatten_take_ne (hne : ∀ c∈cs,c≠[]) {k} (hk : k<cs.length) :
    (cs.take k).flatten≠cs.flatten := by
  intro heq
  have hsplit : (cs.take k).flatten++(cs.drop k).flatten=cs.flatten := by
    rw [← flatten_append,take_append_drop]
  rw [← heq] at hsplit
  have hrest : (cs.drop k).flatten=[] := append_right_eq_self.mp hsplit
  have hget : cs[k]∈cs.drop k := by
    rw [drop_eq_getElem_cons hk]
    exact .head _
  exact hne cs[k] (getElem_mem hk) (flatten_eq_nil_iff.mp hrest _ hget)

theorem intact_iff_of_loop {msgs base file rs rest run} (hfile : cs.flatten=file.data)
    (hne : ∀ c∈cs,c≠[]) (hcount : cs.length<2^64) (hsmall : ∀ c∈cs,c.length≤2^30)
    (hideal : Ideal aead key base.bytes cs) (hrs : encryptChunks aead key base.bytes 0 cs=.ok rs)
    (hrun : ∀ r,run=.ok r ↔ decodeLoop msgs aead key base.bytes
      ((header base++rest).length+1) 0 rest=.ok r) :
    Intact run file ↔ ¬ EndsEarly base rs (header base++rest) := by
  have hlen : rs.length=cs.length := encryptChunks_length cs rs 0 hrs
  have haccepts (pt left : Bytes) : run=.ok (pt,left) ↔
      ∃ k,k≤cs.length ∧ rest=(rs.take k).flatten++sentinel++left ∧ pt=(cs.take k).flatten := by
    rw [hrun]
    apply decodeLoop_ok_iff msgs key base.bytes hideal.length cs rs 0
    · exact hsmall
    · omega
    · rw [length_append]
      omega
    · exact decryptsAt_of_ideal hideal hcount
    · exact hrs
  constructor
  · rintro hintact ⟨k,left,hbytes,hearly⟩
    have hrest : rest=(rs.take (min k cs.length)).flatten++sentinel++left := by
      rw [append_assoc,append_assoc] at hbytes
      rw [append_cancel_left hbytes,← hlen,← append_assoc,take_eq_take_min]
    obtain ⟨hpt,hleft⟩ := hintact _ left
      ((haccepts _ left).mpr ⟨min k cs.length,Nat.min_le_right ..,hrest,rfl⟩)
    rcases hearly with hk | hleft'
    · rw [hlen] at hk
      rw [Nat.min_eq_left hk.le,← hfile] at hpt
      exact flatten_take_ne hne hk hpt
    · exact hleft' hleft
  · intro hearly pt left hok
    obtain ⟨k,hk,hrest,hpt⟩ := (haccepts pt left).mp hok
    have hbytes : header base++rest=header base++(rs.take k).flatten++sentinel++left := by
      rw [hrest,append_assoc,append_assoc,append_assoc]
    have hfull : ¬ k<rs.length := fun hlt => hearly ⟨k,left,hbytes,.inl hlt⟩
    have hnone : left=[] := by
      by_contra hleft
      exact hearly ⟨k,left,hbytes,.inr hleft⟩
    refine ⟨?_,hnone⟩
    rw [hpt,← hfile,take_of_length_le (by omega)]

theorem chunkSize_range {hasher : Hasher σ} {base file chunkSize r}
    (h : streamEncryptFile hasher aead key base file chunkSize=.ok r) :
    1024≤chunkSize ∧ chunkSize≤2^30 := by
  unfold streamEncryptFile at h
  split_ifs at h with hrange
  omega

theorem decoders_intact_iff (hasher : Hasher σ) (aead : Aead) (key : Bytes) (base : BaseNonce)
    (file : File) (chunkSize : ℕ) (id : ObjectId) (stream : Bytes) (rs : List Bytes)
    (henc : streamEncryptFile hasher aead key (.ok base) file chunkSize=.ok (id,stream))
    (hrs : encryptChunks aead key base.bytes 0 (chunks chunkSize file.data)=.ok rs)
    (hideal : Ideal aead key base.bytes (chunks chunkSize file.data))
    (pieces : List (Piece rs.length)) (hpieces : pieces≠[]) (appended : Bytes) :
    (Intact (toFileRun aead key (assemble base rs pieces appended)) file ↔
        ¬ EndsEarly base rs (assemble base rs pieces appended)) ∧
      (Intact (toVecRun aead key (assemble base rs pieces appended)) file ↔
        ¬ EndsEarly base rs (assemble base rs pieces appended)) := by
  obtain ⟨hlow,hhigh⟩ := chunkSize_range henc
  have hpos : 0<chunkSize := by omega
  have hfile:=flatten_chunks hpos file.data
  have hsmall : ∀ c∈chunks chunkSize file.data,c.length≤2^30 := fun c hc =>
    (chunk_length_le hpos hc).trans hhigh
  have hcount : (chunks chunkSize file.data).length<2^64 :=
    lt_of_le_of_lt (chunks_length_le hpos file.data) file.fits
  -- a first piece other than the header does not start with the magic bytes
  have hother (bytes : Bytes) (hmagic : bytes.take 4≠streamMagic) :
      (Intact (toFileRun aead key bytes) file ↔ ¬ EndsEarly base rs bytes) ∧
        (Intact (toVecRun aead key bytes) file ↔ ¬ EndsEarly base rs bytes) := by
    have hintact:=intact_of_not_magic aead key bytes file hmagic
    have hearly:=not_endsEarly_of_not_magic base rs hmagic
    exact ⟨iff_of_true hintact.1 hearly,iff_of_true hintact.2 hearly⟩
  rcases pieces with _ | ⟨piece,pieces⟩
  · exact absurd rfl hpieces
  set rest := assemble base rs pieces appended with hrest
  have hcons : assemble base rs (piece::pieces) appended=piece.bytes base rs++rest := by
    simp only [hrest,assemble,flatMap_cons,append_assoc]
  rw [hcons]
  cases piece with
  | header =>
    exact ⟨intact_iff_of_loop hfile (chunk_ne_nil hpos file.data) hcount hsmall hideal hrs
        (toFileRun_header aead key base rest),
      intact_iff_of_loop hfile (chunk_ne_nil hpos file.data) hcount hsmall hideal hrs
        (toVecRun_header aead key base rest)⟩
  | record i =>
    apply hother
    obtain ⟨c,hc,nonce,ct,hct,hrec⟩ := encryptChunks_mem _ rs 0 hrs (get_mem rs i)
    have hctlen : ct.length=c.length+16 := hideal.length nonce c ct hct
    have hclen : c.length≤2^30 := hsmall c hc
    rw [Piece.bytes,hrec,record,append_assoc]
    exact rejected_of_length (by omega) _
  | sentinel =>
    apply hother
    exact rejected_of_length (by omega) rest

namespace OneChunk

def zeroNonce : BaseNonce := ⟨List.replicate 24 0,length_replicate⟩
def tag (nonce : Bytes) : Bytes := (nonce.drop 8++List.replicate 16 0).take 16

def collecting : Hasher Bytes where
  new := []
  update := (· ++ ·)
  finalize := Sample.sdk.sha3_256

def cipher : Aead where
  encrypt _ nonce pt := .ok (pt++tag nonce)
  decrypt _ nonce ct :=
    if nonce=chunkNonce zeroNonce.bytes 0 ∧ ct=[7]++tag nonce then some [7] else none

def file : File := ⟨[7],by decide⟩
def records : List Bytes := [record ([7]++tag (chunkNonce zeroNonce.bytes 0))]

theorem length_tag (nonce : Bytes) : (tag nonce).length=16 := by
  simp only [tag,length_take,length_append,length_replicate]
  omega

theorem chunks_file : chunks 1024 file.data=[[7]] := rfl

theorem cipher_ideal : Ideal cipher [] zeroNonce.bytes (chunks 1024 file.data) := by
  constructor
  · intro nonce pt ct h
    simp only [cipher,Except.ok.injEq] at h
    rw [← h,length_append,length_tag]
  · intro nonce ct pt
    rw [chunks_file]
    simp only [cipher,Except.ok.injEq]
    constructor
    · intro h
      split_ifs at h with hgenuine
      obtain ⟨hnonce,hct⟩ := hgenuine
      simp only [Option.some.injEq] at h
      exact ⟨0,by simpa using h,hnonce,by rw [← h,hct]⟩
    · rintro ⟨i,hget,hnonce,hct⟩
      have hi : i=0 := by
        have hlt:=(List.getElem?_eq_some_iff.mp hget).1
        simpa using hlt
      subst hi
      simp only [getElem?_cons_zero,Option.some.injEq] at hget
      subst hget
      rw [if_pos ⟨hnonce,hct.symm⟩]

theorem encryptChunks_file :
    encryptChunks cipher [] zeroNonce.bytes 0 (chunks 1024 file.data)=.ok records := rfl

def pieces : List (Piece records.length) := [.header,.record ⟨0,Nat.zero_lt_one⟩,.sentinel]

end OneChunk
open OneChunk in
theorem genuine_stream_intact :
    Intact (toFileRun cipher [] (assemble zeroNonce records pieces [])) file ∧
      Intact (toVecRun cipher [] (assemble zeroNonce records pieces [])) file := by
  have hiff:=decoders_intact_iff collecting cipher [] zeroNonce file 1024 _ _ records rfl
    encryptChunks_file cipher_ideal pieces (cons_ne_nil _ _) []
  have hvec : Intact (toVecRun cipher [] (assemble zeroNonce records pieces [])) file := by
    intro pt left hrun
    have hok : toVecRun cipher [] (assemble zeroNonce records pieces [])=.ok ([7],[]) := by
      decide +kernel
    rw [hok] at hrun
    cases hrun
    exact ⟨rfl,rfl⟩
  exact ⟨hiff.1.mpr (hiff.2.mp hvec),hvec⟩

open OneChunk in
/-- The header and the sentinel alone decode to an empty file, and bytes behind the
sentinel are not read. -/
theorem decoders_accept_early_end :
    (streamEncryptFile collecting cipher [] (.ok zeroNonce) file 1024).toOption.map Prod.snd=
        some (assemble zeroNonce records pieces []) ∧
      Ideal cipher [] zeroNonce.bytes (chunks 1024 file.data) ∧
      toFileRun cipher [] (assemble zeroNonce records [.header,.sentinel] [])=.ok ([],[]) ∧
      toVecRun cipher [] (assemble zeroNonce records [.header,.sentinel] [])=.ok ([],[]) ∧
      toFileRun cipher [] (assemble zeroNonce records pieces [1])=.ok ([7],[1]) ∧
      toVecRun cipher [] (assemble zeroNonce records pieces [1])=.ok ([7],[1]) ∧
      file.data=[7] :=
  ⟨rfl,cipher_ideal,by decide +kernel,by decide +kernel,by decide +kernel,by decide +kernel,rfl⟩

end OriginTools.Vcs.Stream
