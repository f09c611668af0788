import OriginTools.Network.Wire

/-!
# Frames on a byte stream

`TcpFrameConn` of `origin-network/src/transport.rs`: the receiver keeps what it has read
and decodes again after every read.
-/

namespace OriginTools.Network
open OriginTools.Channel List

def WireType.isNetworkOwned (v : UInt8) : Bool := 0x40≤v&&v≤0x5F||0xF0≤v

def sendFrame (typ : UInt8) (payload : List UInt8) : Except NetworkError (List UInt8) :=
  if WireType.isNetworkOwned typ||(WireType.fromU8 typ).isSome then
    match WireType.fromU8 typ with
    | none => .error (.codec s!"unknown wire type 0x{hexByte typ}")
    | some t => (encodeFrame (t.toU8::payload)).mapError .codec
  else (encodeTyped typ payload).mapError .codec

/-- A read that yields no bytes is the end of the stream. -/
def recvFrame (buf : List UInt8) (reads : List (List UInt8)) :
    Except NetworkError ((UInt8 × List UInt8) × List UInt8 × List (List UInt8)) :=
  match decodeTyped buf with
  | .error e => .error (.codec e)
  | .ok (some (tag,payload,consumed)) => .ok ((tag,payload),buf.drop consumed,reads)
  | .ok none =>
    match reads with
    | [] => .error (.transport "peer closed connection")
    | chunk::reads =>
      if chunk.isEmpty then .error (.transport "peer closed connection")
      else recvFrame (buf++chunk) reads

def recvFrames : ℕ → List UInt8 → List (List UInt8) →
    Except NetworkError (List (UInt8 × List UInt8) × List UInt8 × List (List UInt8))
  | 0,buf,reads => .ok ([],buf,reads)
  | n+1,buf,reads => do
    let (frame,buf,reads) ← recvFrame buf reads
    let (frames,rest) ← recvFrames n buf reads
    return (frame::frames,rest)

theorem WireType.toU8_of_fromU8 {v t} (h : WireType.fromU8 v=some t) : t.toU8=v := by
  have hall : ∀ n : Fin 256,(WireType.fromU8 (UInt8.ofNat n)).all
      (fun t => t.toU8=UInt8.ofNat n)=true := by decide +kernel
  have hv:=hall ⟨v.toNat,v.toNat_lt⟩
  rw [UInt8.ofNat_toNat,h] at hv
  simpa using hv

theorem sendFrame_ok {typ payload enc} (h : sendFrame typ payload=.ok enc) :
    encodeTyped typ payload=.ok enc := by
  have hmap : ∀ {r : Except String (List UInt8)},r.mapError NetworkError.codec=.ok enc →
      r=.ok enc := by
    intro r hr
    cases r with
    | error e => cases hr
    | ok bytes => rw [Except.ok.inj hr]
  unfold sendFrame at h
  split_ifs at h
  · split at h
    · cases h
    · rename_i t ht
      have hencode:=hmap h
      rwa [WireType.toU8_of_fromU8 ht] at hencode
  · exact hmap h

variable {tag : UInt8} {payload enc rest buf : List UInt8}

theorem decodeTyped_partial (h : encodeTyped tag payload=.ok enc) (hpre : buf <+: enc)
    (hshort : buf.length<enc.length) : decodeTyped buf=.ok none := by
  unfold encodeTyped encodeFrame at h
  dsimp only at h
  split_ifs at h with hlen
  cases h
  simp only [decodeTyped,decodeFrame]
  by_cases hheader : buf.length<lengthPrefixSize
  · rw [if_pos hheader]
  -- the length field is complete, so it is that of the whole frame
  obtain ⟨more,hmore⟩ := hpre
  have hfield:=congrArg (take lengthPrefixSize) hmore
  rw [take_append_of_le_length (not_lt.mp hheader),take_left' (length_beBytes _ _)] at hfield
  have hvalue : beValue (beBytes lengthPrefixSize (tag::payload).length)=(tag::payload).length := by
    rw [beValue_beBytes]
    apply Nat.mod_eq_of_lt
    unfold maxFrameSize at hlen
    unfold lengthPrefixSize
    omega
  rw [length_append,length_beBytes] at hshort
  rw [if_neg hheader,hfield,hvalue,if_neg hlen,if_pos hshort]

theorem recvFrame_encoded (h : encodeTyped tag payload=.ok enc) {reads}
    (hreads : ∀ chunk∈reads,chunk≠[]) (hbytes : buf++reads.flatten=enc++rest) :
    ∃ buf' reads',recvFrame buf reads=.ok ((tag,payload),buf',reads') ∧
      (∀ chunk∈reads',chunk≠[]) ∧ buf'++reads'.flatten=rest := by
  induction reads generalizing buf with
  | nil =>
    rw [flatten_nil,append_nil] at hbytes
    refine ⟨rest,[],?_,hreads,append_nil _⟩
    rw [recvFrame,hbytes,decodeTyped_encodeTyped payload enc rest h]
    simp
  | cons chunk reads ih =>
    obtain ⟨hchunk,hrest⟩ := forall_mem_cons.mp hreads
    by_cases hshort : buf.length<enc.length
    · have hpre : buf <+: enc := prefix_of_prefix_length_le ⟨_,hbytes⟩ (prefix_append enc rest)
        hshort.le
      obtain ⟨buf',reads',hrecv,hleft⟩ := @ih (buf++chunk) hrest (by simpa using hbytes)
      refine ⟨buf',reads',?_,hleft⟩
      rw [recvFrame, decodeTyped_partial h hpre hshort]
      simpa [hchunk] using hrecv
    · obtain ⟨more,rfl⟩ := prefix_of_prefix_length_le (prefix_append enc rest) ⟨_,hbytes⟩
        (not_lt.mp hshort)
      refine ⟨more,chunk::reads,?_,hreads,?_⟩
      · rw [recvFrame,decodeTyped_encodeTyped payload enc more h]
        simp
      · rwa [append_assoc,append_cancel_left_eq] at hbytes

theorem stream_framing {frames : List (UInt8 × List UInt8)} {encs reads : List (List UInt8)}
    (hsent : Forall₂ (fun frame enc => sendFrame frame.1 frame.2=.ok enc) frames encs)
    (hcuts : reads.flatten=encs.flatten) (hreads : ∀ chunk∈reads,chunk≠[]) :
    recvFrames frames.length [] reads=.ok (frames,[],[]) := by
  have hgeneral : ∀ buf reads,(∀ chunk∈reads,chunk≠[]) → buf++reads.flatten=encs.flatten →
      recvFrames frames.length buf reads=.ok (frames,[],[]) := by
    clear hcuts hreads
    induction hsent with
    | nil =>
      intro buf reads hreads hbytes
      obtain ⟨rfl,hnone⟩ := append_eq_nil_iff.mp hbytes
      rw [flatten_eq_nil_iff] at hnone
      obtain rfl : reads=[] := eq_nil_iff_forall_not_mem.mpr fun chunk hmem =>
        hreads chunk hmem (hnone chunk hmem)
      rfl
    | cons hfirst _ ih =>
      intro buf reads hreads hbytes
      obtain ⟨buf',reads',hrecv,hleft,hrest⟩ := recvFrame_encoded (sendFrame_ok hfirst) hreads hbytes
      simp only [length_cons,recvFrames,hrecv]
      change (recvFrames _ buf' reads' >>= _)=_
      rw [ih buf' reads' hleft hrest]
      rfl
  exact hgeneral [] reads hreads hcuts

theorem stream_framing_two_frames : recvFrames [((0x47 : UInt8),[(9 : UInt8)]),(7,[])].length []
      [[0,0],[0,2,0x47],[9,0,0,0],[1,7]]=.ok ([(0x47,[9]),(7,[])],[],[]) :=
  @stream_framing _ [[0,0,0,2,0x47,9],[0,0,0,1,7]] _
    (.cons (by decide +kernel) (.cons (by decide +kernel) .nil)) rfl (by decide)

end OriginTools.Network
