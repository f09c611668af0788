import OriginTools.Foundation.Wire

/-!
# Length-prefixed frames

`origin-channel/src/codec.rs`: a frame is the length of its payload in four bytes, high
byte first, followed by the payload.
-/

namespace OriginTools.Channel

/-- `origin-channel/src/error.rs`, without the variant that wraps an I/O error. -/
inductive ChannelError where
  | handshake (msg : String)
  | invalidMessage (msg : String)
  | decryption (msg : String)
  | replay (seq : ℕ)
  | negotiation (msg : String)
  | codec (msg : String)
  | noSession
  | key (msg : String)
  | usageLimitExceeded (msg : String)
  | other (msg : String)
  deriving DecidableEq,Repr

def ChannelError.toText : ChannelError → String
  | .handshake msg => s!"handshake failed: {msg}"
  | .invalidMessage msg => s!"invalid message: {msg}"
  | .decryption msg => s!"decryption failed: {msg}"
  | .replay seq => s!"replay detected: seq {seq}"
  | .negotiation msg => s!"negotiation failed: {msg}"
  | .codec msg => s!"codec error: {msg}"
  | .noSession => "session not established"
  | .key msg => s!"key error: {msg}"
  | .usageLimitExceeded msg => s!"AEAD usage limit exceeded: {msg}"
  | .other msg => msg

def maxFrameSize : ℕ := 16*1024*1024
def lengthPrefixSize : ℕ := 4
def codecError (msg : String) : String := s!"codec error: {msg}"

def encodeFrame (payload : List UInt8) : Except String (List UInt8) :=
  let len:=payload.length
  if len>maxFrameSize then
    .error (codecError s!"payload too large: {len} bytes (max {maxFrameSize})")
  else .ok (beBytes lengthPrefixSize len++payload)

def decodeFrame (buf : List UInt8) : Except String (Option (List UInt8 × ℕ)) :=
  if buf.length<lengthPrefixSize then .ok none
  else
    let len:=beValue (buf.take lengthPrefixSize)
    if len>maxFrameSize then
      .error (codecError s!"frame size {len} exceeds maximum {maxFrameSize}")
    else
      let total:=lengthPrefixSize+len
      if buf.length<total then .ok none
      else .ok (some ((buf.take total).drop lengthPrefixSize,total))

def encodeTyped (msgType : UInt8) (payload : List UInt8) : Except String (List UInt8) :=
  encodeFrame (msgType::payload)

def decodeTyped (buf : List UInt8) : Except String (Option (UInt8 × List UInt8 × ℕ)) :=
  match decodeFrame buf with
  | .error e => .error e
  | .ok none => .ok none
  | .ok (some ([],_)) => .error (codecError "empty frame body")
  | .ok (some (tag::payload,consumed)) => .ok (some (tag,payload,consumed))

theorem encodeFrame_of_le {payload} (h : payload.length ≤ maxFrameSize) :
    encodeFrame payload=.ok (beBytes lengthPrefixSize payload.length++payload) := by
  unfold encodeFrame
  exact if_neg (by omega)

theorem decodeFrame_encodeFrame (payload rest : List UInt8) (h : payload.length ≤ maxFrameSize) :
    decodeFrame (beBytes lengthPrefixSize payload.length++payload++rest)=
      .ok (some (payload,lengthPrefixSize+payload.length)) := by
  have hlen : (beBytes lengthPrefixSize payload.length).length=lengthPrefixSize :=
    length_beBytes lengthPrefixSize payload.length
  have htake : (beBytes lengthPrefixSize payload.length++payload++rest).take lengthPrefixSize=
      beBytes lengthPrefixSize payload.length := by
    rw [List.append_assoc,List.take_append_of_le_length (by omega),List.take_of_length_le (by omega)]
  have hvalue : beValue (beBytes lengthPrefixSize payload.length)=payload.length := by
    rw [beValue_beBytes]
    apply Nat.mod_eq_of_lt
    unfold maxFrameSize at h
    unfold lengthPrefixSize
    omega
  have htotal : (beBytes lengthPrefixSize payload.length++payload++rest).take
      (lengthPrefixSize+payload.length)=beBytes lengthPrefixSize payload.length++payload := by
    apply List.take_left'
    rw [List.length_append,hlen]
  have hdrop : (beBytes lengthPrefixSize payload.length++payload).drop lengthPrefixSize=
      payload := List.drop_left' hlen
  unfold decodeFrame
  simp only [htake,hvalue,htotal,hdrop]
  rw [if_neg (by simp only [List.length_append]; omega),if_neg (by omega),
    if_neg (by simp only [List.length_append]; omega)]

theorem decodeTyped_encodeTyped {tag} (payload frame rest : List UInt8)
    (h : encodeTyped tag payload=.ok frame) :
    decodeTyped (frame++rest)=.ok (some (tag,payload,frame.length)) := by
  unfold encodeTyped at h
  by_cases hlen : (tag::payload).length ≤ maxFrameSize
  · rw [encodeFrame_of_le hlen,Except.ok.injEq] at h
    subst h
    simp only [decodeTyped,decodeFrame_encodeFrame (tag::payload) rest hlen,List.length_append,
      length_beBytes]
  · unfold encodeFrame at h
    simp only [gt_iff_lt,show maxFrameSize<(tag::payload).length by omega,if_true] at h
    cases h

end OriginTools.Channel
