import OriginTools.Network.Identity
import OriginTools.Channel.Session
import OriginTools.Network.Replay

/-!
# Authentication of a connecting party

The responder side of `Endpoint::drive` (`origin-network/src/session.rs`) and
`RelayServer::authenticate` (`relay_server.rs`).
-/

namespace OriginTools.Network
open OriginTools.Channel

/-- What the other side sends, what a receive gives once that has run out, and which of our
own sends fail. -/
structure Link where
  frames : List (UInt8 × List UInt8)
  closed : NetworkError
  sendError : ℕ → Option NetworkError

def Link.recv (link : Link) (k : ℕ) : Except NetworkError (UInt8 × List UInt8) :=
  match link.frames[k]? with
  | none => .error link.closed
  | some frame => .ok frame

def Link.send (link : Link) (k : ℕ) : Except NetworkError Unit :=
  match link.sendError k with
  | none => .ok ()
  | some e => .error e

structure DriverSdk (Secret : Type) where
  dh : DhSdk Secret
  identity : IdentitySdk
  payloads : PayloadDecoder
  ratchetHkdf : Bytes32 → Except String (Bytes32 × Bytes32 × Bytes32)

def initRatchet {Secret : Type} (sdk : DriverSdk Secret) (sharedSecret : Bytes32)
    (isInitiator : Bool) : Except ChannelError (RatchetKeys Bytes32) :=
  match sdk.ratchetHkdf sharedSecret with
  | .error e => .error (.key s!"ratchet init HKDF failed: {e}")
  | .ok (root,chainA,chainB) =>
    .ok (if isInitiator then ⟨root,chainA,chainB⟩ else ⟨root,chainB,chainA⟩)

def asHandshake {α : Type} (r : Except ChannelError α) : Except NetworkError α :=
  r.mapError fun e => .handshake e.toText

def reassemble (body : List UInt8) (tag : UInt8) : List UInt8 := tag::body
def transcriptDomain : List UInt8 := "origin-network:transcript:v1".toUTF8.toList

def handshakeTranscript (sdk : IdentitySdk) (msg1 msg2 msg3 : List UInt8) : List UInt8 :=
  (sdk.sha3 (transcriptDomain++msg1++msg2++msg3)).toList

def staticKey? (msg1 : HandshakeMessage) : Option Bytes32 := bytes32? (msg1.payload.take 32)

/-- The handshake from the first message on, as both drivers run it: the finished state and
the transcript. -/
def exchange {Secret : Type} (sdk : DriverSdk Secret) (link : Link) (staticSecret : Secret)
    (initiatorStatic : Bytes32) (msg1 : HandshakeMessage) (generated : Except String Secret) :
    Except NetworkError (Handshake Secret × List UInt8) := do
  let hs:=Handshake.new staticSecret initiatorStatic false
  let answered:=hs.processMsg1 sdk.dh msg1 generated
  let msg2 ← asHandshake answered.1
  let msg2:={ msg2 with payload := msg2.payload++(sdk.dh.publicKey staticSecret).toList }
  link.send 0
  let frame3 ← link.recv 1
  let msg3 ← asHandshake (HandshakeMessage.fromBytes (reassemble frame3.2 0x03))
  let finished:=answered.2.processMsg3 msg3
  asHandshake finished.1
  .ok (finished.2,handshakeTranscript sdk.identity msg1.toBytes msg2.toBytes msg3.toBytes)

structure Endpoint (Secret : Type) where
  staticSecret : Secret
  fingerprint : Fingerprint
  resolver : Fingerprint → Option PeerKeys

structure SecurePipe where
  session : RatchetedSession Bytes32
  peer : Fingerprint
  isInitiator : Bool

namespace Endpoint
variable {Secret : Type}

/-- The claim is checked after the shared secret is derived; a refusal is also sent to the
other side, whether or not that send succeeds. -/
def acceptClaim (sdk : DriverSdk Secret) (ep : Endpoint Secret) (link : Link)
    (transcript : List UInt8) : Except NetworkError Fingerprint := do
  let frame ← link.recv 2
  if frame.1≠WireType.authClaim.toU8 then .error (.auth "expected AUTH claim")
  else
    let claim ← decodePayload sdk.payloads.authClaim frame.2
    match ep.resolver ⟨claim.fingerprint⟩ with
    | none => .error (.auth "unknown peer")
    | some keys =>
      let registered ← keys.transportPkBytes
      if claim.x25519Pk≠registered then
        .error (.auth "claimed key does not match handshake key")
      else
        verifyAuthClaim sdk.identity keys claim ep.fingerprint transcript
        link.send 1
        .ok ⟨claim.fingerprint⟩

def respondTo (sdk : DriverSdk Secret) (ep : Endpoint Secret) (generated : Except String Secret)
    (link : Link) (msg1 : HandshakeMessage) : Except NetworkError SecurePipe :=
  match staticKey? msg1 with
  | none => .error (.handshake "msg1 payload missing initiator static key")
  | some initiatorStatic => do
    let exchanged ← exchange sdk link ep.staticSecret initiatorStatic msg1 generated
    if exchanged.1.step<3 then .error (.handshake "handshake incomplete")
    else
      let agreed ← asHandshake (exchanged.1.finalize sdk.dh)
      let peer ← ep.acceptClaim sdk link exchanged.2
      let keys ← (initRatchet sdk agreed.1 false).mapError fun e => .channel e.toText
      .ok ⟨RatchetedSession.new keys {},peer,false⟩

/-- The responder branch of `drive`: the message is parsed before the replay check. -/
def driveResponder (sdk : DriverSdk Secret) (ep : Endpoint Secret)
    (tracker : HandshakeReplayTracker) (generated : Except String Secret) (link : Link) :
    Except NetworkError SecurePipe × HandshakeReplayTracker :=
  match link.recv 0 with
  | .error e => (.error e,tracker)
  | .ok frame1 =>
    match asHandshake (HandshakeMessage.fromBytes (reassemble frame1.2 0x01)) with
    | .error e => (.error e,tracker)
    | .ok msg1 =>
      let tracked:=tracker.checkAndTrack frame1.2
      if !tracked.1 then (.error (.handshake "handshake replay detected"),tracked.2)
      else (ep.respondTo sdk generated link msg1,tracked.2)

/-- A refusal of the relay: when the reject frame cannot be sent, that error is returned. -/
def reject {α : Type} (link : Link) (e : NetworkError) : Except NetworkError α := do
  link.send 1
  .error e

def relayAcceptClaim (sdk : DriverSdk Secret) (relay : Endpoint Secret)
    (eviction : Finset Fingerprint) (link : Link) (transcript : List UInt8) :
    Except NetworkError Fingerprint := do
  let frame ← link.recv 2
  if frame.1≠WireType.authClaim.toU8 then reject link (.auth "expected AUTH claim")
  else
    let claim ← decodePayload sdk.payloads.authClaim frame.2
    match relay.resolver ⟨claim.fingerprint⟩ with
    | none => reject link (.auth "unknown peer")
    | some keys =>
      let registered ← keys.transportPkBytes
      if claim.x25519Pk≠registered then
        reject link (.auth "claimed key does not match handshake key")
      else if (⟨claim.fingerprint⟩ : Fingerprint)∈eviction then
        reject link (.evicted (Fingerprint.toHex ⟨claim.fingerprint⟩))
      else
        match verifyAuthClaim sdk.identity keys claim relay.fingerprint transcript with
        | .error e => reject link e
        | .ok () => .ok ⟨claim.fingerprint⟩

def relayRespondTo (sdk : DriverSdk Secret) (relay : Endpoint Secret)
    (eviction : Finset Fingerprint) (generated : Except String Secret) (link : Link)
    (msg1 : HandshakeMessage) : Except NetworkError Fingerprint :=
  match staticKey? msg1 with
  | none => .error (.handshake "msg1 missing static key")
  | some initiatorStatic => do
    let exchanged ← exchange sdk link relay.staticSecret initiatorStatic msg1 generated
    relay.relayAcceptClaim sdk eviction link exchanged.2

/-- `RelayServer::authenticate`: the replay check comes first, and the shared secret is never
derived. -/
def authenticate (sdk : DriverSdk Secret) (relay : Endpoint Secret)
    (eviction : Finset Fingerprint) (tracker : HandshakeReplayTracker)
    (generated : Except String Secret) (link : Link) :
    Except NetworkError Fingerprint × HandshakeReplayTracker :=
  match link.recv 0 with
  | .error e => (.error e,tracker)
  | .ok frame1 =>
    let tracked:=tracker.checkAndTrack frame1.2
    if !tracked.1 then (.error (.handshake "handshake replay detected"),tracked.2)
    else
      match asHandshake (HandshakeMessage.fromBytes (reassemble frame1.2 0x01)) with
      | .error e => (.error e,tracked.2)
      | .ok msg1 => (relay.relayRespondTo sdk eviction generated link msg1,tracked.2)

end Endpoint

def Link.initiatorStatic (link : Link) : Option Bytes32 :=
  link.frames[0]?.bind fun frame =>
    (HandshakeMessage.fromBytes (reassemble frame.2 0x01)).toOption.bind staticKey?

def Link.claimedKey (payloads : PayloadDecoder) (link : Link) : Option Bytes32 :=
  link.frames[2]?.bind fun frame => (payloads.authClaim frame.2).toOption.map (·.x25519Pk)

def registeredKey (resolver : Fingerprint → Option PeerKeys) (fp : Fingerprint) : Option Bytes32 :=
  (resolver fp).bind fun keys => bytes32? keys.transportPk

variable {link : Link} {frame : UInt8 × List UInt8}

theorem recv_ok {k} (h : link.recv k=.ok frame) : link.frames[k]? = some frame := by
  unfold Link.recv at h
  split at h
  · cases h
  case h_2 found hfound =>
    cases h
    exact hfound

theorem transportPkBytes_ok {keys : PeerKeys} {pk} (h : keys.transportPkBytes=.ok pk) :
    bytes32? keys.transportPk=some pk := by
  unfold PeerKeys.transportPkBytes at h
  split at h
  · cases h
  case h_2 found hfound =>
    cases h
    exact hfound

theorem claimedKey_of_frame {payloads claim} (hframe : link.recv 2=.ok frame)
    (hclaim : decodePayload payloads.authClaim frame.2=.ok claim) :
    link.claimedKey payloads=some claim.x25519Pk := by
  have hdecoded : payloads.authClaim frame.2=.ok claim := mapError_ok hclaim
  simp only [Link.claimedKey,recv_ok hframe,Option.bind_some,hdecoded,Except.toOption,
    Option.map_some]

theorem initiatorStatic_of_frame {msg1 key} (hframe : link.recv 0=.ok frame)
    (hmsg1 : asHandshake (HandshakeMessage.fromBytes (reassemble frame.2 0x01))=.ok msg1)
    (hkey : staticKey? msg1=some key) : link.initiatorStatic=some key := by
  have hparsed : HandshakeMessage.fromBytes (reassemble frame.2 0x01)=.ok msg1 := mapError_ok hmsg1
  simp only [Link.initiatorStatic,recv_ok hframe,Option.bind_some,hparsed,Except.toOption,hkey]

theorem exchange_peerStatic {Secret : Type} {sdk staticSecret key msg1 generated}
    {hs : Handshake Secret} {transcript}
    (h : exchange sdk link staticSecret key msg1 generated=.ok (hs,transcript)) :
    hs.peerStaticPk=some key := by
  unfold exchange at h
  obtain ⟨msg2,hmsg2,h⟩ := bind_eq_ok h
  obtain ⟨_,_,h⟩ := bind_eq_ok h
  obtain ⟨frame3,_,h⟩ := bind_eq_ok h
  obtain ⟨msg3,_,h⟩ := bind_eq_ok h
  obtain ⟨_,hfinished,h⟩ := bind_eq_ok h
  have hstate:=congrArg Prod.fst (Except.ok.inj h)
  simp only at hstate
  rw [← hstate]
  have hstep3 : ∀ (hs : Handshake Secret) (msg : HandshakeMessage),
      (hs.processMsg3 msg).2.peerStaticPk=hs.peerStaticPk := by
    intro hs msg
    unfold Handshake.processMsg3
    split
    · rfl
    · split
      · rfl
      · rfl
  have hstep1 : ∀ (hs : Handshake Secret),
      (hs.processMsg1 sdk.dh msg1 generated).2.peerStaticPk=hs.peerStaticPk := by
    intro hs
    unfold Handshake.processMsg1
    split
    · rfl
    · split
      · rfl
      · simp only
        split
        · rfl
        · rfl
  rw [hstep3,hstep1]
  rfl

namespace Endpoint
variable {Secret : Type}
variable {sdk : DriverSdk Secret} {link : Link} {fp : Fingerprint}

theorem acceptClaim_ok {ep : Endpoint Secret} {transcript}
    (h : ep.acceptClaim sdk link transcript=.ok fp) :
    link.claimedKey sdk.payloads=registeredKey ep.resolver fp := by
  unfold acceptClaim at h
  obtain ⟨frame,hframe,h⟩ := bind_eq_ok h
  split at h
  · cases h
  · obtain ⟨claim,hclaim,h⟩ := bind_eq_ok h
    split at h
    · cases h
    case h_2 keys hkeys =>
      obtain ⟨registered,hregistered,h⟩ := bind_eq_ok h
      split at h
      · cases h
      case isFalse heq =>
        obtain ⟨_,_,h⟩ := bind_eq_ok h
        obtain ⟨_,_,h⟩ := bind_eq_ok h
        cases h
        rw [not_not] at heq
        rw [claimedKey_of_frame hframe hclaim,heq]
        simp only [registeredKey,hkeys,Option.bind_some,transportPkBytes_ok hregistered]

theorem reject_ne_ok {α : Type} {e : NetworkError} {a : α} (h : reject link e=.ok a) : False := by
  unfold reject at h
  obtain ⟨_,_,h⟩ := bind_eq_ok h
  cases h

theorem relayAcceptClaim_ok {relay : Endpoint Secret} {eviction transcript}
    (h : relay.relayAcceptClaim sdk eviction link transcript=.ok fp) :
    link.claimedKey sdk.payloads=registeredKey relay.resolver fp := by
  unfold relayAcceptClaim at h
  obtain ⟨frame,hframe,h⟩ := bind_eq_ok h
  split at h
  · exact (reject_ne_ok h).elim
  · obtain ⟨claim,hclaim,h⟩ := bind_eq_ok h
    split at h
    · exact (reject_ne_ok h).elim
    case h_2 keys hkeys =>
      obtain ⟨registered,hregistered,h⟩ := bind_eq_ok h
      split at h
      · exact (reject_ne_ok h).elim
      case isFalse heq =>
        split at h
        · exact (reject_ne_ok h).elim
        · split at h
          · exact (reject_ne_ok h).elim
          · cases h
            rw [not_not] at heq
            rw [claimedKey_of_frame hframe hclaim,heq]
            simp only [registeredKey,hkeys,Option.bind_some,transportPkBytes_ok hregistered]

/-- The key of the first message went into a finished handshake with this endpoint. -/
def Agreed (sdk : DriverSdk Secret) (ep : Endpoint Secret) (generated : Except String Secret)
    (link : Link) (key : Bytes32) : Prop :=
  ∃ msg1 hs transcript,exchange sdk link ep.staticSecret key msg1 generated=.ok (hs,transcript) ∧
    staticKey? msg1=some key ∧ hs.peerStaticPk=some key

theorem driveResponder_ok {ep : Endpoint Secret} {tracker generated} {pipe : SecurePipe}
    (h : (ep.driveResponder sdk tracker generated link).1=.ok pipe) :
    ∃ key,link.initiatorStatic=some key ∧ ep.Agreed sdk generated link key ∧
      link.claimedKey sdk.payloads=registeredKey ep.resolver pipe.peer := by
  unfold driveResponder at h
  split at h
  · cases h
  case h_2 frame1 hframe1 =>
    split at h
    · cases h
    case h_2 msg1 hmsg1 =>
      simp only at h
      split at h
      · cases h
      · unfold respondTo at h
        simp only at h
        split at h
        · cases h
        case h_2 key hkey =>
          obtain ⟨⟨hs,transcript⟩,hexchange,h⟩ := bind_eq_ok h
          split at h
          · cases h
          · obtain ⟨agreed,_,h⟩ := bind_eq_ok h
            obtain ⟨peer,hpeer,h⟩ := bind_eq_ok h
            obtain ⟨keys,_,h⟩ := bind_eq_ok h
            cases h
            exact ⟨key,initiatorStatic_of_frame hframe1 hmsg1 hkey,
              ⟨msg1,hs,transcript,hexchange,hkey,exchange_peerStatic hexchange⟩,
              acceptClaim_ok hpeer⟩

theorem authenticate_ok {relay : Endpoint Secret} {eviction tracker generated}
    (h : (relay.authenticate sdk eviction tracker generated link).1=.ok fp) :
    ∃ key,link.initiatorStatic=some key ∧ relay.Agreed sdk generated link key ∧
      link.claimedKey sdk.payloads=registeredKey relay.resolver fp := by
  unfold authenticate at h
  split at h
  · cases h
  case h_2 frame1 hframe1 =>
    simp only at h
    split at h
    · cases h
    · split at h
      · cases h
      case h_2 msg1 hmsg1 =>
        simp only [relayRespondTo] at h
        split at h
        · cases h
        case h_2 key hkey =>
          obtain ⟨⟨hs,transcript⟩,hexchange,h⟩ := bind_eq_ok h
          exact ⟨key,initiatorStatic_of_frame hframe1 hmsg1 hkey,
            ⟨msg1,hs,transcript,hexchange,hkey,exchange_peerStatic hexchange⟩,
            relayAcceptClaim_ok h⟩

theorem registered_key_used_iff (sdk : DriverSdk Secret) (self : Endpoint Secret)
    (eviction : Finset Fingerprint) (tracker : HandshakeReplayTracker)
    (generated : Except String Secret) (link : Link) (fp : Fingerprint)
    (haccepted : (∃ pipe,(self.driveResponder sdk tracker generated link).1=.ok pipe ∧
        pipe.peer=fp) ∨
      (self.authenticate sdk eviction tracker generated link).1=.ok fp) :
    ∃ key,link.initiatorStatic=some key ∧ self.Agreed sdk generated link key ∧
      (registeredKey self.resolver fp=some key ↔ link.claimedKey sdk.payloads=some key) := by
  have hkey : ∃ key,link.initiatorStatic=some key ∧ self.Agreed sdk generated link key ∧
      link.claimedKey sdk.payloads=registeredKey self.resolver fp := by
    rcases haccepted with ⟨pipe,hpipe,hpeer⟩ | hrelay
    · rw [← hpeer]
      exact driveResponder_ok hpipe
    · exact authenticate_ok hrelay
  obtain ⟨key,hstatic,hagreed,hclaimed⟩ := hkey
  refine ⟨key,hstatic,hagreed,?_⟩
  rw [hclaimed]

/-! Two transport keys. A peer whose record holds the second signs a claim with it, over a
handshake in which it used one or the other. -/

def sampleKeys : DhSdk Bool where
  publicKey := fun second => List.Vector.replicate 32 (if second then 2 else 1)
  diffieHellman := fun _ peer => .ok peer
  hkdf := fun _ _ => .ok (List.Vector.replicate 32 0)
  sha3 := fun _ => List.Vector.replicate 32 0

def samplePeer : Fingerprint := ⟨List.Vector.replicate 32 7⟩

def sampleDriver : DriverSdk Bool where
  dh := sampleKeys
  identity :=
    { sha3 := fun _ => List.Vector.replicate 32 0
      ed25519Key := fun _ => .ok ()
      falconKey := fun _ => .ok ()
      ed25519Signature := fun _ => .ok ()
      falconSignature := fun _ => .ok ()
      falconSigMax := 1462
      verifyHybrid := fun _ _ _ _ _ => true }
  payloads :=
    { PayloadDecoder.refusing with
      authClaim := fun _ =>
        .ok ⟨samplePeer.bytes,sampleKeys.publicKey true,List.replicate 68 0,1,
          List.Vector.replicate 16 0⟩ }
  ratchetHkdf := fun secret => .ok (secret,secret,secret)

def sampleRecord : PeerKeys where
  fingerprint := samplePeer.bytes
  deviceIndex := 0
  ed25519Pk := List.replicate 32 0
  falconPk := []
  transportPk := (sampleKeys.publicKey true).toList

def sampleEndpoint : Endpoint Bool where
  staticSecret := true
  fingerprint := ⟨List.Vector.replicate 32 9⟩
  resolver := fun fp => if fp=samplePeer then some sampleRecord else none

def sampleLink (handshakeKey : Bool) : Link where
  frames :=
    [(0x01,List.replicate 32 0++(sampleKeys.publicKey handshakeKey).toList),
      (0x03,List.replicate 32 0),(0x40,[])]
  closed := .transport "closed"
  sendError := fun _ => none

theorem sampleLink_accepted (handshakeKey : Bool) :
    (∃ pipe,(sampleEndpoint.driveResponder sampleDriver .new (.ok true)
        (sampleLink handshakeKey)).1=.ok pipe ∧ pipe.peer=samplePeer) ∧
      (sampleEndpoint.authenticate sampleDriver ∅ .new (.ok true)
        (sampleLink handshakeKey)).1=.ok samplePeer := by
  cases handshakeKey with
  | false | true => exact ⟨⟨_,rfl,rfl⟩,rfl⟩

theorem sampleLink_keys (handshakeKey : Bool) :
    (sampleLink handshakeKey).initiatorStatic=some (sampleKeys.publicKey handshakeKey) ∧
      registeredKey sampleEndpoint.resolver samplePeer=some (sampleKeys.publicKey true) := by
  cases handshakeKey with
  | false | true => exact ⟨rfl,rfl⟩

/-- Accepted by both drivers as the peer, with a handshake key that is not the peer's. -/
theorem foreign_handshake_key_accepted :
    (∃ pipe,(sampleEndpoint.driveResponder sampleDriver .new (.ok true)
        (sampleLink false)).1=.ok pipe ∧ pipe.peer=samplePeer) ∧
      (sampleEndpoint.authenticate sampleDriver ∅ .new (.ok true)
        (sampleLink false)).1=.ok samplePeer ∧
      (sampleLink false).initiatorStatic≠registeredKey sampleEndpoint.resolver samplePeer := by
  obtain ⟨hdrive,hrelay⟩ := sampleLink_accepted false
  obtain ⟨hstatic,hregistered⟩ := sampleLink_keys false
  refine ⟨hdrive,hrelay,?_⟩
  rw [hstatic,hregistered]
  decide

theorem own_handshake_key_accepted :
    (sampleEndpoint.authenticate sampleDriver ∅ .new (.ok true) (sampleLink true)).1=.ok samplePeer ∧
      ∃ key,(sampleLink true).initiatorStatic=some key ∧
        sampleEndpoint.Agreed sampleDriver (.ok true) (sampleLink true) key ∧
        registeredKey sampleEndpoint.resolver samplePeer=some key := by
  have hrelay:=(sampleLink_accepted true).2
  obtain ⟨key,hstatic,hagreed,hiff⟩ :=
    registered_key_used_iff sampleDriver sampleEndpoint ∅ .new (.ok true) (sampleLink true)
      samplePeer (.inr hrelay)
  refine ⟨hrelay,key,hstatic,hagreed,hiff.2 ?_⟩
  rw [← hstatic]
  rfl

end Endpoint
end OriginTools.Network
