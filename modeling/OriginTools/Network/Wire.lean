import OriginTools.Channel.Handshake

/-!
# Identities, errors and control payloads

`origin-network/src/address.rs`, `error.rs` and `wire.rs`.
-/

namespace OriginTools.Network
open OriginTools.Channel

structure Fingerprint where
  bytes : Bytes32
  deriving DecidableEq

def Fingerprint.toHex (fp : Fingerprint) : String := String.join (fp.bytes.toList.map hexByte)

inductive NetworkError where
  | address (msg : String)
  | transport (msg : String)
  | handshake (msg : String)
  | auth (msg : String)
  | rateLimited (msg : String)
  | evicted (msg : String)
  | relayFull (msg : String)
  | targetOffline (msg : String)
  | timeout (msg : String)
  | codec (msg : String)
  | serviceDenied (msg : String)
  | channel (msg : String)
  | crypto (msg : String)
  deriving DecidableEq

def NetworkError.toText : NetworkError → String
  | .address msg => s!"address: {msg}"
  | .transport msg => s!"transport: {msg}"
  | .handshake msg => s!"handshake: {msg}"
  | .auth msg => s!"auth: {msg}"
  | .rateLimited msg => s!"rate limited: {msg}"
  | .evicted msg => s!"evicted: {msg}"
  | .relayFull msg => s!"relay full: {msg}"
  | .targetOffline msg => s!"target offline: {msg}"
  | .timeout msg => s!"timeout: {msg}"
  | .codec msg => s!"codec: {msg}"
  | .serviceDenied msg => s!"service denied: {msg}"
  | .channel msg => s!"channel: {msg}"
  | .crypto msg => s!"crypto: {msg}"

inductive WireType where
  | authClaim
  | authOk
  | authReject
  | sessionOpen
  | sessionClose
  | inboxPush
  | inboxPull
  | probe
  | advertPublish
  | advertFetch
  | muxFrame
  | presenceSubscribe
  | presenceEvent
  | relayData
  | relayDataAck
  | sessionOpenAck
  | error
  deriving DecidableEq

namespace WireType

def toU8 : WireType → UInt8
  | authClaim => 0x40
  | authOk => 0x41
  | authReject => 0x42
  | sessionOpen => 0x43
  | sessionClose => 0x44
  | inboxPush => 0x45
  | inboxPull => 0x46
  | probe => 0x47
  | advertPublish => 0x48
  | advertFetch => 0x49
  | muxFrame => 0x4A
  | presenceSubscribe => 0x4B
  | presenceEvent => 0x4C
  | relayData => 0x4D
  | relayDataAck => 0x4E
  | sessionOpenAck => 0x4F
  | error => 0xF0

def fromU8 (v : UInt8) : Option WireType :=
  if v=0x40 then some authClaim
  else if v=0x41 then some authOk
  else if v=0x42 then some authReject
  else if v=0x43 then some sessionOpen
  else if v=0x44 then some sessionClose
  else if v=0x45 then some inboxPush
  else if v=0x46 then some inboxPull
  else if v=0x47 then some probe
  else if v=0x48 then some advertPublish
  else if v=0x49 then some advertFetch
  else if v=0x4A then some muxFrame
  else if v=0x4B then some presenceSubscribe
  else if v=0x4C then some presenceEvent
  else if v=0x4D then some relayData
  else if v=0x4E then some relayDataAck
  else if v=0x4F then some sessionOpenAck
  else if v=0xF0 then some error
  else none

def debugName : WireType → String
  | authClaim => "AuthClaim"
  | authOk => "AuthOk"
  | authReject => "AuthReject"
  | sessionOpen => "SessionOpen"
  | sessionClose => "SessionClose"
  | inboxPush => "InboxPush"
  | inboxPull => "InboxPull"
  | probe => "Probe"
  | advertPublish => "AdvertPublish"
  | advertFetch => "AdvertFetch"
  | muxFrame => "MuxFrame"
  | presenceSubscribe => "PresenceSubscribe"
  | presenceEvent => "PresenceEvent"
  | relayData => "RelayData"
  | relayDataAck => "RelayDataAck"
  | sessionOpenAck => "SessionOpenAck"
  | error => "Error"

end WireType

structure AuthClaim where
  fingerprint : Bytes32
  x25519Pk : Bytes32
  hybridSignature : List UInt8
  protocolVersion : UInt16
  nonce : List.Vector UInt8 16

structure SessionOpen where
  targetFp : Bytes32

structure SessionClose where
  pairId : UInt64

structure InboxPush where
  targetFp : Bytes32
  frame : List UInt8

structure Probe where
  targetFp : Bytes32

structure Advert where
  protocolVersion : UInt16
  endpoints : List String
  ttlSecs : UInt64
  presence : UInt8

structure AdvertPublish where
  advert : Advert

structure AdvertFetch where
  targetFp : Bytes32

structure PresenceSubscribe where
  targetFp : Bytes32

structure PresenceEvent where
  targetFp : Bytes32
  online : Bool

structure RelayData where
  pairId : UInt64
  seq : UInt64
  frame : List UInt8

structure PayloadDecoder where
  authClaim : List UInt8 → Except String AuthClaim
  sessionOpen : List UInt8 → Except String SessionOpen
  sessionClose : List UInt8 → Except String SessionClose
  inboxPush : List UInt8 → Except String InboxPush
  inboxPull : List UInt8 → Except String Unit
  probe : List UInt8 → Except String Probe
  advertPublish : List UInt8 → Except String AdvertPublish
  advertFetch : List UInt8 → Except String AdvertFetch
  presenceSubscribe : List UInt8 → Except String PresenceSubscribe
  relayData : List UInt8 → Except String RelayData

def PayloadDecoder.refusing : PayloadDecoder where
  authClaim := fun _ => .error "refused"
  sessionOpen := fun _ => .error "refused"
  sessionClose := fun _ => .error "refused"
  inboxPush := fun _ => .error "refused"
  inboxPull := fun _ => .error "refused"
  probe := fun _ => .error "refused"
  advertPublish := fun _ => .error "refused"
  advertFetch := fun _ => .error "refused"
  presenceSubscribe := fun _ => .error "refused"
  relayData := fun _ => .error "refused"

def decodePayload {α : Type} (decode : List UInt8 → Except String α) (body : List UInt8) :
    Except NetworkError α :=
  (decode body).mapError .codec

end OriginTools.Network
