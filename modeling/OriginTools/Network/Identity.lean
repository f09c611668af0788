import OriginTools.Network.Wire

/-!
# Identity claims

`origin-network/src/identity.rs`: the record of a peer's public keys and the check of an
authentication claim against it.
-/

namespace OriginTools.Network
open OriginTools.Channel

structure IdentitySdk where
  sha3 : List UInt8 → Bytes32
  ed25519Key : Bytes32 → Except String Unit
  falconKey : List UInt8 → Except String Unit
  ed25519Signature : List UInt8 → Except String Unit
  falconSignature : List UInt8 → Except String Unit
  falconSigMax : ℕ
  verifyHybrid : (edPk : Bytes32) → (falconPk message edSig falconSig : List UInt8) → Bool

def protocolVersion : UInt16 := 1
def sigLenPrefix : ℕ := 4
def edSigLen : ℕ := 64

structure HybridSignature where
  ed25519Sig : List UInt8
  falconSig : List UInt8

def hybridSigFromWire (sdk : IdentitySdk) (raw : List UInt8) :
    Except NetworkError HybridSignature :=
  let min:=sigLenPrefix+edSigLen
  let falconLen:=beValue (raw.take 4)
  if raw.length < min then
    .error (.auth s!"signature too short: {raw.length} bytes (min {min})")
  else if falconLen>sdk.falconSigMax then
    .error (.auth s!"falcon signature length {falconLen} exceeds max {sdk.falconSigMax}")
  else if raw.length≠min+falconLen then
    .error (.auth
      s!"signature length mismatch: header says {falconLen} falcon bytes, total {raw.length}")
  else do
    let edSig:=(raw.drop sigLenPrefix).take edSigLen
    let falconSig:=raw.drop min
    (sdk.ed25519Signature edSig).mapError fun e => .auth s!"bad ed25519 signature: {e}"
    (sdk.falconSignature falconSig).mapError fun e => .auth s!"bad falcon signature: {e}"
    .ok ⟨edSig,falconSig⟩

def authClaimDomain : List UInt8 := "origin-network:auth-claim:v1".toUTF8.toList

def authMessage (sdk : IdentitySdk) (fingerprint : Fingerprint) (x25519Pk : Bytes32)
    (nonce : List.Vector UInt8 16) (peerFp : Fingerprint) (transcript : List UInt8) :
    List UInt8 :=
  (sdk.sha3 (authClaimDomain++beBytes 2 protocolVersion.toNat++fingerprint.bytes.toList++
    x25519Pk.toList++nonce.toList++peerFp.bytes.toList++transcript)).toList

structure PeerKeys where
  fingerprint : Bytes32
  deviceIndex : ℕ
  ed25519Pk : List UInt8
  falconPk : List UInt8
  transportPk : List UInt8

def bytes32? (bytes : List UInt8) : Option Bytes32 :=
  if h : bytes.length=32 then some ⟨bytes,h⟩ else none

def PeerKeys.transportPkBytes (keys : PeerKeys) : Except NetworkError Bytes32 :=
  match bytes32? keys.transportPk with
  | none => .error (.auth "bad transport key length in peer record")
  | some pk => .ok pk

def verifyAuthClaim (sdk : IdentitySdk) (peer : PeerKeys) (claim : AuthClaim)
    (peerFp : Fingerprint) (transcript : List UInt8) : Except NetworkError Unit :=
  if claim.fingerprint≠peer.fingerprint then
    .error (.auth "fingerprint mismatch with peer record")
  else if claim.protocolVersion≠protocolVersion then
    .error (.auth s!"unsupported protocol version {claim.protocolVersion.toNat}")
  else
    match bytes32? peer.ed25519Pk with
    | none => .error (.auth "bad ed25519 public key length in peer record")
    | some edPk => do
      (sdk.ed25519Key edPk).mapError fun e => .auth s!"bad ed25519 public key: {e}"
      (sdk.falconKey peer.falconPk).mapError fun e => .auth s!"bad falcon public key: {e}"
      let sig ← hybridSigFromWire sdk claim.hybridSignature
      let message:=authMessage sdk ⟨claim.fingerprint⟩ claim.x25519Pk claim.nonce peerFp transcript
      if sdk.verifyHybrid edPk peer.falconPk message sig.ed25519Sig sig.falconSig then .ok ()
      else .error (.auth "hybrid signature verification failed")

end OriginTools.Network
