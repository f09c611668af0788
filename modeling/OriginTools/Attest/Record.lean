import OriginTools.Foundation.Framing
import OriginTools.Vcs.Object

/-!
# Attestation records and the bytes their signatures cover

Capability claims, endorsements and revocation records.
-/

namespace OriginTools.Attest
open Vcs (utf8 utf8_injective utf8_append hexDecode)

abbrev Bytes := List UInt8

structure Digest where
  bytes : Bytes
  size : bytes.length=32
  deriving DecidableEq

theorem Digest.eq_of_bytes {d e : Digest} (h : d.bytes=e.bytes) : d=e := by
  cases d
  cases e
  simp_all

structure AttestSdk where
  sha3 : Bytes → Digest
  verifyWithPubkey : Bytes → Bytes → Bytes → Bool

def be32 (x : UInt32) : Bytes := beBytes 4 x.toNat
def be64 (x : UInt64) : Bytes := beBytes 8 x.toNat
def beInt64 (x : Int64) : Bytes := be64 x.toUInt64

theorem be32_injective : Function.Injective be32 := by
  intro x y h
  have hval:=congrArg beValue h
  rw [be32,be32,beValue_beBytes,beValue_beBytes] at hval
  have hx:=x.toNat_lt
  have hy:=y.toNat_lt
  apply UInt32.toNat_inj.1
  norm_num at hval hx hy
  omega

theorem be64_injective : Function.Injective be64 := by
  intro x y h
  have hval:=congrArg beValue h
  rw [be64,be64,beValue_beBytes,beValue_beBytes] at hval
  have hx:=x.toNat_lt
  have hy:=y.toNat_lt
  apply UInt64.toNat_inj.1
  norm_num at hval hx hy
  omega

theorem beInt64_injective : Function.Injective beInt64 := by
  intro x y h
  have hbits : x.toUInt64=y.toUInt64 := be64_injective h
  cases x
  cases y
  exact congrArg Int64.ofUInt64 hbits

structure ClaimBody where
  fingerprint : String
  falconPk : String
  epoch : UInt32
  capabilities : List String
  timestamp : Int64
  expires : Int64

structure CapabilityClaim extends ClaimBody where
  falconSignature : Bytes

def ClaimBody.fields (c : ClaimBody) : List Bytes :=
  [utf8 c.fingerprint,utf8 c.falconPk,be32 c.epoch]++
    c.capabilities.map (fun cap => utf8 cap++[0])++[beInt64 c.timestamp,beInt64 c.expires]

def ClaimBody.signableBytes (c : ClaimBody) : Bytes :=
  utf8 c.fingerprint++utf8 c.falconPk++be32 c.epoch++
    c.capabilities.flatMap (fun cap => utf8 cap++[0])++beInt64 c.timestamp++
    beInt64 c.expires

def CapabilityClaim.verifySignature (sdk : AttestSdk) (c : CapabilityClaim) : Bool :=
  match hexDecode c.falconPk with
  | .ok pk => sdk.verifyWithPubkey pk c.signableBytes c.falconSignature
  | .error _ => false

theorem ClaimBody.signableBytes_eq (c : ClaimBody) :
    c.signableBytes=Framing.message ClaimBody.fields c := by
  simp [ClaimBody.signableBytes,Framing.message,ClaimBody.fields,List.flatMap_def]

theorem capabilityField_injective : Function.Injective fun cap : String => utf8 cap++[0] := by
  intro a b h
  exact utf8_injective (List.append_cancel_right h)

theorem ClaimBody.fields_injective : Function.Injective ClaimBody.fields := by
  intro c d h
  unfold ClaimBody.fields at h
  simp only [List.cons_append,List.nil_append,List.cons.injEq] at h
  obtain ⟨hfingerprint,hpk,hepoch,hrest⟩ := h
  have hlen:=congrArg List.length hrest
  simp only [List.length_append,List.length_map,List.length_cons,List.length_nil] at hlen
  obtain ⟨hcaps,htimes⟩ := List.append_inj hrest (by simp only [List.length_map]; omega)
  simp only [List.cons.injEq,and_true] at htimes
  have hfingerprint:=utf8_injective hfingerprint
  have hpk:=utf8_injective hpk
  have hepoch:=be32_injective hepoch
  have hcaps:=(List.map_injective_iff.2 capabilityField_injective) hcaps
  have htimestamp:=beInt64_injective htimes.1
  have hexpires:=beInt64_injective htimes.2
  cases c
  cases d
  simp_all

inductive EndorsementTier where
  | tier1
  | tier2
  deriving DecidableEq

def EndorsementTier.asU8 : EndorsementTier → UInt8
  | .tier1 => 1
  | .tier2 => 2

theorem EndorsementTier.asU8_injective : Function.Injective EndorsementTier.asU8 := by
  intro s t h
  cases s <;> cases t <;> first | rfl | exact absurd h (by decide)

structure EndorsementBody where
  tier : EndorsementTier
  endorserFp : String
  endorseeFp : String
  capabilityDomain : String
  confidence : UInt64
  context : String
  timestamp : Int64
  validUntil : Int64
  prevHash : Digest
  nonce : UInt64
  revocation : Bool
  supersedes : Option Digest
  deriving DecidableEq

structure Endorsement extends EndorsementBody where
  falconSignature : Bytes
  deriving DecidableEq

def supersedesBytes : Option Digest → Bytes
  | some s => s.bytes
  | none => []

def EndorsementBody.fields (e : EndorsementBody) : List Bytes :=
  [[e.tier.asU8],utf8 e.endorserFp,utf8 e.endorseeFp,utf8 e.capabilityDomain,
    be64 e.confidence,utf8 e.context,beInt64 e.timestamp,beInt64 e.validUntil,
    e.prevHash.bytes,be64 e.nonce,[e.revocation.toUInt8],supersedesBytes e.supersedes]

def EndorsementBody.signableBytes (e : EndorsementBody) : Bytes :=
  [e.tier.asU8]++utf8 e.endorserFp++utf8 e.endorseeFp++utf8 e.capabilityDomain++
    be64 e.confidence++utf8 e.context++beInt64 e.timestamp++beInt64 e.validUntil++
    e.prevHash.bytes++be64 e.nonce++[e.revocation.toUInt8]++supersedesBytes e.supersedes

def EndorsementBody.hash (sdk : AttestSdk) (e : EndorsementBody) : Digest :=
  sdk.sha3 e.signableBytes

def EndorsementBody.isExpired (e : EndorsementBody) (now : Int64) : Bool :=
  e.validUntil != 0&&decide (now>e.validUntil)

def EndorsementBody.isValid (e : EndorsementBody) (now : Int64) : Bool :=
  !e.revocation && !e.isExpired now

def Endorsement.verifySignature (sdk : AttestSdk) (e : Endorsement) (endorserPkHex : String) :
    Bool :=
  match hexDecode endorserPkHex with
  | .ok pk => sdk.verifyWithPubkey pk e.signableBytes e.falconSignature
  | .error _ => false

theorem EndorsementBody.signableBytes_eq (e : EndorsementBody) :
    e.signableBytes=Framing.message EndorsementBody.fields e := by
  simp [EndorsementBody.signableBytes,Framing.message,EndorsementBody.fields]

theorem supersedesBytes_injective : Function.Injective supersedesBytes := by
  intro s t h
  cases s with
  | none =>
    rcases t with _ | t
    · rfl
    have hsize:=t.size
    rw [← show supersedesBytes (some t)=t.bytes from rfl,← h] at hsize
    cases hsize
  | some s =>
    cases t with
    | none =>
      have hsize:=s.size
      rw [← show supersedesBytes (some s)=s.bytes from rfl,h] at hsize
      cases hsize
    | some t => rw [Digest.eq_of_bytes h]

theorem boolByte_injective : Function.Injective Bool.toUInt8 := by
  intro a b h
  cases a <;> cases b <;> first | rfl | exact absurd h (by decide)

theorem EndorsementBody.fields_injective : Function.Injective EndorsementBody.fields := by
  intro e f h
  unfold EndorsementBody.fields at h
  simp only [List.cons.injEq,and_true] at h
  obtain ⟨htier,hendorser,hendorsee,hdomain,hconfidence,hcontext,htimestamp,hvalid,hprev,
    hnonce,hrevocation,hsupersedes⟩ := h
  have htier:=EndorsementTier.asU8_injective htier
  have hendorser:=utf8_injective hendorser
  have hendorsee:=utf8_injective hendorsee
  have hdomain:=utf8_injective hdomain
  have hconfidence:=be64_injective hconfidence
  have hcontext:=utf8_injective hcontext
  have htimestamp:=beInt64_injective htimestamp
  have hvalid:=beInt64_injective hvalid
  have hprev:=Digest.eq_of_bytes hprev
  have hnonce:=be64_injective hnonce
  have hrevocation:=boolByte_injective hrevocation
  have hsupersedes:=supersedesBytes_injective hsupersedes
  cases e
  cases f
  simp_all

structure RevocationBody where
  targetHash : Digest
  revokedBy : String
  reason : String
  timestamp : Int64
  prevHash : Digest

def RevocationBody.fields (r : RevocationBody) : List Bytes :=
  [r.targetHash.bytes,utf8 r.revokedBy,utf8 r.reason,beInt64 r.timestamp,r.prevHash.bytes]

def RevocationBody.signableBytes (r : RevocationBody) : Bytes :=
  r.targetHash.bytes++utf8 r.revokedBy++utf8 r.reason++beInt64 r.timestamp++r.prevHash.bytes

theorem RevocationBody.signableBytes_eq (r : RevocationBody) :
    r.signableBytes=Framing.message RevocationBody.fields r := by
  simp [RevocationBody.signableBytes,Framing.message,RevocationBody.fields]

theorem RevocationBody.fields_injective : Function.Injective RevocationBody.fields := by
  intro r s h
  unfold RevocationBody.fields at h
  simp only [List.cons.injEq,and_true] at h
  obtain ⟨htarget,hrevokedBy,hreason,htimestamp,hprev⟩ := h
  have htarget:=Digest.eq_of_bytes htarget
  have hrevokedBy:=utf8_injective hrevokedBy
  have hreason:=utf8_injective hreason
  have htimestamp:=beInt64_injective htimestamp
  have hprev:=Digest.eq_of_bytes hprev
  cases r
  cases s
  simp_all

theorem signable_bytes_same_statement_iff (e f : EndorsementBody) (r s : RevocationBody)
    (c d : ClaimBody) :
    (e.signableBytes=f.signableBytes →
        (e=f ↔ Framing.frame EndorsementBody.fields e=Framing.frame EndorsementBody.fields f)) ∧
      (r.signableBytes=s.signableBytes →
        (r=s ↔ Framing.frame RevocationBody.fields r=Framing.frame RevocationBody.fields s)) ∧
      (c.signableBytes=d.signableBytes →
        (c=d ↔ Framing.frame ClaimBody.fields c=Framing.frame ClaimBody.fields d)) := by
  refine ⟨?_,?_,?_⟩
  · intro h
    rw [e.signableBytes_eq,f.signableBytes_eq] at h
    exact Framing.eq_iff_frame_eq (fun hf => EndorsementBody.fields_injective hf) h
  · intro h
    rw [r.signableBytes_eq,s.signableBytes_eq] at h
    exact Framing.eq_iff_frame_eq (fun hf => RevocationBody.fields_injective hf) h
  · intro h
    rw [c.signableBytes_eq,d.signableBytes_eq] at h
    exact Framing.eq_iff_frame_eq (fun hf => ClaimBody.fields_injective hf) h

namespace Sample

def zeroDigest : Digest := ⟨List.replicate 32 0,rfl⟩

def endorsementOf (endorsee domain : String) : Endorsement where
  tier := .tier2
  endorserFp := "ab"
  endorseeFp := endorsee
  capabilityDomain := domain
  confidence := 0
  context := ""
  timestamp := 0
  validUntil := 0
  prevHash := zeroDigest
  nonce := 0
  revocation := false
  supersedes := none
  falconSignature := []

def revocationOf (revokedBy reason : String) : RevocationBody where
  targetHash := zeroDigest
  revokedBy := revokedBy
  reason := reason
  timestamp := 0
  prevHash := zeroDigest

def claimOf (capabilities : List String) : CapabilityClaim where
  fingerprint := "ab"
  falconPk := "cd"
  epoch := 0
  capabilities := capabilities
  timestamp := 0
  expires := 0
  falconSignature := []

end Sample
open Sample

theorem signable_bytes_same_statement_vouch : (endorsementOf "cd" "review").toEndorsementBody=
      { endorsementOf "cd" "review" with falconSignature := [1] }.toEndorsementBody :=
  ((signable_bytes_same_statement_iff _ _ (revocationOf "ab" "cd")
    (revocationOf "ab" "cd") (claimOf []).toClaimBody
    (claimOf []).toClaimBody).1 rfl).2 rfl

/-- A vouch for `cd` in the domain `review` is one for `cdre` in the domain `view`, a
reason can be taken for a part of the revoker, and one capability for two; every
signature of the one record verifies for the other. -/
theorem signable_bytes_reread : ((endorsementOf "cd" "review").signableBytes=
        (endorsementOf "cdre" "view").signableBytes ∧
      (∀ sdk pk,(endorsementOf "cd" "review").verifySignature sdk pk=
        (endorsementOf "cdre" "view").verifySignature sdk pk) ∧
      (endorsementOf "cd" "review").toEndorsementBody≠
        (endorsementOf "cdre" "view").toEndorsementBody) ∧
      ((revocationOf "ab" "cd").signableBytes=(revocationOf "abc" "d").signableBytes ∧
        revocationOf "ab" "cd"≠revocationOf "abc" "d") ∧
      (claimOf ["read\x00write"]).signableBytes=(claimOf ["read","write"]).signableBytes ∧
        (∀ sdk,(claimOf ["read\x00write"]).verifySignature sdk=
          (claimOf ["read","write"]).verifySignature sdk) ∧
        (claimOf ["read\x00write"]).toClaimBody≠(claimOf ["read","write"]).toClaimBody := by
  have hvouch : (endorsementOf "cd" "review").signableBytes=
      (endorsementOf "cdre" "view").signableBytes := by decide +kernel
  have hclaim : (claimOf ["read\x00write"]).signableBytes=
      (claimOf ["read","write"]).signableBytes := by decide +kernel
  refine ⟨⟨hvouch,?_,?_⟩,⟨by decide +kernel,?_⟩,hclaim,?_,?_⟩
  · intro sdk pk
    simp only [Endorsement.verifySignature,hvouch]
    rfl
  · intro h
    have hendorsee : "cd" = "cdre" := congrArg EndorsementBody.endorseeFp h
    exact absurd hendorsee (by decide)
  · intro h
    have hreason : "cd" = "d" := congrArg RevocationBody.reason h
    exact absurd hreason (by decide)
  · intro sdk
    simp only [CapabilityClaim.verifySignature,hclaim]
    rfl
  · intro h
    have hcaps : ["read\x00write"]=["read","write"] := congrArg ClaimBody.capabilities h
    exact absurd hcaps (by decide)

end OriginTools.Attest
