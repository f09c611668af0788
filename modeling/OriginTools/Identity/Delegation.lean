import OriginTools.Proof.Mmr

/-!
# Delegation chains

`origin-identity/src/delegation.rs` with the capability sets of `capabilities.rs`: a
chain of signed delegations is checked from a trusted root to its leaf.
-/

namespace OriginTools.Identity
open Vcs (Bytes hexDecode)
open Proof (hexEncode)

structure CapabilitySet where
  bits : UInt64
  deriving DecidableEq

namespace CapabilitySet

def all : CapabilitySet := ⟨((1 : UInt64) <<< 15)-1⟩
def intersect (s t : CapabilitySet) : CapabilitySet := ⟨s.bits &&& t.bits⟩
def fromBitsTruncate (bits : UInt64) : CapabilitySet := ⟨bits &&& all.bits⟩
def isSubsetOf (s t : CapabilitySet) : Bool := s.bits &&& ~~~t.bits==0

theorem intersect_subset_right (s t : CapabilitySet) : (s.intersect t).isSubsetOf t := by
  rw [isSubsetOf,intersect,UInt64.and_assoc,UInt64.and_not_self,UInt64.and_zero]
  rfl

theorem intersect_subset {s u : CapabilitySet} (t) (h : s.isSubsetOf u) :
    (s.intersect t).isSubsetOf u := by
  have hzero : s.bits &&& ~~~u.bits=0 := eq_of_beq h
  rw [isSubsetOf,intersect,UInt64.and_assoc,UInt64.and_comm t.bits,← UInt64.and_assoc,
    hzero,UInt64.zero_and]
  rfl

end CapabilitySet

structure DelegationAttestation where
  kind : String
  version : UInt8
  parentFingerprint : String
  childFingerprint : String
  label : String
  capabilities : UInt64
  issuedAt : UInt64
  expiresAt : UInt64
  audience : Option String
  resourceScope : Option String
  nonce : String
  deriving DecidableEq

def DelegationAttestation.capabilitySet (a : DelegationAttestation) : CapabilitySet :=
  .fromBitsTruncate a.capabilities

def DelegationAttestation.isExpired (a : DelegationAttestation) (now : UInt64) : Bool :=
  decide (a.expiresAt≤now)

structure SignedDelegation where
  attestation : DelegationAttestation
  parentFalconPk : String
  parentEd25519Pk : String
  signature : String

structure DelegationSdk where
  toVec : DelegationAttestation → Except String Bytes
  ed25519Signature : Bytes → Except String Unit
  falconSignature : Bytes → Except String Unit
  ed25519Key : Bytes → Except String Unit
  falconKey : Bytes → Except String Unit
  verifyHybrid : (edPk falconPk message edSig falconSig : Bytes) → Bool
  fingerprint : (edPk falconPk : Bytes) → String

variable (sdk : DelegationSdk)

def DelegationAttestation.canonicalBytes (a : DelegationAttestation) : Except String Bytes :=
  (sdk.toVec a).mapError fun e => s!"canonical serialize: {e}"

def SignedDelegation.verifySignature (link : SignedDelegation) : Except String Bool := do
  let edPk ← (hexDecode link.parentEd25519Pk).mapError
    fun e => s!"invalid parent_ed25519_pk hex: {e}"
  let falconPk ← (hexDecode link.parentFalconPk).mapError
    fun e => s!"invalid parent_falcon_pk hex: {e}"
  let sig ← (hexDecode link.signature).mapError fun e => s!"invalid signature hex: {e}"
  if sig.length<64 then .error "signature too short" else
  (sdk.ed25519Signature (sig.take 64)).mapError fun e => s!"invalid ed25519 signature: {e}"
  (sdk.falconSignature (sig.drop 64)).mapError fun e => s!"invalid falcon signature: {e}"
  if edPk.length≠32 then .error "invalid ed25519 pk length" else
  (sdk.ed25519Key edPk).mapError fun e => s!"invalid ed25519 pk: {e}"
  (sdk.falconKey falconPk).mapError fun e => s!"invalid falcon pk: {e}"
  let canonical ← link.attestation.canonicalBytes sdk
  .ok (sdk.verifyHybrid edPk falconPk canonical (sig.take 64) (sig.drop 64))

def maxDelegationDepth : ℕ := 3

def verifyLinks (now : UInt64) :
    ℕ → Option String → CapabilitySet → List SignedDelegation → Except String CapabilitySet
  | _,_,effective,[] => .ok effective
  | i,expectedParent,effective,link::rest =>
    let att:=link.attestation
    if expectedParent.any (· != att.parentFingerprint) then
      .error s!"chain break at link {i}: parent does not match previous child"
    else if att.isExpired now then .error s!"delegation link {i} expired"
    else match link.verifySignature sdk with
      | .error e => .error e
      | .ok false => .error s!"delegation link {i} signature invalid"
      | .ok true =>
        verifyLinks now (i+1) (some att.childFingerprint)
          (effective.intersect att.capabilitySet) rest

def DelegationChain.verify (links : List SignedDelegation)
    (trustedRoots : String → Option Bytes) (now : UInt64) : Except String CapabilitySet :=
  match links with
  | [] => .error "delegation chain is empty"
  | root::_ =>
    if links.length>maxDelegationDepth then
      .error s!"delegation chain depth {links.length} exceeds maximum {maxDelegationDepth}"
    else match trustedRoots root.attestation.parentFingerprint with
      | none =>
        .error s!"root parent {root.attestation.parentFingerprint} is not a trusted root"
      | some authoritativePk =>
        match hexDecode root.parentFalconPk with
        | .error e => .error s!"invalid root pk hex: {e}"
        | .ok embeddedPk =>
          if embeddedPk≠authoritativePk then
            .error "root link public key does not match trusted root"
          else verifyLinks sdk now 0 none .all links

def SignedDelegation.SignedWith (link : SignedDelegation) (edPk falconPk : Bytes) : Prop :=
  ∃ canonical sig,link.attestation.canonicalBytes sdk=.ok canonical ∧
    hexDecode link.signature=.ok sig ∧
    sdk.verifyHybrid edPk falconPk canonical (sig.take 64) (sig.drop 64)=true

def SignedDelegation.SignedFor (link : SignedDelegation) (fingerprint : String) : Prop :=
  ∃ edPk falconPk,sdk.fingerprint edPk falconPk=fingerprint ∧ link.SignedWith sdk edPk falconPk

def SignedDelegation.EmbedsKeysOf (link : SignedDelegation) (fingerprint : String) : Prop :=
  ∃ edPk falconPk,hexDecode link.parentEd25519Pk=.ok edPk ∧
    hexDecode link.parentFalconPk=.ok falconPk ∧ sdk.fingerprint edPk falconPk=fingerprint

def DelegationSdk.IdealSignatures : Prop :=
  ∀ e f e' f' message s t,sdk.verifyHybrid e f message s t=true →
    sdk.verifyHybrid e' f' message s t=true → e=e' ∧ f=f'

variable {sdk}

theorem verifySignature_ok {link : SignedDelegation} (h : link.verifySignature sdk=.ok true) :
    ∃ edPk falconPk,hexDecode link.parentEd25519Pk=.ok edPk ∧
      hexDecode link.parentFalconPk=.ok falconPk ∧ link.SignedWith sdk edPk falconPk := by
  obtain ⟨edPk,hed,h⟩ := bind_eq_ok h
  obtain ⟨falconPk,hfalcon,h⟩ := bind_eq_ok h
  obtain ⟨sig,hsig,h⟩ := bind_eq_ok h
  split at h
  · cases h
  · obtain ⟨_,_,h⟩ := bind_eq_ok h
    obtain ⟨_,_,h⟩ := bind_eq_ok h
    split at h
    · cases h
    · obtain ⟨_,_,h⟩ := bind_eq_ok h
      obtain ⟨_,_,h⟩ := bind_eq_ok h
      obtain ⟨canonical,hcanonical,h⟩ := bind_eq_ok h
      exact ⟨edPk,falconPk,mapError_ok hed,mapError_ok hfalcon,
        canonical,sig,hcanonical,mapError_ok hsig,Except.ok.inj h⟩

theorem signedFor_iff (hideal : sdk.IdealSignatures) {link : SignedDelegation}
    (h : link.verifySignature sdk=.ok true) (fingerprint : String) :
    link.SignedFor sdk fingerprint ↔ link.EmbedsKeysOf sdk fingerprint := by
  obtain ⟨e,f,he,hf,hsigned⟩ := verifySignature_ok h
  constructor
  · intro hfor
    obtain ⟨e',f',hfp,c',s',hc',hs',hv'⟩ := hfor
    obtain ⟨c,s,hc,hs,hv⟩ := hsigned
    cases hc.symm.trans hc'
    cases hs.symm.trans hs'
    obtain ⟨hee,hff⟩ := hideal _ _ _ _ _ _ _ hv hv'
    exact ⟨e,f,he,hf,by rw [hee,hff,hfp]⟩
  · intro hkeys
    obtain ⟨e',f',he',hf',hfp⟩ := hkeys
    cases he.symm.trans he'
    cases hf.symm.trans hf'
    exact ⟨e,f,hfp,hsigned⟩

variable {links : List SignedDelegation}

theorem verifyLinks_ok {now i expectedParent} {effective caps : CapabilitySet}
    (h : verifyLinks sdk now i expectedParent effective links=.ok caps) :
    (∀ link∈links,link.verifySignature sdk=.ok true ∧
      caps.isSubsetOf link.attestation.capabilitySet) ∧
    (∀ u,effective.isSubsetOf u → caps.isSubsetOf u) ∧
    (∀ parent∈expectedParent,∀ link∈links.head?,parent=link.attestation.parentFingerprint) ∧
    links.IsChain fun link next =>
      link.attestation.childFingerprint=next.attestation.parentFingerprint := by
  induction links generalizing i expectedParent effective with
  | nil =>
    cases h
    simp
  | cons link rest ih =>
    rw [verifyLinks] at h
    split_ifs at h with hbreak hexpired
    have hparent : ∀ parent∈expectedParent,parent=link.attestation.parentFingerprint := by
      intro parent hp
      simpa [Option.mem_def.mp hp] using hbreak
    rcases hsig : link.verifySignature sdk with e | valid
    · simp [hsig] at h
    cases valid with
    | false => simp [hsig] at h
    | true =>
      simp only [hsig] at h
      obtain ⟨hrest,hcaps,hnext,hchain⟩ := ih h
      refine ⟨?_,?_,?_,?_⟩
      · intro other hmem
        rcases List.mem_cons.mp hmem with rfl | hmem
        · exact ⟨hsig,hcaps _ (CapabilitySet.intersect_subset_right _ _)⟩
        · exact hrest other hmem
      · intro u hu
        exact hcaps u (CapabilitySet.intersect_subset _ hu)
      · intro parent hp head hhead
        cases hhead
        exact hparent parent hp
      · exact List.isChain_cons.mpr ⟨hnext _ rfl,hchain⟩

theorem verify_ok {trustedRoots now caps}
    (h : DelegationChain.verify sdk links trustedRoots now=.ok caps) :
    verifyLinks sdk now 0 none .all links=.ok caps ∧
      ∀ root∈links.head?,(trustedRoots root.attestation.parentFingerprint).isSome := by
  unfold DelegationChain.verify at h
  rcases links with _ | ⟨root,rest⟩
  · cases h
  simp only at h
  split_ifs at h with hdepth
  split at h
  · cases h
  · rename_i pk hroot
    split at h
    · cases h
    · split_ifs at h with hpk
      refine ⟨h,?_⟩
      intro root' hmem
      cases hmem
      rw [hroot]
      rfl

theorem chain_signed_iff (hideal : sdk.IdealSignatures)
    (hsigs : ∀ link∈links,link.verifySignature sdk=.ok true)
    (hchain : links.IsChain fun link next =>
      link.attestation.childFingerprint=next.attestation.parentFingerprint) :
    (links.IsChain fun link next => next.SignedFor sdk link.attestation.childFingerprint) ↔
      ∀ link∈links.tail,link.EmbedsKeysOf sdk link.attestation.parentFingerprint := by
  induction links with
  | nil => simp
  | cons link rest ih =>
    rcases rest with _ | ⟨next,rest⟩
    · simp
    obtain ⟨hnext,hrest⟩ := List.isChain_cons_cons.mp hchain
    have hfor:=signedFor_iff hideal (hsigs next (by simp)) link.attestation.childFingerprint
    have htail:=ih (fun l hl => hsigs l (.tail _ hl)) hrest
    rw [List.isChain_cons_cons,hfor,htail,hnext]
    simp

/-- The first link is signed by a trusted root, every later one by the identity that the link
before it delegates to. -/
def FromDelegates (sdk : DelegationSdk) (trustedRoots : String → Option Bytes)
    (links : List SignedDelegation) : Prop :=
  (∀ root∈links.head?,(trustedRoots root.attestation.parentFingerprint).isSome ∧
    root.SignedFor sdk root.attestation.parentFingerprint) ∧
  links.IsChain fun link next => next.SignedFor sdk link.attestation.childFingerprint

theorem delegated_authority_iff (sdk : DelegationSdk) (hideal : sdk.IdealSignatures)
    (links : List SignedDelegation) (trustedRoots : String → Option Bytes) (now : UInt64)
    (caps : CapabilitySet)
    (h : DelegationChain.verify sdk links trustedRoots now=.ok caps) :
    (FromDelegates sdk trustedRoots links ∧
      ∀ link∈links,caps.isSubsetOf link.attestation.capabilitySet) ↔
    ∀ link∈links,link.EmbedsKeysOf sdk link.attestation.parentFingerprint := by
  obtain ⟨hlinks,hroot⟩ := verify_ok h
  obtain ⟨hall,-,-,hchain⟩ := verifyLinks_ok hlinks
  have hsigs:=fun link hl => (hall link hl).1
  have hcaps:=fun link hl => (hall link hl).2
  rw [and_iff_left hcaps,FromDelegates,chain_signed_iff hideal hsigs hchain]
  rcases links with _ | ⟨root,rest⟩
  · simp
  have hfirst:=signedFor_iff hideal (hsigs root (by simp)) root.attestation.parentFingerprint
  have htrusted:=hroot root rfl
  simp [hfirst,htrusted]

namespace Sample

def character (b : UInt8) : Char := Char.ofNat b.toNat

theorem character_injective : Function.Injective character := by
  intro b c h
  have hvalid : ∀ d : UInt8,d.toNat.isValidChar := fun d => .inl (lt_trans d.toNat_lt (by decide))
  have hnat:=congrArg Char.toNat h
  simp only [character,Char.toNat_ofNat,hvalid,if_true] at hnat
  exact UInt8.toNat_inj.mp hnat

def delegationSdk : DelegationSdk where
  toVec a := .ok (Vcs.utf8 (a.parentFingerprint ++ ">"++a.childFingerprint))
  ed25519Signature _ := .ok ()
  falconSignature _ := .ok ()
  ed25519Key _ := .ok ()
  falconKey _ := .ok ()
  verifyHybrid e f message s t := s==e++e&&t==f++message
  fingerprint e f := String.ofList (e.map character ++ 'Ā'::f.map character)

theorem delegationSdk_ideal : delegationSdk.IdealSignatures := by
  intro e f e' f' message s t h h'
  simp only [delegationSdk,Bool.and_eq_true,beq_iff_eq] at h h'
  have hed : e++e=e'++e' := h.1.symm.trans h'.1
  have hlength : e.length=e'.length := by
    have hlengths:=congrArg List.length hed
    simp only [List.length_append] at hlengths
    omega
  exact ⟨(List.append_inj hed hlength).1,List.append_cancel_right (h.2.symm.trans h'.2)⟩

theorem fingerprint_determines_keys (e f e' f' : Bytes)
    (h : delegationSdk.fingerprint e f=delegationSdk.fingerprint e' f') : e=e' ∧ f=f' := by
  have hmark : ∀ l : Bytes,'Ā'∉l.map character := by
    intro l hmem
    obtain ⟨b,-,hb⟩ := List.mem_map.mp hmem
    have hlt:=b.toNat_lt
    have hvalid : b.toNat.isValidChar := .inl (lt_trans hlt (by decide))
    have hnat : (character b).toNat=256 := congrArg Char.toNat hb
    rw [character,Char.toNat_ofNat,if_pos hvalid] at hnat
    omega
  have hlists:=String.ofList_injective h
  obtain ⟨hed,-,hfalcon⟩ := (List.append_cons_inj_of_notMem (hmark e) (hmark f)).mp hlists
  exact ⟨List.map_injective_iff.mpr character_injective hed,
    List.map_injective_iff.mpr character_injective hfalcon⟩

def edPk (holder : UInt8) : Bytes := List.replicate 32 holder
def falconPk (holder : UInt8) : Bytes := [holder]

def fingerprintOf (holder : UInt8) : String :=
  delegationSdk.fingerprint (edPk holder) (falconPk holder)

def issued (signer parent child : UInt8) (capabilities : UInt64) : SignedDelegation :=
  { attestation :=
      { kind := "origin-delegation-v1",version := 1,parentFingerprint := fingerprintOf parent,
        childFingerprint := fingerprintOf child,label := "agent",capabilities,issuedAt := 0,
        expiresAt := 10,audience := none,resourceScope := none,nonce := "00" }
    parentFalconPk := hexEncode (falconPk signer)
    parentEd25519Pk := hexEncode (edPk signer)
    signature := hexEncode (edPk signer++edPk signer++falconPk signer++
      Vcs.utf8 (fingerprintOf parent ++ ">"++fingerprintOf child)) }

def roots (fingerprint : String) : Option Bytes :=
  if fingerprint=fingerprintOf 1 then some (falconPk 1) else none

end Sample
open Sample

/-- Holder 1 delegates to holder 2; holder 9 then delegates in the name of holder 2. -/
theorem delegation_by_stranger_accepted : delegationSdk.IdealSignatures ∧
    (∀ e f e' f',delegationSdk.fingerprint e f=delegationSdk.fingerprint e' f' → e=e' ∧ f=f') ∧
    DelegationChain.verify delegationSdk [issued 1 1 2 3,issued 9 2 9 3] roots 5=.ok ⟨3⟩ ∧
    ¬ FromDelegates delegationSdk roots [issued 1 1 2 3,issued 9 2 9 3] := by
  refine ⟨delegationSdk_ideal,fingerprint_determines_keys,by decide +kernel,?_⟩
  intro hfrom
  have hsigned : (issued 9 2 9 3).verifySignature delegationSdk=.ok true := by
    decide +kernel
  have hfor:=(List.isChain_cons_cons.mp hfrom.2).1
  obtain ⟨e,f,he,hf,hfp⟩ := (signedFor_iff delegationSdk_ideal hsigned _).mp hfor
  have hkey : hexDecode (issued 9 2 9 3).parentEd25519Pk=.ok (Sample.edPk 9) := by
    decide +kernel
  cases hkey.symm.trans he
  have hpair:=fingerprint_determines_keys _ _ (Sample.edPk 2) (Sample.falconPk 2) hfp
  exact absurd hpair.1 (by decide)

theorem delegation_by_delegates_accepted : FromDelegates delegationSdk roots
      [issued 1 1 2 3,issued 2 2 3 7] := by
  have h : DelegationChain.verify delegationSdk
      [issued 1 1 2 3,issued 2 2 3 7] roots 5=.ok ⟨3⟩ := by
    decide +kernel
  refine ((delegated_authority_iff _ delegationSdk_ideal _ _ _ _ h).mpr ?_).1
  intro link hlink
  rcases List.mem_pair.mp hlink with rfl | rfl
  · exact ⟨Sample.edPk 1,Sample.falconPk 1,by decide +kernel,by decide +kernel,rfl⟩
  · exact ⟨Sample.edPk 2,Sample.falconPk 2,by decide +kernel,by decide +kernel,rfl⟩

end OriginTools.Identity
