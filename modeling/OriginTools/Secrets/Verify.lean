import OriginTools.Secrets.Share

/-!
# Verification of a share

`commands/verify.rs` with `--share`: a vault is looked for beside the share, then at the
paths given, and the signature is checked under the keys of its seed.
-/

namespace OriginTools.Secrets
variable (sdk : SecretsSdk) (env : Env)

def deriveShareSigner (vaultPath : Path) (shareNumber : UInt8) : Except Error Bundle :=
  (env.openVault vaultPath).bind fun data =>
  (sdk.fromSeed data.masterSeed shareSigningDomain).mapError fun e =>
    .signatureVerificationFailed s!"{e} (share {shareNumber})"

def verifyShare (path : Path) (vault : Option Path) (json : Bool) : Except Error Unit :=
  (readShareFile sdk env path vault).bind fun share =>
  if share.shareData=[] then .error (.shareCorrupted share.shareNumber path)
  else if share.signature.ed25519=[] ∨ share.signature.falcon1024=[] then
    .error (.shareCorrupted share.shareNumber path)
  else if share.threshold=0 ∨ share.totalShares=0 ∨ share.threshold>share.totalShares then
    .error (.invalidThreshold share.threshold share.totalShares)
  else match vault with
    | some vaultPath =>
      (deriveShareSigner sdk env vaultPath share.shareNumber).bind fun bundle =>
      ((share.signature.toSdk sdk).mapError .signatureVerificationFailed).bind fun _ =>
      if sdk.verify bundle share.message share.signature then .ok ()
      else .error (.shareVerificationFailed share.shareNumber "hybrid signature invalid")
    | none =>
      if json then .ok ()
      else match verifyShareOffline sdk share with
        | .ok () => .ok ()
        | .error (.signatureVerificationFailed _) =>
          .error (.shareVerificationFailed share.shareNumber "offline hybrid signature invalid")
        | .error _ => .ok ()

/-- The vault that a share is checked against: the one beside its directory, the one named
for the check, the one of the command line. -/
def vaultFor (path : Path) (explicit : Option Path) (vaultPath : Path) : Option Path :=
  ((siblingVault path).filter env.present).or ((explicit.filter env.present).or
    (if env.present vaultPath then some vaultPath else none))

def cmdVerify (path : Path) (explicit : Option Path) (vaultPath : Path) (json : Bool) :
    Except Error Unit :=
  verifyShare sdk env path (vaultFor env path explicit vaultPath) json

/-- The signature of a share that passes is valid, under the keys of the vault or, without
one, under the keys that the share embeds. -/
def VerdictSound (path : Path) (explicit : Option Path) (vaultPath : Path) (json : Bool) : Prop :=
  cmdVerify sdk env path explicit vaultPath json=.ok () →
  ∀ share,readShareFile sdk env path (vaultFor env path explicit vaultPath)=.ok share →
    (∀ vault∈vaultFor env path explicit vaultPath,∃ data bundle,env.openVault vault=.ok data ∧
      sdk.fromSeed data.masterSeed shareSigningDomain=.ok bundle ∧
      sdk.verify bundle share.message share.signature=true) ∧
    (vaultFor env path explicit vaultPath=none → ∀ keys∈share.verifier,
      sdk.verify keys share.message share.signature=true)

/-- Every seed has keys; a signature made with them parses and is valid for its message and
no other. -/
structure SecretsSdk.IdealSignatures : Prop where
  keys : ∀ seed,∃ bundle,sdk.fromSeed seed shareSigningDomain=.ok bundle ∧
    bundle.ed25519Pk sdk=.ok () ∧ sdk.falconKey bundle.falcon1024=.ok () ∧
    ∀ m m',sdk.verify bundle m (sdk.sign seed shareSigningDomain m')=true ↔ m=m'
  signature : ∀ seed m,(sdk.sign seed shareSigningDomain m).toSdk sdk=.ok () ∧
    (sdk.sign seed shareSigningDomain m).ed25519≠[] ∧
    (sdk.sign seed shareSigningDomain m).falcon1024≠[]

variable {sdk env}

theorem verifyShare_vault {path vault json share}
    (h : verifyShare sdk env path (some vault) json=.ok ())
    (hread : readShareFile sdk env path (some vault)=.ok share) :
    ∃ data bundle,env.openVault vault=.ok data ∧
      sdk.fromSeed data.masterSeed shareSigningDomain=.ok bundle ∧
      sdk.verify bundle share.message share.signature=true := by
  rw [verifyShare,hread] at h
  simp only [Except.bind] at h
  split_ifs at h
  obtain ⟨bundle,hbundle,h⟩ := bind_eq_ok h
  obtain ⟨data,hdata,hbundle⟩ := bind_eq_ok hbundle
  obtain ⟨_,_,h⟩ := bind_eq_ok h
  split_ifs at h with hvalid
  exact ⟨data,bundle,hdata,mapError_ok hbundle,hvalid⟩

def tampered (bundle : Bundle) (sig : HybridSignature) : Share :=
  { version := 1,keyId := "key",shareNumber := 1,threshold := 1,totalShares := 1,
    shareData := [0],fingerprint := "",signature := sig,createdAt := "",recipient := none,
    expiresAt := none,verifier := some bundle }

def Env.withFile (env : Env) (path : Path) (file : Option ShareFile) : Env :=
  { env with readFile := Function.update env.readFile path file }

theorem readShareFile_tampered (path bundle sig) :
    readShareFile sdk (env.withFile path (some (.plain (tampered bundle sig)))) path none=
      .ok (tampered bundle sig) := by
  simp [readShareFile,Env.withFile,openHandle,openShare,Except.bind,tampered]

theorem verifyShare_tampered (hideal : sdk.IdealSignatures) (seed : Seed) (path : Path)
    (json : Bool) :
    ∃ bundle sig,sdk.verify bundle [0] sig=false ∧
      verifyShare sdk (env.withFile path (some (.plain (tampered bundle sig)))) path none json=
        .ok () := by
  obtain ⟨bundle,-,hed,hfalcon,hverify⟩ := hideal.keys seed
  obtain ⟨hsig,hed25519,hfalcon1024⟩ := hideal.signature seed [1]
  have hinvalid : sdk.verify bundle [0] (sdk.sign seed shareSigningDomain [1])=false := by
    rw [Bool.eq_false_iff,ne_eq,hverify]
    decide
  refine ⟨bundle,_,hinvalid,?_⟩
  have hoffline : verifyShareOffline sdk (tampered bundle (sdk.sign seed shareSigningDomain [1]))=
      .error (.shareVerificationFailed 1 "hybrid signature invalid (offline)") := by
    simp [verifyShareOffline,tampered,Share.message,hed,hfalcon,hsig,hinvalid,
      Except.mapError,Except.bind]
  rw [verifyShare,readShareFile_tampered]
  simp only [Except.bind,hoffline]
  simp [tampered,hed25519,hfalcon1024]

theorem verdict_sound_iff (sdk : SecretsSdk) (hideal : sdk.IdealSignatures) (env : Env)
    (path : Path) (explicit : Option Path) (vaultPath : Path) (json : Bool) :
    (∀ file,VerdictSound sdk (env.withFile path file) path explicit vaultPath json) ↔
      (vaultFor env path explicit vaultPath).isSome := by
  have hvault : ∀ file,vaultFor (env.withFile path file) path explicit vaultPath=
      vaultFor env path explicit vaultPath := fun _ => rfl
  constructor
  · intro hsound
    by_contra hnone
    rw [Option.not_isSome_iff_eq_none] at hnone
    obtain ⟨bundle,sig,hinvalid,hpass⟩ :=
      @verifyShare_tampered sdk env hideal (List.Vector.replicate 32 0) path json
    have hverdict:=hsound (some (.plain (tampered bundle sig)))
    unfold VerdictSound cmdVerify at hverdict
    rw [hvault,hnone] at hverdict
    have hvalid:=(hverdict hpass _ (readShareFile_tampered path bundle sig)).2 rfl bundle rfl
    exact absurd hvalid (by simp [tampered,Share.message,hinvalid])
  · intro hsome file
    obtain ⟨vault,hfound⟩ := Option.isSome_iff_exists.mp hsome
    unfold VerdictSound cmdVerify
    rw [hvault,hfound]
    intro hok share hread
    refine ⟨?_,fun h => by cases h⟩
    intro v hv
    cases hv
    exact verifyShare_vault hok hread

namespace Sample

theorem plainSdk_ideal : plainSdk.IdealSignatures where
  keys seed := by
    refine ⟨⟨seed.toList,seed.toList⟩,rfl,?_,rfl,?_⟩
    · simp [ShareVerifier.ed25519Pk,plainSdk,Except.mapError]
    · intro m m'
      simp only [plainSdk,BEq.rfl,Bool.true_and,beq_iff_eq,List.cons.injEq,true_and]
      exact eq_comm
  signature seed m := by
    refine ⟨?_,?_,by simp [plainSdk]⟩
    · simp [HybridSignature.toSdk,plainSdk]
    · intro hnil
      have hzero:=congrArg List.length hnil
      simp [plainSdk] at hzero

def disk (vault : Option Path) : Env where
  readFile _ := none
  present path := some path==vault
  openVault _ := .ok ⟨seed 7,∅⟩
  now := 0

def forged : Share :=
  tampered ⟨(seed 7).toList,(seed 7).toList⟩ (plainSdk.sign (seed 7) shareSigningDomain [1])

end Sample
open Sample

/-- With a vault the forged share fails as well. -/
theorem verdict_sound_with_vault : VerdictSound plainSdk
      ((disk (some ["v"])).withFile ["s"] (some (.plain Sample.forged))) ["s"] none ["v"]
      true :=
  (verdict_sound_iff plainSdk plainSdk_ideal (disk (some ["v"])) ["s"] none ["v"]
    true).mpr (by decide) _

theorem verdict_unsound_without_vault :
    let env:=(disk none).withFile ["s"] (some (.plain Sample.forged))
    plainSdk.IdealSignatures ∧
    readShareFile plainSdk env ["s"] none=.ok Sample.forged ∧
    cmdVerify plainSdk env ["s"] none ["v"] true=.ok () ∧
    cmdVerify plainSdk env ["s"] none ["v"] false=.ok () ∧
    ∃ keys,Sample.forged.verifier=some keys ∧
      plainSdk.verify keys Sample.forged.message Sample.forged.signature=false :=
  ⟨plainSdk_ideal,readShareFile_tampered _ _ _,by decide +kernel,by decide +kernel,_,rfl,
    by decide +kernel⟩

end OriginTools.Secrets
