import OriginTools.Secrets.Shard

/-!
# Recovery from shares

`commands/recover.rs` without `--preflight`, and the signature that `export-share` puts in
place of the first one.
-/

namespace OriginTools.Secrets
open Vcs (Bytes utf8)

structure RecoverArgs where
  shares : List Path
  sourceVault : Option Path

variable (sdk : SecretsSdk) (env : Env) (args : RecoverArgs)

def shareVault : Option Path :=
  args.sourceVault.or ((args.shares.head?.bind siblingVault).filter env.present)

def readShares (vault : Option Path) : List Path → Except Error (List Share)
  | [] => .ok []
  | path::rest =>
    (readShareFile sdk env path vault).bind fun share =>
    (readShares vault rest).map (share :: ·)

def placeShares (total : ℕ) : List Share → List (Option Bytes) → Except Error (List (Option Bytes))
  | [],opts => .ok opts
  | share::rest,opts =>
    let idx:=share.shareNumber.toNat-1
    if idx<total then placeShares total rest (opts.set idx (some share.shareData))
    else .error (.shareCorrupted share.shareNumber ["<share index out of range>"])

def checkSignatures (signer : Bundle) : List Share → Except Error Unit
  | [] => .ok ()
  | share::rest =>
    ((share.signature.toSdk sdk).mapError .signatureVerificationFailed).bind fun _ =>
    if sdk.verify signer share.message share.signature then checkSignatures signer rest
    else .error (.shareVerificationFailed share.shareNumber "hybrid signature mismatch")

/-- `finish` stands for the writing of a new vault and of the seed. -/
def cmdRecover (finish : Seed → Except Error Unit) : Except Error Bytes :=
  (readShares sdk env (shareVault env args) args.shares).bind fun shares =>
  match shares with
  | [] => .error (.insufficientShares 1 0)
  | first::_ =>
    let threshold:=first.threshold.toNat
    let total:=first.totalShares.toNat
    match shares.find? fun s =>
      s.threshold.toNat != threshold||s.totalShares.toNat != total with
    | some s =>
      .error (.shareCorrupted s.shareNumber ["<inconsistent threshold","total>"])
    | none =>
      if shares.length<threshold then
        .error (.insufficientShares first.threshold (.ofNat shares.length))
      else
        (placeShares total shares (List.replicate total none)).bind fun opts =>
        -- The difference of two `usize` wraps around.
        ((sdk.decodeShards threshold ((total+2^64-threshold)%2^64) opts 32).mapError
          fun e => .cryptoError s!"Reed-Solomon decode failed: {e}").bind fun recovered =>
        if h : recovered.length=32 then
          ((sdk.fromSeed ⟨recovered,h⟩ shareSigningDomain).mapError
            .signatureGenerationFailed).bind fun signer =>
          (checkSignatures sdk signer shares).bind fun _ =>
          (finish ⟨recovered,h⟩).map fun _ => recovered
        else .error (.cryptoError "recovered seed wrong length")

def reSignForRecipient (seed : Seed) (share : Share) (recipient : String) : Share :=
  { share with
    signature := sdk.sign seed shareSigningDomain (share.shareData++utf8 recipient)
    recipient := some recipient }

inductive Issued (seed : Seed) : Share → Prop
  | shard {args : ShardArgs} {disk : ShardDisk} {vault : VaultData} {shares : List Share}
      {share : Share} : vault.masterSeed=seed →
      cmdShard sdk args disk (.ok vault)=.ok shares → share∈shares → Issued seed share
  | exported {share : Share} (recipient : String) : Issued seed share →
      Issued seed (reSignForRecipient sdk seed share recipient)

def Presented (share : Share) : Prop :=
  ∃ path∈args.shares,readShareFile sdk env path (shareVault env args)=.ok share

def Share.Agrees (p i : Share) : Prop :=
  p.shareData=i.shareData ∧ p.shareNumber=i.shareNumber ∧ p.threshold=i.threshold ∧
    p.totalShares=i.totalShares ∧ p.recipient=i.recipient ∧ p.expiresAt=i.expiresAt

def Share.KeepsUnsigned (p i : Share) : Prop :=
  p.shareNumber=i.shareNumber ∧ p.threshold=i.threshold ∧ p.totalShares=i.totalShares ∧
    p.expiresAt=i.expiresAt ∧ p.shareData.length=i.shareData.length ∧
    p.recipient.isSome=i.recipient.isSome

def Share.CarriesSignature (p : Share) (issued : Set Share) (message : Bytes) : Prop :=
  ∃ j∈issued,j.message=message ∧ p.signature=j.signature

/-- A signature is valid for no message but its own, whatever the keys. -/
def SecretsSdk.SignsOneMessage : Prop :=
  ∀ keys seed m m',sdk.verify keys m (sdk.sign seed shareSigningDomain m')=true → m=m'

/-- The code gives as many shards as asked for; what it decodes from shards of one seed is
that seed. -/
structure SecretsSdk.Decodes : Prop where
  length : ∀ {k parity seed shards},sdk.encodeShards k parity seed=.ok shards →
    shards.length=k+parity
  decode : ∀ {k parity seed shards opts n recovered},sdk.encodeShards k parity seed=.ok shards →
    (∀ (i : ℕ) d,opts[i]? = some (some d) → shards[i]? = some d) →
    sdk.decodeShards k parity opts n=.ok recovered → recovered=seed.toList

variable {sdk env args}
variable {shares : List Share}

theorem mem_readShares {vault paths} (h : readShares sdk env vault paths=.ok shares) (p : Share) :
    p∈shares ↔ ∃ path∈paths,readShareFile sdk env path vault=.ok p := by
  induction paths generalizing shares with
  | nil =>
    cases h
    simp
  | cons path rest ih =>
    obtain ⟨share,hshare,h⟩ := bind_eq_ok h
    obtain ⟨others,hothers,rfl⟩ := map_eq_ok h
    simp only [List.mem_cons,exists_eq_or_imp,ih hothers,hshare,Except.ok.injEq]
    exact or_congr_left eq_comm

theorem checkSignatures_ok {signer} (h : checkSignatures sdk signer shares=.ok ()) :
    ∀ p∈shares,sdk.verify signer p.message p.signature=true := by
  induction shares with
  | nil => simp
  | cons share rest ih =>
    obtain ⟨_,_,h⟩ := bind_eq_ok h
    split_ifs at h with hvalid
    intro p hp
    rcases List.mem_cons.mp hp with rfl | hp
    · exact hvalid
    · exact ih h p hp

theorem placeShares_ok {total opts placed} {R : ℕ → Bytes → Prop}
    (h : placeShares total shares opts=.ok placed)
    (hopts : ∀ i d,opts[i]? = some (some d) → R i d)
    (hshares : ∀ p∈shares,R (p.shareNumber.toNat-1) p.shareData) :
    ∀ i d,placed[i]? = some (some d) → R i d := by
  induction shares generalizing opts with
  | nil =>
    cases h
    exact hopts
  | cons share rest ih =>
    rw [placeShares] at h
    split_ifs at h with hidx
    refine ih h ?_ fun p hp => hshares p (.tail _ hp)
    intro i d hd
    rw [List.getElem?_set] at hd
    split_ifs at hd with hi hlt
    · cases hd
      rw [← hi]
      exact hshares share (.head _)
    · exact hopts i d hd

theorem cmdRecover_ok {finish recovered} (h : cmdRecover sdk env args finish=.ok recovered) :
    ∃ shares first opts signer,∃ hlen : recovered.length=32,
      readShares sdk env (shareVault env args) args.shares=.ok shares ∧ first∈shares ∧
      placeShares first.totalShares.toNat shares (List.replicate first.totalShares.toNat none)=
        .ok opts ∧
      sdk.decodeShards first.threshold.toNat
        ((first.totalShares.toNat+2^64-first.threshold.toNat)%2^64) opts 32=
        .ok recovered ∧
      sdk.fromSeed ⟨recovered,hlen⟩ shareSigningDomain=.ok signer ∧
      (∀ p∈shares,p.threshold=first.threshold ∧ p.totalShares=first.totalShares) ∧
      ∀ p∈shares,sdk.verify signer p.message p.signature=true := by
  obtain ⟨shares,hshares,h⟩ := bind_eq_ok h
  rcases shares with _ | ⟨first,rest⟩
  · cases h
  simp only at h
  split at h
  · cases h
  · rename_i hsame
    split_ifs at h
    obtain ⟨opts,hopts,h⟩ := bind_eq_ok h
    obtain ⟨bytes,hbytes,h⟩ := bind_eq_ok h
    split_ifs at h with hlen
    obtain ⟨signer,hsigner,h⟩ := bind_eq_ok h
    obtain ⟨_,hcheck,h⟩ := bind_eq_ok h
    obtain ⟨_,_,rfl⟩ := map_eq_ok h
    refine ⟨_,first,opts,signer,hlen,hshares,.head _,hopts,
      mapError_ok hbytes,mapError_ok hsigner,?_,checkSignatures_ok hcheck⟩
    intro p hp
    have hp:=List.find?_eq_none.mp hsame p hp
    simp only [bne_iff_ne,ne_eq,Bool.or_eq_true,not_or,not_not,UInt8.toNat_inj] at hp
    exact hp

/-- An issued share is signed as it stands, and holds the shard of its number. -/
theorem Issued.spec (hcode : sdk.Decodes) {seed share} (h : Issued sdk seed share) :
    share.signature=sdk.sign seed shareSigningDomain share.message ∧
    share.threshold ≤ share.totalShares ∧ ∃ shards,
      sdk.encodeShards share.threshold.toNat (share.totalShares-share.threshold).toNat seed=
        .ok shards ∧
      shards[share.shareNumber.toNat-1]? = some share.shareData := by
  induction h with
  | @shard args disk vault shares share hseed hrun hmem =>
    subst hseed
    obtain ⟨hle,signer,shards,hshards,rfl⟩ := cmdShard_ok hrun
    obtain ⟨k,hk,rfl⟩ := List.mem_mapIdx.mp hmem
    refine ⟨by simp [makeShare,Share.message],hle,shards,hshards,?_⟩
    have hlen:=hcode.length hshards
    have hle':=UInt8.le_iff_toNat_le.mp hle
    have htotal : args.shares.toNat<256 := args.shares.toNat_lt
    rw [UInt8.toNat_sub_of_le _ _ hle] at hlen
    have hplace : (UInt8.ofNat (k+1)).toNat-1=k := by
      rw [UInt8.toNat_ofNat']
      omega
    simp only [makeShare,hplace,List.getElem?_eq_getElem hk]
  | exported recipient _ ih =>
    obtain ⟨-,hle,hshards⟩ := ih
    exact ⟨by simp [reSignForRecipient,Share.message],hle,hshards⟩

theorem agrees_of_message {p i : Share} (hkeeps : p.KeepsUnsigned i)
    (hmessage : p.message=i.message) : p.Agrees i := by
  obtain ⟨hnumber,hthreshold,htotal,hexpires,hlength,hsome⟩ := hkeeps
  obtain ⟨hdata,hrecipient⟩ := List.append_inj hmessage hlength
  refine ⟨hdata,hnumber,hthreshold,htotal,?_,hexpires⟩
  cases hp : p.recipient <;> cases hi : i.recipient <;> simp_all [Vcs.utf8_injective.eq_iff]

theorem recovered_eq_seed (hcode : sdk.Decodes) {seed : Seed} {issued : Set Share}
    (hissued : ∀ i∈issued,Issued sdk seed i) {first : Share} {opts : List (Option Bytes)}
    {recovered : Bytes} (hfirst : first∈shares)
    (hplace : placeShares first.totalShares.toNat shares
      (List.replicate first.totalShares.toNat none)=.ok opts)
    (hdecode : sdk.decodeShards first.threshold.toNat
      ((first.totalShares.toNat+2^64-first.threshold.toNat)%2^64) opts 32=
      .ok recovered)
    (hsame : ∀ p∈shares,p.threshold=first.threshold ∧ p.totalShares=first.totalShares)
    (hagrees : ∀ p∈shares,∃ i∈issued,p.Agrees i) : recovered=seed.toList := by
  obtain ⟨i,hi,hagree⟩ := hagrees first hfirst
  obtain ⟨-,hle,shards,hshards,-⟩ := (hissued i hi).spec hcode
  have hparity : (first.totalShares.toNat+2^64-first.threshold.toNat)%2^64=
      (i.totalShares-i.threshold).toNat := by
    have hle':=UInt8.le_iff_toNat_le.mp hle
    have htotal : i.totalShares.toNat<256 := i.totalShares.toNat_lt
    rw [UInt8.toNat_sub_of_le _ _ hle,hagree.2.2.1,hagree.2.2.2.1]
    omega
  rw [hparity,hagree.2.2.1] at hdecode
  refine hcode.decode hshards (placeShares_ok hplace ?_ ?_) hdecode
  · intro k d hd
    simp [List.getElem?_replicate] at hd
  · intro p hp
    obtain ⟨j,hj,hpj⟩ := hagrees p hp
    obtain ⟨-,-,shards',hshards',hdata⟩ := (hissued j hj).spec hcode
    obtain ⟨hthreshold,htotal⟩ := hsame p hp
    rw [← hpj.2.2.1,← hpj.2.2.2.1,hthreshold,htotal,hagree.2.2.1,hagree.2.2.2.1] at hshards'
    cases hshards.symm.trans hshards'
    rw [hpj.1,hpj.2.1,hdata]

theorem accepted_as_issued_iff (sdk : SecretsSdk) (hsigns : sdk.SignsOneMessage)
    (hcode : sdk.Decodes) (seed : Seed) (issued : Set Share)
    (hissued : ∀ i∈issued,Issued sdk seed i) (env : Env) (args : RecoverArgs)
    (finish : Seed → Except Error Unit) (recovered : Bytes)
    (hunforged : ∀ p signer,Presented sdk env args p →
      sdk.fromSeed seed shareSigningDomain=.ok signer →
      sdk.verify signer p.message p.signature=true → p.CarriesSignature issued p.message)
    (haccept : cmdRecover sdk env args finish=.ok recovered) :
    (∀ p,Presented sdk env args p → ∃ i∈issued,p.Agrees i) ↔ ∀ p,Presented sdk env args p →
        ∃ i∈issued,p.KeepsUnsigned i ∧ p.CarriesSignature issued i.message := by
  obtain ⟨shares,first,opts,signer,hlen,hread,hfirst,hplace,hdecode,hsigner,hsame,
    hvalid⟩ := cmdRecover_ok haccept
  have hmem : ∀ p,Presented sdk env args p ↔ p∈shares := fun p => (mem_readShares hread p).symm
  constructor
  · intro hagrees p hp
    have hseed : recovered=seed.toList := recovered_eq_seed hcode hissued hfirst hplace
      hdecode hsame fun q hq => hagrees q ((hmem q).mpr hq)
    subst hseed
    obtain ⟨i,hi,hagree⟩ := hagrees p hp
    obtain ⟨hdata,hnumber,hthreshold,htotal,hrecipient,hexpires⟩ := hagree
    have hmessage : p.message=i.message := by rw [Share.message,Share.message,hdata,hrecipient]
    refine ⟨i,hi,⟨hnumber,hthreshold,htotal,hexpires,by rw [hdata],by rw [hrecipient]⟩,?_⟩
    rw [← hmessage]
    exact hunforged p signer hp hsigner (hvalid p ((hmem p).mp hp))
  · intro hkeeps p hp
    obtain ⟨i,hi,hkept,j,hj,hmessage,hsignature⟩ := hkeeps p hp
    refine ⟨i,hi,agrees_of_message hkept ?_⟩
    have hverify:=hvalid p ((hmem p).mp hp)
    rw [hsignature,((hissued j hj).spec hcode).1] at hverify
    rw [hsigns _ _ _ _ hverify,hmessage]

namespace Sample

theorem plainSdk_signsOneMessage : plainSdk.SignsOneMessage := by
  intro keys seed m m' h
  simp only [plainSdk,Bool.and_eq_true,beq_iff_eq,List.cons.injEq,true_and] at h
  exact h.2.symm

theorem plainSdk_decodes : plainSdk.Decodes where
  length := by
    intro k parity seed shards h
    cases h
    exact List.length_replicate
  decode := by
    intro k parity seed shards opts n recovered hencode hopts hdecode
    cases hencode
    simp only [plainSdk] at hdecode
    split at hdecode
    · cases hdecode
    · rename_i d rest hd
      cases hdecode
      have hfirst : recovered∈opts.filterMap id := by
        rw [hd]
        exact .head _
      obtain ⟨o,ho,rfl⟩ := List.mem_filterMap.mp hfirst
      obtain ⟨i,hi⟩ := List.mem_iff_getElem?.mp ho
      exact List.eq_of_mem_replicate (List.mem_of_getElem? (hopts i _ hi))

def share (expires : Option String) : Share :=
  makeShare plainSdk { shardArgs 1 1 with expires } shardDisk (seed 7)
    ⟨(seed 7).toList,(seed 7).toList⟩ 0 (seed 7).toList

theorem share_issued {expires}
    (hrun : cmdShard plainSdk { shardArgs 1 1 with expires } shardDisk (.ok ⟨seed 7,∅⟩)=
      .ok [share expires]) : Issued plainSdk (seed 7) (share expires) :=
  Issued.shard rfl hrun (.head _)

def shelf (content : Share) : Env where
  readFile _ := some (.plain content)
  present _ := false
  openVault _ := .error (.vault "no vault")
  now := 1800000000

def recoverArgs : RecoverArgs := ⟨[["s"]],none⟩

theorem presented_shelf {content p} (h : Presented plainSdk (shelf content) recoverArgs p) :
    p=content := by
  obtain ⟨path,-,hread⟩ := h
  have hfile : (shelf content).readFile path=some (.plain content) := rfl
  rw [readShareFile,hfile] at hread
  obtain ⟨handle,_,hread⟩ := bind_eq_ok hread
  obtain ⟨q,hq,hread⟩ := bind_eq_ok hread
  have hq : content=q := Except.ok.inj hq
  obtain ⟨_,_,hread⟩ := bind_eq_ok hread
  split_ifs at hread
  rw [hq,Except.ok.inj hread]

end Sample
open Sample

theorem issued_share_accepted :
    ∃ i∈({Sample.share none} : Set Share),(Sample.share none).Agrees i := by
  have haccept : cmdRecover plainSdk (shelf (Sample.share none)) recoverArgs
      (fun _ => .ok ())=.ok (Sample.seed 7).toList := by decide +kernel
  have hissued : ∀ i∈({Sample.share none} : Set Share),Issued plainSdk (Sample.seed 7) i := by
    rintro i rfl
    exact share_issued (by decide +kernel)
  refine (accepted_as_issued_iff plainSdk plainSdk_signsOneMessage
    plainSdk_decodes (Sample.seed 7) {Sample.share none} hissued _ _ _ _ ?_ haccept).mpr
    ?_ _ ⟨["s"],.head _,rfl⟩
  · intro p signer hp _ _
    cases presented_shelf hp
    exact ⟨_,rfl,rfl,rfl⟩
  · intro p hp
    cases presented_shelf hp
    exact ⟨_,rfl,⟨rfl,rfl,rfl,rfl,rfl,rfl⟩,_,rfl,rfl,rfl⟩

/-- With its expiry taken out the share recovers the seed. -/
theorem expired_share_made_usable :
    Issued plainSdk (Sample.seed 7) (Sample.share (some "2020-01-01T00:00:00Z")) ∧
    cmdRecover plainSdk (shelf (Sample.share (some "2020-01-01T00:00:00Z")))
      recoverArgs (fun _ => .ok ())=
      .error (.shareExpired 1 "2020-01-01T00:00:00Z") ∧
    cmdRecover plainSdk (shelf { Sample.share (some "2020-01-01T00:00:00Z") with
      expiresAt := none }) recoverArgs (fun _ => .ok ())=.ok (Sample.seed 7).toList ∧
    ¬ ({ Sample.share (some "2020-01-01T00:00:00Z") with expiresAt := none } : Share).Agrees
      (Sample.share (some "2020-01-01T00:00:00Z")) := by
  refine ⟨share_issued (by decide +kernel),by decide +kernel,by decide +kernel,?_⟩
  intro hagrees
  exact absurd hagrees.2.2.2.2.2 (by decide)

end OriginTools.Secrets
