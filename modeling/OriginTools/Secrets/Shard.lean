import OriginTools.Secrets.Share
import OriginTools.Proof.Mmr

/-!
# Splitting the seed

`commands/shard.rs`: the master seed goes through an erasure code as it is, and every
shard becomes a signed share.
-/

namespace OriginTools.Secrets
open Vcs (Bytes)

structure ShardArgs where
  key : String
  threshold : UInt8
  shares : UInt8
  expires : Option String
  force : Bool

structure ShardDisk where
  sharesDir : String
  createDir : Except String Unit
  listing : Except String (List String)
  writeShare : Share → Except Error Unit
  save : Except Error Unit
  timestamp : String

def shareFileName (n : ℕ) : String :=
  let digits:=toString n
  "share_"++String.ofList (List.replicate (3-digits.length) '0')++digits ++ ".json"

def isStale (total : UInt8) (name : String) : Bool :=
  name.startsWith "share_"&&name.endsWith ".json"&&
    !((List.range total.toNat).map fun i => shareFileName (i+1)).contains name

def checkStale (args : ShardArgs) (disk : ShardDisk) (names : List String) : Except Error Unit :=
  match names.find? (isStale args.shares) with
  | some name =>
    if args.force then .ok ()
    else .error (.ioError (s!"stale share file {disk.sharesDir}/{name} from a previous "++
      "sharding remains; remove it or use --force"))
  | none => .ok ()

variable (sdk : SecretsSdk) (args : ShardArgs) (disk : ShardDisk)

def makeShare (seed : Seed) (signer : Bundle) (i : ℕ) (shardData : Bytes) : Share :=
  { version := 1,keyId := args.key,shareNumber := .ofNat (i+1),threshold := args.threshold,
    totalShares := args.shares,shareData := shardData,
    fingerprint := Proof.hexEncode ((sdk.blake3 shardData).take 4),
    signature := sdk.sign seed shareSigningDomain shardData,createdAt := disk.timestamp,
    recipient := none,expiresAt := args.expires,verifier := some signer }

def writeShares (seed : Seed) (signer : Bundle) : ℕ → List Bytes → Except Error (List Share)
  | _,[] => .ok []
  | i,shardData::rest =>
    let share:=makeShare sdk args disk seed signer i shardData
    (disk.writeShare share).bind fun _ => (writeShares seed signer (i+1) rest).map (share :: ·)

def cmdShard (opened : Except Error VaultData) : Except Error (List Share) :=
  if Vcs.Store.trim args.key = "" then
    .error (.cryptoError "share label must not be empty (use --label <NAME>)")
  else if args.threshold=0 ∨ args.threshold>args.shares then
    .error (.invalidThreshold args.threshold args.shares)
  else
    opened.bind fun vault =>
    ((sdk.encodeShards args.threshold.toNat (args.shares-args.threshold).toNat
      vault.masterSeed).mapError fun e =>
        .cryptoError s!"Reed-Solomon encode failed: {e}").bind fun shards =>
    ((sdk.fromSeed vault.masterSeed shareSigningDomain).mapError
      .signatureGenerationFailed).bind fun signer =>
    (disk.createDir.mapError .ioError).bind fun _ =>
    (disk.listing.mapError .ioError).bind fun names =>
    (checkStale args disk names).bind fun _ =>
    (writeShares sdk args disk vault.masterSeed signer 0 shards).bind fun written =>
    disk.save.map fun _ => written

def dataAt (numbers : Finset UInt8) (shares : List Share) : List (UInt8 × Bytes) :=
  (shares.filter fun s => decide (s.shareNumber∈numbers)).map fun s => (s.shareNumber,s.shareData)

def Compatible (vault : VaultData) (numbers : Finset UInt8) : Prop :=
  ∀ s t shares shares',cmdShard sdk args disk (.ok { vault with masterSeed := s })=.ok shares →
    cmdShard sdk args disk (.ok { vault with masterSeed := t })=.ok shares' →
    dataAt numbers shares=dataAt numbers shares'

/-- The code gives one shard a share, and as many of them as the threshold determine the
seed. -/
structure SecretsSdk.Determines (threshold total : UInt8) : Prop where
  length : ∀ {seed shards},sdk.encodeShards threshold.toNat (total-threshold).toNat seed=
    .ok shards → shards.length=total.toNat
  seed_eq : ∀ {s t shards shards'},
    sdk.encodeShards threshold.toNat (total-threshold).toNat s=.ok shards →
    sdk.encodeShards threshold.toNat (total-threshold).toNat t=.ok shards' →
    ∀ places : Finset ℕ,places.card=threshold.toNat → (∀ i∈places,i<total.toNat) →
      (∀ i∈places,shards[i]? = shards'[i]?) → s=t

variable {sdk args disk}

theorem writeShares_ok {seed signer i shards written}
    (h : writeShares sdk args disk seed signer i shards=.ok written) :
    written=shards.mapIdx fun k d => makeShare sdk args disk seed signer (i+k) d := by
  induction shards generalizing i written with
  | nil =>
    cases h
    rfl
  | cons shardData rest ih =>
    obtain ⟨_,_,h⟩ := bind_eq_ok h
    obtain ⟨others,hothers,rfl⟩ := map_eq_ok h
    have hshift : ∀ k,i+1+k=i+(k+1) := by omega
    simp [ih hothers,List.mapIdx_cons,hshift]

variable {vault : VaultData}

theorem cmdShard_ok {shares} (h : cmdShard sdk args disk (.ok vault)=.ok shares) :
    args.threshold≤args.shares ∧ ∃ signer shards,
      sdk.encodeShards args.threshold.toNat (args.shares-args.threshold).toNat
        vault.masterSeed=.ok shards ∧
      shares=shards.mapIdx fun k d => makeShare sdk args disk vault.masterSeed signer k d := by
  unfold cmdShard at h
  split_ifs at h with hlabel hthreshold
  have hle:=UInt8.not_lt.mp (not_or.mp hthreshold).2
  simp only [Except.bind] at h
  obtain ⟨shards,hshards,h⟩ := bind_eq_ok h
  obtain ⟨signer,_,h⟩ := bind_eq_ok h
  obtain ⟨_,_,h⟩ := bind_eq_ok h
  obtain ⟨names,_,h⟩ := bind_eq_ok h
  obtain ⟨_,_,h⟩ := bind_eq_ok h
  obtain ⟨written,hwritten,h⟩ := bind_eq_ok h
  obtain ⟨_,_,rfl⟩ := map_eq_ok h
  refine ⟨hle,signer,shards,mapError_ok hshards,?_⟩
  simpa only [Nat.zero_add] using writeShares_ok hwritten

/-- Among up to 255 shards the number of a share gives its place. -/
theorem mem_dataAt {seed signer} {shards : List Bytes} {numbers i} (hlen : shards.length≤255)
    (hi : i<shards.length) (hmem : UInt8.ofNat (i+1)∈numbers) (d : Bytes) :
    (UInt8.ofNat (i+1),d)∈dataAt numbers
      (shards.mapIdx fun k d => makeShare sdk args disk seed signer k d) ↔
      shards[i]? = some d := by
  simp only [dataAt,List.mem_map,List.mem_filter,List.mem_mapIdx,decide_eq_true_eq]
  constructor
  · intro h
    obtain ⟨share,⟨⟨k,hk,rfl⟩,-⟩,heq⟩ := h
    obtain ⟨hnumber,hdata⟩ := Prod.mk.inj heq
    have hplace : k=i := by
      have hnat:=congrArg UInt8.toNat hnumber
      simp only [makeShare,UInt8.toNat_ofNat'] at hnat
      omega
    subst hplace
    rw [List.getElem?_eq_getElem hk]
    exact congrArg some hdata
  · intro h
    obtain ⟨hi',hd⟩ := List.getElem?_eq_some_iff.mp h
    exact ⟨_,⟨⟨i,hi',rfl⟩,hmem⟩,Prod.ext rfl hd⟩

theorem Compatible.shard_eq {numbers : Finset UInt8}
    (hcompatible : Compatible sdk args disk vault numbers)
    (hcode : sdk.Determines args.threshold args.shares) {s t : Seed} {shares shares' : List Share}
    (hs : cmdShard sdk args disk (.ok { vault with masterSeed := s })=.ok shares)
    (ht : cmdShard sdk args disk (.ok { vault with masterSeed := t })=.ok shares') :
    ∃ shards shards',
      sdk.encodeShards args.threshold.toNat (args.shares-args.threshold).toNat s=.ok shards ∧
      sdk.encodeShards args.threshold.toNat (args.shares-args.threshold).toNat t=.ok shards' ∧
      ∀ i<args.shares.toNat,UInt8.ofNat (i+1)∈numbers → shards[i]? = shards'[i]? := by
  obtain ⟨-,signer,shards,hshards,rfl⟩ := cmdShard_ok hs
  obtain ⟨-,signer',shards',hshards',rfl⟩ := cmdShard_ok ht
  refine ⟨shards,shards',hshards,hshards',?_⟩
  intro i hi hmem
  have hlen:=hcode.length hshards
  have hlen':=hcode.length hshards'
  have hbound : args.shares.toNat<256 := args.shares.toNat_lt
  have hdata:=hcompatible s t _ _ hs ht
  refine Option.ext fun d => ?_
  rw [← mem_dataAt (by omega) (by omega) hmem d,hdata,mem_dataAt (by omega) (by omega) hmem d]

/-- Whatever the code, one share alone tells two seeds apart. -/
theorem some_share_tells (hcode : sdk.Determines args.threshold args.shares) (hruns : ∀ s,∃ shares,
      cmdShard sdk args disk (.ok { vault with masterSeed := s })=.ok shares) :
    ∃ n,1≤n ∧ n≤args.shares ∧ ¬ Compatible sdk args disk vault {n} := by
  by_contra hnone
  have hall : ∀ n,1≤n → n≤args.shares → Compatible sdk args disk vault {n} := by
    intro n hone htop
    by_contra hn
    exact hnone ⟨n,hone,htop,hn⟩
  obtain ⟨shares,hs⟩ := hruns (List.Vector.replicate 32 0)
  obtain ⟨shares',ht⟩ := hruns (List.Vector.replicate 32 1)
  obtain ⟨hle,-,shards,hshards,-⟩ := cmdShard_ok hs
  obtain ⟨-,-,shards',hshards',-⟩ := cmdShard_ok ht
  have hle' : args.threshold.toNat≤args.shares.toNat := UInt8.le_iff_toNat_le.mp hle
  have hbound : args.shares.toNat<256 := args.shares.toNat_lt
  have heq : List.Vector.replicate 32 (0 : UInt8)=List.Vector.replicate 32 1 := by
    refine hcode.seed_eq hshards hshards' (Finset.range args.threshold.toNat)
      (Finset.card_range _) (fun i hi => ?_) (fun i hi => ?_)
    · have := Finset.mem_range.mp hi
      omega
    · have hlt:=Finset.mem_range.mp hi
      have hnat : (UInt8.ofNat (i+1)).toNat=i+1 := by
        rw [UInt8.toNat_ofNat']
        omega
      have hone : 1≤UInt8.ofNat (i+1) := by
        rw [UInt8.le_iff_toNat_le,hnat]
        simp
      have htop : UInt8.ofNat (i+1)≤args.shares := by
        rw [UInt8.le_iff_toNat_le,hnat]
        omega
      obtain ⟨sh,sh',hsh,hsh',hshard⟩ := (hall _ hone htop).shard_eq hcode hs ht
      cases hshards.symm.trans hsh
      cases hshards'.symm.trans hsh'
      exact hshard i (by omega) (Finset.mem_singleton_self _)
  exact absurd heq (by decide)

namespace Sample

def shardArgs (threshold shares : UInt8) : ShardArgs := ⟨"key",threshold,shares,none,false⟩
def shardDisk : ShardDisk := ⟨"shares",.ok (),.ok [],fun _ => .ok (),.ok (),"now"⟩

theorem writeShares_shardDisk (sdk args seed signer i shards) :
    ∃ written,writeShares sdk args shardDisk seed signer i shards=.ok written := by
  induction shards generalizing i with
  | nil => exact ⟨[],rfl⟩
  | cons shardData rest ih =>
    obtain ⟨written,h⟩ := ih (i+1)
    exact ⟨_,congrArg (Except.map (makeShare sdk args shardDisk seed signer i shardData :: ·)) h⟩

theorem cmdShard_runs {threshold total} (hpos : threshold≠0) (hle : threshold≤total) (vault) :
    ∃ shares,cmdShard plainSdk (shardArgs threshold total) shardDisk (.ok vault)=.ok shares := by
  obtain ⟨written,h⟩ := writeShares_shardDisk plainSdk (shardArgs threshold total)
    vault.masterSeed ⟨vault.masterSeed.toList,vault.masterSeed.toList⟩ 0
    (List.replicate (threshold.toNat+(total-threshold).toNat) vault.masterSeed.toList)
  refine ⟨written,?_⟩
  have hlabel : ¬ Vcs.Store.trim "key" = "" := by decide
  have hbound : ¬ (threshold=0 ∨ threshold>total) := not_or.mpr ⟨hpos,UInt8.not_lt.mpr hle⟩
  rw [cmdShard,shardArgs,if_neg hlabel,if_neg hbound]
  exact congrArg (fun r => Except.bind r fun written => shardDisk.save.map fun _ => written) h

theorem plainSdk_determines {threshold total} (hpos : threshold≠0) (hle : threshold≤total) :
    plainSdk.Determines threshold total where
  length := by
    intro seed shards h
    cases h
    have hle' : threshold.toNat≤total.toNat := UInt8.le_iff_toNat_le.mp hle
    rw [List.length_replicate,UInt8.toNat_sub_of_le _ _ hle]
    omega
  seed_eq := by
    intro s t shards shards' hs ht places hcard hplaces heq
    have hthreshold : threshold.toNat≠0 := fun h => hpos (UInt8.toNat_inj.mp h)
    obtain ⟨i,hi⟩ := Finset.card_pos.mp (by omega : 0<places.card)
    have hlt:=hplaces i hi
    have hle' : threshold.toNat≤total.toNat := UInt8.le_iff_toNat_le.mp hle
    have hshard:=heq i hi
    cases hs
    cases ht
    rw [UInt8.toNat_sub_of_le _ _ hle,List.getElem?_replicate,List.getElem?_replicate,
      if_pos (by omega),if_pos (by omega)] at hshard
    exact List.Vector.toList_injective (Option.some.inj hshard)

end Sample
open Sample

theorem fewer_shares_compatible_iff (threshold total : UInt8) (htwo : 2≤threshold)
    (hle : threshold≤total) (numbers : Finset UInt8)
    (hnumbers : ∀ n∈numbers,1≤n ∧ n≤total) (hfew : numbers.card<threshold.toNat) :
    ((∀ sdk args disk vault,args.threshold=threshold → args.shares=total →
      sdk.Determines threshold total → Compatible sdk args disk vault numbers) ↔ numbers = ∅) ∧
    ∀ sdk args disk vault,args.threshold=threshold → args.shares=total →
      sdk.Determines threshold total →
      (∀ s,∃ shares,cmdShard sdk args disk (.ok { vault with masterSeed := s })=.ok shares) →
      ∃ n,1≤n ∧ n≤total ∧ ¬ Compatible sdk args disk vault {n} := by
  have hpos : threshold≠0 := by
    rintro rfl
    exact absurd htwo (by decide)
  refine ⟨⟨?_,?_⟩,?_⟩
  · intro hall
    by_contra hne
    obtain ⟨n,hn⟩ := Finset.nonempty_iff_ne_empty.mpr hne
    obtain ⟨hone,htop⟩ := hnumbers n hn
    have hcode:=plainSdk_determines hpos hle
    have hruns:=fun seed => cmdShard_runs hpos hle ⟨seed,∅⟩
    obtain ⟨shares,hs⟩ := hruns (List.Vector.replicate 32 0)
    obtain ⟨shares',ht⟩ := hruns (List.Vector.replicate 32 1)
    obtain ⟨shards,shards',hshards,hshards',hshard⟩ :=
      (hall _ (shardArgs threshold total) shardDisk ⟨List.Vector.replicate 32 0,∅⟩
        rfl rfl hcode).shard_eq hcode hs ht
    have hn1 : 1≤n.toNat := UInt8.le_iff_toNat_le.mp hone
    have hntop : n.toNat≤total.toNat := UInt8.le_iff_toNat_le.mp htop
    have hlt : n.toNat-1<total.toNat := by omega
    have heq:=hshard (n.toNat-1) hlt (by
      rw [Nat.sub_add_cancel hn1,UInt8.ofNat_toNat]
      exact hn)
    have hle' : threshold.toNat≤total.toNat := UInt8.le_iff_toNat_le.mp hle
    cases hshards
    cases hshards'
    simp only [shardArgs] at heq
    rw [UInt8.toNat_sub_of_le _ _ hle,List.getElem?_replicate,List.getElem?_replicate,
      if_pos (by omega),if_pos (by omega)] at heq
    exact absurd heq (by decide)
  · rintro rfl sdk args disk vault - - - s t shares shares' - -
    simp [dataAt]
  · rintro sdk args disk vault rfl rfl hcode hruns
    exact some_share_tells hcode hruns

namespace Sample

def splitSdk : SecretsSdk :=
  { plainSdk with encodeShards := fun _ _ seed => .ok [seed.toList.take 16,seed.toList.drop 16] }

theorem splitSdk_determines : splitSdk.Determines 2 2 where
  length := by
    intro seed shards h
    cases h
    rfl
  seed_eq := by
    intro s t shards shards' hs ht places hcard hplaces heq
    have hsub : places ⊆ Finset.range 2 := fun i hi => Finset.mem_range.mpr (hplaces i hi)
    have hall : places=Finset.range 2 := Finset.eq_of_subset_of_card_le hsub (by rw [hcard]; decide)
    have hfirst:=heq 0 (by rw [hall]; decide)
    have hsecond:=heq 1 (by rw [hall]; decide)
    cases hs
    cases ht
    refine List.Vector.toList_injective ?_
    rw [← List.take_append_drop 16 s.toList,← List.take_append_drop 16 t.toList,
      Option.some.inj hfirst,Option.some.inj hsecond]

end Sample

theorem one_share_tells_seed : splitSdk.Determines 2 2 ∧
    (cmdShard splitSdk (shardArgs 2 2) shardDisk
      (.ok ⟨Sample.seed 0,∅⟩)).map (dataAt {1})=.ok [(1,List.replicate 16 0)] ∧
    (cmdShard splitSdk (shardArgs 2 2) shardDisk
      (.ok ⟨Sample.seed 1,∅⟩)).map (dataAt {1})=.ok [(1,List.replicate 16 1)] :=
  ⟨splitSdk_determines,by decide +kernel,by decide +kernel⟩

/-- Two of three: share 1 tells two seeds apart under some code, and under this one some
share does. -/
theorem share_of_three_tells_seed :
    (¬ ∀ sdk args disk vault,args.threshold=2 → args.shares=3 → sdk.Determines 2 3 →
      Compatible sdk args disk vault {1}) ∧
    ∃ n,1≤n ∧ n≤(3 : UInt8) ∧
      ¬ Compatible plainSdk (shardArgs 2 3) shardDisk ⟨Sample.seed 0,∅⟩ {n} := by
  have hone : ∀ n∈({1} : Finset UInt8),1≤n ∧ n≤3 := by
    intro n hn
    rw [Finset.mem_singleton.1 hn]
    decide
  obtain ⟨hiff,htells⟩ :=
    fewer_shares_compatible_iff 2 3 (by decide) (by decide) {1} hone (by decide)
  refine ⟨fun hall => Finset.singleton_ne_empty 1 (hiff.1 hall),?_⟩
  exact htells _ _ _ _ rfl rfl (plainSdk_determines (by decide) (by decide))
    fun _ => cmdShard_runs (by decide) (by decide) _

end OriginTools.Secrets
