import OriginTools.Foundation.HashTree
import OriginTools.Foundation.SortedMap
import OriginTools.Vcs.Verify

/-!
# The accumulator over the commit log

`append_commit_leaf` and `recompute_mmr_root_from_log` (`store.rs`) on the mountain
range of `mmr.rs`.
-/

namespace OriginTools.Vcs
open Store List MmrState
variable (sdk : Sdk)

def appendCommitLeaves : List ObjectId → Command Store String Unit
  | [] => pure ()
  | id::ids => do
    appendCommitLeaf sdk id
    appendCommitLeaves ids

def recomputeMmrRootFromLog (s : Store) : Except String ObjectId := s.commitLog.map (replayRoot sdk)
def joinIds (left right : ObjectId) : Bytes := idBytes left++idBytes right
def leafInput (data : ObjectId) (pos : ℕ) : Bytes := beBytes 8 pos++idBytes data
def leafInputs (log : List ObjectId) : List Bytes := log.mapIdx fun pos data => leafInput data pos

def logTree (log : List ObjectId) : Option (HashTree Bytes) :=
  HashTree.bag (HashTree.grow (leafInputs log))

def hashed (log : List ObjectId) : List Bytes :=
  match logTree log with
  | none => []
  | some t => t.inputs sdk.sha3_256 joinIds

theorem length_idBytes (id : ObjectId) : (idBytes id).length=32 := length_beBytes 32 id.val

theorem length_leafInput (data pos) : (leafInput data pos).length=40 := by
  simp [leafInput,length_beBytes,length_idBytes]

theorem idBytes_inj {a b} (h : idBytes a=idBytes b) : a=b := by
  rw [← idOfBytes_beBytes a,← idOfBytes_beBytes b]
  exact congrArg idOfBytes h

theorem joinIds_inj (a b c d : ObjectId) (h : joinIds a b=joinIds c d) : a=c ∧ b=d := by
  have hlen : (idBytes a).length=(idBytes c).length := by
    rw [length_idBytes,length_idBytes]
  obtain ⟨hleft,hright⟩ := append_inj h hlen
  exact ⟨idBytes_inj hleft,idBytes_inj hright⟩

theorem leafInput_inj {a b i j} (h : leafInput a i=leafInput b j) : a=b := by
  have hlen : (beBytes 8 i).length=(beBytes 8 j).length := by
    rw [length_beBytes,length_beBytes]
  exact idBytes_inj (append_inj h hlen).2

theorem leafInput_ne_joinIds (data left right pos) : leafInput data pos≠joinIds left right := by
  intro h
  have hlen:=congrArg List.length h
  simp [length_leafInput,joinIds,length_idBytes] at hlen

theorem leafInputs_append (log : List ObjectId) (id : ObjectId) :
    leafInputs (log++[id])=leafInputs log++[leafInput id log.length] := by
  simp [leafInputs,mapIdx_append]

variable {log : List ObjectId}

theorem leafInputs_inj {log'} (h : leafInputs log=leafInputs log') : log=log' := by
  have hlen : log.length=log'.length := by
    simpa [leafInputs] using congrArg List.length h
  apply ext_getElem hlen
  intro i hi hi'
  have hget : (leafInputs log)[i]? = (leafInputs log')[i]? := by rw [h]
  simp only [leafInputs,getElem?_mapIdx,getElem?_eq_getElem hi,
    getElem?_eq_getElem hi',Option.map_some,Option.some.injEq] at hget
  exact leafInput_inj hget

/-- The stored peaks are the values of the peaks of a range of hash trees. -/
def Represents (peaks : Std.ExtTreeMap ℕ ObjectId compare) (range : List (ℕ × HashTree Bytes)) :
    Prop :=
  peaks.toList=range.map fun p => (p.1,p.2.value sdk.sha3_256 joinIds)

theorem represents_insert (peaks : Std.ExtTreeMap ℕ ObjectId compare) (range) (h : ℕ)
    (t : HashTree Bytes) (hrep : Represents sdk peaks range) (hlt : ∀ p∈range,h<p.1) :
    Represents sdk (peaks.insert h (t.value sdk.sha3_256 joinIds)) ((h,t)::range) := by
  unfold Represents
  rw [SortedMap.toList_insert_first hrep]
  · rfl
  · intro q hq
    obtain ⟨p,hp,rfl⟩ := mem_map.mp hq
    exact Nat.compare_eq_lt.mpr (hlt p hp)

theorem represents_none (peaks range) (h : ℕ) (hrep : Represents sdk peaks range)
    (hlt : ∀ p∈range,h<p.1) : peaks[h]? = none := by
  apply SortedMap.getElem?_eq_none hrep
  intro q hq
  obtain ⟨p,hp,rfl⟩ := mem_map.mp hq
  exact Nat.ne_of_gt (hlt p hp)

/-- The carry chain of the source is the carry chain of the range. -/
theorem carry_represents (range : List (ℕ × HashTree Bytes)) (fuel peaks) (h : ℕ)
    (t : HashTree Bytes) (hfuel : range.length≤fuel) (hr : HashTree.Range h range)
    (hrep : Represents sdk peaks range) :
    Represents sdk (carry sdk fuel peaks h (t.value sdk.sha3_256 joinIds))
      (HashTree.carry range h t) := by
  induction range generalizing fuel peaks h t with
  | nil =>
    have hinsert:=represents_insert sdk peaks [] h t hrep (by simp)
    have hnone:=represents_none sdk peaks [] h hrep (by simp)
    cases fuel with
    | zero => exact hinsert
    | succ fuel => simpa only [carry,hnone,HashTree.carry] using hinsert
  | cons p rest ih =>
    obtain ⟨k,peak⟩ := p
    rcases fuel with _ | fuel
    · simp at hfuel
    simp only [length_cons,Nat.add_le_add_iff_right] at hfuel
    by_cases hk : k=h
    · have hpeak : peaks[h]? = some (peak.value sdk.sha3_256 joinIds) :=
        (SortedMap.getElem?_eq hrep h _).mpr (by simp [hk])
      have herase : Represents sdk (peaks.erase h) rest :=
        SortedMap.toList_erase_first (peak.value sdk.sha3_256 joinIds) (by rw [hrep,← hk]; rfl)
      have htail : HashTree.Range (h+1) rest := hk ▸ HashTree.range_tail hr
      have hcarry:=ih fuel (peaks.erase h) (h+1) (HashTree.node peak t) hfuel htail herase
      simp only [carry,hpeak,HashTree.carry,if_pos hk]
      exact hcarry
    · have hlt : ∀ p∈(k,peak)::rest,h<p.1 := by
        have hge : h≤k := hr.above (k,peak) (.head _)
        have hrest:=(HashTree.range_tail hr).above
        intro p hp
        rcases mem_cons.mp hp with rfl | hp
        · exact lt_of_le_of_ne hge (Ne.symm hk)
        · have habove:=hrest p hp
          omega
      simp only [carry,represents_none sdk peaks _ h hrep hlt,HashTree.carry,if_neg hk]
      exact represents_insert sdk peaks _ h t hrep hlt

def logState (log : List ObjectId) : MmrState := log.foldl (fun acc id => acc.append sdk id) new

theorem logState_append (log id) : logState sdk (log++[id])=(logState sdk log).append sdk id := by
  simp [logState]

theorem logState_leafCount (log : List ObjectId) : (logState sdk log).leafCount=log.length := by
  induction log using List.reverseRecOn with
  | nil => rfl
  | append_singleton log id ih =>
    rw [logState_append,length_append,length_singleton,← ih]
    rfl

theorem logState_represents (log) :
    Represents sdk (logState sdk log).peaks (HashTree.grow (leafInputs log)) := by
  induction log using List.reverseRecOn with
  | nil => simp [Represents,logState,new,leafInputs,HashTree.grow]
  | append_singleton log id ih =>
    have hsize : (HashTree.grow (leafInputs log)).length≤(logState sdk log).peaks.size := by
      have hlen:=congrArg List.length ih
      rw [length_map,Std.ExtTreeMap.length_toList] at hlen
      omega
    have hleaf : leafHash sdk id (logState sdk log).leafCount=
        (HashTree.leaf (leafInput id log.length)).value sdk.sha3_256 joinIds := by
      rw [logState_leafCount]
      rfl
    rw [logState_append,leafInputs_append,HashTree.grow_append]
    simp only [append,hleaf]
    exact carry_represents sdk _ _ _ 0 _ hsize (HashTree.range_grow _) ih

theorem mem_peaks_iff (log : List ObjectId) (h : ℕ) :
    h∈(logState sdk log).peaks ↔ log.length.testBit h := by
  have hkeys : (logState sdk log).peaks.keys=log.length.bitIndices := by
    have hlen : (leafInputs log).length=log.length := by simp [leafInputs]
    have hfst:=congrArg (List.map Prod.fst) (logState_represents sdk log)
    rw [Std.ExtTreeMap.map_fst_toList_eq_keys,map_map] at hfst
    rw [hfst,← hlen,← HashTree.heights_grow]
    rfl
  rw [← Std.ExtTreeMap.mem_keys,hkeys,Nat.mem_bitIndices]

theorem foldl_parentHash (t : HashTree Bytes) (ts : List (HashTree Bytes)) :
    (ts.map fun u => u.value sdk.sha3_256 joinIds).foldl (parentHash sdk)
        (t.value sdk.sha3_256 joinIds)=
      (ts.foldl HashTree.node t).value sdk.sha3_256 joinIds := by
  induction ts generalizing t with
  | nil => rfl
  | cons u ts ih => exact ih (HashTree.node t u)

theorem replayRoot_eq (log) : replayRoot sdk log=match logTree log with
      | none => 0
      | some t => t.value sdk.sha3_256 joinIds := by
  have hvalues : (logState sdk log).peaks.values=
      (HashTree.grow (leafInputs log)).map fun p => p.2.value sdk.sha3_256 joinIds := by
    have hsnd:=congrArg (List.map Prod.snd) (logState_represents sdk log)
    rw [map_map] at hsnd
    rw [SortedMap.values_eq]
    exact hsnd
  have hroot : replayRoot sdk log=(logState sdk log).root sdk := rfl
  rw [hroot,root,hvalues,logTree]
  rcases HashTree.grow (leafInputs log) with - | ⟨⟨k,peak⟩,rest⟩
  · rfl
  · simp only [map_cons,HashTree.bag]
    rw [← foldl_parentHash,map_map]
    rfl

theorem logTree_nil : logTree []=none := rfl

theorem logTree_isSome (h : log≠[]) : ∃ t,logTree log=some t := by
  apply HashTree.bag_isSome
  intro hnil
  apply h
  exact leafInputs_inj hnil

theorem leaf_ne_joinIds {t} (ht : logTree log=some t) : ∀ i∈t.leaves,∀ a b,i≠joinIds a b := by
  intro i hi a b
  have hin : i∈leafInputs log := HashTree.mem_leaves_bag ht hi
  simp only [leafInputs,mem_mapIdx] at hin
  obtain ⟨pos,hpos,rfl⟩ := hin
  exact leafInput_ne_joinIds _ a b pos

theorem replayRoot_ne_zero (h : log≠[]) (hzero : ∀ i∈hashed sdk log,sdk.sha3_256 i≠0) :
    replayRoot sdk log≠0 := by
  obtain ⟨t,ht⟩ := logTree_isSome h
  have hin : t.top sdk.sha3_256 joinIds∈hashed sdk log := by
    simp only [hashed,ht]
    exact HashTree.top_mem_inputs sdk.sha3_256 joinIds t
  rw [replayRoot_eq,ht]
  simp only [HashTree.value_eq_hash_top]
  exact hzero _ hin

theorem eq_of_replayRoot_eq (log log')
    (hinj : Set.InjOn sdk.sha3_256 {i | i∈hashed sdk log ∨ i∈hashed sdk log'})
    (hzero : ∀ i,i∈hashed sdk log ∨ i∈hashed sdk log' → sdk.sha3_256 i≠0)
    (hroot : replayRoot sdk log=replayRoot sdk log') : log=log' := by
  have hempty : replayRoot sdk []=0 := by rw [replayRoot_eq,logTree_nil]
  by_cases hlog : log=[]
  · by_cases hlog' : log'=[]
    · rw [hlog,hlog']
    · rw [hlog,hempty] at hroot
      exact absurd hroot.symm (replayRoot_ne_zero sdk hlog' fun i hi => hzero i (.inr hi))
  · by_cases hlog' : log'=[]
    · rw [hlog',hempty] at hroot
      exact absurd hroot (replayRoot_ne_zero sdk hlog fun i hi => hzero i (.inl hi))
    obtain ⟨t,ht⟩ := logTree_isSome hlog
    obtain ⟨u,hu⟩ := logTree_isSome hlog'
    simp only [hashed,ht,hu] at hinj
    have hvalue : t.value sdk.sha3_256 joinIds=u.value sdk.sha3_256 joinIds := by
      simpa only [replayRoot_eq,ht,hu] using hroot
    have htree : t=u := HashTree.eq_of_value_eq sdk.sha3_256 joinIds joinIds_inj t u
      (leaf_ne_joinIds ht) (leaf_ne_joinIds hu) hinj hvalue
    rw [htree] at ht
    exact leafInputs_inj (HashTree.eq_of_bag_eq ht hu)

def LogKept (s : Store) (log : List ObjectId) : Prop := s.commitLog=.ok log ∧ s.mmr=logState sdk log

theorem appendCommitLeaf_kept {s} (id : ObjectId) (h : LogKept sdk s log) :
    ∃ s',appendCommitLeaf sdk id s=some (.ok (),s') ∧ LogKept sdk s' (log++[id]) := by
  obtain ⟨hlog,hmmr⟩ := h
  refine ⟨{ s with mmr := s.mmr.append sdk id,commitLog := .ok (log++[id]) },?_,rfl,?_⟩
  · simp [appendCommitLeaf,hlog]
  · rw [logState_append,← hmmr]

theorem appendCommitLeaves_kept (ids s log) (h : LogKept sdk s log) :
    ∃ s',appendCommitLeaves sdk ids s=some (.ok (),s') ∧ LogKept sdk s' (log++ids) := by
  induction ids generalizing s log with
  | nil => exact ⟨s,rfl,by simpa using h⟩
  | cons id ids ih =>
    obtain ⟨s₁,hrun,hkept⟩ := appendCommitLeaf_kept sdk id h
    obtain ⟨s',hrest,hkept'⟩ := ih s₁ (log++[id]) hkept
    refine ⟨s',?_,by simpa using hkept'⟩
    simp only [appendCommitLeaves,Command.bind_apply,hrun,hrest]

theorem empty_kept : LogKept sdk Store.empty [] := ⟨rfl,rfl⟩

theorem appendCommitLeaves_bind_log :
    (∀ ids : List ObjectId,∃ s',appendCommitLeaves sdk ids Store.empty=some (.ok (),s') ∧
      s'.commitLog=.ok ids ∧ s'.mmr.leafCount=ids.length ∧
      (∀ h,h∈s'.mmr.peaks ↔ s'.mmr.leafCount.testBit h) ∧
      recomputeMmrRootFromLog sdk s'=.ok (s'.mmr.root sdk)) ∧
    ∀ log log' : List ObjectId,Set.InjOn sdk.sha3_256 {i | i∈hashed sdk log ∨ i∈hashed sdk log'} →
      (∀ i,i∈hashed sdk log ∨ i∈hashed sdk log' → sdk.sha3_256 i≠0) →
      replayRoot sdk log=replayRoot sdk log' → log=log' := by
  refine ⟨?_,eq_of_replayRoot_eq sdk⟩
  intro ids
  obtain ⟨s',hrun,hlog,hmmr⟩ := appendCommitLeaves_kept sdk ids Store.empty [] (empty_kept sdk)
  simp only [nil_append] at hlog hmmr
  have hcount : s'.mmr.leafCount=ids.length := by rw [hmmr,logState_leafCount]
  refine ⟨s',hrun,hlog,hcount,?_,?_⟩
  · intro h
    rw [hcount,hmmr,mem_peaks_iff]
  · simp only [recomputeMmrRootFromLog,hlog,hmmr]
    rfl

/-- Swapping two commits changes the root of the sample hash, which has no collision
on the inputs of the two logs. -/
theorem replayRoot_swap_ne : replayRoot Sample.sdk [1,2]≠replayRoot Sample.sdk [2,1] := by
  have hnodup : ((hashed Sample.sdk [1,2]++hashed Sample.sdk [2,1]).map
      Sample.sdk.sha3_256).Nodup := by decide +kernel
  have hnonzero : (hashed Sample.sdk [1,2]++hashed Sample.sdk [2,1]).all
      (fun i => Sample.sdk.sha3_256 i != 0)=true := by decide +kernel
  have hmem (i : Bytes) : i∈hashed Sample.sdk [1,2] ∨ i∈hashed Sample.sdk [2,1] →
      i∈hashed Sample.sdk [1,2]++hashed Sample.sdk [2,1] := mem_append.mpr
  have hinj : Set.InjOn Sample.sdk.sha3_256
      {i | i∈hashed Sample.sdk [1,2] ∨ i∈hashed Sample.sdk [2,1]} :=
    fun i hi j hj hij => inj_on_of_nodup_map hnodup (hmem i hi) (hmem j hj) hij
  have hzero : ∀ i,i∈hashed Sample.sdk [1,2] ∨ i∈hashed Sample.sdk [2,1] →
      Sample.sdk.sha3_256 i≠0 :=
    fun i hi => bne_iff_ne.mp (all_eq_true.mp hnonzero i (hmem i hi))
  intro hroot
  have hswap:=(appendCommitLeaves_bind_log Sample.sdk).2 [1,2] [2,1] hinj hzero hroot
  exact absurd hswap (by decide)

namespace Sample

def dataHash : Sdk := { Sample.sdk with sha3_256 := fun bytes => idOfBytes (bytes.drop 8) }

end Sample
open Sample

/-- Injectivity on the inputs alone does not keep the zero id from being the hash of
a leaf, and then a log of one commit has the root of the empty log. -/
theorem replayRoot_zero_leaf : Set.InjOn dataHash.sha3_256
        {i | i∈hashed dataHash [] ∨ i∈hashed dataHash [0]} ∧
      replayRoot dataHash []=replayRoot dataHash [0] := by
  have hnil : hashed dataHash []=[] := rfl
  have hone : hashed dataHash [0]=[leafInput 0 0] := rfl
  refine ⟨?_,by decide +kernel⟩
  rintro i (hi | hi) j (hj | hj) -
  · simp [hnil] at hi
  · simp [hnil] at hi
  · simp [hnil] at hj
  · rw [hone,mem_singleton] at hi hj
    rw [hi,hj]

end OriginTools.Vcs
