import OriginTools.Proof.Mmr

/-!
# Every appended leaf can be proved

A state stores one mountain for each set bit of its leaf count, each a perfect tree in
level order.
-/

namespace OriginTools.Proof
open HashTree List MmrState

structure Mountain.LevelOrdered (hash : Bytes → Digest) (version : ℕ) (m : Mountain) : Prop where
  size : m.nodes.length=2^(m.height+1)-1
  children : ∀ l j,l < m.height → j<2^(m.height-(l+1)) →
    ∃ a b,m.getNode l (2*j)=some a ∧ m.getNode l (2*j+1)=some b ∧
      m.getNode (l+1) j=some (nodeHashFor hash version a b)

section Complete
variable {ι : Type} (hash : Bytes → Digest) (version : ℕ) (lab : ι → Digest)

theorem levelOrdered_mountainOf {h t} (hp : Perfect h t) :
    (mountainOf hash version lab t).LevelOrdered hash version := by
  have hheight : (mountainOf hash version lab t).height=h := hp.height_eq
  constructor
  · rw [hheight,mountainOf,length_map,length_levelOrder hp]
  · intro l j hl hj
    rw [hheight] at hl hj
    have hpow : 2^(h-l)=2*2^(h-(l+1)) := by
      rw [← pow_succ',show h-(l+1)+1=h-l by omega]
    obtain ⟨a,b,ha,hb,hab⟩ : ∃ a b,(t.level lab (nodeHashFor hash version) l)[2*j]? = some a ∧ _ :=
      level_children hp l j hl hj
    refine ⟨a,b,?_,?_,?_⟩
    · rw [getNode_mountainOf hash version lab hp l _ (by omega) (by omega),ha]
    · rw [getNode_mountainOf hash version lab hp l _ (by omega) (by omega),hb]
    · rw [getNode_mountainOf hash version lab hp (l+1) _ (by omega) hj,hab]

theorem heights_stateOf (is : List ι) :
    (stateOf hash version lab is).mountains.map Mountain.height=is.length.bitIndices.reverse := by
  rw [← heights_grow is,← map_reverse]
  simp only [stateOf,map_map]
  apply map_congr_left
  intro p hp
  exact (perfect_grow is p (mem_reverse.mp hp)).height_eq

variable {a : ι}

theorem locateIn_mountains {ps : List (ℕ × HashTree ι)} (hps : ∀ p∈ps,Perfect p.1 p.2) (mi i : ℕ)
    (ha : (ps.flatMap fun p => p.2.leaves)[i]? = some a) :
    ∃ idx k p,locateIn (ps.map fun p => mountainOf hash version lab p.2) mi i=
      .ok (mi+idx,k) ∧ ps[idx]? = some p ∧ p.2.leaves[k]? = some a := by
  induction ps generalizing mi i with
  | nil => simp at ha
  | cons p ps ih =>
    have hp : Perfect p.1 p.2 := hps p (.head _)
    have hlen:=hp.length_leaves
    have hheight : (mountainOf hash version lab p.2).height=p.1 := hp.height_eq
    rw [flatMap_cons] at ha
    rw [map_cons,locateIn,hheight]
    by_cases hi : i<2^p.1
    · rw [getElem?_append_left (by omega)] at ha
      rw [if_pos hi]
      exact ⟨0,i,p,rfl,rfl,ha⟩
    · rw [getElem?_append_right (by omega),hlen] at ha
      obtain ⟨idx,k,q,hloc,hq,hk⟩ := ih (fun q hq => hps q (.tail _ hq)) (mi+1) (i-2^p.1) ha
      rw [if_neg hi]
      refine ⟨idx+1,k,q,?_,hq,hk⟩
      rw [hloc,show mi+1+idx=mi+(idx+1) by omega]

variable {is : List ι}

theorem locateLeaf_stateOf {i : ℕ} (ha : is[i]? = some a) :
    ∃ idx k p,(stateOf hash version lab is).locateLeaf i=.ok (idx,k) ∧
      (grow is).reverse[idx]? = some p ∧ p.2.leaves[k]? = some a := by
  have hi : i < is.length := (List.getElem?_eq_some_iff.mp ha).1
  have hall : ((grow is).reverse.flatMap fun p => p.2.leaves)=is := allLeaves_grow is
  obtain ⟨idx,k,p,hloc,hp,hk⟩ := locateIn_mountains hash version lab
    (fun p hp => perfect_grow is p (mem_reverse.mp hp)) 0 i (by rw [hall]; exact ha)
  refine ⟨idx,k,p,?_,hp,hk⟩
  rw [Nat.zero_add] at hloc
  rw [locateLeaf,if_neg (by simp only [stateOf]; omega)]
  exact hloc

def proofOf (is : List ι) (i idx k : ℕ) (a : ι) (t : HashTree ι) : MembershipProof :=
  { leafIndex := i
    leafCount := is.length
    leafHash := hexDigest (lab a)
    authPath := (t.pathAt lab (nodeHashFor hash version) k).map
      fun step => { hash := hexDigest step.1,isLeft := step.2 }
    peakIndex := idx
    peaks := ((grow is).reverse.map fun p => p.2.fold lab (nodeHashFor hash version)).map hexDigest
    version := version }

theorem prove_stateOf {i idx k p} (hloc : (stateOf hash version lab is).locateLeaf i=.ok (idx,k))
    (hp : (grow is).reverse[idx]? = some p) (hk : p.2.leaves[k]? = some a) :
    (stateOf hash version lab is).prove i=
      some (.ok (proofOf hash version lab is i idx k a p.2)) := by
  have hperfect : Perfect p.1 p.2 :=
    perfect_grow is p (mem_reverse.mp (mem_of_getElem? hp))
  have hmountain : (stateOf hash version lab is).mountains[idx]? =
      some (mountainOf hash version lab p.2) := by
    simp only [stateOf,getElem?_map,hp,Option.map_some]
  have hpath:=authPath_mountainOf hash version lab hperfect k a hk
  have hpeaks:=peaks_stateOf hash version lab is
  simp only [prove,hloc,hmountain,hpath,hpeaks,Option.bind_eq_bind,Option.bind_some,Option.pure_def]
  rfl

theorem mapM_decode {α β : Type} (f : α → Option β) (g : β → α) (h : ∀ b,f (g b)=some b)
    (bs : List β) : (bs.map g).mapM f=some bs := by
  induction bs with
  | nil => rfl
  | cons b bs ih =>
    simp only [map_cons,mapM_cons,h,ih,Option.bind_eq_bind,Option.bind_some,
      Option.pure_def]

theorem verifyProof_proofOf (i idx k : ℕ) {p root}
    (hroot : (stateOf hash version lab is).root hash=some root)
    (hp : (grow is).reverse[idx]? = some p) (hk : p.2.leaves[k]? = some a) :
    verifyProof hash (proofOf hash version lab is i idx k a p.2) root=some true := by
  have hclimb:=climb_pathAt lab (nodeHashFor hash version) k hk
  have hdecode : decodePath ((p.2.pathAt lab (nodeHashFor hash version) k).map
      fun step => { hash := hexDigest step.1,isLeft := step.2 })=
        some (p.2.pathAt lab (nodeHashFor hash version) k) := by
    apply mapM_decode
    intro step
    rw [decodeHash_hexDigest]
    rfl
  have hpeaks:=mapM_decode decodeHash hexDigest decodeHash_hexDigest
    ((grow is).reverse.map fun p => p.2.fold lab (nodeHashFor hash version))
  have hidx : idx<(grow is).reverse.length := (List.getElem?_eq_some_iff.mp hp).1
  have hset : ((grow is).reverse.map fun p => p.2.fold lab (nodeHashFor hash version)).set idx
      (p.2.fold lab (nodeHashFor hash version))=
        (grow is).reverse.map fun p => p.2.fold lab (nodeHashFor hash version) := by
    apply ext_getElem?
    intro j
    rw [getElem?_set]
    by_cases hj : idx=j
    · subst hj
      rw [if_pos rfl,if_pos (by simpa using hidx),getElem?_map,hp]
      rfl
    · rw [if_neg hj]
  rw [root_stateOf_bagPeaks] at hroot
  have hvalue:=Option.some.inj hroot
  simp only [verifyProof,proofOf,decodeHash_hexDigest,hdecode,hpeaks,hclimb,hset,
    hvalue,Option.bind_eq_bind,Option.bind_some,Option.pure_def,length_map]
  rw [if_neg (by omega),beq_self_eq_true]

end Complete

/-- Shape and completeness: after any appends to a fresh state, the heights fall and are the
set bits of the leaf count, every mountain is a perfect tree in level order all of whose paths
are inside it, and every leaf is located, proved and verified. -/
theorem mmr_shape_and_completeness (hash : Bytes → Digest) (version : ℕ) (hs : List Digest) :
    ∃ state root,(empty version).appendAll hash hs=some state ∧
      state.root hash=some root ∧ state.leafCount=hs.length ∧
      (state.mountains.map Mountain.height).Pairwise (· > ·) ∧
      (∀ k,k∈state.mountains.map Mountain.height ↔ state.leafCount.testBit k=true) ∧
      (∀ m∈state.mountains,m.LevelOrdered hash version ∧
        ∀ i<2^m.height,(m.authPath i).isSome=true) ∧
      ∀ i<state.leafCount,(∃ mi k m,state.locateLeaf i=.ok (mi,k) ∧ state.mountains[mi]? = some m ∧
          k<2^m.height) ∧
        ∃ proof,state.prove i=some (.ok proof) ∧ proof.leafIndex=i ∧
          decodeHash proof.leafHash=hs[i]? ∧
          verifyProof hash proof root=some true := by
  have hstate:=appendAll_empty hash version (fun h : Digest => h) hs
  rw [map_id'] at hstate
  have hroot:=root_stateOf_bagPeaks hash version (fun h : Digest => h) hs
  have hheights:=heights_stateOf hash version (fun h : Digest => h) hs
  refine ⟨stateOf hash version (fun h => h) hs,_,hstate,hroot,rfl,?_,?_,?_,?_⟩
  · rw [hheights,pairwise_reverse]
    exact Nat.bitIndices_sorted.pairwise
  · intro k
    rw [hheights,mem_reverse,Nat.mem_bitIndices]
    rfl
  · intro m hm
    obtain ⟨p,hp,rfl⟩ := mem_map.mp hm
    have hperfect : Perfect p.1 p.2 := perfect_grow hs p (mem_reverse.mp hp)
    refine ⟨levelOrdered_mountainOf hash version _ hperfect,?_⟩
    intro i hi
    have hheight : (mountainOf hash version (fun h : Digest => h) p.2).height=p.1 :=
      hperfect.height_eq
    rw [hheight,← hperfect.length_leaves] at hi
    rw [authPath_mountainOf hash version _ hperfect i _ (getElem?_eq_getElem hi)]
    rfl
  · intro i hi
    have hleaf : hs[i]? = some hs[i] := getElem?_eq_getElem hi
    obtain ⟨idx,k,p,hloc,hp,hk⟩ := locateLeaf_stateOf hash version (fun h : Digest => h) hleaf
    have hperfect : Perfect p.1 p.2 :=
      perfect_grow hs p (mem_reverse.mp (mem_of_getElem? hp))
    have hheight : (mountainOf hash version (fun h : Digest => h) p.2).height=p.1 :=
      hperfect.height_eq
    refine ⟨⟨idx,k,mountainOf hash version (fun h => h) p.2,hloc,?_,?_⟩,?_⟩
    · simp only [stateOf,getElem?_map,hp,Option.map_some]
    · rw [hheight,← hperfect.length_leaves]
      exact (List.getElem?_eq_some_iff.mp hk).1
    · refine ⟨_,prove_stateOf hash version _ hloc hp hk,rfl,?_,
        verifyProof_proofOf hash version _ i idx k hroot hp hk⟩
      rw [hleaf]
      exact decodeHash_hexDigest _

end OriginTools.Proof
