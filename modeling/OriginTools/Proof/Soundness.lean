import OriginTools.Proof.Completeness

/-!
# What an accepted membership proof says

A proof recomputes the root by climbing from its leaf hash, first inside a mountain and
then along the peaks; both kinds of steps use the same node hash.
-/

namespace OriginTools.Proof
open HashTree List MmrState

def nodeInput (version : ℕ) (a b : Digest) : Bytes :=
  (if version≥3 then nodeDomain else [])++a.toList++b.toList

theorem nodeHashFor_eq (hash : Bytes → Digest) (version a b) :
    nodeHashFor hash version a b=hash (nodeInput version a b) := by
  unfold nodeHashFor nodeInput parentHashV3 parentHash
  split <;> rfl

theorem length_nodeInput (version a b) :
    (nodeInput version a b).length=if version≥3 then 77 else 64 := by
  unfold nodeInput
  split <;> simp [nodeDomain]

theorem nodeInput_inj {v v' a b a' b'} (h : nodeInput v a b=nodeInput v' a' b') :
    (v≥3 ↔ v'≥3) ∧ a=a' ∧ b=b' := by
  have hlen:=congrArg List.length h
  rw [length_nodeInput,length_nodeInput] at hlen
  have hsame : v≥3 ↔ v'≥3 := by
    split_ifs at hlen <;> omega
  have hrest : a.toList++b.toList=a'.toList++b'.toList := by
    unfold nodeInput at h
    rw [if_congr hsame rfl rfl,append_assoc,append_assoc] at h
    exact append_cancel_left h
  obtain ⟨ha,hb⟩ := append_inj hrest (by simp)
  exact ⟨hsame,Subtype.ext ha,Subtype.ext hb⟩

theorem nodeInput_congr {v v'} (h : v≥3 ↔ v'≥3) : nodeInput v=nodeInput v' := by
  funext a b
  unfold nodeInput
  rw [if_congr h rfl rfl]

section Inputs
variable {ι : Type} (hash : Bytes → Digest) (version : ℕ) (lab : ι → Digest)

def nodeInputs : HashTree ι → List Bytes
  | .leaf _ => []
  | .node l r => nodeInput version (l.fold lab (nodeHashFor hash version))
      (r.fold lab (nodeHashFor hash version))::(nodeInputs l++nodeInputs r)

def climbInputs (x : Digest) : List (Digest × Bool) → List Bytes
  | [] => []
  | (sibling,isLeft)::rest =>
    let input:=if isLeft then nodeInput version x sibling else nodeInput version sibling x
    input::climbInputs (hash input) rest

def stepInput (x : Digest) (step : Digest × Bool) : Bytes :=
  if step.2 then nodeInput version x step.1 else nodeInput version step.1 x

theorem climb_step (x path step) : climb (nodeHashFor hash version) x (path++[step])=
      hash (stepInput version (climb (nodeHashFor hash version) x path) step) := by
  rw [climb_append]
  simp only [climb,foldl_cons,foldl_nil,stepInput,nodeHashFor_eq]
  split <;> rfl

theorem climbInputs_step (x path step) :
    climbInputs hash version x (path++[step])=climbInputs hash version x path++
      [stepInput version (climb (nodeHashFor hash version) x path) step] := by
  induction path generalizing x with
  | nil => rfl
  | cons first path ih =>
    obtain ⟨sibling,isLeft⟩ := first
    rw [cons_append,climbInputs,ih,climbInputs,cons_append]
    congr 4
    simp only [climb,foldl_cons,nodeHashFor_eq]
    split <;> rfl

end Inputs

def subtreeAt {ι : Type} : HashTree ι → List Bool → Option (HashTree ι)
  | t,[] => some t
  | .leaf _,_::_ => none
  | .node l r,left::rest => if left then subtreeAt l rest else subtreeAt r rest

theorem subtreeAt_nil {ι : Type} (t : HashTree ι) : subtreeAt t []=some t := by
  cases t <;> rfl

theorem mem_leaves_of_subtreeAt {ι : Type} {t : HashTree ι} (turns : List Bool) {i}
    (h : subtreeAt t turns=some (.leaf i)) : i∈t.leaves := by
  induction t generalizing turns with
  | leaf j =>
    cases turns with
    | nil =>
      cases h
      exact mem_singleton_self i
    | cons left rest => cases h
  | node l r ihl ihr =>
    rcases turns with _ | ⟨left,rest⟩
    · cases h
    cases left with
    | true => exact mem_append_left _ (ihl rest h)
    | false => exact mem_append_right _ (ihr rest h)

/-- A climb that ends at the value of a tree runs down its branches, unless it passes below a
leaf whose value is the hash of a string on the way. -/
theorem subtreeAt_of_climb {ι : Type} {hash version version' lab known}
    (hinj : Set.InjOn hash known) {x path} (t : HashTree ι)
    (htree : ∀ s∈nodeInputs hash version lab t,s∈known)
    (hpath : ∀ s∈climbInputs hash version' x path,s∈known)
    (h : climb (nodeHashFor hash version') x path=t.fold lab (nodeHashFor hash version)) :
    (∃ u,subtreeAt t (path.reverse.map Prod.snd)=some u ∧ u.fold lab (nodeHashFor hash version)=x ∧
        ∀ s∈nodeInputs hash version lab u,s∈known) ∨
      ∃ i∈t.leaves,∃ s∈known,lab i=hash s := by
  induction path using List.reverseRecOn generalizing t with
  | nil => exact .inl ⟨t,subtreeAt_nil t,h.symm,htree⟩
  | append_singleton path step ih =>
    rw [climb_step] at h
    have hinput : stepInput version' (climb (nodeHashFor hash version') x path) step∈known := by
      apply hpath
      rw [climbInputs_step]
      simp
    have hbelow : ∀ s∈climbInputs hash version' x path,s∈known := by
      intro s hs
      apply hpath
      rw [climbInputs_step]
      exact mem_append_left _ hs
    cases t with
    | leaf i => exact .inr ⟨i,mem_singleton_self i,_,hinput,h.symm⟩
    | node l r =>
      obtain ⟨sibling,isLeft⟩ := step
      have hnode : nodeInput version (l.fold lab (nodeHashFor hash version))
          (r.fold lab (nodeHashFor hash version))∈known := htree _ (.head _)
      have hl : ∀ s∈nodeInputs hash version lab l,s∈known := fun s hs =>
        htree s (.tail _ (mem_append_left _ hs))
      have hr : ∀ s∈nodeInputs hash version lab r,s∈known := fun s hs =>
        htree s (.tail _ (mem_append_right _ hs))
      rw [fold,nodeHashFor_eq] at h
      have hsame:=hinj hinput hnode h
      simp only [reverse_append,reverse_cons,reverse_nil,nil_append,cons_append,map_cons,subtreeAt]
      cases isLeft with
      | true =>
        obtain ⟨_,hleft,_⟩ := nodeInput_inj hsame
        rcases ih l hl hbelow hleft with hu | ⟨i,hi,hs⟩
        · exact .inl hu
        · exact .inr ⟨i,mem_append_left _ hi,hs⟩
      | false =>
        obtain ⟨_,_,hright⟩ := nodeInput_inj hsame
        rcases ih r hr hbelow hright with hu | ⟨i,hi,hs⟩
        · exact .inl hu
        · exact .inr ⟨i,mem_append_right _ hi,hs⟩

/-- The steps from peak `idx` to the root: the fold of the peaks before it stands on its left,
and each later peak on its right. -/
def bagPath (hash : Bytes → Digest) (version : ℕ) (peaks : List Digest) (idx : ℕ) :
    List (Digest × Bool) :=
  if idx=0 then (peaks.drop 1).map fun p => (p,true)
  else (bagPeaks hash version (peaks.take idx),false)::(peaks.drop (idx+1)).map fun p => (p,true)

theorem climb_right (nh : Digest → Digest → Digest) (x : Digest) (peaks : List Digest) :
    climb nh x (peaks.map fun p => (p,true))=peaks.foldl nh x := by
  induction peaks generalizing x with
  | nil => rfl
  | cons p peaks ih =>
    rw [map_cons,foldl_cons,← ih (nh x p)]
    rfl

theorem bagPeaks_set (hash : Bytes → Digest) (version) {peaks idx} (x) (h : idx<peaks.length) :
    bagPeaks hash version (peaks.set idx x)=
      climb (nodeHashFor hash version) x (bagPath hash version peaks idx) := by
  rcases peaks with _ | ⟨first,rest⟩
  · simp at h
  cases idx with
  | zero =>
    simp only [bagPath,if_true,set_cons_zero,drop_succ_cons,drop_zero,climb_right,bagPeaks]
  | succ idx =>
    have hidx : idx<rest.length := by simpa using h
    have hset : rest.set idx x=rest.take idx++x::rest.drop (idx+1) :=
      set_eq_take_append_cons_drop.trans (if_pos hidx)
    rw [bagPath,if_neg (by omega),set_cons_succ,bagPeaks,hset,
      foldl_append,foldl_cons,take_succ_cons,drop_succ_cons]
    simp only [bagPeaks]
    rw [← climb_right]
    rfl

def fullPath (hash : Bytes → Digest) (proof : MembershipProof) :
    Option (Digest × List (Digest × Bool)) := do
  let leafHash ← decodeHash proof.leafHash
  let path ← decodePath proof.authPath
  let peaks ← proof.peaks.mapM decodeHash
  return (leafHash,path++bagPath hash proof.version peaks proof.peakIndex)

def proofInputs (hash : Bytes → Digest) (proof : MembershipProof) : List Bytes :=
  (fullPath hash proof).elim [] fun climber => climbInputs hash proof.version climber.1 climber.2

def directions (proof : MembershipProof) : List Bool :=
  ((if proof.peakIndex=0 then List.replicate (proof.peaks.length-1) true
    else false::List.replicate (proof.peaks.length-(proof.peakIndex+1)) true).reverse)++
  (proof.authPath.map AuthStep.isLeft).reverse

theorem decodePath_flags {steps} (path : List (Digest × Bool)) (h : decodePath steps=some path) :
    path.map Prod.snd=steps.map AuthStep.isLeft := by
  induction steps generalizing path with
  | nil =>
    cases h
    rfl
  | cons step steps ih =>
    rw [decodePath,mapM_cons] at h
    obtain ⟨first,hfirst,h⟩ := Option.bind_eq_some_iff.mp h
    obtain ⟨rest,hrest,h⟩ := Option.bind_eq_some_iff.mp h
    cases h
    obtain ⟨sibling,_,hstep⟩ := Option.map_eq_some_iff.mp hfirst
    rw [map_cons,map_cons,ih rest hrest,← hstep]

theorem length_mapM_decodeHash {texts : List String} (ds : List Digest)
    (h : texts.mapM decodeHash=some ds) : ds.length=texts.length := by
  induction texts generalizing ds with
  | nil =>
    cases h
    rfl
  | cons text texts ih =>
    rw [mapM_cons] at h
    obtain ⟨first,_,h⟩ := Option.bind_eq_some_iff.mp h
    obtain ⟨rest,hrest,h⟩ := Option.bind_eq_some_iff.mp h
    cases h
    rw [length_cons,length_cons,ih rest hrest]

variable {proof : MembershipProof} {leaf : Digest}

theorem accepted_iff (hash : Bytes → Digest) (root : Digest)
    (hleaf : decodeHash proof.leafHash=some leaf) :
    verifyProof hash proof root=some true ↔
      proof.peakIndex<proof.peaks.length ∧ ∃ path,fullPath hash proof=some (leaf,path) ∧
        climb (nodeHashFor hash proof.version) leaf path=root := by
  unfold verifyProof fullPath
  rw [hleaf]
  rcases hpath : decodePath proof.authPath with _ | path
  · simp
  cases hpeaks : proof.peaks.mapM decodeHash with
  | none =>
    simp only [Option.bind_eq_bind,Option.bind_some,Option.bind_none]
    split <;> simp
  | some peaks =>
    have hlen:=length_mapM_decodeHash peaks hpeaks
    simp only [Option.bind_eq_bind,Option.bind_some,Option.pure_def,Option.some.injEq,
      Prod.mk.injEq,true_and]
    by_cases hidx : proof.peakIndex≥proof.peaks.length
    · rw [if_pos hidx]
      simp only [Option.some.injEq,Bool.false_eq_true,false_iff]
      omega
    · rw [if_neg hidx,bagPeaks_set hash proof.version _ (by omega),← climb_append]
      simp only [Option.some.injEq,beq_iff_eq,exists_eq_left']
      exact (and_iff_right (by omega)).symm

theorem directions_eq {hash} {path : List (Digest × Bool)}
    (h : fullPath hash proof=some (leaf,path)) :
    path.reverse.map Prod.snd=directions proof := by
  unfold fullPath at h
  obtain ⟨_,_,h⟩ := Option.bind_eq_some_iff.mp h
  obtain ⟨steps,hsteps,h⟩ := Option.bind_eq_some_iff.mp h
  obtain ⟨peaks,hpeaks,h⟩ := Option.bind_eq_some_iff.mp h
  cases h
  have hflags:=decodePath_flags steps hsteps
  have hlen:=length_mapM_decodeHash peaks hpeaks
  have hbag : (bagPath hash proof.version peaks proof.peakIndex).map Prod.snd=
      if proof.peakIndex=0 then List.replicate (proof.peaks.length-1) true
      else false::List.replicate (proof.peaks.length-(proof.peakIndex+1)) true := by
    unfold bagPath
    split <;> simp [map_const',Function.comp_def,hlen]
  rw [map_reverse,map_append,reverse_append,hflags,hbag]
  rfl

def stateInputs (hash : Bytes → Digest) (version : ℕ) (hs : List Digest) : List Bytes :=
  (baggedTree (List.range hs.length)).elim []
    (nodeInputs hash version fun i => hs.getD i zeroDigest)

def position (n : ℕ) (turns : List Bool) : Option ℕ :=
  match (baggedTree (List.range n)).bind fun t => subtreeAt t turns with
  | some (.leaf i) => some i
  | _ => none

theorem map_range_getD (hs : List Digest) :
    (List.range hs.length).map (fun i => hs.getD i zeroDigest)=hs := by
  apply ext_getElem?
  intro i
  rw [getElem?_map]
  by_cases hi : i<hs.length
  · rw [getElem?_range hi,getElem?_eq_getElem hi]
    simp [hi]
  · rw [getElem?_eq_none (by simpa using hi),getElem?_eq_none (by omega)]
    rfl

theorem leaves_foldl_node {ι : Type} (t : HashTree ι) (ts : List (HashTree ι)) :
    (ts.foldl node t).leaves=t.leaves++ts.flatMap leaves := by
  induction ts generalizing t with
  | nil => simp
  | cons u ts ih => rw [foldl_cons,ih,leaves,flatMap_cons,append_assoc]

theorem leaves_baggedTree {ι : Type} {is} {t : HashTree ι} (h : baggedTree is=some t) :
    t.leaves=is := by
  have hall : ((grow is).reverse.flatMap fun p => p.2.leaves)=is := allLeaves_grow is
  unfold baggedTree at h
  cases hps : (grow is).reverse with
  | nil =>
    rw [hps] at h
    cases h
  | cons p ps =>
    rw [hps] at h hall
    cases h
    rw [leaves_foldl_node,flatMap_map]
    exact hall

theorem baggedTree_eq_none {ι : Type} {is : List ι} (h : baggedTree is=none) : is=[] := by
  by_contra hne
  have hgrow:=grow_ne_nil hne
  unfold baggedTree at h
  cases hps : (grow is).reverse with
  | nil => exact hgrow (reverse_eq_nil_iff.mp hps)
  | cons p ps =>
    rw [hps] at h
    cases h

theorem position_of_accepted {hash version hs known} (hinj : Set.InjOn hash known)
    (hdisjoint : ∀ s∈known,hash s∉hs) {state : MmrState} {root}
    (hstate : (empty version).appendAll hash hs=some state)
    (hroot : state.root hash=some root) (hbuilt : ∀ s∈stateInputs hash version hs,s∈known)
    (hproof : ∀ s∈proofInputs hash proof,s∈known)
    (hleaf : decodeHash proof.leafHash=some leaf) (hmem : leaf∈hs)
    (haccept : verifyProof hash proof root=some true) :
    ∃ pos,position state.leafCount (directions proof)=some pos ∧ hs[pos]? = some leaf := by
  have hlabelled:=appendAll_empty hash version (fun i => hs.getD i zeroDigest)
    (List.range hs.length)
  rw [map_range_getD,hstate,Option.some.injEq] at hlabelled
  subst hlabelled
  rw [root_stateOf] at hroot
  obtain ⟨_,path,hpath,hclimb⟩ := (accepted_iff hash root hleaf).mp haccept
  have hcount : (stateOf hash version (fun i => hs.getD i zeroDigest)
      (List.range hs.length)).leafCount=hs.length := length_range
  rw [hcount]
  cases htree : baggedTree (List.range hs.length) with
  | none =>
    have hnil:=baggedTree_eq_none htree
    have hzero : hs.length=0 := by simpa using congrArg List.length hnil
    rw [length_eq_zero_iff.mp hzero] at hmem
    cases hmem
  | some t =>
    rw [htree] at hroot
    cases hroot
    have hnodes : ∀ s∈nodeInputs hash version (fun i => hs.getD i zeroDigest) t,s∈known := by
      intro s hs'
      apply hbuilt
      rw [stateInputs,htree]
      exact hs'
    have hsteps : ∀ s∈climbInputs hash proof.version leaf path,s∈known := by
      intro s hs'
      apply hproof
      rw [proofInputs,hpath]
      exact hs'
    have hlab : ∀ i∈t.leaves,hs.getD i zeroDigest∈hs := by
      intro i hi
      rw [leaves_baggedTree htree,mem_range] at hi
      rw [getD_eq_getElem _ _ hi]
      exact getElem_mem hi
    rcases subtreeAt_of_climb hinj t hnodes hsteps
      hclimb with ⟨u,hu,hvalue,hunodes⟩ | ⟨i,hi,s,hs',hcollide⟩
    · rw [directions_eq hpath] at hu
      cases u with
      | leaf i =>
        refine ⟨i,?_,?_⟩
        · rw [position,htree,Option.bind_some,hu]
        · have hi : hs.getD i zeroDigest=leaf := hvalue
          have hlt : i<hs.length := by
            have hmemi:=mem_leaves_of_subtreeAt _ hu
            rw [leaves_baggedTree htree] at hmemi
            exact mem_range.mp hmemi
          rw [getElem?_eq_getElem hlt,← hi,getD_eq_getElem _ _ hlt]
      | node l r =>
        rw [fold,nodeHashFor_eq] at hvalue
        exact absurd (hvalue ▸ hmem) (hdisjoint _ (hunodes _ (.head _)))
    · exact absurd (hcollide ▸ hlab i hi) (hdisjoint s hs')

theorem proof_position_iff (hash : Bytes → Digest) (version : ℕ) (hs : List Digest)
    (known : Set Bytes) (hinj : Set.InjOn hash known) (hdisjoint : ∀ s∈known,hash s∉hs)
    (state : MmrState) (root : Digest)
    (hstate : (empty version).appendAll hash hs=some state)
    (hroot : state.root hash=some root)
    (hbuilt : ∀ s∈stateInputs hash version hs,s∈known)
    (proof : MembershipProof) (hproof : ∀ s∈proofInputs hash proof,s∈known)
    (leaf : Digest) (hleaf : decodeHash proof.leafHash=some leaf) (hmem : leaf∈hs)
    (haccept : verifyProof hash proof root=some true) :
    (proof.leafIndex<proof.leafCount ∧ proof.leafCount=state.leafCount ∧
        hs[proof.leafIndex]? = some leaf) ↔
      proof.leafCount=state.leafCount ∧ ∃ pos,position state.leafCount (directions proof)=some pos ∧
          hs[proof.leafIndex]? = hs[pos]? := by
  obtain ⟨pos,hpos,hat⟩ := position_of_accepted hinj hdisjoint
    hstate hroot hbuilt hproof hleaf hmem haccept
  have hcount : state.leafCount=hs.length := by
    have hlabelled:=appendAll_empty hash version (fun h : Digest => h) hs
    rw [map_id',hstate,Option.some.injEq] at hlabelled
    rw [hlabelled]
    rfl
  constructor
  · intro ⟨_,hsame,hindex⟩
    exact ⟨hsame,pos,hpos,by rw [hindex,hat]⟩
  · intro ⟨hsame,pos',hpos',hindex⟩
    have heq : pos'=pos := Option.some.inj (hpos'.symm.trans hpos)
    rw [heq,hat] at hindex
    have hlt : proof.leafIndex<hs.length := (List.getElem?_eq_some_iff.mp hindex).1
    exact ⟨by omega,hsame,hindex⟩

def digestOf (b : UInt8) : Digest := List.Vector.replicate 32 b
def twoLeaves : List Digest := [digestOf 1,digestOf 2]
def constHash : Bytes → Digest := fun _ => digestOf 9

def relabelledProof (i : ℕ) : MembershipProof :=
  proofOf constHash 3 (fun h : Digest => h) twoLeaves i 0 0 (digestOf 1)
    (.node (.leaf (digestOf 1)) (.leaf (digestOf 2)))

theorem relabelledProof_accepted (i : ℕ) :
    verifyProof constHash (relabelledProof i) (digestOf 9)=some true := by
  have hroot:=root_stateOf_bagPeaks constHash 3 (fun h : Digest => h) twoLeaves
  exact verifyProof_proofOf constHash 3 (fun h : Digest => h) i 0 0 hroot rfl rfl

theorem twoLeaves_state : (empty 3).appendAll constHash twoLeaves=
        some (stateOf constHash 3 (fun h : Digest => h) twoLeaves) ∧
      (stateOf constHash 3 (fun h : Digest => h) twoLeaves).root constHash=some (digestOf 9) := by
  have hstate:=appendAll_empty constHash 3 (fun h : Digest => h) twoLeaves
  rw [map_id'] at hstate
  exact ⟨hstate,root_stateOf_bagPeaks constHash 3 (fun h : Digest => h) twoLeaves⟩

def twoLeavesInput : Bytes := nodeInput 3 (digestOf 1) (digestOf 2)

theorem twoLeaves_ideal : Set.InjOn constHash {twoLeavesInput} ∧
    (∀ s∈({twoLeavesInput} : Set Bytes),constHash s∉twoLeaves) ∧
    (∀ s∈stateInputs constHash 3 twoLeaves,s∈({twoLeavesInput} : Set Bytes)) := by
  refine ⟨Set.injOn_singleton _ _,?_,?_⟩
  · intro s _
    change digestOf 9∉twoLeaves
    decide
  · intro s hs
    have hinputs : stateInputs constHash 3 twoLeaves=[twoLeavesInput] := rfl
    rw [hinputs] at hs
    exact mem_singleton.mp hs

theorem relabelledProof_inputs (i : ℕ) :
    ∀ s∈proofInputs constHash (relabelledProof i),s∈({twoLeavesInput} : Set Bytes) := by
  intro s hs
  have hpath : fullPath constHash (relabelledProof i)=some (digestOf 1,[(digestOf 2,true)]) := by
    simp only [fullPath,relabelledProof,proofOf,decodeHash_hexDigest]
    rfl
  rw [proofInputs,hpath] at hs
  exact mem_singleton.mp hs

theorem proof_position_first : (relabelledProof 0).leafIndex<(relabelledProof 0).leafCount ∧
      (relabelledProof 0).leafCount=2 ∧
      twoLeaves[(relabelledProof 0).leafIndex]? = some (digestOf 1) :=
  (proof_position_iff constHash 3 twoLeaves {twoLeavesInput} twoLeaves_ideal.1 twoLeaves_ideal.2.1
    _ _ twoLeaves_state.1 twoLeaves_state.2 twoLeaves_ideal.2.2 (relabelledProof 0)
    (relabelledProof_inputs 0) (digestOf 1) (decodeHash_hexDigest _) (by decide)
    (relabelledProof_accepted 0)).mpr ⟨rfl,0,rfl,rfl⟩

/-- The proof of the first leaf is accepted as a proof of leaf `1`. -/
theorem relabelled_proof_accepted : Set.InjOn constHash {twoLeavesInput} ∧
      (∀ s∈({twoLeavesInput} : Set Bytes),constHash s∉twoLeaves) ∧
      (∃ state,(empty 3).appendAll constHash twoLeaves=some state ∧
        state.root constHash=some (digestOf 9)) ∧
      decodeHash (relabelledProof 1).leafHash=some (digestOf 1) ∧ digestOf 1∈twoLeaves ∧
      verifyProof constHash (relabelledProof 1) (digestOf 9)=some true ∧
      (relabelledProof 1).leafIndex=1 ∧ twoLeaves[1]? = some (digestOf 2) ∧
      digestOf 2≠digestOf 1 :=
  ⟨twoLeaves_ideal.1,twoLeaves_ideal.2.1,⟨_,twoLeaves_state⟩,decodeHash_hexDigest _,
    by decide,relabelledProof_accepted 1,rfl,rfl,by decide⟩

end OriginTools.Proof
