import OriginTools.Proof.Soundness

/-!
# Membership proofs for data

The leaves are hashes of byte strings, and so are the inner nodes: the tag in front of
the two children makes a node string 77 bytes long, and nothing stops data from having
that shape.
-/

namespace OriginTools.Proof
open HashTree Relation List
section Data
variable (hash : Bytes → Digest) (known : Set Bytes)

def Half (version : ℕ) (s s' : Bytes) : Prop :=
  s'∈known ∧ ∃ a b,s=nodeInput version a b ∧ (hash s'=a ∨ hash s'=b)

theorem half_congr (v v' : ℕ) (h : v≥3 ↔ v'≥3) : Half hash known v=Half hash known v' := by
  unfold Half
  rw [nodeInput_congr h]

theorem half_stepInput (version s step) (hs : s∈known) :
    Half hash known version (stepInput version (hash s) step) s := by
  obtain ⟨sibling,isLeft⟩ := step
  cases isLeft with
  | true => exact ⟨hs,hash s,sibling,rfl,.inl rfl⟩
  | false => exact ⟨hs,sibling,hash s,rfl,.inr rfl⟩

theorem chain_of_climb {version d} (hd : d∈known) {path}
    (hpath : ∀ s∈climbInputs hash version (hash d) path,s∈known) :
    ∃ s∈known,hash s=climb (nodeHashFor hash version) (hash d) path ∧
      ReflTransGen (Half hash known version) s d := by
  induction path using List.reverseRecOn with
  | nil => exact ⟨d,hd,rfl,.refl⟩
  | append_singleton path step ih =>
    rw [climbInputs_step] at hpath
    obtain ⟨s,hs,hvalue,hchain⟩ := ih fun s hs => hpath s (mem_append_left _ hs)
    refine ⟨stepInput version (hash s) step,?_,?_,?_⟩
    · apply hpath
      rw [hvalue]
      simp
    · rw [climb_step,hvalue]
    · exact .head (half_stepInput hash known version s step hs) hchain

theorem climb_of_chain {version s d} (hs : s∈known)
    (h : ReflTransGen (Half hash known version) s d) :
    ∃ path,climb (nodeHashFor hash version) (hash d) path=hash s ∧
      ∀ i∈climbInputs hash version (hash d) path,i∈known := by
  induction h using ReflTransGen.head_induction_on with
  | refl => exact ⟨[],rfl,by simp [climbInputs]⟩
  | @head s s' hstep _ ih =>
    obtain ⟨hs',a,b,hshape,hside⟩ := hstep
    obtain ⟨path,hclimb,hinputs⟩ := ih hs'
    have hone : ∃ step,stepInput version (hash s') step=s := by
      rcases hside with ha | hb
      · exact ⟨(b,true),by rw [hshape,ha]; rfl⟩
      · exact ⟨(a,false),by rw [hshape,hb]; rfl⟩
    obtain ⟨step,hstep⟩ := hone
    refine ⟨path++[step],?_,?_⟩
    · rw [climb_step,hclimb,hstep]
    · intro i hi
      rw [climbInputs_step,hclimb,hstep] at hi
      rcases mem_append.mp hi with hi | hi
      · exact hinputs i hi
      · rw [mem_singleton.mp hi]
        exact hs

def topString : HashTree Bytes → Bytes
  | .leaf e => e
  | .node l r => nodeInput 3 (l.fold hash (nodeHashFor hash 3)) (r.fold hash (nodeHashFor hash 3))

theorem fold_eq_hash_topString (t : HashTree Bytes) :
    t.fold hash (nodeHashFor hash 3)=hash (topString hash t) := by
  cases t with
  | leaf e => rfl
  | node l r => rw [fold,nodeHashFor_eq,topString]

structure TreeKnown (t : HashTree Bytes) : Prop where
  nodes : ∀ s∈nodeInputs hash 3 hash t,s∈known
  leaves : ∀ e∈t.leaves,e∈known

variable {hash known}

theorem TreeKnown.left {l r} (h : TreeKnown hash known (.node l r)) : TreeKnown hash known l :=
  ⟨fun s hs => h.nodes s (.tail _ (mem_append_left _ hs)),
    fun e he => h.leaves e (mem_append_left _ he)⟩

theorem TreeKnown.right {l r} (h : TreeKnown hash known (.node l r)) : TreeKnown hash known r :=
  ⟨fun s hs => h.nodes s (.tail _ (mem_append_right _ hs)),
    fun e he => h.leaves e (mem_append_right _ he)⟩

variable {t : HashTree Bytes}

theorem TreeKnown.top (h : TreeKnown hash known t) : topString hash t∈known := by
  cases t with
  | leaf e => exact h.leaves e (mem_singleton_self e)
  | node l r => exact h.nodes _ (.head _)

theorem TreeKnown.half_left {l r} (h : TreeKnown hash known (.node l r)) :
    Half hash known 3 (topString hash (.node l r)) (topString hash l) :=
  ⟨h.left.top,_,_,rfl,.inl (fold_eq_hash_topString hash l).symm⟩

theorem TreeKnown.half_right {l r} (h : TreeKnown hash known (.node l r)) :
    Half hash known 3 (topString hash (.node l r)) (topString hash r) :=
  ⟨h.right.top,_,_,rfl,.inr (fold_eq_hash_topString hash r).symm⟩

theorem chain_to_node (h : TreeKnown hash known t) (d : Bytes) (hd : d∈nodeInputs hash 3 hash t) :
    ReflTransGen (Half hash known 3) (topString hash t) d := by
  induction t with
  | leaf e => cases hd
  | node l r ihl ihr =>
    rcases mem_cons.mp hd with rfl | hd
    · exact .refl
    · rcases mem_append.mp hd with hd | hd
      · exact .head h.half_left (ihl h.left hd)
      · exact .head h.half_right (ihr h.right hd)

theorem chain_to_leaf (h : TreeKnown hash known t) (e : Bytes) (he : e∈t.leaves) :
    ReflTransGen (Half hash known 3) (topString hash t) e := by
  induction t with
  | leaf e' =>
    rw [mem_singleton.mp he]
    exact .refl
  | node l r ihl ihr =>
    rcases mem_append.mp he with he | he
    · exact .head h.half_left (ihl h.left he)
    · exact .head h.half_right (ihr h.right he)

theorem chain_in_tree (hinj : Set.InjOn hash known) (h : TreeKnown hash known t) (d : Bytes)
    (hchain : ReflTransGen (Half hash known 3) (topString hash t) d) :
    d∈nodeInputs hash 3 hash t ∨ d∈t.leaves ∨ ∃ e∈t.leaves,TransGen (Half hash known 3) e d := by
  induction t with
  | leaf e =>
    rcases hchain.cases_head with heq | ⟨s,hhalf,hrest⟩
    · exact .inr (.inl (mem_singleton.mpr heq.symm))
    · exact .inr (.inr ⟨e,mem_singleton_self e,.head' hhalf hrest⟩)
  | node l r ihl ihr =>
    rcases hchain.cases_head with heq | ⟨s,⟨hs,a,b,hshape,hside⟩,hrest⟩
    · exact .inl (heq ▸ .head _)
    obtain ⟨_,ha,hb⟩ := nodeInput_inj hshape
    rcases hside with hside | hside
    · have heq : s=topString hash l := by
        apply hinj hs h.left.top
        rw [hside,← ha,fold_eq_hash_topString]
      rcases ihl h.left (heq ▸ hrest) with hd | hd | ⟨e,he,hd⟩
      · exact .inl (.tail _ (mem_append_left _ hd))
      · exact .inr (.inl (mem_append_left _ hd))
      · exact .inr (.inr ⟨e,mem_append_left _ he,hd⟩)
    · have heq : s=topString hash r := by
        apply hinj hs h.right.top
        rw [hside,← hb,fold_eq_hash_topString]
      rcases ihr h.right (heq ▸ hrest) with hd | hd | ⟨e,he,hd⟩
      · exact .inl (.tail _ (mem_append_right _ hd))
      · exact .inr (.inl (mem_append_right _ hd))
      · exact .inr (.inr ⟨e,mem_append_right _ he,hd⟩)

end Data

def dataInputs (hash : Bytes → Digest) (D : List Bytes) : List Bytes :=
  (baggedTree D).elim [] (nodeInputs hash 3 hash)

/-- Strings that are not data of the state but within reach of its root: a node string; what
lies behind a half of data of the shape of a node, also of the untagged shape when the data is
the only leaf; and, for the state without leaves, what lies behind its root of zeros. -/
def Exposed (hash : Bytes → Digest) (known : Set Bytes) (D : List Bytes) (d : Bytes) : Prop :=
  d∈dataInputs hash D ∨
  (∃ e∈D,TransGen (Half hash known 3) e d) ∨
  (∃ e,D=[e] ∧ TransGen (Half hash known 2) e d) ∨
  (D=[] ∧ ∃ s∈known,hash s=zeroDigest ∧ ∃ version,ReflTransGen (Half hash known version) s d)

def barePath (leaf : Digest) (path : List (Digest × Bool)) (version : ℕ) : MembershipProof :=
  { leafIndex := 0
    leafCount := 1
    leafHash := hexDigest leaf
    authPath := path.map fun step => { hash := hexDigest step.1,isLeft := step.2 }
    peakIndex := 0
    peaks := [hexDigest zeroDigest]
    version := version }

theorem decodeHash_barePath (leaf path version) :
    decodeHash (barePath leaf path version).leafHash=some leaf := decodeHash_hexDigest leaf

theorem fullPath_barePath (hash : Bytes → Digest) (leaf path version) :
    fullPath hash (barePath leaf path version)=some (leaf,path) := by
  have hdecode : MmrState.decodePath (barePath leaf path version).authPath=some path := by
    apply mapM_decode
    intro step
    rw [decodeHash_hexDigest]
    rfl
  have hpeaks : (barePath leaf path version).peaks.mapM decodeHash=some [zeroDigest] :=
    mapM_decode decodeHash hexDigest decodeHash_hexDigest [zeroDigest]
  have hleaf:=decodeHash_barePath leaf path version
  have hbag : bagPath hash (barePath leaf path version).version [zeroDigest]
      (barePath leaf path version).peakIndex=[] := rfl
  simp only [fullPath,hleaf,hdecode,hpeaks,hbag,append_nil,Option.bind_eq_bind,
    Option.bind_some,Option.pure_def]

theorem root_data {hash D state root}
    (hstate : MmrState.new.appendAll hash (D.map hash)=some state)
    (hroot : state.root hash=some root) :
    root=(baggedTree D).elim zeroDigest fun t => hash (topString hash t) := by
  have hdata:=appendAll_empty hash 3 hash D
  have hsame : state=stateOf hash 3 hash D := Option.some.inj (hstate.symm.trans hdata)
  rw [hsame,root_stateOf,Option.some.injEq] at hroot
  rw [← hroot]
  cases baggedTree D with
  | none => rfl
  | some t => exact fold_eq_hash_topString hash t

section Membership
variable (hash : Bytes → Digest) (known : Set Bytes) (D : List Bytes) (d : Bytes)
  (hinj : Set.InjOn hash known) (hdata : ∀ e∈D,e∈known)
  (hnodes : ∀ s∈dataInputs hash D,s∈known)

include hdata hnodes in
theorem treeKnown_baggedTree (t) (ht : baggedTree D=some t) : TreeKnown hash known t := by
  constructor
  · intro s hs
    apply hnodes
    rw [dataInputs,ht]
    exact hs
  · intro e he
    rw [leaves_baggedTree ht] at he
    exact hdata e he

include hdata hnodes in
theorem chain_of_exposed (h : Exposed hash known D d) : ∃ version,∃ s∈known,
      hash s=(baggedTree D).elim zeroDigest (fun t => hash (topString hash t)) ∧
        ReflTransGen (Half hash known version) s d := by
  cases htree : baggedTree D with
  | none =>
    have hnil:=baggedTree_eq_none htree
    subst hnil
    rcases h with hnode | ⟨e,he,_⟩ | ⟨e,he,_⟩ | ⟨_,s,hs,hzero,version,hchain⟩
    · cases hnode
    · cases he
    · cases he
    · exact ⟨version,s,hs,hzero,hchain⟩
  | some t =>
    have hknown:=treeKnown_baggedTree hash known D hdata hnodes t htree
    have hleaves:=leaves_baggedTree htree
    rcases h with hnode | ⟨e,he,hbelow⟩ | ⟨e,he,hbelow⟩ | ⟨hnil,_⟩
    · rw [dataInputs,htree] at hnode
      exact ⟨3,_,hknown.top,rfl,chain_to_node hknown d hnode⟩
    · rw [← hleaves] at he
      exact ⟨3,_,hknown.top,rfl,(chain_to_leaf hknown e he).trans hbelow.to_reflTransGen⟩
    · subst he
      cases htree
      exact ⟨2,_,hknown.top,rfl,hbelow.to_reflTransGen⟩
    · subst hnil
      cases htree

include hinj hdata hnodes in
theorem exposed_of_chain (version s) (hs : s∈known)
    (hroot : hash s=(baggedTree D).elim zeroDigest fun t => hash (topString hash t))
    (hchain : ReflTransGen (Half hash known version) s d) : d∈D ∨ Exposed hash known D d := by
  cases htree : baggedTree D with
  | none =>
    rw [htree] at hroot
    exact .inr (.inr (.inr (.inr ⟨baggedTree_eq_none htree,s,hs,hroot,version,hchain⟩)))
  | some t =>
    have hknown:=treeKnown_baggedTree hash known D hdata hnodes t htree
    have hleaves:=leaves_baggedTree htree
    rw [htree] at hroot
    have htop : s=topString hash t := hinj hs hknown.top hroot
    subst htop
    by_cases hversion : version≥3
    · rw [half_congr hash known version 3 (by omega)] at hchain
      rcases chain_in_tree hinj hknown d hchain with hnode | hleaf | ⟨e,he,hbelow⟩
      · refine .inr (.inl ?_)
        rw [dataInputs,htree]
        exact hnode
      · exact .inl (hleaves ▸ hleaf)
      · exact .inr (.inr (.inl ⟨e,hleaves ▸ he,hbelow⟩))
    · -- without the tag only a leaf can be split
      rw [half_congr hash known version 2 (by omega)] at hchain
      cases t with
      | leaf e =>
        rcases hchain.cases_head with heq | ⟨s',hhalf,hrest⟩
        · rw [← hleaves,← heq]
          exact .inl (mem_singleton_self e)
        · exact .inr (.inr (.inr (.inl ⟨e,hleaves.symm,.head' hhalf hrest⟩)))
      | node l r =>
        rcases hchain.cases_head with heq | ⟨s',⟨_,a,b,hshape,_⟩,_⟩
        · refine .inr (.inl ?_)
          rw [dataInputs,htree,← heq]
          exact .head _
        · have htag:=(nodeInput_inj hshape).1
          omega

end Membership

theorem data_membership_iff (hash : Bytes → Digest) (known : Set Bytes)
    (hinj : Set.InjOn hash known) (D : List Bytes) (d : Bytes) (hdata : ∀ e∈D,e∈known)
    (hd : d∈known) (hnodes : ∀ s∈dataInputs hash D,s∈known) (state : MmrState)
    (root : Digest) (hstate : MmrState.new.appendAll hash (D.map hash)=some state)
    (hroot : state.root hash=some root) :
    (∀ proof : MembershipProof,decodeHash proof.leafHash=some (hash d) →
        (∀ s∈proofInputs hash proof,s∈known) →
        MmrState.verifyProof hash proof root=some true → d∈D) ↔
      d∈D ∨ ¬ Exposed hash known D d := by
  have hvalue:=root_data hstate hroot
  constructor
  · intro hsound
    by_cases hexposed : Exposed hash known D d
    · obtain ⟨version,s,hs,hs_root,hchain⟩ :=
        chain_of_exposed hash known D d hdata hnodes hexposed
      obtain ⟨path,hclimb,hinputs⟩ := climb_of_chain hash known hs hchain
      have hpath:=fullPath_barePath hash (hash d) path version
      have hleaf:=decodeHash_barePath (hash d) path version
      refine .inl (hsound (barePath (hash d) path version) hleaf ?_ ?_)
      · intro i hi
        rw [proofInputs,hpath] at hi
        exact hinputs i hi
      · refine (accepted_iff hash root hleaf).mpr ⟨by simp [barePath],path,hpath,?_⟩
        rw [hvalue,← hs_root]
        exact hclimb
    · exact .inr hexposed
  · intro hcond proof hleaf hproof haccept
    obtain ⟨_,path,hpath,hclimb⟩ := (accepted_iff hash root hleaf).mp haccept
    obtain ⟨s,hs,hs_value,hchain⟩ := chain_of_climb hash known hd (by
      intro i hi
      apply hproof
      rw [proofInputs,hpath]
      exact hi)
    have hs_root:=hs_value.trans (hclimb.trans hvalue)
    rcases exposed_of_chain hash known D d hinj hdata hnodes proof.version s hs hs_root hchain with
      hin | hexposed
    · exact hin
    · exact hcond.resolve_right (fun hnot => hnot hexposed)

def Plain (s : Bytes) : Prop := ∀ version a b,s≠nodeInput version a b

theorem not_half_of_plain (hash : Bytes → Digest) (known version s s') (h : Plain s) :
    ¬ Half hash known version s s' := by
  intro ⟨_,a,b,hshape,_⟩
  exact h version a b hshape

theorem mem_nodeInputs {ι : Type} {hash : Bytes → Digest} {version} {lab : ι → Digest} {t s}
    (h : s∈nodeInputs hash version lab t) : ∃ a b,s=nodeInput version a b := by
  induction t with
  | leaf i => cases h
  | node l r ihl ihr =>
    rcases mem_cons.mp h with rfl | h
    · exact ⟨_,_,rfl⟩
    · rcases mem_append.mp h with h | h
      · exact ihl h
      · exact ihr h

theorem not_exposed_of_plain (hash : Bytes → Digest) (known) {D d} (hD : D≠[])
    (hplain : ∀ e∈D,Plain e) (hd : Plain d) : ¬ Exposed hash known D d := by
  intro h
  rcases h with hnode | ⟨e,he,hbelow⟩ | ⟨e,he,hbelow⟩ | ⟨hnil,_⟩
  · unfold dataInputs at hnode
    cases htree : baggedTree D with
    | none =>
      rw [htree] at hnode
      cases hnode
    | some t =>
      rw [htree] at hnode
      obtain ⟨a,b,hshape⟩ := mem_nodeInputs hnode
      exact hd 3 a b hshape
  · obtain ⟨s,hhalf,_⟩ := TransGen.head'_iff.mp hbelow
    exact not_half_of_plain hash known 3 e s (hplain e he) hhalf
  · obtain ⟨s,hhalf,_⟩ := TransGen.head'_iff.mp hbelow
    exact not_half_of_plain hash known 2 e s (hplain e (by simp [he])) hhalf
  · exact hD hnil

theorem plain_of_length (s : Bytes) (h77 : s.length≠77) (h64 : s.length≠64) : Plain s := by
  intro version a b heq
  have hlen:=length_nodeInput version a b
  rw [← heq] at hlen
  split at hlen
  · exact h77 hlen
  · exact h64 hlen

def shortHash (s : Bytes) : Digest := digestOf (if s.length=1 then s.headD 0 else 9)
def shortData : List Bytes := [[1],[2]]
def shortNode : Bytes := nodeInput 3 (digestOf 1) (digestOf 2)
def shortKnown : Set Bytes := {[1],[2],[3],shortNode}

theorem shortHash_node : shortHash shortNode=digestOf 9 := by decide

theorem shortHash_injOn : Set.InjOn shortHash shortKnown := by
  have hbyte : ∀ b c : UInt8,digestOf b=digestOf c → b=c := by
    intro b c h
    have hhead:=congrArg (fun v : Digest => v.head) h
    exact hhead
  intro s hs s' hs' heq
  simp only [shortKnown,Set.mem_insert_iff,Set.mem_singleton_iff] at hs hs'
  rcases hs with rfl | rfl | rfl | rfl <;> rcases hs' with rfl | rfl | rfl | rfl <;> first
    | rfl
    | (have hne := hbyte _ _ heq; revert hne; decide)

theorem shortData_state : MmrState.new.appendAll shortHash (shortData.map shortHash)=
        some (stateOf shortHash 3 shortHash shortData) ∧
      (stateOf shortHash 3 shortHash shortData).root shortHash=some (digestOf 9) := by
  refine ⟨appendAll_empty shortHash 3 shortHash shortData,?_⟩
  rw [root_stateOf_bagPeaks]
  decide

theorem shortData_inputs : ∀ s∈dataInputs shortHash shortData,s∈shortKnown := by
  intro s hs
  have hinputs : dataInputs shortHash shortData=[shortNode] := rfl
  rw [hinputs] at hs
  rw [mem_singleton.mp hs]
  simp [shortKnown]

theorem data_membership_short : ¬ Exposed shortHash shortKnown shortData [3] ∧
      ∀ proof : MembershipProof,decodeHash proof.leafHash=some (shortHash [3]) →
        (∀ s∈proofInputs shortHash proof,s∈shortKnown) →
        MmrState.verifyProof shortHash proof (digestOf 9)=some true → [3]∈shortData := by
  have hplain : ∀ e∈shortData,Plain e := by
    intro e he
    apply plain_of_length
    · revert e
      decide
    · revert e
      decide
  have hexposed : ¬ Exposed shortHash shortKnown shortData [3] :=
    not_exposed_of_plain shortHash shortKnown (by decide) hplain
      (plain_of_length _ (by decide) (by decide))
  refine ⟨hexposed,(data_membership_iff shortHash shortKnown shortHash_injOn shortData [3] ?_
    (by simp [shortKnown]) shortData_inputs _ _ shortData_state.1 shortData_state.2).mpr
    (.inr hexposed)⟩
  intro e he
  simp only [shortData,mem_cons,not_mem_nil,or_false] at he
  rcases he with rfl | rfl <;> simp [shortKnown]

/-- The string of the root node is no leaf, and a proof with an empty path shows it as one. -/
theorem node_string_proved : Set.InjOn shortHash shortKnown ∧
      (∃ state,MmrState.new.appendAll shortHash (shortData.map shortHash)=some state ∧
        state.root shortHash=some (digestOf 9)) ∧
      decodeHash (barePath (shortHash shortNode) [] 3).leafHash=some (shortHash shortNode) ∧
      MmrState.verifyProof shortHash (barePath (shortHash shortNode) [] 3) (digestOf 9)=
        some true ∧
      shortNode∉shortData := by
  have hleaf:=decodeHash_barePath (shortHash shortNode) [] 3
  refine ⟨shortHash_injOn,⟨_,shortData_state⟩,hleaf,?_,by decide⟩
  exact (accepted_iff shortHash (digestOf 9) hleaf).mpr
    ⟨by decide,[],fullPath_barePath _ _ _ _,shortHash_node⟩

end OriginTools.Proof
