import OriginTools.Foundation.LevelOrder
import OriginTools.Vcs.Object

/-!
# The mountain range of the proof library

`origin-proof/src/mmr.rs`: mountains are perfect trees stored in level order as
hexadecimal digests, the tallest first; appending a leaf merges mountains of equal
height.
-/

namespace OriginTools.Proof
open HashTree List

abbrev Bytes : Type := List UInt8
abbrev Digest : Type := List.Vector UInt8 32
def zeroDigest : Digest := List.Vector.replicate 32 0

def hexEncode (bytes : Bytes) : String :=
  String.ofList (bytes.flatMap fun b => [Nat.digitChar (b.toNat/16),Nat.digitChar (b.toNat%16)])

def decodeHash (s : String) : Option Digest :=
  match Vcs.hexDecode s with
  | .error _ => none
  | .ok bytes => if h : bytes.length=32 then some ⟨bytes,h⟩ else none

def hexDigest (d : Digest) : String := hexEncode d.toList

theorem utf8_hexEncode (bytes : Bytes) : Vcs.utf8 (hexEncode bytes)=bytes.flatMap fun b =>
      [Vcs.digitByte (b.toNat/16),Vcs.digitByte (b.toNat%16)] := by
  have hpair : ∀ b : UInt8,
      [Nat.digitChar (b.toNat/16),Nat.digitChar (b.toNat%16)].flatMap String.utf8EncodeChar=
        [Vcs.digitByte (b.toNat/16),Vcs.digitByte (b.toNat%16)] := by
    intro b
    have hb:=b.toNat_lt
    rw [flatMap_cons,flatMap_cons,flatMap_nil,
      Vcs.utf8_digitChar _ (by omega),Vcs.utf8_digitChar _ (by omega)]
    rfl
  rw [hexEncode,Vcs.utf8_ofList,flatMap_assoc]
  exact flatMap_congr fun b _ => hpair b

theorem hexPairs_hexEncode (i : ℕ) (bytes : Bytes) : Vcs.hexPairs i (bytes.flatMap fun b =>
      [Vcs.digitByte (b.toNat/16),Vcs.digitByte (b.toNat%16)])=.ok bytes := by
  induction bytes generalizing i with
  | nil => rfl
  | cons b bytes ih =>
    have hb:=b.toNat_lt
    have hhigh:=Vcs.hexDigit_digitByte (b.toNat/16) (by omega)
    have hlow:=Vcs.hexDigit_digitByte (b.toNat%16) (by omega)
    have hbyte : UInt8.ofNat (16*(b.toNat/16)+b.toNat%16)=b := by
      rw [Nat.div_add_mod]
      simp
    simp only [flatMap_cons,cons_append,nil_append,Vcs.hexPairs,hhigh,hlow,ih (i+2),hbyte]

theorem hexDecode_hexEncode (bytes : Bytes) : Vcs.hexDecode (hexEncode bytes)=.ok bytes := by
  have hlen : (Vcs.utf8 (hexEncode bytes)).length%2=0 := by
    rw [utf8_hexEncode,length_flatMap]
    simp
  unfold Vcs.hexDecode
  rw [if_neg (by omega),utf8_hexEncode]
  exact hexPairs_hexEncode 0 bytes

@[simp] theorem decodeHash_hexDigest (d : Digest) : decodeHash (hexDigest d)=some d := by
  unfold decodeHash hexDigest
  simp only [hexDecode_hexEncode,List.Vector.toList_length,dif_pos]
  rfl

def nodeDomain : Bytes := [79,82,71,78,45,77,77,82,45,78,79,68,69]

section Model
variable (hash : Bytes → Digest)

def parentHash (a b : Digest) : Digest := hash (a.toList++b.toList)
def parentHashV3 (a b : Digest) : Digest := hash (nodeDomain++a.toList++b.toList)

def nodeHashFor (version : ℕ) (a b : Digest) : Digest :=
  if version≥3 then parentHashV3 hash a b else parentHash hash a b

structure Mountain where
  height : ℕ
  nodes : List String
  deriving DecidableEq,Repr

namespace Mountain

def leaf (h : Digest) : Mountain := { height := 0,nodes := [hexDigest h] }
def peak (m : Mountain) : Option Digest := m.nodes.getLast?.bind decodeHash
def levelOffset (m : Mountain) (l : ℕ) : ℕ := 2^(m.height+1)-2^(m.height-l+1)
def levelCount (m : Mountain) (l : ℕ) : ℕ := 2^(m.height-l)

def getNode (m : Mountain) (level index : ℕ) : Option Digest :=
  m.nodes[m.levelOffset level+index]?.bind decodeHash

def slice (m : Mountain) (lo count : ℕ) : Option (List String) :=
  if lo+count ≤ m.nodes.length then some ((m.nodes.drop lo).take count) else none

def mergeLevels (left right : Mountain) : List ℕ → Option (List String)
  | [] => some []
  | l::ls => do
    let fromLeft ← left.slice (left.levelOffset l) (left.levelCount l)
    let fromRight ← right.slice (right.levelOffset l) (right.levelCount l)
    let rest ← mergeLevels left right ls
    return fromLeft++fromRight++rest

def mergeWith (left right : Mountain) (version : ℕ) : Option Mountain :=
  if left.height≠right.height then none
  else do
    let h:=left.height+1
    let leftLeaves ← left.slice 0 (left.levelCount 0)
    let rightLeaves ← right.slice 0 (right.levelCount 0)
    let inner ← mergeLevels left right (List.range' 1 (h-1))
    let leftPeak ← left.peak
    let rightPeak ← right.peak
    let newPeak:=nodeHashFor hash version leftPeak rightPeak
    return { height := h,nodes := leftLeaves++rightLeaves++inner++[hexDigest newPeak] }

def authLoop (m : Mountain) : ℕ → ℕ → ℕ → Option (List (Digest × Bool))
  | 0,_,_ => some []
  | n+1,level,idx => do
    let sibling ← m.getNode level (idx ^^^ 1)
    let rest ← authLoop m n (level+1) (idx >>> 1)
    return (sibling,idx &&& 1==0)::rest

def authPath (m : Mountain) (leafIndex : ℕ) : Option (Digest × List (Digest × Bool)) := do
  let leafHash ← m.getNode 0 leafIndex
  let path ← m.authLoop m.height 0 leafIndex
  return (leafHash,path)

end Mountain

structure MmrState where
  version : ℕ
  mountains : List Mountain
  leafCount : ℕ
  deriving DecidableEq,Repr

structure AuthStep where
  hash : String
  isLeft : Bool

structure MembershipProof where
  leafIndex : ℕ
  leafCount : ℕ
  leafHash : String
  authPath : List AuthStep
  peakIndex : ℕ
  peaks : List String
  version : ℕ

namespace MmrState

/-- A state without leaves; `new` makes one of version 3, and state files of version 2 load. -/
def empty (version : ℕ) : MmrState := { version := version,mountains := [],leafCount := 0 }
def new : MmrState := empty 3

def carry (version : ℕ) : List Mountain → Mountain → Option (List Mountain)
  | [],m => some [m]
  | last::rest,m =>
    if last.height=m.height then do
      let merged ← Mountain.mergeWith hash last m version
      carry version rest merged
    else some (m::last::rest)

def appendHash (s : MmrState) (leafHash : Digest) : Option MmrState := do
  let stack ← carry hash s.version s.mountains.reverse (Mountain.leaf leafHash)
  return { s with mountains := stack.reverse,leafCount := s.leafCount+1 }

def peaks (s : MmrState) : Option (List Digest) := s.mountains.mapM Mountain.peak

def bagPeaks (version : ℕ) : List Digest → Digest
  | [] => zeroDigest
  | first::rest => rest.foldl (nodeHashFor hash version) first

def root (s : MmrState) : Option Digest := do
  let peaks ← s.peaks
  return bagPeaks hash s.version peaks

def locateIn : List Mountain → ℕ → ℕ → Except String (ℕ × ℕ)
  | [],_,_ => .error "internal error: leaf not found in any mountain"
  | m::rest,mi,remaining =>
    if remaining<2^m.height then .ok (mi,remaining)
    else locateIn rest (mi+1) (remaining-2^m.height)

def locateLeaf (s : MmrState) (leafIndex : ℕ) : Except String (ℕ × ℕ) :=
  if leafIndex≥s.leafCount then
    .error s!"index {leafIndex} out of range ({s.leafCount} leaves)"
  else locateIn s.mountains 0 leafIndex

def prove (s : MmrState) (leafIndex : ℕ) : Option (Except String MembershipProof) :=
  match s.locateLeaf leafIndex with
  | .error e => some (.error e)
  | .ok (mountainIdx,leafInMountain) => do
    let mountain ← s.mountains[mountainIdx]?
    let (leafHash,path) ← mountain.authPath leafInMountain
    let peaks ← s.peaks
    return .ok
      { leafIndex := leafIndex
        leafCount := s.leafCount
        leafHash := hexDigest leafHash
        authPath := path.map fun step => { hash := hexDigest step.1,isLeft := step.2 }
        peakIndex := mountainIdx
        peaks := peaks.map hexDigest
        version := s.version }

def decodePath (path : List AuthStep) : Option (List (Digest × Bool)) :=
  path.mapM fun step => (decodeHash step.hash).map fun sibling => (sibling,step.isLeft)

def verifyProof (proof : MembershipProof) (expectedRoot : Digest) : Option Bool := do
  let leafHash ← decodeHash proof.leafHash
  let path ← decodePath proof.authPath
  let current:=climb (nodeHashFor hash proof.version) leafHash path
  if proof.peakIndex≥proof.peaks.length then return false
  else
    let peaks ← proof.peaks.mapM decodeHash
    return bagPeaks hash proof.version (peaks.set proof.peakIndex current)==expectedRoot

def appendAll (s : MmrState) : List Digest → Option MmrState
  | [] => some s
  | h::hs => do
    let next ← s.appendHash hash h
    appendAll next hs

end MmrState
end Model
section Represents
variable {ι : Type} (hash : Bytes → Digest) (version : ℕ) (lab : ι → Digest)

def mountainOf (t : HashTree ι) : Mountain :=
  { height := t.height
    nodes := (t.levelOrder lab (nodeHashFor hash version)).map hexDigest }

def stateOf (is : List ι) : MmrState :=
  { version := version
    mountains := (grow is).reverse.map fun p => mountainOf hash version lab p.2
    leafCount := is.length }

variable {h : ℕ} {t : HashTree ι}

theorem levelOrder_eq (hp : Perfect h t) (nh : Digest → Digest → Digest) :
    t.levelOrder lab nh=(List.range h).flatMap (t.level lab nh)++[t.fold lab nh] := by
  rw [levelOrder,hp.height_eq,range_succ,flatMap_append,flatMap_singleton,
    level_top hp]

theorem peak_mountainOf (hp : Perfect h t) :
    (mountainOf hash version lab t).peak=some (t.fold lab (nodeHashFor hash version)) := by
  simp only [Mountain.peak,mountainOf,levelOrder_eq lab hp,map_append,map_cons,
    map_nil,getLast?_append,getLast?_singleton,Option.some_or,Option.bind_some,
    decodeHash_hexDigest]

theorem getNode_mountainOf (hp : Perfect h t) (l j : ℕ) (hl : l≤h) (hj : j<2^(h-l)) :
    (mountainOf hash version lab t).getNode l j=
      (t.level lab (nodeHashFor hash version) l)[j]? := by
  have hentry:=getElem?_levels (t.level lab (nodeHashFor hash version)) h
    (fun k hk => length_level hp k hk) l j hl hj
  simp only [Mountain.getNode,Mountain.levelOffset,mountainOf,levelOrder,hp.height_eq,
    getElem?_map,hentry,Option.bind_map,Function.comp_def,decodeHash_hexDigest,
    Option.bind_fun_some]

theorem slice_mountainOf (hp : Perfect h t) (l : ℕ) (hl : l≤h) :
    (mountainOf hash version lab t).slice ((mountainOf hash version lab t).levelOffset l)
        ((mountainOf hash version lab t).levelCount l)=
      some ((t.level lab (nodeHashFor hash version) l).map hexDigest) := by
  have hlen : ∀ k≤h,(t.level lab (nodeHashFor hash version) k).length=2^(h-k) :=
    fun k hk => length_level hp k hk
  have hbound:=levels_bound _ h hlen l hl
  have hslice:=take_drop_levels _ h hlen l hl
  simp only [Mountain.slice,Mountain.levelOffset,Mountain.levelCount,mountainOf,levelOrder,
    hp.height_eq,length_map]
  rw [if_pos hbound,← map_drop,← map_take,hslice]

theorem mergeLevels_mountainOf {l r} (hl : Perfect h l) (hr : Perfect h r) (ls : List ℕ)
    (hls : ∀ k∈ls,k≤h) :
    Mountain.mergeLevels (mountainOf hash version lab l) (mountainOf hash version lab r) ls=
      some ((ls.flatMap ((node l r).level lab (nodeHashFor hash version))).map hexDigest) := by
  induction ls with
  | nil => rfl
  | cons k ls ih =>
    have hk : k≤h := hls k (.head _)
    have hrest:=ih fun j hj => hls j (.tail _ hj)
    simp only [Mountain.mergeLevels,slice_mountainOf hash version lab hl k hk,slice_mountainOf hash version lab hr k hk,hrest,
      Option.bind_eq_bind,Option.bind_some,Option.pure_def,flatMap_cons,
      level_node hl k hk,map_append]

theorem mergeWith_mountainOf {l r} (hl : Perfect h l) (hr : Perfect h r) :
    Mountain.mergeWith hash (mountainOf hash version lab l) (mountainOf hash version lab r)
      version=some (mountainOf hash version lab (node l r)) := by
  have hp : Perfect (h+1) (node l r) := ⟨hl,hr⟩
  have hheightl : (mountainOf hash version lab l).height=h := hl.height_eq
  have hheightr : (mountainOf hash version lab r).height=h := hr.height_eq
  have hoffl : (mountainOf hash version lab l).levelOffset 0=0 := by
    simp [Mountain.levelOffset]
  have hoffr : (mountainOf hash version lab r).levelOffset 0=0 := by
    simp [Mountain.levelOffset]
  have hleavesl:=slice_mountainOf hash version lab hl 0 (by omega)
  have hleavesr:=slice_mountainOf hash version lab hr 0 (by omega)
  rw [hoffl] at hleavesl
  rw [hoffr] at hleavesr
  have hinner:=mergeLevels_mountainOf hash version lab hl hr
    (List.range' 1 h) (by
      intro k hk
      rw [mem_range'_1] at hk
      omega)
  have hrange : List.range (h+1)=0::List.range' 1 h := by
    rw [range_eq_range',range'_succ]
  unfold Mountain.mergeWith
  rw [if_neg (by rw [hheightl,hheightr]; simp)]
  simp only [hheightl,Nat.add_sub_cancel,hleavesl,hleavesr,hinner,peak_mountainOf hash version lab hl,
    peak_mountainOf hash version lab hr,Option.bind_eq_bind,Option.bind_some,Option.pure_def]
  simp only [mountainOf,levelOrder_eq lab hp,hrange,flatMap_cons,level_node hl 0 (by omega),
    height,hl.height_eq,fold,map_append,map_cons,map_nil]

theorem leaf_eq_mountainOf (i : ι) :
    Mountain.leaf (lab i)=mountainOf hash version lab (HashTree.leaf i) := rfl

theorem carry_mountainOf {range} (h : ℕ) (t) (hrange : ∀ p∈range,Perfect p.1 p.2)
    (ht : Perfect h t) :
    MmrState.carry hash version (range.map fun p => mountainOf hash version lab p.2)
        (mountainOf hash version lab t)=
      some ((HashTree.carry range h t).map fun p => mountainOf hash version lab p.2) := by
  induction range generalizing h t with
  | nil => rfl
  | cons q rest ih =>
    obtain ⟨k,last⟩ := q
    have hlast : Perfect k last := hrange (k,last) (.head _)
    have hrest : ∀ p∈rest,Perfect p.1 p.2 := fun p hp => hrange p (.tail _ hp)
    have hheight : (mountainOf hash version lab last).height=k := hlast.height_eq
    have hheight' : (mountainOf hash version lab t).height=h := ht.height_eq
    rw [map_cons,MmrState.carry,HashTree.carry,hheight,hheight']
    by_cases hk : k=h
    · subst hk
      rw [if_pos rfl,if_pos rfl,mergeWith_mountainOf hash version lab hlast ht]
      exact ih (k+1) (node last t) hrest ⟨hlast,ht⟩
    · rw [if_neg hk,if_neg hk]
      rfl

variable (is : List ι)

theorem appendHash_stateOf (i : ι) :
    (stateOf hash version lab is).appendHash hash (lab i)=
      some (stateOf hash version lab (is++[i])) := by
  have hcarry:=carry_mountainOf hash version lab 0 (HashTree.leaf i) (perfect_grow is) trivial
  simp only [MmrState.appendHash,stateOf,← map_reverse,reverse_reverse,
    leaf_eq_mountainOf hash version lab,hcarry,Option.bind_eq_bind,Option.bind_some,Option.pure_def,grow_append,
    length_append,length_singleton]

theorem appendAll_stateOf (js : List ι) :
    (stateOf hash version lab is).appendAll hash (js.map lab)=
      some (stateOf hash version lab (is++js)) := by
  induction js generalizing is with
  | nil =>
    rw [append_nil]
    rfl
  | cons j js ih =>
    rw [map_cons,MmrState.appendAll,appendHash_stateOf]
    have hrest:=ih (is++[j])
    rw [append_assoc] at hrest
    exact hrest

theorem appendAll_empty :
    (MmrState.empty version).appendAll hash (is.map lab)=some (stateOf hash version lab is) :=
  appendAll_stateOf hash version lab [] is

theorem peaks_stateOf :
    (stateOf hash version lab is).peaks=
      some ((grow is).reverse.map fun p => p.2.fold lab (nodeHashFor hash version)) := by
  have hall : ∀ ps : List (ℕ × HashTree ι),(∀ p∈ps,Perfect p.1 p.2) →
      (ps.map fun p => mountainOf hash version lab p.2).mapM Mountain.peak=
        some (ps.map fun p => p.2.fold lab (nodeHashFor hash version)) := by
    intro ps hps
    induction ps with
    | nil => rfl
    | cons p ps ih =>
      have hp:=peak_mountainOf hash version lab (hps p (.head _))
      have hrest:=ih fun q hq => hps q (.tail _ hq)
      simp only [map_cons,mapM_cons,hp,hrest,Option.bind_eq_bind,Option.bind_some,Option.pure_def]
  apply hall
  intro p hp
  exact perfect_grow is p (mem_reverse.mp hp)

/-- The tree whose value the root is: the peaks folded from the tallest on. -/
def baggedTree (is : List ι) : Option (HashTree ι) := bag (grow is).reverse

theorem root_stateOf_bagPeaks :
    (stateOf hash version lab is).root hash=some (MmrState.bagPeaks hash version
      ((grow is).reverse.map fun p => p.2.fold lab (nodeHashFor hash version))) := by
  rw [MmrState.root,peaks_stateOf]
  rfl

theorem fold_foldl_node (nh : Digest → Digest → Digest) (t : HashTree ι)
    (ts : List (HashTree ι)) :
    (ts.foldl node t).fold lab nh=(ts.map (fold lab nh)).foldl nh (t.fold lab nh) := by
  induction ts generalizing t with
  | nil => rfl
  | cons u ts ih =>
    rw [foldl_cons,ih,map_cons,foldl_cons]
    rfl

theorem root_stateOf :
    (stateOf hash version lab is).root hash=
      some ((baggedTree is).elim zeroDigest fun t => t.fold lab (nodeHashFor hash version)) := by
  rw [root_stateOf_bagPeaks,baggedTree]
  cases (grow is).reverse with
  | nil => rfl
  | cons p ps =>
    simp only [bag,Option.elim_some,fold_foldl_node,map_cons,map_map,
      MmrState.bagPeaks,Function.comp_def]

theorem authLoop_mountainOf (hp : Perfect h t) (i) (hi : i<2^h) (n level) (hn : level+n=h) :
    (mountainOf hash version lab t).authLoop n level (i/2^level)=
      some ((t.pathAt lab (nodeHashFor hash version) i).drop level) := by
  induction n generalizing level with
  | zero =>
    rw [drop_of_length_le (by rw [length_pathAt hp]; omega)]
    rfl
  | succ n ih =>
    have hlen : (t.pathAt lab (nodeHashFor hash version) i).length=h := length_pathAt hp i
    have hquot : i/2^level<2^(h-level) := by
      apply Nat.div_lt_of_lt_mul
      rw [← pow_add,show level+(h-level)=h by omega]
      exact hi
    have hdouble : 2^(h-level)=2*2^(h-level-1) := by
      rw [← pow_succ',show h-level-1+1=h-level by omega]
    have hsib : sibling (i/2^level)<2^(h-level) := by
      rw [hdouble] at hquot ⊢
      exact sibling_lt hquot
    have hstep : (t.pathAt lab (nodeHashFor hash version) i)[level]? = _ :=
      getElem?_pathAt hp i level hi (by omega)
    have hentry : level<(t.pathAt lab (nodeHashFor hash version) i).length := by omega
    have hnode:=getNode_mountainOf hash version lab hp level
      (sibling (i/2^level)) (by omega) hsib
    have hhalf : (i/2^level) >>> 1=i/2^(level+1) := by
      rw [Nat.shiftRight_eq_div_pow,Nat.div_div_eq_div_mul,← pow_add]
    rw [Mountain.authLoop,xor_one_eq_sibling,hnode,hhalf,ih (level+1) (by omega),
      Nat.and_one_is_mod,drop_eq_getElem_cons hentry]
    rw [getElem?_eq_getElem hentry] at hstep
    cases hs : (t.level lab (nodeHashFor hash version) level)[sibling (i/2^level)]? with
    | none =>
      rw [hs] at hstep
      cases hstep
    | some s =>
      rw [hs] at hstep
      simp only [Option.map_some,Option.some.injEq] at hstep
      simp only [hstep,Option.bind_eq_bind,Option.bind_some,Option.pure_def]

theorem authPath_mountainOf (hp : Perfect h t) (i : ℕ) (a : ι) (ha : t.leaves[i]? = some a) :
    (mountainOf hash version lab t).authPath i=
      some (lab a,t.pathAt lab (nodeHashFor hash version) i) := by
  have hi : i<2^h := by
    rw [← hp.length_leaves]
    exact (List.getElem?_eq_some_iff.mp ha).1
  have hleaf:=getNode_mountainOf hash version lab hp 0 i
    (by omega) hi
  rw [level_zero hp,getElem?_map,ha] at hleaf
  have hloop:=authLoop_mountainOf hash version lab hp i hi h 0
    (by omega)
  have hheight : (mountainOf hash version lab t).height=h := hp.height_eq
  rw [pow_zero,Nat.div_one,drop_zero] at hloop
  simp only [Mountain.authPath,hleaf,hheight,hloop,Option.map_some,Option.bind_eq_bind,
    Option.bind_some,Option.pure_def]

end Represents
end OriginTools.Proof
