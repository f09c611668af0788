import OriginTools.Foundation.HashTree

/-!
# Perfect trees in level order, and paths in them

A perfect tree of height `h` is stored as its levels one after another, the leaves first
and the root last: level `k` has `2 ^ (h - k)` entries and starts at `2 ^ (h + 1) - 2 ^
(h - k + 1)`.
-/

namespace OriginTools
open List
namespace HashTree
variable {ι η : Type}
section Fold
variable (lab : ι → η) (nh : η → η → η)

def fold : HashTree ι → η
  | leaf i => lab i
  | node l r => nh l.fold r.fold

def height : HashTree ι → ℕ
  | leaf _ => 0
  | node l _ => l.height+1

def Perfect : ℕ → HashTree ι → Prop
  | 0,leaf _ => True
  | h+1,node l r => Perfect h l ∧ Perfect h r
  | _,_ => False

def level : HashTree ι → ℕ → List η
  | leaf i,k => if k=0 then [lab i] else []
  | node l r,k => if k=l.height+1 then [nh (l.fold lab nh) (r.fold lab nh)]
    else l.level k++r.level k

def levelOrder (t : HashTree ι) : List η := (List.range (t.height+1)).flatMap (t.level lab nh)

variable {lab nh}
variable {h : ℕ}

theorem Perfect.node_inv {l r : HashTree ι} (hp : Perfect h (node l r)) :
    ∃ k,h=k+1 ∧ Perfect k l ∧ Perfect k r := by
  cases h with
  | zero => exact hp.elim
  | succ k => exact ⟨k,rfl,hp.1,hp.2⟩

theorem Perfect.leaf_inv {i : ι} (hp : Perfect h (leaf i)) : h=0 := by
  cases h with
  | zero => rfl
  | succ k => exact hp.elim

variable {t : HashTree ι}

theorem Perfect.height_eq (hp : Perfect h t) : t.height=h := by
  induction t generalizing h with
  | leaf i => exact hp.leaf_inv.symm
  | node l r ihl _ =>
    obtain ⟨k,hk,hl,_⟩ := hp.node_inv
    rw [height,ihl hl,hk]

theorem Perfect.length_leaves (hp : Perfect h t) : t.leaves.length=2^h := by
  induction t generalizing h with
  | leaf i =>
    rw [hp.leaf_inv]
    rfl
  | node l r ihl ihr =>
    obtain ⟨k,hk,hl,hr⟩ := hp.node_inv
    rw [leaves,length_append,ihl hl,ihr hr,hk,pow_succ]
    omega

theorem level_top (hp : Perfect h t) : t.level lab nh h=[t.fold lab nh] := by
  cases t with
  | leaf i =>
    rw [level,if_pos hp.leaf_inv]
    rfl
  | node l r =>
    obtain ⟨k,hk,hl,_⟩ := hp.node_inv
    rw [level,if_pos (by rw [hl.height_eq,hk])]
    rfl

theorem level_node {l r} (hl : Perfect h l) (k : ℕ) (hk : k≤h) :
    (node l r).level lab nh k=l.level lab nh k++r.level lab nh k := by
  rw [level,if_neg (by rw [hl.height_eq]; omega)]

theorem length_level (hp : Perfect h t) (k : ℕ) (hk : k≤h) : (t.level lab nh k).length=2^(h-k) := by
  induction t generalizing h with
  | leaf i =>
    have hh:=hp.leaf_inv
    subst hh
    have hk0 : k=0 := by omega
    subst hk0
    rfl
  | node l r ihl ihr =>
    obtain ⟨m,hm,hl,hr⟩ := hp.node_inv
    by_cases htop : k=h
    · rw [htop,level_top hp,Nat.sub_self]
      rfl
    have hkm : k ≤ m := by omega
    have hexp : h-k=(m-k)+1 := by omega
    rw [level_node hl k hkm,length_append,ihl hl hkm,ihr hr hkm,hexp,pow_succ]
    omega

theorem level_zero (hp : Perfect h t) : t.level lab nh 0=t.leaves.map lab := by
  induction t generalizing h with
  | leaf i => rfl
  | node l r ihl ihr =>
    obtain ⟨m,_,hl,hr⟩ := hp.node_inv
    rw [level_node hl 0 (by omega),ihl hl,ihr hr,leaves,map_append]

theorem level_children (hp : Perfect h t) (k j : ℕ) (hk : k<h) (hj : j<2^(h-(k+1))) :
    ∃ a b,(t.level lab nh k)[2*j]? = some a ∧ (t.level lab nh k)[2*j+1]? = some b ∧
      (t.level lab nh (k+1))[j]? = some (nh a b) := by
  induction t generalizing h j with
  | leaf i =>
    have hh:=hp.leaf_inv
    omega
  | node l r ihl ihr =>
    obtain ⟨m,hm,hl,hr⟩ := hp.node_inv
    by_cases htop : k=m
    · -- the two subtrees' roots are below the root
      subst htop
      subst hm
      have hj0 : j=0 := by simpa using hj
      subst hj0
      refine ⟨l.fold lab nh,r.fold lab nh,?_,?_,?_⟩
      · rw [level_node hl k le_rfl,level_top hl]
        rfl
      · rw [level_node hl k le_rfl,level_top hl,level_top hr]
        rfl
      · rw [level_top hp]
        rfl
    · have hkm : k < m := by omega
      have hlow : (l.level lab nh k).length=2*2^(m-(k+1)) := by
        rw [length_level hl k (by omega),← pow_succ',show m-(k+1)+1=m-k by omega]
      have hhigh : (l.level lab nh (k+1)).length=2^(m-(k+1)) := length_level hl (k+1) (by omega)
      have hsize : 2^(h-(k+1))=2^(m-(k+1))+2^(m-(k+1)) := by
        rw [show h-(k+1)=m-(k+1)+1 by omega,pow_succ]
        omega
      simp only [level_node hl k (by omega),level_node hl (k+1) (by omega)]
      by_cases hleft : j<2^(m-(k+1))
      · obtain ⟨a,b,ha,hb,hab⟩ := ihl hl j hkm hleft
        refine ⟨a,b,?_,?_,?_⟩
        · rw [getElem?_append_left (by omega),ha]
        · rw [getElem?_append_left (by omega),hb]
        · rw [getElem?_append_left (by omega),hab]
      · obtain ⟨a,b,ha,hb,hab⟩ := ihr hr (j-2^(m-(k+1))) hkm (by omega)
        refine ⟨a,b,?_,?_,?_⟩
        · rw [getElem?_append_right (by omega),hlow,← Nat.mul_sub,ha]
        · rw [getElem?_append_right (by omega),hlow,
            show 2*j+1-2*2^(m-(k+1))=2*(j-2^(m-(k+1)))+1 by omega,hb]
        · rw [getElem?_append_right (by omega),hhigh,hab]

end Fold
section Offsets
variable {α : Type}
variable (f : ℕ → List α)

theorem length_levelsBelow (h : ℕ) (hf : ∀ k≤h,(f k).length=2^(h-k)) (l : ℕ)
    (hl : l≤h+1) : ((List.range l).flatMap f).length=2^(h+1)-2^(h+1-l) := by
  induction l with
  | zero => simp
  | succ l ih =>
    have hpow : 2^(h+1-l)=2*2^(h-l) := by
      rw [← pow_succ',show h-l+1=h+1-l by omega]
    have hle : 2^(h+1-l)≤2^(h+1) := Nat.pow_le_pow_right (by omega) (by omega)
    rw [range_succ,flatMap_append,length_append,ih (by omega),
      flatMap_singleton,hf l (by omega),show h+1-(l+1)=h-l by omega]
    omega

theorem flatMap_range_split (h l : ℕ) (hl : l≤h) : (List.range (h+1)).flatMap f=
      (List.range l).flatMap f++(f l++(List.range' (l+1) (h-l)).flatMap f) := by
  have hrange : List.range (h+1)=List.range l++l::List.range' (l+1) (h-l) := by
    have hlist:=range'_append_1 (s := 0) (m := l) (n := h-l+1)
    rw [range_eq_range',range_eq_range',← range'_succ,
      show h+1=l+(h-l+1) by omega,← hlist,Nat.zero_add]
  rw [hrange,flatMap_append,flatMap_cons]

theorem offset_eq (h l : ℕ) (hl : l≤h) : 2^(h+1)-2^(h-l+1)=2^(h+1)-2^(h+1-l) := by
  rw [show h-l+1=h+1-l by omega]

theorem getElem?_levels (h : ℕ) (hf : ∀ k≤h,(f k).length=2^(h-k)) (l j : ℕ) (hl : l≤h)
    (hj : j<2^(h-l)) :
    ((List.range (h+1)).flatMap f)[2^(h+1)-2^(h-l+1)+j]? = (f l)[j]? := by
  have hbelow:=length_levelsBelow f h hf l (by omega)
  have hlen:=hf l hl
  rw [flatMap_range_split f h l hl,offset_eq h l hl,← hbelow,
    getElem?_append_right (by omega),Nat.add_sub_cancel_left,
    getElem?_append_left (by omega)]

theorem take_drop_levels (h : ℕ) (hf : ∀ k≤h,(f k).length=2^(h-k)) (l : ℕ) (hl : l≤h) :
    (((List.range (h+1)).flatMap f).drop (2^(h+1)-2^(h-l+1))).take (2^(h-l))=f l := by
  have hbelow:=length_levelsBelow f h hf l (by omega)
  rw [flatMap_range_split f h l hl,offset_eq h l hl,← hbelow,drop_left,← hf l hl,take_left]

theorem levels_bound (h : ℕ) (hf : ∀ k≤h,(f k).length=2^(h-k)) (l : ℕ) (hl : l≤h) :
    2^(h+1)-2^(h-l+1)+2^(h-l)≤((List.range (h+1)).flatMap f).length := by
  have hbelow:=length_levelsBelow f h hf l (by omega)
  have hlen:=hf l hl
  rw [flatMap_range_split f h l hl,offset_eq h l hl,length_append,length_append]
  omega

end Offsets

theorem length_levelOrder {lab : ι → η} {nh : η → η → η} {h : ℕ} {t} (hp : Perfect h t) :
    (t.levelOrder lab nh).length=2^(h+1)-1 := by
  have hall:=length_levelsBelow (t.level lab nh) h (fun k hk => length_level hp k hk) (h+1) le_rfl
  rw [levelOrder,hp.height_eq,hall]
  simp

section Paths
variable (lab : ι → η) (nh : η → η → η)

/-- The path of leaf `i`, from the bottom up; the flag says that the climbing node is the
left child. -/
def pathAt : HashTree ι → ℕ → List (η × Bool)
  | leaf _,_ => []
  | node l r,i =>
    if i<l.leaves.length then l.pathAt i++[(r.fold lab nh,true)]
    else r.pathAt (i-l.leaves.length)++[(l.fold lab nh,false)]

def climb (x : η) (path : List (η × Bool)) : η :=
  path.foldl (fun current step => if step.2 then nh current step.1 else nh step.1 current) x

@[simp] theorem climb_append (x path path') :
    climb nh x (path++path')=climb nh (climb nh x path) path' := by
  simp only [climb,foldl_append]

variable {t : HashTree ι}

theorem climb_pathAt (i : ℕ) {a} (h : t.leaves[i]? = some a) :
    climb nh (lab a) (t.pathAt lab nh i)=t.fold lab nh := by
  induction t generalizing i with
  | leaf b =>
    have hi : i=0 := by
      by_contra hne
      rw [leaves,getElem?_eq_none (by simp; omega)] at h
      cases h
    subst hi
    cases h
    rfl
  | node l r ihl ihr =>
    rw [leaves] at h
    by_cases hi : i<l.leaves.length
    · rw [getElem?_append_left hi] at h
      rw [pathAt,if_pos hi,climb_append,ihl i h]
      rfl
    · rw [getElem?_append_right (by omega)] at h
      rw [pathAt,if_neg hi,climb_append,ihr _ h]
      rfl

def sibling (i : ℕ) : ℕ := if i%2=0 then i+1 else i-1

theorem sibling_lt {i n} (h : i<2*n) : sibling i<2*n := by
  unfold sibling
  split <;> omega

theorem sibling_add (i n : ℕ) : sibling (2*n+i)=2*n+sibling i := by
  unfold sibling
  rw [show (2*n+i)%2=i%2 by omega]
  split <;> omega

theorem xor_one_eq_sibling (i : ℕ) : i ^^^ 1=sibling i := by
  have hdiv : (i ^^^ 1)/2=i/2 := by rw [Nat.xor_div_two]; simp
  have hmod : (i ^^^ 1)%2=(i+1)%2 := Nat.xor_mod_two_eq
  unfold sibling
  split <;> omega

variable {lab nh}

theorem length_pathAt {h : ℕ} (hp : Perfect h t) (i : ℕ) : (t.pathAt lab nh i).length=h := by
  induction t generalizing h i with
  | leaf a => exact hp.leaf_inv.symm
  | node l r ihl ihr =>
    obtain ⟨m,hm,hl,hr⟩ := hp.node_inv
    rw [pathAt]
    split
    · rw [length_append,ihl hl,hm]
      rfl
    · rw [length_append,ihr hr,hm]
      rfl

theorem getElem?_pathAt {h : ℕ} (hp : Perfect h t) (i k : ℕ) (hi : i<2^h) (hk : k<h) :
    (t.pathAt lab nh i)[k]? =
      ((t.level lab nh k)[sibling (i/2^k)]?).map fun s => (s,(i/2^k)%2==0) := by
  induction t generalizing h i with
  | leaf a =>
    have hh:=hp.leaf_inv
    omega
  | node l r ihl ihr =>
    obtain ⟨m,hm,hl,hr⟩ := hp.node_inv
    subst hm
    have hlen:=hl.length_leaves
    have hlevel : (node l r).level lab nh k=l.level lab nh k++r.level lab nh k :=
      level_node hl k (by omega)
    have hsize : (l.level lab nh k).length=2^(m-k) := length_level hl k (by omega)
    have hpow : 2^m=2^(m-k)*2^k := by rw [← pow_add,Nat.sub_add_cancel (by omega)]
    have hposk : 0<2^k := Nat.two_pow_pos k
    rw [pathAt,hlen,hlevel]
    by_cases hleft : i<2^m
    · have hpath : (l.pathAt lab nh i).length=m := length_pathAt hl i
      rw [if_pos hleft]
      by_cases htop : k=m
      · subst htop
        have hzero : i/2^k=0 := Nat.div_eq_of_lt hleft
        rw [getElem?_append_right (by omega),hpath,hzero,level_top hl,level_top hr]
        simp [sibling]
      · have hdouble : 2^(m-k)=2*2^(m-k-1) := by
          rw [← pow_succ',show m-k-1+1=m-k by omega]
        have hquot : i/2^k<2^(m-k) := by
          apply Nat.div_lt_of_lt_mul
          rw [Nat.mul_comm,← hpow]
          exact hleft
        have hsib : sibling (i/2^k)<2^(m-k) := by
          rw [hdouble] at hquot ⊢
          exact sibling_lt hquot
        rw [getElem?_append_left (by omega),ihl hl i hleft (by omega),
          getElem?_append_left (by omega)]
    · have hpath : (r.pathAt lab nh (i-2^m)).length=m := length_pathAt hr _
      have hrest : i-2^m<2^m := by
        rw [pow_succ] at hi
        omega
      have hquot : i/2^k=2^(m-k)+(i-2^m)/2^k := by
        have hsum : i=i-2^m+2^(m-k)*2^k := by omega
        rw [hsum,Nat.add_mul_div_right _ _ hposk,← hsum]
        omega
      rw [if_neg hleft]
      by_cases htop : k=m
      · subst htop
        have hone : i/2^k=1 := by
          rw [hquot,Nat.div_eq_of_lt hrest,Nat.sub_self]
          rfl
        rw [getElem?_append_right (by omega),hpath,hone,level_top hl,level_top hr]
        simp [sibling]
      · have hdouble : 2^(m-k)=2*2^(m-k-1) := by
          rw [← pow_succ',show m-k-1+1=m-k by omega]
        have hsib : sibling (i/2^k)=2^(m-k)+sibling ((i-2^m)/2^k) := by
          rw [hquot,hdouble,sibling_add]
        have hparity : (i/2^k)%2=(i-2^m)/2^k%2 := by
          rw [hquot,hdouble]
          omega
        rw [getElem?_append_left (by omega),ihr hr _ hrest (by omega),hsib,hparity,
          getElem?_append_right (by omega),hsize,Nat.add_sub_cancel_left]

end Paths

theorem perfect_carry {range} (h : ℕ) (t : HashTree ι) (hrange : ∀ p∈range,Perfect p.1 p.2)
    (ht : Perfect h t) : ∀ p∈carry range h t,Perfect p.1 p.2 := by
  induction range generalizing h t with
  | nil =>
    intro p hp
    rw [carry,mem_singleton] at hp
    rw [hp]
    exact ht
  | cons q rest ih =>
    obtain ⟨k,peak⟩ := q
    have hpeak : Perfect k peak := hrange (k,peak) (.head _)
    have hrest : ∀ p∈rest,Perfect p.1 p.2 := fun p hp => hrange p (.tail _ hp)
    rw [carry]
    by_cases hk : k=h
    · subst hk
      rw [if_pos rfl]
      exact ih (k+1) (node peak t) hrest ⟨hpeak,ht⟩
    · rw [if_neg hk]
      exact forall_mem_cons.mpr ⟨ht,hrange⟩

theorem perfect_grow (is : List ι) : ∀ p∈grow is,Perfect p.1 p.2 := by
  induction is using List.reverseRecOn with
  | nil => simp [grow]
  | append_singleton is i ih =>
    rw [grow_append]
    exact perfect_carry 0 (leaf i) ih trivial

end HashTree
end OriginTools
