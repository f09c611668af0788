import Mathlib

/-!
# Hash trees and mountain ranges

A hash tree has the hashed inputs at its leaves; a node hashes the joined values of its
two subtrees.
-/

namespace OriginTools
open List

inductive HashTree (ι : Type) : Type
  | leaf (input : ι)
  | node (left right : HashTree ι)

namespace HashTree
section Value
variable {ι η : Type} (hash : ι → η) (join : η → η → ι)

def value : HashTree ι → η
  | leaf i => hash i
  | node l r => hash (join l.value r.value)

def inputs : HashTree ι → List ι
  | leaf i => [i]
  | node l r => join (l.value hash join) (r.value hash join)::(l.inputs++r.inputs)

def leaves : HashTree ι → List ι
  | leaf i => [i]
  | node l r => l.leaves++r.leaves

def top : HashTree ι → ι
  | leaf i => i
  | node l r => join (l.value hash join) (r.value hash join)

theorem value_eq_hash_top (t : HashTree ι) : t.value hash join=hash (t.top hash join) := by
  cases t <;> rfl

theorem top_mem_inputs (t : HashTree ι) : t.top hash join∈t.inputs hash join := by
  cases t <;> simp [top,inputs]

theorem eq_of_value_eq (hjoin : ∀ a b c d,join a b=join c d → a=c ∧ b=d)
    (t u : HashTree ι) (ht : ∀ i∈t.leaves,∀ a b,i≠join a b)
    (hu : ∀ i∈u.leaves,∀ a b,i≠join a b)
    (hinj : Set.InjOn hash {i | i∈t.inputs hash join ∨ i∈u.inputs hash join})
    (h : t.value hash join=u.value hash join) : t=u := by
  induction t generalizing u with
  | leaf i =>
    have htop : i=u.top hash join := by
      apply hinj (.inl (by simp [inputs])) (.inr (top_mem_inputs hash join u))
      rw [← value_eq_hash_top hash join]
      exact h
    cases u with
    | leaf j => rw [htop,top]
    | node l r => exact absurd htop (ht i (by simp [leaves]) _ _)
  | node l r ihl ihr =>
    have htop : join (l.value hash join) (r.value hash join)=u.top hash join := by
      apply hinj (.inl (by simp [inputs])) (.inr (top_mem_inputs hash join u))
      rw [← value_eq_hash_top hash join]
      exact h
    cases u with
    | leaf j => exact absurd htop.symm (hu j (by simp [leaves]) _ _)
    | node l' r' =>
      obtain ⟨hleft,hright⟩ := hjoin _ _ _ _ htop
      have hl : l=l' := by
        refine ihl l' (fun i hi => ht i (by simp [leaves,hi]))
          (fun i hi => hu i (by simp [leaves,hi])) (hinj.mono ?_) hleft
        rintro i (hi | hi) <;> simp [inputs,hi]
      have hr : r=r' := by
        refine ihr r' (fun i hi => ht i (by simp [leaves,hi]))
          (fun i hi => hu i (by simp [leaves,hi])) (hinj.mono ?_) hright
        rintro i (hi | hi) <;> simp [inputs,hi]
      rw [hl,hr]

end Value
section Range
variable {ι : Type}

/-- Take a tree in at a height: join it with the peaks of its height as long as
there is one. -/
def carry : List (ℕ × HashTree ι) → ℕ → HashTree ι → List (ℕ × HashTree ι)
  | [],height,t => [(height,t)]
  | (k,peak)::rest,height,t =>
    if k=height then carry rest (height+1) (node peak t)
    else (height,t)::(k,peak)::rest

def grow (is : List ι) : List (ℕ × HashTree ι) :=
  is.foldl (fun range i => carry range 0 (leaf i)) []

def bag : List (ℕ × HashTree ι) → Option (HashTree ι)
  | [] => none
  | (_,t)::rest => some ((rest.map Prod.snd).foldl node t)

structure Range (h : ℕ) (range : List (ℕ × HashTree ι)) : Prop where
  ascending : (range.map Prod.fst).Pairwise (· < ·)
  above : ∀ p∈range,h≤p.1
  perfect : ∀ p∈range,p.2.leaves.length=2^p.1

def allLeaves (range : List (ℕ × HashTree ι)) : List ι := range.reverse.flatMap fun p => p.2.leaves

theorem range_tail {h k : ℕ} {peak : HashTree ι} {rest : List (ℕ × HashTree ι)}
    (hr : Range h ((k,peak)::rest)) : Range (k+1) rest := by
  have hpair:=pairwise_cons.mp hr.ascending
  refine ⟨hpair.2,?_,fun p hp => hr.perfect p (.tail _ hp)⟩
  intro p hp
  exact hpair.1 p.1 (mem_map_of_mem hp)

theorem range_carry {range : List (ℕ × HashTree ι)} (h : ℕ) (t : HashTree ι)
    (hr : Range h range) (ht : t.leaves.length=2^h) : Range h (carry range h t) := by
  induction range generalizing h t with
  | nil =>
    simp only [carry]
    exact ⟨by simp,by simp,by simpa using ht⟩
  | cons p rest ih =>
    obtain ⟨k,peak⟩ := p
    have hpeak : peak.leaves.length=2^k := hr.perfect (k,peak) (.head _)
    by_cases hk : k=h
    · have htail : Range (h+1) rest := hk ▸ range_tail hr
      have hjoined : (node peak t).leaves.length=2^(h+1) := by
        simp only [leaves,length_append,hpeak,ht,hk,pow_succ]
        omega
      have hcarry:=ih (h+1) (node peak t) htail hjoined
      simp only [carry,if_pos hk]
      exact ⟨hcarry.ascending,fun p hp => Nat.le_of_succ_le (hcarry.above p hp),hcarry.perfect⟩
    · have hge : h≤k := hr.above (k,peak) (.head _)
      have hlt : ∀ j∈((k,peak)::rest).map Prod.fst,h<j := by
        have hpair:=pairwise_cons.mp hr.ascending
        intro j hj
        rcases mem_cons.mp hj with rfl | hj
        · omega
        · have hkj : k<j := hpair.1 j hj
          omega
      simp only [carry,if_neg hk]
      refine ⟨pairwise_cons.mpr ⟨hlt,hr.ascending⟩,?_,?_⟩
      · exact forall_mem_cons.mpr ⟨le_rfl,hr.above⟩
      · exact forall_mem_cons.mpr ⟨ht,hr.perfect⟩

theorem allLeaves_carry (range) (h : ℕ) (t : HashTree ι) :
    allLeaves (carry range h t)=allLeaves range++t.leaves := by
  induction range generalizing h t with
  | nil => simp [carry,allLeaves]
  | cons p rest ih =>
    obtain ⟨k,peak⟩ := p
    by_cases hk : k=h
    · simp only [carry,if_pos hk,ih]
      simp [allLeaves,leaves]
    · simp only [carry,if_neg hk]
      simp [allLeaves]

theorem grow_append (is : List ι) (i : ι) : grow (is++[i])=carry (grow is) 0 (leaf i) := by
  simp [grow]

theorem range_grow (is : List ι) : Range 0 (grow is) := by
  induction is using List.reverseRecOn with
  | nil => exact ⟨by simp [grow],by simp [grow],by simp [grow]⟩
  | append_singleton is i ih =>
    rw [grow_append]
    exact range_carry 0 (leaf i) ih rfl

theorem allLeaves_grow (is : List ι) : allLeaves (grow is)=is := by
  induction is using List.reverseRecOn with
  | nil => rfl
  | append_singleton is i ih => rw [grow_append,allLeaves_carry,ih,leaves]

theorem length_allLeaves {h} {range : List (ℕ × HashTree ι)} (hr : Range h range) :
    (allLeaves range).length=((range.map Prod.fst).map fun k => 2^k).sum := by
  have hlen : (range.map fun p => p.2.leaves.length)=(range.map Prod.fst).map fun k => 2^k := by
    rw [map_map]
    exact map_congr_left hr.perfect
  rw [allLeaves,length_flatMap,map_reverse,sum_reverse,hlen]

theorem heights_grow (is : List ι) : (grow is).map Prod.fst=is.length.bitIndices := by
  have hr:=range_grow is
  have hsum:=length_allLeaves hr
  rw [allLeaves_grow] at hsum
  rw [hsum]
  exact (Nat.bitIndices_sum_map_two_pow hr.ascending.sortedLT).symm

theorem length_leaves_foldl (t : HashTree ι) (ts : List (HashTree ι)) :
    (ts.foldl node t).leaves.length=t.leaves.length+(ts.map fun u => u.leaves.length).sum := by
  induction ts generalizing t with
  | nil => simp
  | cons u ts ih =>
    simp only [foldl_cons,ih,leaves,length_append,map_cons,sum_cons]
    omega

theorem foldl_node_inj (t u) (ts us : List (HashTree ι)) (hlen : ts.length=us.length)
    (h : ts.foldl node t=us.foldl node u) : t=u ∧ ts=us := by
  induction ts generalizing t u us with
  | nil =>
    have hus : us=[] := length_eq_zero_iff.mp hlen.symm
    subst hus
    exact ⟨h,rfl⟩
  | cons t' ts ih =>
    rcases us with _ | ⟨u',us⟩
    · simp at hlen
    simp only [length_cons,Nat.add_right_cancel_iff] at hlen
    obtain ⟨hnode,hrest⟩ := ih (node t t') (node u u') us hlen h
    injection hnode with hl hr
    exact ⟨hl,by rw [hr,hrest]⟩

variable {is : List ι} {t : HashTree ι}

theorem length_leaves_bag (h : bag (grow is)=some t) : t.leaves.length=is.length := by
  rcases hgrow : grow is with - | ⟨⟨k,peak⟩,rest⟩
  · simp [hgrow,bag] at h
  simp only [hgrow,bag,Option.some.injEq] at h
  have hall:=allLeaves_grow is
  rw [hgrow] at hall
  have hsum:=congrArg List.length hall
  simp only [allLeaves,length_flatMap,map_reverse,sum_reverse,map_cons,sum_cons] at hsum
  rw [← h,length_leaves_foldl,map_map]
  exact hsum

theorem mem_leaves_foldl (t : HashTree ι) {ts : List (HashTree ι)} {i}
    (h : i∈(ts.foldl node t).leaves) : i∈t.leaves ∨ ∃ u∈ts,i∈u.leaves := by
  induction ts generalizing t with
  | nil => exact .inl h
  | cons u ts ih =>
    rcases ih (node t u) h with hnode | ⟨v,hv,hi⟩
    · rcases mem_append.mp hnode with ht | hu
      · exact .inl ht
      · exact .inr ⟨u,.head _,hu⟩
    · exact .inr ⟨v,.tail _ hv,hi⟩

theorem mem_leaves_bag (h : bag (grow is)=some t) {i : ι} (hi : i∈t.leaves) : i∈is := by
  rcases hgrow : grow is with - | ⟨⟨k,peak⟩,rest⟩
  · simp [hgrow,bag] at h
  simp only [hgrow,bag,Option.some.injEq] at h
  rw [← h] at hi
  rw [← allLeaves_grow is,hgrow]
  simp only [allLeaves,mem_flatMap,mem_reverse]
  rcases mem_leaves_foldl peak hi with hpeak | ⟨u,hu,hiu⟩
  · exact ⟨(k,peak),.head _,hpeak⟩
  · obtain ⟨p,hp,hpu⟩ := mem_map.mp hu
    exact ⟨p,.tail _ hp,hpu ▸ hiu⟩

theorem grow_ne_nil (h : is≠[]) : grow is≠[] := by
  intro hnil
  apply h
  rw [← allLeaves_grow is,hnil]
  rfl

theorem bag_isSome (is : List ι) (h : is≠[]) : ∃ t,bag (grow is)=some t := by
  rcases hgrow : grow is with - | ⟨⟨k,peak⟩,rest⟩
  · exact absurd hgrow (grow_ne_nil h)
  · exact ⟨_,rfl⟩

theorem eq_of_bag_eq {js} (hi : bag (grow is)=some t) (hj : bag (grow js)=some t) : is=js := by
  have hlen : is.length=js.length := by
    rw [← length_leaves_bag hi,length_leaves_bag hj]
  have hheights : (grow is).map Prod.fst=(grow js).map Prod.fst := by
    rw [heights_grow,heights_grow,hlen]
  have hgrow : grow is=grow js := by
    rcases hgi : grow is with - | ⟨⟨k,peak⟩,rest⟩
    · simp [hgi,bag] at hi
    rcases hgj : grow js with - | ⟨⟨k',peak'⟩,rest'⟩
    · simp [hgj,bag] at hj
    simp only [hgi,bag,Option.some.injEq] at hi
    simp only [hgj,bag,Option.some.injEq] at hj
    simp only [hgi,hgj,map_cons,List.cons.injEq] at hheights
    obtain ⟨hk,hrest⟩ := hheights
    have hcount : (rest.map Prod.snd).length=(rest'.map Prod.snd).length := by
      have := congrArg List.length hrest
      simpa using this
    obtain ⟨hpeak,htrees⟩ := foldl_node_inj peak peak' _ _ hcount (hi.trans hj.symm)
    have hzip : rest=rest' := by
      rw [← zip_unzip rest,← zip_unzip rest',unzip_eq_map,unzip_eq_map]
      simp only [hrest,htrees]
    rw [hk,hpeak,hzip]
  rw [← allLeaves_grow is,← allLeaves_grow js,hgrow]

end Range
end HashTree
end OriginTools
