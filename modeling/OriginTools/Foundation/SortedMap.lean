import Mathlib

/-!
# Ordered maps as sorted lists

The rows of an ordered map are the one strictly ascending list with its lookups.
-/

namespace OriginTools.SortedMap
open Std.ExtTreeMap
variable {α β : Type} [Ord α] [Std.TransOrd α]

def Ascending (l : List (α × β)) : Prop := l.Pairwise fun p q => compare p.1 q.1=.lt

theorem ascending_toList (m : Std.ExtTreeMap α β compare) : Ascending m.toList :=
  ordered_keys_toList

variable {l : List (α × β)}

theorem ascending_nodup (h : Ascending l) : l.Nodup := by
  refine h.imp fun {p q} hlt heq => ?_
  rw [heq,Std.compare_self] at hlt
  cases hlt

theorem values_eq (m : Std.ExtTreeMap α β compare) : m.values=m.toList.map Prod.snd := by
  rcases m with ⟨⟨m⟩⟩
  induction m using Quotient.ind with
  | _ m =>
    show m.inner.values=(Std.DTreeMap.Internal.Impl.Const.toList m.inner).map Prod.snd
    rw [Std.DTreeMap.Internal.Impl.values_eq_map_snd,
      Std.DTreeMap.Internal.Impl.Const.toList_eq_toListModel_map]
    simp

theorem ascending_eq {r} (hl : Ascending l) (hr : Ascending r) (h : ∀ p,p∈l ↔ p∈r) : l=r := by
  have hperm : l.Perm r :=
    (List.perm_ext_iff_of_nodup (ascending_nodup hl) (ascending_nodup hr)).mpr h
  refine hperm.eq_of_pairwise ?_ hl hr
  intro p q _ _ hpq hqp
  rw [Std.OrientedCmp.gt_of_lt hpq] at hqp
  cases hqp

variable [Std.LawfulEqOrd α]

theorem toList_eq (m : Std.ExtTreeMap α β compare) (hl : Ascending l)
    (h : ∀ k v,(k,v)∈l ↔ m[k]? = some v) : m.toList=l := by
  apply ascending_eq (ascending_toList m) hl
  intro p
  rw [h p.1 p.2]
  exact mem_toList_iff_getElem?_eq_some

variable {m : Std.ExtTreeMap α β compare}

theorem getElem?_eq (hl : m.toList=l) (k : α) (v : β) : m[k]? = some v ↔ (k,v)∈l := by
  rw [← hl]
  exact mem_toList_iff_getElem?_eq_some.symm

theorem getElem?_eq_none (hl : m.toList=l) (k : α) (hk : ∀ p∈l,p.1≠k) : m[k]? = none := by
  rcases hget : m[k]? with - | v
  · rfl
  · exact absurd rfl (hk (k,v) ((getElem?_eq hl k v).mp hget))

theorem toList_insert_first (hl : m.toList=l) (k v) (hk : ∀ p∈l,compare k p.1=.lt) :
    (m.insert k v).toList=(k,v)::l := by
  have hasc : Ascending l := by
    rw [← hl]
    exact ascending_toList m
  apply toList_eq _ (List.pairwise_cons.mpr ⟨hk,hasc⟩)
  intro j w
  rw [getElem?_insert]
  by_cases hj : k=j
  · have habsent : (j,w)∉l := by
      intro hin
      have hlt:=hk (j,w) hin
      rw [hj,Std.compare_self] at hlt
      cases hlt
    simp [hj,habsent,eq_comm]
  · simp [hj,Ne.symm hj,getElem?_eq hl]

theorem toList_erase_first {k} (v : β) (hl : m.toList=(k,v)::l) : (m.erase k).toList=l := by
  have hasc : Ascending ((k,v)::l) := by
    rw [← hl]
    exact ascending_toList m
  obtain ⟨hfirst,hrest⟩ := List.pairwise_cons.mp hasc
  apply toList_eq _ hrest
  intro j w
  rw [getElem?_erase]
  by_cases hj : k=j
  · have habsent : (j,w)∉l := by
      intro hin
      have hlt:=hfirst (j,w) hin
      rw [hj,Std.compare_self] at hlt
      cases hlt
    simp [hj,habsent]
  · simp [hj,Ne.symm hj,getElem?_eq hl]

omit [Std.TransOrd α] [Std.LawfulEqOrd α] in
theorem Ascending.distinct (hl : Ascending l) : l.Pairwise fun p q => ¬ compare p.1 q.1=.eq := by
  refine hl.imp fun {p q} hlt heq => ?_
  rw [hlt] at heq
  cases heq

theorem getElem?_ofList (hdistinct : l.Pairwise fun p q => ¬ compare p.1 q.1=.eq) (k : α) (v : β) :
    (ofList l compare)[k]? = some v ↔ (k,v)∈l := by
  have hget : ∀ w,(k,w)∈l → (ofList l compare)[k]? = some w := fun w hw =>
    getElem?_ofList_of_mem Std.compare_self hdistinct hw
  constructor
  · intro hv
    by_cases hk : k∈l.map Prod.fst
    · obtain ⟨p,hp,rfl⟩ := List.mem_map.mp hk
      have hw:=hget p.2 hp
      rw [hv,Option.some.injEq] at hw
      rw [hw]
      exact hp
    · have hnone : (ofList l compare)[k]? = none := by
        classical
        have hcmp : Std.LawfulBEqCmp (compare : α → α → Ordering) := ⟨by simp⟩
        apply getElem?_ofList_of_contains_eq_false
        rw [← Bool.not_eq_true,List.contains_iff_mem]
        exact hk
      rw [hnone] at hv
      cases hv
  · exact hget v

/-- The map that the rows are inserted into one by one: the last row of a key stays. -/
def collect (rows : List (α × β)) : Std.ExtTreeMap α β compare :=
  rows.foldl (fun m row => m.insert row.1 row.2) ∅

/-- The map that collects the values of each key in the order of the rows. -/
def group (rows : List (α × β)) : Std.ExtTreeMap α (List β) compare :=
  rows.foldl (fun m row => m.alter row.1 fun values => some (values.getD []++[row.2])) ∅

variable [DecidableEq α]

theorem getElem?_collect (rows : List (α × β)) (k : α) :
    (collect rows)[k]? = (rows.reverse.find? fun row => row.1==k).map Prod.snd := by
  induction rows using List.reverseRecOn with
  | nil => simp [collect]
  | append_singleton rows row ih =>
    have hfold : collect (rows++[row])=(collect rows).insert row.1 row.2 := by
      simp [collect]
    rw [hfold,getElem?_insert,ih]
    by_cases hk : row.1=k
    · simp [hk]
    · simp [hk]

theorem getElem?_group (rows : List (α × β)) (k : α) :
    ((group rows)[k]?).getD []=(rows.filter fun row => row.1==k).map Prod.snd := by
  induction rows using List.reverseRecOn with
  | nil => simp [group]
  | append_singleton rows row ih =>
    have hfold : group (rows++[row])=
        (group rows).alter row.1 fun values => some (values.getD []++[row.2]) := by
      simp [group]
    rw [hfold,getElem?_alter]
    by_cases hk : row.1=k
    · subst hk
      simp [ih]
    · simp [hk,ih]

end OriginTools.SortedMap
