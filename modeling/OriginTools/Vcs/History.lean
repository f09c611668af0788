import OriginTools.Foundation.Chain
import OriginTools.Foundation.Walk
import OriginTools.Vcs.Store

/-!
# The commit graph

`merge_base` (`commands.rs`) collects all ancestors of one commit and then follows the
first parents of the other; `is_ancestor` (`remote.rs`) follows first parents only.
-/

namespace OriginTools.Vcs.Store
open Ancestry
variable (sdk : Sdk)

def parents (s : Store) (id : ObjectId) : Except String (List ObjectId) :=
  (s.readCommit sdk id).map Commit.parents

def firstParent (s : Store) (id : ObjectId) : Except String (Option ObjectId) :=
  (s.readCommit sdk id).map fun c => c.parents.head?

def ancestors (s : Store) (start : ObjectId) : Except String (List ObjectId) :=
  Walk.explore (parents sdk s) s.objects.keys [start]

/-- The first commit on the first-parent chain of `b` that is an ancestor of `a`,
or the root of the chain. -/
def mergeBase (s : Store) (a b : ObjectId) : Option (Except String ObjectId) :=
  match s.ancestors sdk a with
  | .error e => some (.error e)
  | .ok ancA =>
    (Chain.follow (fun cur => ancA.contains cur) (firstParent sdk s) (s.objects.size+1) b).map fun
        | .hit cur => .ok cur
        | .root cur => .ok cur
        | .stuck _ e => .error e

/-- On a shallow clone a missing parent ends the search without an error. -/
def isAncestor (s : Store) (ancestor desc : ObjectId) : Option (Except String Bool) :=
  (Chain.follow (fun cur => cur==ancestor) (firstParent sdk s) (s.objects.size+1) desc).map fun
      | .hit _ => .ok true
      | .root _ => .ok false
      | .stuck _ e => if s.shallow then .ok false else .error e

abbrev ParentLink (s : Store) : ObjectId → ObjectId → Prop := Walk.Edge (parents sdk s)
abbrev Descends (s : Store) (d a : ObjectId) : Prop := Walk.Reach (parents sdk s) d a
abbrev OnFirstParents (s : Store) (d a : ObjectId) : Prop := Chain.OnChain (firstParent sdk s) d a

def HistoryPresent (s : Store) (tip : ObjectId) : Prop :=
  ∀ x,s.Descends sdk tip x → ∃ c,s.readCommit sdk x=.ok c

variable (s : Store)

theorem parents_congr (t : Store) (h : s.objects=t.objects) : s.parents sdk=t.parents sdk := by
  funext id
  simp only [parents,s.readCommit_congr sdk t h]

theorem read_mem {id bytes} (h : s.read sdk id=.ok bytes) : id∈s.objects.keys := by
  unfold read at h
  rw [Std.ExtTreeMap.mem_keys,Std.ExtTreeMap.mem_iff_isSome_getElem?]
  cases hget : s.objects[id]? with
  | none => simp [hget] at h
  | some b => rfl

theorem readCommit_mem {id} (c : Commit) (h : s.readCommit sdk id=.ok c) : id∈s.objects.keys := by
  unfold readCommit readCommitRecord at h
  cases hread : s.read sdk id with
  | error e => simp [hread,Except.map] at h
  | ok bytes => exact s.read_mem sdk hread

theorem parents_eq_ok (id ps) :
    s.parents sdk id=.ok ps ↔ ∃ c,s.readCommit sdk id=.ok c ∧ c.parents=ps := by
  unfold parents
  cases s.readCommit sdk id with
  | error | ok => simp [Except.map]

theorem parents_supported : Walk.Supported (parents sdk s) s.objects.keys := by
  intro x ys hx _
  obtain ⟨c,hc,-⟩ := (s.parents_eq_ok sdk x ys).mp hx
  exact s.readCommit_mem sdk c hc

theorem parentLink_of_next {x y} (h : Chain.Next (firstParent sdk s) x y) :
    s.ParentLink sdk x y := by
  unfold Chain.Next firstParent at h
  rcases hc : s.readCommit sdk x with e | c
  · simp [hc,Except.map] at h
  simp only [hc,Except.map,Except.ok.injEq] at h
  exact ⟨c.parents,(s.parents_eq_ok sdk x c.parents).mpr ⟨c,hc,rfl⟩,List.mem_of_mem_head? h⟩

theorem descends_of_onFirstParents (d a) (h : s.OnFirstParents sdk d a) : s.Descends sdk d a :=
  Relation.ReflTransGen.mono (fun _ _ hnext => s.parentLink_of_next sdk hnext) _ _ h

theorem firstParent_acyclic (h : Acyclic (s.ParentLink sdk)) (x : ObjectId) :
    ¬ Relation.TransGen (Chain.Next (firstParent sdk s)) x x :=
  fun hx => h x (Relation.TransGen.mono (fun _ _ hnext => s.parentLink_of_next sdk hnext) _ _ hx)

theorem follow_firstParent_returns (h : Acyclic (s.ParentLink sdk)) (stop : ObjectId → Bool) (x) :
    ∃ r,Chain.follow stop (firstParent sdk s) (s.objects.size+1) x=some r := by
  have hret:=Chain.follow_returns stop (firstParent sdk s) s.objects.keys ?_
    (s.firstParent_acyclic sdk h) x
  · rwa [Std.ExtTreeMap.length_keys] at hret
  · intro y z hyz
    obtain ⟨ps,hps,-⟩ := s.parentLink_of_next sdk hyz
    obtain ⟨c,hc,-⟩ := (s.parents_eq_ok sdk y ps).mp hps
    exact s.readCommit_mem sdk c hc

theorem not_stuck_of_present {tip y} (e : String) (hp : s.HistoryPresent sdk tip)
    (hy : s.OnFirstParents sdk tip y) : s.firstParent sdk y≠.error e := by
  obtain ⟨c,hc⟩ := hp y (s.descends_of_onFirstParents sdk tip y hy)
  simp [firstParent,hc,Except.map]

theorem isAncestor_spec (a d) (hacyc : Acyclic (s.ParentLink sdk)) (hd : s.HistoryPresent sdk d) :
    ∃ r,s.isAncestor sdk a d=some (.ok r) ∧ (r=true ↔ s.OnFirstParents sdk d a) := by
  obtain ⟨halt,hrun⟩ := s.follow_firstParent_returns sdk hacyc (fun cur => cur==a) d
  have hend:=Chain.follow_ends _ hrun
  unfold isAncestor
  rw [hrun]
  cases halt with
  | hit y =>
    refine ⟨true,rfl,iff_of_true rfl ?_⟩
    have hy : y=a := by simpa using hend.2
    exact hy ▸ hend.1
  | root y =>
    refine ⟨false,rfl,iff_of_false (by simp) fun hon => ?_⟩
    obtain ⟨x,hx,-⟩ := Chain.follow_first _ a hrun hon (by simp)
    cases hx
  | stuck y e => exact absurd hend.2.2 (s.not_stuck_of_present sdk e hd hend.1)

theorem ancestors_spec (a : ObjectId) (ha : s.HistoryPresent sdk a) :
    ∃ anc,s.ancestors sdk a=.ok anc ∧ ∀ x,x∈anc ↔ s.Descends sdk a x := by
  have hread : ∀ r∈[a],∀ x,Walk.Reach (parents sdk s) r x → ∃ ys,s.parents sdk x=.ok ys := by
    intro r hr x hx
    rw [List.mem_singleton.mp hr] at hx
    obtain ⟨c,hc⟩ := ha x hx
    exact ⟨c.parents,(s.parents_eq_ok sdk x c.parents).mpr ⟨c,hc,rfl⟩⟩
  obtain ⟨anc,hanc⟩ := Walk.explore_succeeds (s.parents_supported sdk) hread
  refine ⟨anc,hanc,fun x => ?_⟩
  rw [Walk.mem_explore (s.parents_supported sdk) hanc x]
  simp

theorem mergeBase_spec {a b} (hacyc : Acyclic (s.ParentLink sdk)) (ha : s.HistoryPresent sdk a)
    (hb : s.HistoryPresent sdk b) :
    ∃ m,s.mergeBase sdk a b=some (.ok m) ∧ s.OnFirstParents sdk b m ∧
      ∀ z,s.OnFirstParents sdk b z → s.Descends sdk a z →
        s.Descends sdk a m ∧ s.OnFirstParents sdk m z := by
  obtain ⟨anc,hanc,hmem⟩ := s.ancestors_spec sdk a ha
  obtain ⟨halt,hrun⟩ := s.follow_firstParent_returns sdk hacyc (fun cur => anc.contains cur) b
  have hend:=Chain.follow_ends _ hrun
  have hfirst (z : ObjectId) (hz : s.OnFirstParents sdk b z) (haz : s.Descends sdk a z) :=
    Chain.follow_first _ z hrun hz (by simpa [hmem] using haz)
  simp only [mergeBase,hanc,hrun,Option.map_some]
  cases halt with
  | hit y =>
    refine ⟨y,rfl,hend.1,fun z hz haz => ?_⟩
    obtain ⟨x,hx,hxz⟩ := hfirst z hz haz
    cases hx
    exact ⟨(hmem y).mp (by simpa using hend.2),hxz⟩
  | root y =>
    refine ⟨y,rfl,hend.1,fun z hz haz => ?_⟩
    obtain ⟨x,hx,-⟩ := hfirst z hz haz
    cases hx
  | stuck y e => exact absurd hend.2.2 (s.not_stuck_of_present sdk e hb hend.1)

theorem mergeBase_lowest_iff {a b m} (hacyc : Acyclic (s.ParentLink sdk))
    (ha : s.HistoryPresent sdk a) (hb : s.HistoryPresent sdk b)
    (hm : s.mergeBase sdk a b=some (.ok m)) :
    LowestCommon (s.ParentLink sdk) a b m ↔
      ∃ z,LowestCommon (s.ParentLink sdk) a b z ∧ s.OnFirstParents sdk b z := by
  obtain ⟨m',hm',hon,hfirst⟩ := s.mergeBase_spec sdk hacyc ha hb
  obtain rfl : m'=m := by
    rw [hm'] at hm
    cases hm
    rfl
  constructor
  · exact fun h => ⟨m',h,hon⟩
  · rintro ⟨z,hz,hbz⟩
    obtain ⟨ham,hmz⟩ := hfirst z hbz hz.1.1
    have hcommon : Common (s.ParentLink sdk) a b m' :=
      ⟨ham,s.descends_of_onFirstParents sdk b m' hon⟩
    rw [hz.eq_of_reach hcommon (s.descends_of_onFirstParents sdk m' z hmz)]
    exact hz

def parentsBelow (s : Store) : Bool :=
  s.objects.keys.all fun x =>
    match s.parents sdk x with
    | .ok ps => ps.all fun p => p<x&&s.objects.keys.contains p
    | .error _ => false

theorem parentsBelow_spec (h : s.parentsBelow sdk=true) {x} (hx : x∈s.objects.keys) :
    ∃ ps,s.parents sdk x=.ok ps ∧ ∀ p∈ps,p<x ∧ p∈s.objects.keys := by
  have hall:=List.all_eq_true.mp h x hx
  cases hp : s.parents sdk x with
  | error e => simp [hp] at hall
  | ok ps => exact ⟨ps,rfl,by simpa [hp] using hall⟩

theorem acyclic_of_parentsBelow (h : s.parentsBelow sdk=true) : Acyclic (s.ParentLink sdk) := by
  have hstep (x y : ObjectId) (hxy : s.ParentLink sdk x y) : y<x := by
    obtain ⟨ps,hps,hy⟩ := hxy
    have hx:=s.parents_supported sdk x ps hps (List.ne_nil_of_mem hy)
    obtain ⟨qs,hqs,hbelow⟩ := s.parentsBelow_spec sdk h hx
    rw [hps] at hqs
    cases hqs
    exact (hbelow y hy).1
  have hpath (x y : ObjectId) (hxy : Relation.TransGen (s.ParentLink sdk) x y) : y<x := by
    induction hxy with
    | single h1 => exact hstep _ _ h1
    | tail _ h1 ih => exact (hstep _ _ h1).trans ih
  exact fun x hx => lt_irrefl x (hpath x x hx)

theorem historyPresent_of_parentsBelow (h : s.parentsBelow sdk=true) {tip}
    (htip : tip∈s.objects.keys) : s.HistoryPresent sdk tip := by
  have hmem (x : ObjectId) (hx : s.Descends sdk tip x) : x∈s.objects.keys := by
    induction hx with
    | refl => exact htip
    | tail _ hlink ih =>
      obtain ⟨ps,hps,hy⟩ := hlink
      obtain ⟨qs,hqs,hbelow⟩ := s.parentsBelow_spec sdk h ih
      rw [hps] at hqs
      cases hqs
      exact (hbelow _ hy).2
  intro x hx
  obtain ⟨ps,hps,-⟩ := s.parentsBelow_spec sdk h (hmem x hx)
  obtain ⟨c,hc,-⟩ := (s.parents_eq_ok sdk x ps).mp hps
  exact ⟨c,hc⟩

end OriginTools.Vcs.Store
