import OriginTools.Vcs.Sample

/-!
# The merge base and what `merge` makes of it

`merge` compares the merge base with the two tips to find out whether there is anything
to merge.
-/

namespace OriginTools.Vcs
open Store Ancestry Command Relation.ReflTransGen
variable (sdk : Sdk)

theorem fastForward_returns (env) (headBranch : String) (other) :
    Returns (fastForward sdk env headBranch other) (· = .fastForwarded) := by
  unfold fastForward
  iterate 7 refine returns_bind _ fun _ => ?_
  exact returns_pure rfl

theorem mergeTrees_returns (env args) (headBranch : String) (head other base) :
    Returns (mergeTrees sdk env args headBranch head other base)
      fun rep => rep≠.upToDate ∧ rep≠.fastForwarded := by
  unfold mergeTrees
  iterate 8 refine returns_bind _ fun _ => ?_
  dsimp only
  split_ifs
  · unfold commitMerge
    iterate 5 refine returns_bind _ fun _ => ?_
    exact returns_pure (by simp)
  · unfold stopOnConflicts
    iterate 3 refine returns_bind _ fun _ => ?_
    exact returns_pure (by simp)

theorem mergeInto_report {env args headBranch head other m s s' rep}
    (hm : s.mergeBase sdk head other=some (.ok m))
    (hrun : mergeInto sdk env args headBranch head other s=some (.ok rep,s')) :
    (rep=.upToDate ↔ m=other) ∧ (rep=.fastForwarded ↔ m=head ∧ m≠other) := by
  simp only [mergeInto,bind_apply,get_apply,hm,ofLoop,ofExcept_apply] at hrun
  split_ifs at hrun with hother hhead
  · simp only [pure_apply,Option.some.injEq,Prod.mk.injEq,Except.ok.injEq] at hrun
    simp [← hrun.1,hother]
  · have hrep:=fastForward_returns sdk env headBranch other s rep s' hrun
    exact ⟨by simp [show rep=.fastForwarded from hrep,hother],
      by simp [show rep=.fastForwarded from hrep,hhead,hhead ▸ hother]⟩
  · have hrep:=mergeTrees_returns sdk env args headBranch head other m s rep s' hrun
    simp [hrep,hother,hhead]

theorem cmdMerge_cases (env : Env) {args} (s : Store) (habort : args.abort=false) :
    (∃ e,cmdMerge sdk env args s=some (.error e,s)) ∨
      ∃ info headBranch head other,s.loadMeta=.ok info ∧
        s.currentBranch "no HEAD"=.ok headBranch ∧ s.readRef .heads headBranch=.ok head ∧
        s.resolveId sdk info args.branch=.ok other ∧
        cmdMerge sdk env args s=mergeInto sdk env args headBranch head other s := by
  simp only [cmdMerge,resolveStore,bind_apply,get_apply,ofExcept_apply,habort,
    Bool.false_eq_true,if_false]
  rcases hinfo : s.loadMeta with e | info
  · exact .inl ⟨e,rfl⟩
  by_cases hshallow : s.shallow=true
  · exact .inl ⟨_,by simp only [hshallow,if_true,throw_apply]; rfl⟩
  simp only [hshallow,Bool.false_eq_true,if_false,bind_apply,ofExcept_apply]
  rcases hbranch : s.currentBranch "no HEAD" with e | headBranch
  · exact .inl ⟨e,rfl⟩
  rcases hhead : s.readRef .heads headBranch with e | head
  · exact .inl ⟨e,by simp only [hhead]⟩
  rcases hother : s.resolveId sdk info args.branch with e | other
  · exact .inl ⟨e,by simp only [hhead]⟩
  exact .inr ⟨info,headBranch,head,other,rfl,rfl,hhead,hother,by simp only [hhead]⟩

structure MergeBaseCorrect (s : Store) (a b : ObjectId) : Prop where
  lowest : ∃ m,s.mergeBase sdk a b=some (.ok m) ∧ LowestCommon (s.ParentLink sdk) a b m ∧
    (m=a ↔ s.Descends sdk b a) ∧ (m=b ↔ s.Descends sdk a b)
  report : ∀ (env : Env) (args : MergeArgs) (info : RepoMeta) (headBranch : String)
    (rep : MergeReport) (s' : Store),args.abort=false → s.loadMeta=.ok info →
    s.currentBranch "no HEAD"=.ok headBranch → s.readRef .heads headBranch=.ok a →
    s.resolveId sdk info args.branch=.ok b → cmdMerge sdk env args s=some (.ok rep,s') →
    (rep=.upToDate ↔ s.Descends sdk a b) ∧
      (rep=.fastForwarded ↔ s.Descends sdk b a ∧ ¬ s.Descends sdk a b)

theorem mergeBaseCorrect_of_lowest {s a b m} (hm : s.mergeBase sdk a b=some (.ok m))
    (hlow : LowestCommon (s.ParentLink sdk) a b m) : MergeBaseCorrect sdk s a b := by
  refine ⟨⟨m,hm,hlow,hlow.eq_left_iff,hlow.eq_right_iff⟩,?_⟩
  intro env args info headBranch rep s' habort hinfo hbranch hhead hother hrun
  rcases cmdMerge_cases sdk env s habort with ⟨e,he⟩ |
    ⟨info',headBranch',head,other,hinfo',hbranch',hhead',hother',hmerge⟩
  · rw [he] at hrun
    cases hrun
  obtain rfl : info=info' := Except.ok.inj (hinfo.symm.trans hinfo')
  obtain rfl : headBranch=headBranch' := Except.ok.inj (hbranch.symm.trans hbranch')
  obtain rfl : a=head := Except.ok.inj (hhead.symm.trans hhead')
  obtain rfl : b=other := Except.ok.inj (hother.symm.trans hother')
  have hrep:=mergeInto_report sdk hm (hmerge.symm.trans hrun)
  rw [hlow.eq_right_iff,hlow.eq_left_iff,ne_eq,hlow.eq_right_iff] at hrep
  exact hrep

theorem mergeBase_correct_iff (s : Store) (a b : ObjectId) (hacyc : Acyclic (s.ParentLink sdk))
    (ha : s.HistoryPresent sdk a) (hb : s.HistoryPresent sdk b) :
    MergeBaseCorrect sdk s a b ↔
      ∃ z,LowestCommon (s.ParentLink sdk) a b z ∧ s.OnFirstParents sdk b z := by
  constructor
  · intro h
    obtain ⟨m,hm,hlow,-,-⟩ := h.lowest
    exact (s.mergeBase_lowest_iff sdk hacyc ha hb hm).mp hlow
  · intro h
    obtain ⟨m,hm,-,-⟩ := s.mergeBase_spec sdk hacyc ha hb
    exact mergeBaseCorrect_of_lowest sdk hm ((s.mergeBase_lowest_iff sdk hacyc ha hb hm).mpr h)

namespace Sample

def commitWith (parents : List ObjectId) : Commit := { Commit.new with parents := parents }

def diamond : Store :=
  commitStore [(1,commitWith []),(2,commitWith [1]),(3,commitWith [1]),(4,commitWith [2,3])]

theorem diamond_parentsBelow : diamond.parentsBelow Sample.sdk=true := by decide +kernel

theorem diamond_acyclic : Acyclic (diamond.ParentLink Sample.sdk) :=
  diamond.acyclic_of_parentsBelow Sample.sdk diamond_parentsBelow

theorem diamond_present {tip} (h : tip∈diamond.objects.keys) :
    diamond.HistoryPresent Sample.sdk tip :=
  diamond.historyPresent_of_parentsBelow Sample.sdk diamond_parentsBelow h

theorem diamond_merge_parents : diamond.parents Sample.sdk 4=.ok [2,3] := by decide +kernel

theorem diamond_side_parents : diamond.parents Sample.sdk 3=.ok [1] := by decide +kernel

end Sample
open Sample in
theorem mergeBase_correct_first_parent : MergeBaseCorrect Sample.sdk diamond 2 4 := by
  refine (mergeBase_correct_iff Sample.sdk diamond 2 4 diamond_acyclic
    (diamond_present (by decide +kernel)) (diamond_present (by decide +kernel))).mpr ?_
  have hlink : diamond.ParentLink Sample.sdk 4 2 := ⟨_,diamond_merge_parents,by simp⟩
  refine ⟨2,lowestCommon_self diamond_acyclic (single hlink),?_⟩
  exact single (show diamond.firstParent Sample.sdk 4=.ok (some 2) by
    decide +kernel)

open Sample in
/-- The second parent `3` of the merge is an ancestor of it, but the merge base is
the root, a proper ancestor of the common ancestor `3`. -/
theorem mergeBase_misses_second_parent :
    Acyclic (diamond.ParentLink Sample.sdk) ∧ diamond.HistoryPresent Sample.sdk 3 ∧
      diamond.HistoryPresent Sample.sdk 4 ∧
      Common (diamond.ParentLink Sample.sdk) 3 4 3 ∧
      diamond.mergeBase Sample.sdk 3 4=some (.ok 1) ∧ diamond.Descends Sample.sdk 3 1 ∧
      ¬ MergeBaseCorrect Sample.sdk diamond 3 4 := by
  have hmerge : diamond.ParentLink Sample.sdk 4 3 := ⟨_,diamond_merge_parents,by simp⟩
  have hside : diamond.ParentLink Sample.sdk 3 1 := ⟨_,diamond_side_parents,by simp⟩
  have hcommon : Common (diamond.ParentLink Sample.sdk) 3 4 3 := ⟨refl,single hmerge⟩
  have hbase : diamond.mergeBase Sample.sdk 3 4=some (.ok 1) := by decide +kernel
  refine ⟨diamond_acyclic,diamond_present (by decide +kernel),
    diamond_present (by decide +kernel),hcommon,hbase,single hside,?_⟩
  intro h
  obtain ⟨m,hm,hlow,-,-⟩ := h.lowest
  rw [hbase] at hm
  cases hm
  exact hlow.2 3 hcommon (by decide) (single hside)

end OriginTools.Vcs
