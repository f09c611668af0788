import OriginTools.Vcs.Reachability
import OriginTools.Vcs.Sample

/-!
# Garbage collection

`gc` (`commands.rs`) deletes every object that neither a branch, a tag nor a
stash leads to, and on request the tracking refs whose tip is not among the
objects it keeps.
-/

namespace OriginTools.Vcs
open Store Command Std.ExtTreeMap
variable (sdk : Sdk)
namespace Store

def deleteObject (id : ObjectId) : Command Store String Bool := do
  let s ← get
  if s.objectExists id then do
    modify fun s => { s with objects := s.objects.erase id }
    pure true
  else pure false

def pruneIds (reachable : List ObjectId) : List ObjectId → Command Store String ℕ
  | [] => pure 0
  | id::ids =>
    if id∈reachable then pruneIds reachable ids
    else do
      let deleted ← deleteObject id
      let pruned ← pruneIds reachable ids
      pure (if deleted then pruned+1 else pruned)

def pruneUnreachable (reachable : List ObjectId) : Command Store String ℕ := do
  let s ← get
  pruneIds reachable s.objects.keys

def trackingRefs (s : Store) (remote : String) : List String :=
  s.remotes.keys.filterMap fun name =>
    if (splitPath name).dropLast=splitPath remote then (splitPath name).getLast? else none

end Store

structure GcReport where
  had : ℕ
  kept : ℕ
  pruned : ℕ
  /-- Only with `--prune-remotes`. -/
  prunedRefs : Option ℕ
  deriving DecidableEq,Repr

def staleTip (s : Store) (reachable : List ObjectId) (name : String) : Bool :=
  match s.readRef .remotes name with
  | .ok tip => tip∉reachable
  | .error _ => false

def pruneTracking (reachable : List ObjectId) (remote : String) :
    List String → Command Store String ℕ
  | [] => pure 0
  | b::bs => do
    let s ← get
    if staleTip s reachable s!"{remote}/{b}" then do
      deleteRef .remotes s!"{remote}/{b}"
      let pruned ← pruneTracking reachable remote bs
      pure (pruned+1)
    else pruneTracking reachable remote bs

def pruneRemotes (reachable : List ObjectId) : List String → Command Store String ℕ
  | [] => pure 0
  | remote::remotes => do
    let s ← get
    let here ← pruneTracking reachable remote (s.trackingRefs remote)
    let rest ← pruneRemotes reachable remotes
    pure (here+rest)

def gcExtra (s : Store) : Option String → List ObjectId
  | none => []
  | some branch => okOrNil ((s.readRef .heads branch).map ([·]))

/-- `remotes` is what reading the names in `remotes.json` gives. -/
def cmdGc (withRemotes : Bool) (remotes : Except String (List String)) :
    Command Store String GcReport := do
  let info ← resolveStore
  let s ← get
  let head ← ofExcept s.headBranch
  -- the walk adds the stashes to these roots, but no merge, rebase or tracking ref
  let reachable ← ofExcept (s.reachableFromRefs sdk (info.branches.map Prod.snd)
    (info.tags.map Prod.snd) (gcExtra s head))
  let pruned ← pruneUnreachable reachable
  let report : GcReport := ⟨s.objects.size,s.objects.size-pruned,pruned,none⟩
  if withRemotes then do
    let names ← ofExcept remotes
    let prunedRefs ← pruneRemotes reachable names
    pure { report with prunedRefs := some prunedRefs }
  else pure report

theorem erase_absent {m : Std.ExtTreeMap ObjectId Bytes compare} {id} (h : id∉m) :
    m.erase id=m := by
  apply ext_getElem?
  intro k
  rw [getElem?_erase]
  split_ifs with hk
  · have heq : id=k := Std.LawfulEqCmp.eq_of_compare hk
    rw [← heq,getElem?_neg m id h]
  · rfl

theorem size_erase_add (m : Std.ExtTreeMap ObjectId Bytes compare) (id : ObjectId) :
    (m.erase id).size+(if id∈m then 1 else 0)=m.size := by
  by_cases h : id∈m
  · have hpos : m.size≠0 := by
      intro hzero
      rw [eq_empty_iff_size_eq_zero.mpr hzero] at h
      exact not_mem_empty h
    rw [size_erase,if_pos h,if_pos (mem_iff_contains.mp h)]
    omega
  · simp [erase_absent h,h]

theorem deleteObject_run (id : ObjectId) (s : Store) : deleteObject id s=
      some (.ok (decide (id∈s.objects)),{ s with objects := s.objects.erase id }) := by
  have hexists : s.objectExists id=true ↔ id∈s.objects := mem_iff_contains.symm
  simp only [deleteObject,bind_apply,get_apply]
  by_cases h : id∈s.objects
  · rw [if_pos (hexists.mpr h),decide_eq_true h]
    rfl
  · rw [if_neg (mt hexists.mp h),decide_eq_false h,erase_absent h]
    rfl

variable (reachable : List ObjectId)

theorem pruneIds_run (ids) (s : Store) :
    ∃ n m,pruneIds reachable ids s=some (.ok n,{ s with objects := m }) ∧
      (∀ x : ObjectId,m[x]? = if x∈ids ∧ x∉reachable then none else s.objects[x]?) ∧
      m.size+n=s.objects.size := by
  induction ids generalizing s with
  | nil => exact ⟨0,s.objects,by simp [pruneIds],by simp,rfl⟩
  | cons id ids ih =>
    by_cases hid : id∈reachable
    · obtain ⟨n,m,hrun,hm,hsize⟩ := ih s
      refine ⟨n,m,by simpa [pruneIds,hid] using hrun,fun x => ?_,hsize⟩
      rw [hm x]
      by_cases hx : x=id
      · simp [hx,hid]
      · simp [hx]
    · obtain ⟨n,m,hrun,hm,hsize⟩ := ih { s with objects := s.objects.erase id }
      refine ⟨if decide (id∈s.objects) then n+1 else n,m,?_,fun x => ?_,?_⟩
      · simp only [pruneIds,if_neg hid,bind_apply,deleteObject_run,hrun,pure_apply]
      · rw [hm x,getElem?_erase]
        by_cases hx : x=id
        · simp [hx,hid]
        · have hne : compare id x≠.eq := fun h => hx (compare_eq_iff_eq.mp h).symm
          simp [hx,hne]
      · have herase:=size_erase_add s.objects id
        have hrest : m.size+n=(s.objects.erase id).size := hsize
        by_cases hmem : id∈s.objects
        · simp only [hmem,if_true,decide_true] at herase ⊢
          omega
        · simp only [hmem,if_false,decide_false,Bool.false_eq_true] at herase ⊢
          omega

theorem pruneUnreachable_run (s : Store) :
    ∃ n m,pruneUnreachable reachable s=some (.ok n,{ s with objects := m }) ∧
      (∀ x : ObjectId,m[x]? = if x∈reachable then s.objects[x]? else none) ∧
      m.size+n=s.objects.size := by
  obtain ⟨n,m,hrun,hm,hsize⟩ := pruneIds_run reachable s.objects.keys s
  refine ⟨n,m,by simpa [pruneUnreachable] using hrun,fun x => ?_,hsize⟩
  simp only [hm x,mem_keys]
  by_cases hx : x∈reachable
  · simp [hx]
  · by_cases hmem : x∈s.objects
    · simp [hx,hmem]
    · simp [hx,hmem]

theorem pruneTracking_run (remote bs s) :
    ∃ n m,pruneTracking reachable remote bs s=some (.ok n,{ s with remotes := m }) := by
  induction bs generalizing s with
  | nil => exact ⟨0,s.remotes,rfl⟩
  | cons b bs ih =>
    simp only [pruneTracking,bind_apply,get_apply]
    by_cases hstale : staleTip s reachable s!"{remote}/{b}"=true
    · have hmem : (s.refMap .remotes).contains s!"{remote}/{b}"=true := by
        by_contra hmem
        rw [staleTip,readRef,readRefSigned,getElem?_eq_none (by simpa using hmem)] at hstale
        cases hstale
      obtain ⟨n,m,hrun⟩ := ih (eraseRef .remotes s!"{remote}/{b}" s)
      refine ⟨n+1,m,?_⟩
      rw [if_pos hstale]
      simp only [bind_apply,s.deleteRef_of_contains hmem,hrun,pure_apply]
      rfl
    · obtain ⟨n,m,hrun⟩ := ih s
      exact ⟨n,m,by rw [if_neg hstale,hrun]⟩

theorem pruneRemotes_run (remotes s) :
    ∃ n m,pruneRemotes reachable remotes s=some (.ok n,{ s with remotes := m }) := by
  induction remotes generalizing s with
  | nil => exact ⟨0,s.remotes,rfl⟩
  | cons remote remotes ih =>
    obtain ⟨here,m,hhere⟩ := pruneTracking_run reachable remote (s.trackingRefs remote) s
    obtain ⟨rest,m',hrest⟩ := ih { s with remotes := m }
    refine ⟨here+rest,m',?_⟩
    simp only [pruneRemotes,bind_apply,get_apply,hhere,hrest,pure_apply]

def GcRoot (s : Store) (id : ObjectId) : Prop :=
  (∃ name,s.readRef .heads name=.ok id) ∨ (∃ name,s.readRef .tags name=.ok id) ∨
    ∃ stashes,s.stashes=.ok stashes ∧ id∈stashes

theorem mem_okOrNil {α : Type} (x : Except String (List α)) (a : α) :
    a∈okOrNil x ↔ ∃ l,x=.ok l ∧ a∈l := by
  cases x with
  | error | ok => simp [okOrNil]

variable {s : Store}

theorem mem_gcExtra {head id} (h : id∈gcExtra s head) : ∃ name,s.readRef .heads name=.ok id := by
  rcases head with _ | branch
  · simp [gcExtra] at h
  obtain ⟨l,hl,hid⟩ := (mem_okOrNil _ _).mp h
  rcases hread : s.readRef .heads branch with e | tip
  · simp [hread,Except.map] at hl
  · simp only [hread,Except.map,Except.ok.injEq] at hl
    rw [← hl,List.mem_singleton] at hid
    exact ⟨branch,hid ▸ hread⟩

theorem gcRoot_iff (s : Store) (info : RepoMeta) (head : Option String)
    (h : s.loadMeta=.ok info) (id : ObjectId) :
    id∈info.branches.map Prod.snd++info.tags.map Prod.snd++gcExtra s head++
      okOrNil s.stashes ↔ GcRoot s id := by
  obtain ⟨-,hbranches,htags⟩ := s.loadMeta_eq_ok info h
  have hb:=s.mem_targets_iff .heads 0 info.branches hbranches id
  have ht:=s.mem_targets_iff .tags 0 info.tags htags id
  simp only [List.mem_append,hb,ht,mem_okOrNil,GcRoot]
  constructor
  · rintro (((hid | hid) | hid) | hid)
    · exact .inl hid
    · exact .inr (.inl hid)
    · exact .inl (mem_gcExtra hid)
    · exact .inr (.inr hid)
  · rintro (hid | hid | hid)
    · exact .inl (.inl (.inl hid))
    · exact .inl (.inl (.inr hid))
    · exact .inr hid

theorem cmdGc_unreadable (withRemotes remotes) {e} (h : s.loadMeta=.error e) :
    cmdGc sdk withRemotes remotes s=some (.error e,s) := by
  simp [cmdGc,resolveStore,h]

theorem cmdGc_run (withRemotes remotes) {info} (h : s.loadMeta=.ok info) :
    ∃ r s',cmdGc sdk withRemotes remotes s=some (r,s') ∧
      (∀ x,(∃ root,GcRoot s root ∧ s.Reaches sdk root x) → s'.objects[x]? = s.objects[x]?) ∧
      (∀ x,(¬ ∃ root,GcRoot s root ∧ s.Reaches sdk root x) → x∉s'.objects) ∧
      ∀ report,r=.ok report → report.kept=s'.objects.size := by
  obtain ⟨hhead,-⟩ := s.loadMeta_eq_ok info h
  obtain ⟨reachable,hwalk,hmem⟩ := s.reachableFromRefs_spec sdk (info.branches.map Prod.snd)
    (info.tags.map Prod.snd) (gcExtra s info.head)
  have hreach : ∀ x,x∈reachable ↔ ∃ root,GcRoot s root ∧ s.Reaches sdk root x := by
    intro x
    rw [hmem x]
    simp only [gcRoot_iff s info info.head h]
  obtain ⟨pruned,m,hprune,hlook,hsize⟩ := pruneUnreachable_run reachable s
  have hkept : s.objects.size-pruned=m.size := by omega
  -- whatever follows the pruning leaves the objects alone
  have hend : ∃ r s',cmdGc sdk withRemotes remotes s=some (r,s') ∧ s'.objects=m ∧
      ∀ report,r=.ok report → report.kept=m.size := by
    simp only [cmdGc,resolveStore,bind_apply,get_apply,ofExcept_apply,h,hhead,hwalk,hprune]
    cases withRemotes with
    | false => exact ⟨_,_,rfl,rfl,fun report hr => by simp [← Except.ok.inj hr,hkept]⟩
    | true =>
      cases remotes with
      | error e => exact ⟨.error e,_,rfl,rfl,fun _ hr => by simp at hr⟩
      | ok names =>
        obtain ⟨n,refs,hrefs⟩ := pruneRemotes_run reachable names { s with objects := m }
        simp only [if_true,bind_apply,ofExcept_apply,hrefs,pure_apply]
        exact ⟨_,_,rfl,rfl,fun report hr => by simp [← Except.ok.inj hr,hkept]⟩
  obtain ⟨r,s',hrun,hobj,hreport⟩ := hend
  refine ⟨r,s',hrun,fun x hx => ?_,fun x hx hin => ?_,hobj ▸ hreport⟩
  · rw [hobj,hlook x,if_pos ((hreach x).mpr hx)]
  · rw [hobj,mem_iff_isSome_getElem?,hlook x,if_neg (mt (hreach x).mp hx)] at hin
    simp at hin

/-- Whatever `gc` ends with, an object that was there and that a branch, a tag or
a stash leads to is still there, unchanged. -/
theorem cmdGc_keeps_reachable (withRemotes : Bool) (remotes : Except String (List String))
    (s : Store) (root x : ObjectId) (hroot : GcRoot s root) (hreach : s.Reaches sdk root x)
    (hx : x∈s.objects) :
    ∃ r s',cmdGc sdk withRemotes remotes s=some (r,s') ∧ x∈s'.objects ∧
      s'.objects[x]? = s.objects[x]? := by
  rcases hload : s.loadMeta with e | info
  · exact ⟨_,s,cmdGc_unreadable sdk withRemotes remotes hload,hx,rfl⟩
  obtain ⟨r,s',hrun,hkept,-⟩ := cmdGc_run sdk withRemotes remotes hload
  have hsame:=hkept x ⟨root,hroot,hreach⟩
  refine ⟨r,s',hrun,?_,hsame⟩
  rwa [mem_iff_isSome_getElem?,hsame,← mem_iff_isSome_getElem?]

/-- The ids that later commands read: refs of every category, stashes, staged
files, and the commits of a merge or rebase in progress. -/
inductive InUse (s : Store) : ObjectId → Prop
  | ref {id : ObjectId} (category : RefCategory) (name : String)
      (h : s.readRef category name=.ok id) : InUse s id
  | stash {id : ObjectId} (stashes : List ObjectId) (h : s.stashes=.ok stashes)
      (hid : id∈stashes) : InUse s id
  | index (tree : Tree) (path : String) (entry : TreeEntry) (h : s.index=.ok tree)
      (hentry : tree.entries[path]? = some entry) : InUse s entry.id
  | merge {id : ObjectId} (st : MergeState) (h : s.mergeState=.ok (some st))
      (hid : id∈[st.headId,st.otherId,st.baseId]) : InUse s id
  | rebase {id : ObjectId} (st : RebaseState) (h : s.rebaseState=.ok st)
      (hid : id∈st.origHead::st.cur::st.remaining.map RebaseEntry.id) : InUse s id

namespace Sample

def unfinished : Store :=
  { Store.empty with
    objects := ofList [(1,signedRecord { Commit.new with tree := 2 }),
        (2,Sample.sdk.treeObjectJson ⟨2,[]⟩),
        (3,signedRecord { Commit.new with tree := 2,message := "remote" }),
        (4,signedRecord { Commit.new with tree := 2,message := "merged" }),
        (5,signedRecord { Commit.new with tree := 2,message := "rebased" }),
        (6,utf8 "staged")] compare
    heads := ofList [("main",.ok ⟨1,sign []⟩)] compare
    remotes := ofList [("origin/main",.ok ⟨3,sign []⟩)] compare
    index := .ok { Tree.new with
      entries := ofList [("file",⟨.file,6⟩)] compare }
    mergeState := .ok (some ⟨"main",1,4,"topic",1,"merge"⟩)
    rebaseState := .ok ⟨"main",5,1,[],"ours"⟩ }

end Sample
open Sample in
theorem cmdGc_keeps_tree_of_tip :
    ∃ r s',cmdGc Sample.sdk false (.ok []) unfinished=some (r,s') ∧ 2∈s'.objects ∧
      s'.objects[(2 : ObjectId)]? = unfinished.objects[(2 : ObjectId)]? := by
  have hlinks : unfinished.links Sample.sdk true 1=[2] := by decide +kernel
  have hroot : unfinished.readRef .heads "main"=.ok 1 := by decide +kernel
  exact cmdGc_keeps_reachable Sample.sdk false (.ok []) unfinished 1 2 (.inl ⟨"main",hroot⟩)
    (Relation.ReflTransGen.single (show (2 : ObjectId)∈_ by rw [hlinks]; simp))
    (by decide +kernel)

open Sample in
/-- The tip of a tracking ref, the commits of a merge and of a rebase in progress
and a staged file are in use, and `gc` deletes them. -/
theorem cmdGc_deletes_in_use : ∃ r s',cmdGc Sample.sdk false (.ok []) unfinished=some (.ok r,s') ∧
      ∀ x∈([3,4,5,6] : List ObjectId),InUse unfinished x ∧ x∈unfinished.objects ∧ x∉s'.objects := by
  have hrun : (cmdGc Sample.sdk false (.ok []) unfinished).map (fun p =>
      (p.1,([3,4,5,6] : List ObjectId).all fun x => !p.2.objects.contains x))=
        some (.ok ⟨6,2,4,none⟩,true) := by decide +kernel
  obtain ⟨⟨r,s'⟩,hsome,hval⟩ := Option.map_eq_some_iff.mp hrun
  simp only [Prod.mk.injEq,List.all_eq_true,Bool.not_eq_true'] at hval
  obtain ⟨hr,hgone⟩ := hval
  refine ⟨_,s',hr ▸ hsome,fun x hx => ⟨?_,?_,?_⟩⟩
  · simp only [List.mem_cons,List.not_mem_nil,or_false] at hx
    rcases hx with rfl | rfl | rfl | rfl
    · exact .ref .remotes "origin/main" (by decide +kernel)
    · exact .merge _ rfl (by simp)
    · exact .rebase _ rfl (by simp)
    · exact .index _ "file" ⟨.file,6⟩ rfl (by decide +kernel)
  · have hall : ([3,4,5,6] : List ObjectId).all unfinished.objects.contains=true := by
      decide +kernel
    exact mem_iff_contains.mpr (List.all_eq_true.mp hall x hx)
  · rw [mem_iff_contains,hgone x hx]
    exact Bool.false_ne_true

end OriginTools.Vcs
