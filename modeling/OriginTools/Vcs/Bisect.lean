import OriginTools.Vcs.Sample

/-!
# Bisecting

`bisect` (`commands.rs`) keeps lists of good, bad and skipped commits in a state file.
-/

namespace OriginTools.Vcs
open Store Command
variable (sdk : Sdk) (env : Env)

def parentsUnless (s : Store) (stop : List ObjectId) (id : ObjectId) : List ObjectId :=
  if id∈stop then [] else okOrNil (s.parents sdk id)

/-- All commits from `tip` on in the order of the walk, not going past `stop`. -/
def visitOrder (s : Store) (stop : List ObjectId) (tip : ObjectId) : List ObjectId :=
  (okOrNil (Walk.explore (fun id => .ok (parentsUnless sdk s stop id)) s.objects.keys
    [tip])).reverse

def bisectCandidates (s : Store) (tip : ObjectId) (goods skip : List ObjectId) : List ObjectId :=
  ((visitOrder sdk s goods tip).filter fun id => id∉goods).filter fun id => id∉skip

def bisectMergeBase (s : Store) (a b : ObjectId) : Except String ObjectId :=
  let seenA:=visitOrder sdk s [] a
  match (visitOrder sdk s [] b).find? fun id => id∈seenA with
  | some id => .ok id
  | none => .error "no merge-base found between the good and bad commits"

def unwrapNone : String := "called `Option::unwrap()` on a `None` value"

def bisectNext (s : Store) (st : BisectState) : Except String ObjectId := do
  match st.goods.min?,st.bads.min? with
  | some good,some bad =>
    let _ ← bisectMergeBase sdk s good bad
    let bads:=(Std.ExtTreeSet.ofList st.bads compare).toList
    -- `dedup` on a vector drops adjacent repeats only
    let candidates:=(bads.flatMap fun bad =>
      bisectCandidates sdk s bad st.goods st.skipped).destutter (· ≠ ·)
    match candidates[candidates.length/2]? with
    | none => .error "no remaining candidates to bisect"
    | some next => .ok next
  | _,_ => .error unwrapNone

inductive ScriptStatus
  | success
  | failure
  | notRun
  deriving DecidableEq,Repr

/-- What the outside answers in one round: whether the tree could be written to
the working directory, and how the script ended. -/
structure Round where
  restored : Except String Unit
  status : ScriptStatus

structure Window where
  lo : ObjectId
  hi : ObjectId
  state : BisectState
  deriving DecidableEq,Repr

def Window.classify (w : Window) (mid : ObjectId) : ScriptStatus → Window
  | .success => { w with lo := mid,state := { w.state with goods := w.state.goods++[mid] } }
  | .failure => { w with hi := mid,state := { w.state with bads := w.state.bads++[mid] } }
  | .notRun => { w with state := { w.state with skipped := w.state.skipped++[mid] } }

/-- The window of a saved state; without a bad commit the program panics. -/
def startWindow (st : BisectState) : Except String Window :=
  match st.bads.head?,st.bads.getLast? with
  | some first,some hi => .ok ⟨st.goods.getLast?.getD first,hi,st⟩
  | _,_ => .error "bisect has no state"

def midpoint (s : Store) (w : Window) : Option ObjectId :=
  let candidates:=((bisectCandidates sdk s w.hi [w.lo] w.state.skipped).filter
    fun id => id≠w.hi).reverse
  candidates[candidates.length/2]?

def checkoutMid (mid : ObjectId) (round : Round) : Command Store String Unit := do
  let s ← get
  let headBranch ← ofExcept (s.currentBranch "no HEAD")
  let sign ← ofExcept env.signingBundle
  -- the branch that is checked out moves to the probe, and nothing moves it back
  writeRef .heads headBranch mid (sign (idBytes mid))
  let s ← get
  let midCommit ← ofExcept (s.readCommit sdk mid)
  let midTree ← Command.ofLoop (s.readTree sdk midCommit.tree)
  modify (saveIndex midTree)
  ofExcept round.restored

/-- The loop, over the rounds the outside answers; it does not return when it needs
more of them. -/
def bisectLoop : List Round → Window → Command Store String Window
  | [],w => do
    let s ← get
    if (midpoint sdk s w).isNone then pure w else Command.ofLoop none
  | round::rounds,w => do
    let s ← get
    match midpoint sdk s w with
    | none => pure w
    | some mid => do
      checkoutMid sdk env mid round
      bisectLoop rounds (w.classify mid round.status)

inductive BisectReport
  | next (id : ObjectId)
  | reset
  | firstBad (id : ObjectId)
  deriving DecidableEq,Repr

def saveBisectState (st : BisectState) (s : Store) : Store := { s with bisectState := .ok st }

def runFrom (rounds : List Round) (w : Window) : Command Store String BisectReport := do
  let w ← bisectLoop sdk env rounds w
  modify (saveBisectState w.state)
  pure (.firstBad w.hi)

inductive BisectAction
  | start (good : String) (bad : Option String)
  | good (commit : String)
  | bad (commit : String)
  | skip
  | reset
  | run (rounds : List Round)

def saveAndNext (st : BisectState) : Command Store String BisectReport := do
  modify (saveBisectState st)
  let s ← get
  let next ← ofExcept (bisectNext sdk s st)
  let _ ← ofExcept (s.readCommit sdk next)
  pure (.next next)

def headTip (s : Store) : Except String ObjectId := do
  let head ← s.currentBranch "no HEAD"
  s.readRef .heads head

def startState (s : Store) (info : RepoMeta) (good : String) (bad : Option String) :
    Except String BisectState := do
  let goodId ← s.resolveId sdk info good
  let badId ← match bad with
    | some b => s.resolveId sdk info b
    | none => headTip s
  .ok ⟨[goodId],[badId],[]⟩

def cmdBisect : BisectAction → Command Store String BisectReport
  | .start good bad => do
    let info ← resolveStore
    let s ← get
    let st ← ofExcept (startState sdk s info good bad)
    saveAndNext sdk st
  | .good commit => do
    let info ← resolveStore
    let s ← get
    let st ← ofExcept s.bisectState
    let id ← ofExcept (s.resolveId sdk info commit)
    saveAndNext sdk { st with goods := st.goods++[id] }
  | .bad commit => do
    let info ← resolveStore
    let s ← get
    let st ← ofExcept s.bisectState
    let id ← ofExcept (s.resolveId sdk info commit)
    saveAndNext sdk { st with bads := st.bads++[id] }
  | .skip => do
    let _ ← resolveStore
    let s ← get
    let st ← ofExcept s.bisectState
    let id ← ofExcept (headTip s)
    saveAndNext sdk { st with skipped := st.skipped++[id] }
  | .reset => do
    let _ ← resolveStore
    modify fun s => { s with bisectState := .error s!"bisect state: {noSuchFile}" }
    pure .reset
  | .run rounds => do
    let _ ← resolveStore
    let s ← get
    let st ← ofExcept s.bisectState
    let w ← ofExcept (startWindow st)
    runFrom sdk env rounds w

def checkoutResult (s : Store) (mid : ObjectId) (restored : Except String Unit) :
    Option (Except String Unit) :=
  match s.readCommit sdk mid with
  | .error e => some (.error e)
  | .ok c =>
    match s.readTree sdk c.tree with
    | none => none
    | some (.error e) => some (.error e)
    | some (.ok _) => some restored

def probed (s : Store) : List Round → Window → Option (List ObjectId)
  | [],w => if (midpoint sdk s w).isNone then some [] else none
  | round::rounds,w =>
    match midpoint sdk s w with
    | none => some []
    | some mid =>
      match checkoutResult sdk s mid round.restored with
      | none => none
      | some (.error _) => some [mid]
      | some (.ok ()) => (probed s rounds (w.classify mid round.status)).map (mid :: ·)

theorem midpoint_congr {s t} (h : s.objects=t.objects) : midpoint sdk s=midpoint sdk t := by
  funext w
  simp only [midpoint,bisectCandidates,visitOrder,parentsUnless,s.parents_congr sdk t h,h]

theorem checkoutResult_congr {s t} (h : s.objects=t.objects) :
    checkoutResult sdk s=checkoutResult sdk t := by
  funext mid restored
  simp only [checkoutResult,s.readCommit_congr sdk t h,s.readTree_congr sdk t h]

theorem probed_congr {s t} (h : s.objects=t.objects) (rounds w) :
    probed sdk s rounds w=probed sdk t rounds w := by
  induction rounds generalizing w with
  | nil => simp only [probed,midpoint_congr sdk h]
  | cons round rounds ih =>
    simp only [probed,midpoint_congr sdk h,checkoutResult_congr sdk h,ih]

structure MovedTo (branch : String) (mids : List ObjectId) (s s' : Store) : Prop where
  objects : s'.objects=s.objects
  head : s'.head=s.head
  tip : ∀ mid,mids.getLast? = some mid → s'.readRef .heads branch=.ok mid
  stays : mids=[] → s'.readRef .heads branch=s.readRef .heads branch
  others : ∀ name,name≠branch → s'.readRef .heads name=s.readRef .heads name

theorem MovedTo.refl (branch s) : MovedTo branch [] s s :=
  ⟨rfl,rfl,by simp,fun _ => rfl,fun _ _ => rfl⟩

theorem MovedTo.trans (branch mid mids s t u) (h : MovedTo branch [mid] s t)
    (h' : MovedTo branch mids t u) : MovedTo branch (mid::mids) s u := by
  refine ⟨h'.objects.trans h.objects,h'.head.trans h.head,fun last hlast => ?_,by simp,
    fun name hname => (h'.others name hname).trans (h.others name hname)⟩
  cases mids with
  | nil =>
    rw [List.getLast?_singleton,Option.some.injEq] at hlast
    rw [h'.stays rfl,h.tip mid (by simp),hlast]
  | cons m mids =>
    rw [List.getLast?_cons_cons] at hlast
    exact h'.tip last hlast

theorem MovedTo.free {branch mid s s'} (h : MovedTo branch [mid] s s') :
    refClash s'.heads.keys branch=none := by
  obtain ⟨r,hr,-⟩ := (s'.readRef_eq_ok .heads branch mid).mp (h.tip mid (by simp))
  refine refClash_of_mem ?_
  rw [Std.ExtTreeMap.mem_keys,Std.ExtTreeMap.mem_iff_isSome_getElem?]
  exact Option.isSome_iff_exists.mpr ⟨_,hr⟩

theorem checkoutMid_run {branch sign} (mid : ObjectId) (round : Round) {s}
    (hbranch : s.currentBranch "no HEAD"=.ok branch) (hsign : env.signingBundle=.ok sign)
    (hfree : refClash s.heads.keys branch=none) :
    ∃ s',MovedTo branch [mid] s s' ∧ checkoutMid sdk env mid round s=
      (checkoutResult sdk s mid round.restored).map fun r => (r,s') := by
  have hmoved : ∀ index,MovedTo branch [mid] s
      { putRef .heads branch mid (sign (idBytes mid)) s with index := index } := by
    intro index
    have href (name : String) := s.readRef_putRef branch name mid (sign (idBytes mid))
    refine ⟨rfl,rfl,fun m hm => ?_,by simp,fun name hname => ?_⟩
    · rw [List.getLast?_singleton,Option.some.injEq] at hm
      exact hm ▸ (href branch).trans (if_pos rfl)
    · exact (href name).trans (if_neg (Ne.symm hname))
  have hcommit : (putRef .heads branch mid (sign (idBytes mid)) s).readCommit sdk mid=
      s.readCommit sdk mid := rfl
  have htree : (putRef .heads branch mid (sign (idBytes mid)) s).readTree sdk=
      s.readTree sdk := readTree_congr sdk _ s rfl
  simp only [checkoutMid,writeRef,refMap,bind_apply,get_apply,ofExcept_apply,hbranch,hsign,hfree,
    modify_apply,hcommit,htree,checkoutResult]
  rcases s.readCommit sdk mid with e | c
  · exact ⟨_,hmoved s.index,rfl⟩
  rcases hread : s.readTree sdk c.tree with - | r
  · exact ⟨_,hmoved s.index,by simp [ofLoop,hread]⟩
  cases r with
  | error e => exact ⟨_,hmoved s.index,by simp [ofLoop,hread]; rfl⟩
  | ok tree => exact ⟨_,hmoved (.ok tree),by simp [ofLoop,hread]; rfl⟩

theorem checkoutMid_refused (mid round) (s : Store)
    (h : ∀ branch sign,s.currentBranch "no HEAD"=.ok branch → env.signingBundle=.ok sign →
      refClash s.heads.keys branch≠none) :
    ∃ e,checkoutMid sdk env mid round s=some (.error e,s) := by
  simp only [checkoutMid,bind_apply,get_apply,ofExcept_apply]
  rcases hbranch : s.currentBranch "no HEAD" with e | branch
  · exact ⟨e,rfl⟩
  rcases hsign : env.signingBundle with e | sign
  · exact ⟨e,rfl⟩
  obtain ⟨e,he⟩ := Option.ne_none_iff_exists'.mp (h branch sign hbranch hsign)
  exact ⟨e,by simp [writeRef,refMap,he]⟩

variable {rounds : List Round} {w : Window}

theorem bisectLoop_refused {s s' r}
    (h : ∀ branch sign,s.currentBranch "no HEAD"=.ok branch → env.signingBundle=.ok sign →
      refClash s.heads.keys branch≠none)
    (hrun : bisectLoop sdk env rounds w s=some (r,s')) : s'=s := by
  cases rounds with
  | nil =>
    simp only [bisectLoop,bind_apply,get_apply] at hrun
    split_ifs at hrun with hmid
    · simp only [pure_apply,Option.some.injEq,Prod.mk.injEq] at hrun
      exact hrun.2.symm
    · simp [ofLoop] at hrun
  | cons round rounds =>
    simp only [bisectLoop,bind_apply,get_apply] at hrun
    rcases hmid : midpoint sdk s w with - | mid
    · simp only [hmid,pure_apply,Option.some.injEq,Prod.mk.injEq] at hrun
      exact hrun.2.symm
    · obtain ⟨e,he⟩ := checkoutMid_refused sdk env mid round s h
      simp only [hmid,bind_apply,he,Option.some.injEq,Prod.mk.injEq] at hrun
      exact hrun.2.symm

theorem bisectLoop_run (branch) (sign : Bytes → Signature) (rounds w) (s : Store)
    (hbranch : s.currentBranch "no HEAD"=.ok branch) (hsign : env.signingBundle=.ok sign)
    (hfree : refClash s.heads.keys branch=none) :
    (probed sdk s rounds w=none ∧ bisectLoop sdk env rounds w s=none) ∨
      ∃ mids r s',probed sdk s rounds w=some mids ∧
        bisectLoop sdk env rounds w s=some (r,s') ∧ MovedTo branch mids s s' := by
  induction rounds generalizing w s with
  | nil =>
    simp only [probed,bisectLoop,bind_apply,get_apply]
    by_cases hmid : (midpoint sdk s w).isNone=true
    · rw [if_pos hmid,if_pos hmid]
      exact .inr ⟨[],.ok w,s,rfl,rfl,MovedTo.refl branch s⟩
    · rw [if_neg hmid,if_neg hmid]
      exact .inl ⟨rfl,rfl⟩
  | cons round rounds ih =>
    simp only [probed,bisectLoop,bind_apply,get_apply]
    rcases hmid : midpoint sdk s w with - | mid
    · exact .inr ⟨[],.ok w,s,rfl,rfl,MovedTo.refl branch s⟩
    obtain ⟨t,hmoved,hcheck⟩ := checkoutMid_run sdk env mid round hbranch hsign hfree
    simp only [bind_apply,hcheck]
    rcases checkoutResult sdk s mid round.restored with - | r
    · exact .inl ⟨rfl,rfl⟩
    rcases r with e | u
    · exact .inr ⟨[mid],.error e,t,rfl,rfl,hmoved⟩
    have hbranch' : t.currentBranch "no HEAD"=.ok branch := by
      rw [← hbranch]
      simp only [currentBranch,headBranch,hmoved.head]
    simp only [Option.map_some]
    rw [probed_congr sdk hmoved.objects.symm]
    rcases ih (w.classify mid round.status) t hbranch' hmoved.free with ⟨hnone,hloop⟩ |
      ⟨mids,r,s',hsome,hloop,hrest⟩
    · exact .inl ⟨by rw [hnone]; rfl,hloop⟩
    · exact .inr ⟨mid::mids,r,s',by rw [hsome]; rfl,hloop,
        MovedTo.trans branch mid mids s t s' hmoved hrest⟩

def OnBranch (s : Store) (x : ObjectId) : Prop :=
  ∃ name tip,s.readRef .heads name=.ok tip ∧ s.Descends sdk tip x

def KeepsBranches (s s' : Store) : Prop :=
  (∀ name,s'.readRef .heads name=s.readRef .heads name) ∧ ∀ x,OnBranch sdk s x → OnBranch sdk s' x

theorem keepsBranches_of_refs (s s' : Store) (hobj : s'.objects=s.objects)
    (href : ∀ name,s'.readRef .heads name=s.readRef .heads name) : KeepsBranches sdk s s' := by
  refine ⟨href,?_⟩
  rintro x ⟨name,tip,htip,hdesc⟩
  refine ⟨name,tip,(href name).trans htip,?_⟩
  simp only [Descends,s'.parents_congr sdk s hobj]
  exact hdesc

def BisectKeepsBranches (rounds : List Round) (s : Store) : Prop :=
  ∀ r s',cmdBisect sdk env (.run rounds) s=some (r,s') → KeepsBranches sdk s s' ∧
      ∀ r' s'',cmdBisect sdk env .reset s'=some (r',s'') → KeepsBranches sdk s s''

theorem saveAndNext_keeps (st) : Keeps (fun s => (s.heads,s.objects)) (saveAndNext sdk st) := by
  unfold saveAndNext
  refine .bind (.modify fun _ => rfl) fun _ => ?_
  refine .bind .get fun s => ?_
  refine .bind .ofExcept fun next => ?_
  exact .bind .ofExcept fun _ => .pure

theorem cmdBisect_keeps {action} (h : ∀ rounds,action≠.run rounds) :
    Keeps (fun s => (s.heads,s.objects)) (cmdBisect sdk env action) := by
  cases action with
  | start good bad =>
    refine .bind (resolveStore_keeps _) fun info => ?_
    refine .bind .get fun s => ?_
    exact .bind .ofExcept fun st => saveAndNext_keeps sdk st
  | good | bad | skip =>
    refine .bind (resolveStore_keeps _) fun info => ?_
    refine .bind .get fun s => ?_
    refine .bind .ofExcept fun st => ?_
    exact .bind .ofExcept fun id => saveAndNext_keeps sdk _
  | reset =>
    refine .bind (resolveStore_keeps _) fun info => ?_
    exact .bind (.modify fun _ => rfl) fun _ => .pure
  | run rounds => exact absurd rfl (h rounds)

theorem keeps_after_reset (s s' : Store) (hobj : s'.objects=s.objects)
    (href : ∀ name,s'.readRef .heads name=s.readRef .heads name) :
    KeepsBranches sdk s s' ∧
      ∀ r' s'',cmdBisect sdk env .reset s'=some (r',s'') → KeepsBranches sdk s s'' := by
  refine ⟨keepsBranches_of_refs sdk s s' hobj href,fun r' s'' hreset => ?_⟩
  have hkeeps:=cmdBisect_keeps sdk env (by simp) s' r' s'' hreset
  obtain ⟨hheads,hobjects⟩ := Prod.mk.inj hkeeps
  exact keepsBranches_of_refs sdk s s'' (hobjects.trans hobj)
    fun name => (s''.readRef_heads_congr s' hheads name).trans (href name)

theorem cmdBisect_run_cases (rounds : List Round) (s : Store) :
    (∃ e,cmdBisect sdk env (.run rounds) s=some (.error e,s)) ∧
        (∀ info st w,s.loadMeta=.ok info → s.bisectState=.ok st → startWindow st≠.ok w) ∨
      ∃ info st w,s.loadMeta=.ok info ∧ s.bisectState=.ok st ∧ startWindow st=.ok w ∧
        cmdBisect sdk env (.run rounds) s=runFrom sdk env rounds w s := by
  simp only [cmdBisect,resolveStore,bind_apply,get_apply,ofExcept_apply]
  rcases hinfo : s.loadMeta with e | info
  · exact .inl ⟨⟨e,rfl⟩,by simp⟩
  rcases hst : s.bisectState with e | st
  · exact .inl ⟨⟨e,by simp only [hst]⟩,by simp⟩
  rcases hw : startWindow st with e | w
  · refine .inl ⟨⟨e,by simp only [hst,hw]⟩,?_⟩
    rintro info' st' w' - hst'
    rw [Except.ok.injEq] at hst'
    simp [← hst',hw]
  · exact .inr ⟨info,st,w,rfl,rfl,hw,by simp only [hst,hw]⟩

theorem runFrom_run {s t r} (h : bisectLoop sdk env rounds w s=some (r,t)) :
    ∃ r' s',runFrom sdk env rounds w s=some (r',s') ∧ s'.heads=t.heads ∧ s'.objects=t.objects := by
  cases r with
  | error e => exact ⟨.error e,t,by simp only [runFrom,bind_apply,h],rfl,rfl⟩
  | ok w' =>
    refine ⟨.ok (.firstBad w'.hi),saveBisectState w'.state t,?_,rfl,rfl⟩
    simp only [runFrom,bind_apply,h,modify_apply,pure_apply]

theorem runFrom_none {s} (h : bisectLoop sdk env rounds w s=none) :
    runFrom sdk env rounds w s=none := by
  simp only [runFrom,bind_apply,h]

theorem runFrom_refused (rounds w) (s s' : Store) (r)
    (h : ∀ branch sign,s.currentBranch "no HEAD"=.ok branch → env.signingBundle=.ok sign →
      refClash s.heads.keys branch≠none)
    (hrun : runFrom sdk env rounds w s=some (r,s')) :
    s'.objects=s.objects ∧ ∀ name,s'.readRef .heads name=s.readRef .heads name := by
  rcases hloop : bisectLoop sdk env rounds w s with - | ⟨r₁,t⟩
  · rw [runFrom_none sdk env hloop] at hrun
    cases hrun
  obtain rfl := bisectLoop_refused sdk env h hloop
  obtain ⟨r',s'',hrun',hheads,hobj⟩ := runFrom_run sdk env hloop
  rw [hrun,Option.some.injEq,Prod.mk.injEq] at hrun'
  rw [hrun'.2]
  exact ⟨hobj,s''.readRef_heads_congr t hheads⟩

theorem runFrom_moves (branch) (sign : Bytes → Signature) (rounds w) (s : Store)
    (hbranch : s.currentBranch "no HEAD"=.ok branch) (hsign : env.signingBundle=.ok sign)
    (hfree : refClash s.heads.keys branch=none) :
    (probed sdk s rounds w=none ∧ runFrom sdk env rounds w s=none) ∨
      ∃ mids r s',probed sdk s rounds w=some mids ∧
        runFrom sdk env rounds w s=some (r,s') ∧ s'.objects=s.objects ∧
        ∀ name,s'.readRef .heads name=
          if name=branch then (mids.getLast?.map Except.ok).getD (s.readRef .heads name)
          else s.readRef .heads name := by
  rcases bisectLoop_run sdk env branch sign rounds w s hbranch hsign hfree with ⟨hnone,hloop⟩ |
    ⟨mids,r,t,hsome,hloop,hmoved⟩
  · exact .inl ⟨hnone,runFrom_none sdk env hloop⟩
  obtain ⟨r',s',hrun,hheads,hobj⟩ := runFrom_run sdk env hloop
  refine .inr ⟨mids,r',s',hsome,hrun,hobj.trans hmoved.objects,fun name => ?_⟩
  rw [s'.readRef_heads_congr t hheads]
  by_cases hname : name=branch
  · subst hname
    rw [if_pos rfl]
    rcases hlast : mids.getLast? with - | mid
    · exact hmoved.stays (List.getLast?_eq_none_iff.mp hlast)
    · exact hmoved.tip mid hlast
  · rw [if_neg hname]
    exact hmoved.others name hname

theorem bisect_keeps_branches_iff (rounds : List Round) (s : Store) :
    BisectKeepsBranches sdk env rounds s ↔
      ∀ info st w branch sign mids mid,s.loadMeta=.ok info → s.bisectState=.ok st →
        startWindow st=.ok w → s.currentBranch "no HEAD"=.ok branch →
        env.signingBundle=.ok sign → refClash s.heads.keys branch=none →
        probed sdk s rounds w=some mids → mids.getLast? = some mid → s.readRef .heads branch=.ok mid := by
  rcases cmdBisect_run_cases sdk env rounds s with ⟨⟨e,he⟩,hno⟩ | ⟨info,st,w,hinfo,hst,hw,heq⟩
  · -- no search is started, and the store is as it was
    refine iff_of_true (fun r s' hrun => ?_) ?_
    · rw [he,Option.some.injEq,Prod.mk.injEq] at hrun
      exact keeps_after_reset sdk env s s' (by rw [hrun.2]) fun _ => by rw [hrun.2]
    · intro info st w branch sign mids mid hinfo hst hw
      exact absurd hw (hno info st w hinfo hst)
  constructor
  · intro h info' st' w' branch sign mids mid _ hst' hw' hbranch hsign hfree hprobed hlast
    obtain rfl : st=st' := Except.ok.inj (hst.symm.trans hst')
    obtain rfl : w=w' := Except.ok.inj (hw.symm.trans hw')
    rcases runFrom_moves sdk env branch sign rounds w s hbranch hsign hfree with ⟨hnone,-⟩ |
      ⟨mids',r,s',hsome,hrun,-,href⟩
    · rw [hprobed] at hnone
      cases hnone
    obtain rfl : mids=mids' := Option.some.inj (hprobed.symm.trans hsome)
    have hkeep:=(h r s' (heq.trans hrun)).1.1 branch
    rw [href branch,if_pos rfl,hlast] at hkeep
    exact hkeep.symm
  · intro h r s' hrun
    rw [heq] at hrun
    by_cases hcan : ∃ branch sign,s.currentBranch "no HEAD"=.ok branch ∧
        env.signingBundle=.ok sign ∧ refClash s.heads.keys branch=none
    · obtain ⟨branch,sign,hbranch,hsign,hfree⟩ := hcan
      rcases runFrom_moves sdk env branch sign rounds w s hbranch hsign hfree with ⟨-,hnone⟩ |
        ⟨mids,r',s'',hsome,hrun',hobj,href⟩
      · rw [hrun] at hnone
        cases hnone
      rw [hrun,Option.some.injEq,Prod.mk.injEq] at hrun'
      obtain rfl := hrun'.2
      refine keeps_after_reset sdk env s s' hobj fun name => ?_
      rw [href name]
      by_cases hname : name=branch
      · subst hname
        rw [if_pos rfl]
        rcases hlast : mids.getLast? with - | mid
        · rfl
        · exact (h info st w name sign mids mid hinfo hst hw hbranch hsign hfree hsome hlast).symm
      · rw [if_neg hname]
    · -- without a HEAD, a key or room for the ref the first checkout writes nothing
      obtain ⟨hobj,href⟩ := runFrom_refused sdk env rounds w s s' r
        (fun branch sign hb hs hfree => hcan ⟨branch,sign,hb,hs,hfree⟩) hrun
      exact keeps_after_reset sdk env s s' hobj href

namespace Sample

def linearCommit (parents : List ObjectId) : Commit :=
  { Commit.new with tree := 9,parents := parents }

def linear : Store :=
  { Store.empty with
    objects := Std.ExtTreeMap.ofList
      [(1,signedRecord (linearCommit [])),(2,signedRecord (linearCommit [1])),
        (3,signedRecord (linearCommit [2])),(4,signedRecord (linearCommit [3])),
        (9,Sample.sdk.treeObjectJson ⟨2,[]⟩)] compare
    heads := Std.ExtTreeMap.ofList [("main",.ok ⟨4,sign []⟩)] compare
    bisectState := .ok ⟨[1],[4],[]⟩ }

def script : List Round := [⟨.ok (),.failure⟩,⟨.ok (),.success⟩]

end Sample
open Sample in
/-- The run finds the first bad commit and leaves `main` at `2`: commits `3` and
`4` are on no branch any more. -/
theorem bisect_rewinds_branch :
    ∃ s',cmdBisect Sample.sdk Sample.env (.run script) linear=some (.ok (.firstBad 3),s') ∧
      linear.readRef .heads "main"=.ok 4 ∧ s'.readRef .heads "main"=.ok 2 ∧
      OnBranch Sample.sdk linear 4 ∧ ¬ OnBranch Sample.sdk s' 4 ∧
      ¬ BisectKeepsBranches Sample.sdk Sample.env script linear := by
  have hrun : (cmdBisect Sample.sdk Sample.env (.run script) linear).map (fun p =>
      (p.1,p.2.readRef .heads "main",p.2.heads.keys,Walk.isClosed (parents Sample.sdk p.2) [1,2]))=
        some (.ok (.firstBad 3),.ok 2,["main"],true) := by decide +kernel
  have htip : linear.readRef .heads "main"=.ok 4 := by decide +kernel
  obtain ⟨⟨r,s'⟩,hsome,hval⟩ := Option.map_eq_some_iff.mp hrun
  simp only [Prod.mk.injEq] at hval
  obtain ⟨hr,hmain,hkeys,hclosed⟩ := hval
  have hon : OnBranch Sample.sdk linear 4 := ⟨"main",4,htip,Relation.ReflTransGen.refl⟩
  have hoff : ¬ OnBranch Sample.sdk s' 4 := by
    rintro ⟨name,tip,hname,hdesc⟩
    obtain ⟨x,hx,-⟩ := (s'.readRef_eq_ok .heads name tip).mp hname
    have hkey : name∈s'.heads.keys := by
      rw [Std.ExtTreeMap.mem_keys,Std.ExtTreeMap.mem_iff_isSome_getElem?]
      exact Option.isSome_iff_exists.mpr ⟨_,hx⟩
    rw [hkeys,List.mem_singleton] at hkey
    rw [hkey,hmain,Except.ok.injEq] at hname
    exact absurd (Walk.reach_mem hclosed (by simp [← hname]) hdesc) (by decide)
  refine ⟨s',hr ▸ hsome,htip,hmain,hon,hoff,fun h => ?_⟩
  exact hoff ((h r s' hsome).1.2 4 hon)

end OriginTools.Vcs
