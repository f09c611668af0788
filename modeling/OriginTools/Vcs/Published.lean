import OriginTools.Foundation.SortedMap
import OriginTools.Vcs.Branches
import OriginTools.Vcs.Fetch
import OriginTools.Vcs.Push

/-!
# The published manifest

An accepted push leaves its manifest in the store, and from then on a full fetch and a
list request are answered with it, a depth-limited fetch with the refs (`remote.rs`).
-/

namespace OriginTools.Vcs
open Store Command SortedMap
variable (sdk : Sdk) (env : Env) (manifestJson : RemoteManifest → Bytes)

def Store.listedManifest (s : Store) (info : RepoMeta) : RemoteManifest :=
  s.publishedManifest.getD (ownManifest info [])

def serveLs (s : Store) (info : RepoMeta) : Command Pack.Link String Unit := do
  Pack.sendMsg msgManifest (manifestJson (s.listedManifest info))
  Pack.sendMsg msgDone []

theorem serveLs_eq_sendAll (s : Store) (info) : serveLs manifestJson s info=
    Pack.sendAll [(msgManifest,manifestJson (s.listedManifest info)),(msgDone,[])] := rfl

structure BranchArgs where
  name : Option String
  delete : Option String
  mv : Option (List String)
  /-- The option `--from`. -/
  pivot : Option String

def moveBranch (old new : String) : Command Store String (List String) := do
  let s ← get
  if s.refExists .heads old=false then throw s!"branch does not exist: {old}"
  else if s.refExists .heads new then throw s!"branch exists: {new}"
  else do
    let tip ← ofExcept (s.readRef .heads old)
    let sign ← ofExcept env.signingBundle
    writeRef .heads new tip (sign (idBytes tip))
    deleteRef .heads old
    let s ← get
    let head ← ofExcept s.headBranch
    modify (if head=some old then setHead (some new) else id)
    pure [s!"moved branch {old} -> {new}"]

def createBranch (info : RepoMeta) (name : String) (pivot : Option String) :
    Command Store String (List String) := do
  let s ← get
  let tip ← ofExcept (match pivot with
    | some spec => s.resolveId sdk info spec
    | none => s.currentBranch "no HEAD to branch from" >>= s.readRef .heads)
  if s.refExists .heads name then throw s!"branch exists: {name}"
  else do
    let sign ← ofExcept env.signingBundle
    writeRef .heads name tip (sign (idBytes tip))
    pure [s!"created branch {name}"]

def listBranches (info : RepoMeta) : Command Store String (List String) := do
  let s ← get
  let head ← ofExcept s.headBranch
  pure (info.branches.map fun p => (if p.1=head.getD "-" then "* " else "  ")++p.1)

def cmdBranch (args : BranchArgs) : Command Store String (List String) := do
  let info ← resolveStore
  match args.delete,args.mv,args.name with
  | some del,_,_ => do
    deleteRef .heads del
    pure [s!"deleted branch {del}"]
  | none,some [old,new],_ => moveBranch env old new
  | none,some _,_ => throw "branch --move needs <old> <new>"
  | none,none,some name => createBranch sdk env info name args.pivot
  | none,none,none => listBranches info

theorem recordCommit_keeps_published (sign : Bytes → Signature) (branch commit) :
    Keeps publishedManifest (recordCommit sdk sign branch commit) := by
  refine .bind ?_ fun id => ?_
  · refine .bind ?_ fun _ => .pure
    exact putRaw_keeps sdk _ (fun _ _ => rfl) _ _
  refine .bind (writeRef_keeps (fun _ _ => rfl) _ _ _) fun _ => ?_
  refine .bind ?_ fun _ => .pure
  refine .bind (.modify fun _ => rfl) fun _ => ?_
  refine .bind .get fun _ => ?_
  refine .bind .ofExcept fun _ => ?_
  exact .modify fun _ => rfl

theorem commitParts_keeps_published (args branch index mergeState) :
    Keeps publishedManifest (commitParts sdk args branch index mergeState) := by
  have htree:=writeTree_keeps sdk publishedManifest (fun _ _ => rfl) index
  refine .bind .get fun s => .ite (.ite ?_ .throw) ?_
  · refine .bind .ofExcept fun _ => ?_
    refine .bind .ofExcept fun _ => ?_
    exact .bind htree fun _ => .pure
  · refine .bind .ofExcept fun _ => ?_
    exact .bind htree fun _ => .pure

theorem commitOn_keeps_published (args branch index mergeState) :
    Keeps publishedManifest (commitOn sdk env args branch index mergeState) := by
  refine .bind (commitParts_keeps_published sdk args branch index mergeState) fun parts => ?_
  refine .bind .ofExcept fun sign => ?_
  refine .bind (recordCommit_keeps_published sdk sign branch _) fun id => ?_
  exact .ite (.bind (.modify fun _ => rfl) fun _ => .pure) .pure

theorem cmdCommit_keeps_published (args) : Keeps publishedManifest (cmdCommit sdk env args) := by
  refine .bind (resolveStore_keeps _) fun _ => ?_
  refine .bind .get fun s => ?_
  refine .bind .ofExcept fun mergeState => .ite .throw ?_
  refine .bind .ofExcept fun index => .ite .throw ?_
  refine .bind .ofExcept fun branch => ?_
  exact commitOn_keeps_published sdk env args branch index mergeState

theorem abortMerge_keeps_published : Keeps publishedManifest (abortMerge sdk env) := by
  refine .bind .get fun s => ?_
  refine .bind .ofExcept fun mergeState => ?_
  rcases mergeState with _ | state
  · exact .throw
  refine .bind .ofExcept fun _ => ?_
  refine .bind .ofLoop fun tree => ?_
  refine .bind .ofExcept fun _ => ?_
  refine .bind (writeRef_keeps (fun _ _ => rfl) _ _ _) fun _ => ?_
  refine .bind (.modify fun _ => rfl) fun _ => ?_
  refine .bind (restoreTree_keeps env _ tree) fun _ => ?_
  exact .bind (.modify fun _ => rfl) fun _ => .pure

theorem fastForward_keeps_published (branch other) :
    Keeps publishedManifest (fastForward sdk env branch other) := by
  refine .bind .get fun s => ?_
  refine .bind .ofExcept fun _ => ?_
  refine .bind .ofLoop fun tree => ?_
  refine .bind .ofExcept fun _ => ?_
  refine .bind (writeRef_keeps (fun _ _ => rfl) _ _ _) fun _ => ?_
  refine .bind (.modify fun _ => rfl) fun _ => ?_
  exact .bind (restoreTree_keeps env _ tree) fun _ => .pure

theorem commitMerge_keeps_published (branch head other message merged) :
    Keeps publishedManifest (commitMerge sdk env branch head other message merged) := by
  refine .bind .ofExcept fun sign => ?_
  refine .bind (writeTree_keeps sdk _ (fun _ _ => rfl) merged) fun _ => ?_
  refine .bind (recordCommit_keeps_published sdk sign branch _) fun _ => ?_
  refine .bind (.modify fun _ => rfl) fun _ => ?_
  exact .bind (restoreTree_keeps env _ merged) fun _ => .pure

theorem stopOnConflicts_keeps_published (state merged conflicts) :
    Keeps publishedManifest (stopOnConflicts env state merged conflicts) := by
  refine .bind (.modify fun _ => rfl) fun _ => ?_
  refine .bind (.modify fun _ => rfl) fun _ => ?_
  exact .bind (restoreTree_keeps env _ merged) fun _ => .pure

theorem mergeTrees_keeps_published (args branch head other base) :
    Keeps publishedManifest (mergeTrees sdk env args branch head other base) := by
  refine .bind .get fun s => ?_
  refine .bind .ofExcept fun _ => ?_
  refine .bind .ofExcept fun _ => ?_
  refine .bind .ofExcept fun _ => ?_
  refine .bind .ofLoop fun headTree => ?_
  refine .bind .ofLoop fun otherTree => ?_
  refine .bind .ofLoop fun baseTree => ?_
  refine .bind (mergeByStrategy_keeps sdk _ (fun _ _ => rfl) args.strategy baseTree
    headTree otherTree) fun p => ?_
  exact .ite (commitMerge_keeps_published sdk env branch head other args.message p.1)
    (stopOnConflicts_keeps_published env _ p.1 p.2)

theorem cmdMerge_keeps_published (args) : Keeps publishedManifest (cmdMerge sdk env args) := by
  refine .bind (resolveStore_keeps _) fun info => ?_
  refine .bind .get fun s => .ite .throw (.ite (abortMerge_keeps_published sdk env) ?_)
  refine .bind .ofExcept fun branch => ?_
  refine .bind .ofExcept fun head => ?_
  refine .bind .ofExcept fun other => ?_
  refine .bind .get fun s => ?_
  refine .bind .ofLoop fun base => ?_
  exact .ite .pure (.ite (fastForward_keeps_published sdk env branch other)
    (mergeTrees_keeps_published sdk env args branch head other base))

theorem moveBranch_keeps_published (old new : String) :
    Keeps publishedManifest (moveBranch env old new) := by
  refine .bind .get fun s => .ite .throw (.ite .throw ?_)
  refine .bind .ofExcept fun _ => ?_
  refine .bind .ofExcept fun _ => ?_
  refine .bind (writeRef_keeps (fun _ _ => rfl) _ _ _) fun _ => ?_
  refine .bind (deleteRef_keeps (fun _ _ => rfl) _) fun _ => ?_
  refine .bind .get fun _ => ?_
  refine .bind .ofExcept fun head => ?_
  refine .bind (.modify fun s => ?_) fun _ => .pure
  split_ifs <;> rfl

theorem createBranch_keeps_published (info name pivot) :
    Keeps publishedManifest (createBranch sdk env info name pivot) := by
  refine .bind .get fun s => ?_
  refine .bind .ofExcept fun tip => .ite .throw ?_
  refine .bind .ofExcept fun _ => ?_
  exact .bind (writeRef_keeps (fun _ _ => rfl) _ _ _) fun _ => .pure

theorem listBranches_keeps {γ : Type} (f : Store → γ) (info) : Keeps f (listBranches info) := by
  refine .bind .get fun _ => ?_
  exact .bind .ofExcept fun _ => .pure

theorem cmdBranch_keeps_published (args) : Keeps publishedManifest (cmdBranch sdk env args) := by
  refine .bind (resolveStore_keeps _) fun info => ?_
  split
  · exact .bind (deleteRef_keeps (fun _ _ => rfl) _) fun _ => .pure
  · exact moveBranch_keeps_published env _ _
  · exact .throw
  · exact createBranch_keeps_published sdk env info _ _
  · exact listBranches_keeps _ info

def stagedEnvelope (stream : Bool) (mode : FileMode) (data : Bytes) : Except String Bytes :=
  if mode=.symlink then sdk.encrypt data
  else if stream then sdk.streamEncrypt data
  else sdk.encrypt data

structure SameUnderHeads (s t : Store) : Prop where
  heads : t.heads=s.heads
  read : ∀ x,FromHeads sdk s x → t.read sdk x=s.read sdk x

def StagesSame (s : Store) (stream : Bool) (mode : FileMode) (data : Except String Bytes) : Prop :=
  ∀ bytes envelope,data=.ok bytes → stagedEnvelope sdk stream mode bytes=.ok envelope →
    FromHeads sdk s (blobAddress sdk ⟨bytes⟩) →
    sdk.decrypt envelope=s.read sdk (blobAddress sdk ⟨bytes⟩)

def AddArg.StagesSame (s : Store) (stream : Bool) : AddArg → Prop
  | .files fs => ∀ file∈fs,Vcs.StagesSame sdk s stream file.2.1 file.2.2
  | .missing _ => True

theorem SameUnderHeads.refl (s : Store) : SameUnderHeads sdk s s := ⟨rfl,fun _ _ => rfl⟩

theorem SameUnderHeads.fromHeads (s t) (h : SameUnderHeads sdk s t) (x) (hx : FromHeads sdk t x) :
    FromHeads sdk s x := by
  obtain ⟨n,id,hid,hpath⟩ := hx
  have hid' : s.readRef .heads n=.ok id := (t.readRef_heads_congr s h.heads n).symm.trans hid
  refine ⟨n,id,hid',?_⟩
  -- along the path each object reads as it does in `s`, and so leads to the same objects
  induction hpath with
  | refl => exact Relation.ReflTransGen.refl
  | @tail y z _ hlink ih =>
    have hread : t.read sdk y=s.read sdk y := h.read y ⟨n,id,hid',ih⟩
    rw [t.links_of_read sdk s true hread] at hlink
    exact ih.tail hlink

variable {s : Store}

theorem SameUnderHeads.insert {t} (h : SameUnderHeads sdk s t) {id envelope}
    (hid : FromHeads sdk s id → sdk.decrypt envelope=s.read sdk id) :
    SameUnderHeads sdk s { t with objects := t.objects.insert id envelope } := by
  refine ⟨h.heads,fun x hx => ?_⟩
  by_cases hx' : id=x
  · subst hx'
    simp [Store.read,hid hx]
  · have hsame:=h.read x hx
    simp only [Store.read] at hsame ⊢
    simp [Std.ExtTreeMap.getElem?_insert,hx',hsame]

theorem writeBlob_sameUnderHeads {t} (h : SameUnderHeads sdk s t) {bytes}
    (hsame : ∀ envelope,sdk.encrypt bytes=.ok envelope → FromHeads sdk s (blobAddress sdk ⟨bytes⟩) →
      sdk.decrypt envelope=s.read sdk (blobAddress sdk ⟨bytes⟩)) :
    Ensures (writeBlob sdk bytes) t fun _ t' => SameUnderHeads sdk s t' := by
  intro r t' hrun
  simp only [writeBlob,putRaw,bind_apply,ofExcept_apply] at hrun
  cases henc : sdk.encrypt bytes with
  | error e =>
    simp only [henc,Option.some.injEq,Prod.mk.injEq] at hrun
    exact hrun.2 ▸ h
  | ok envelope =>
    simp only [henc,modify_apply,pure_apply,Option.some.injEq,Prod.mk.injEq] at hrun
    exact hrun.2 ▸ h.insert sdk (hsame envelope henc)

theorem writeBlobStream_sameUnderHeads {t} (h : SameUnderHeads sdk s t) {bytes}
    (hsame : ∀ envelope,sdk.streamEncrypt bytes=.ok envelope →
      FromHeads sdk s (blobAddress sdk ⟨bytes⟩) →
      sdk.decrypt envelope=s.read sdk (blobAddress sdk ⟨bytes⟩)) :
    Ensures (writeBlobStream sdk bytes) t fun _ t' => SameUnderHeads sdk s t' := by
  intro r t' hrun
  simp only [writeBlobStream,bind_apply,ofExcept_apply] at hrun
  cases henc : sdk.streamEncrypt bytes with
  | error e =>
    simp only [henc,Option.some.injEq,Prod.mk.injEq] at hrun
    exact hrun.2 ▸ h
  | ok envelope =>
    simp only [henc,modify_apply,pure_apply,Option.some.injEq,Prod.mk.injEq] at hrun
    exact hrun.2 ▸ h.insert sdk (hsame envelope henc)

variable {stream : Bool}

theorem stage_sameUnderHeads {t mode data} (hdata : StagesSame sdk s stream mode data)
    (h : SameUnderHeads sdk s t) :
    Ensures (stage sdk stream mode data) t fun _ t' => SameUnderHeads sdk s t' := by
  cases hbytes : data with
  | error e =>
    intro r t' hrun
    simp only [stage,bind_apply,ofExcept_apply,Option.some.injEq,Prod.mk.injEq] at hrun
    exact hrun.2 ▸ h
  | ok bytes =>
    have hsame:=fun envelope => hdata bytes envelope hbytes
    simp only [stagedEnvelope] at hsame
    have hstage : stage sdk stream mode (.ok bytes) t=(if mode=.symlink then writeBlob sdk bytes
          else if stream then writeBlobStream sdk bytes else writeBlob sdk bytes) t := rfl
    intro r t' hrun
    rw [hstage] at hrun
    by_cases hlink : mode=.symlink
    · simp only [if_pos hlink] at hrun hsame
      exact writeBlob_sameUnderHeads sdk h hsame r t' hrun
    simp only [if_neg hlink] at hrun hsame
    by_cases hstream : stream=true
    · simp only [if_pos hstream] at hrun hsame
      exact writeBlobStream_sameUnderHeads sdk h hsame r t' hrun
    · simp only [if_neg hstream] at hrun hsame
      exact writeBlob_sameUnderHeads sdk h hsame r t' hrun

theorem stageFiles_sameUnderHeads {fs}
    (hfs : ∀ file∈fs,StagesSame sdk s stream file.2.1 file.2.2) (index t)
    (h : SameUnderHeads sdk s t) :
    Ensures (stageFiles sdk stream fs index) t fun _ t' => SameUnderHeads sdk s t' := by
  induction fs generalizing index t with
  | nil =>
    intro r t' hrun
    simp only [stageFiles,pure_apply,Option.some.injEq,Prod.mk.injEq] at hrun
    exact hrun.2 ▸ h
  | cons file fs ih =>
    obtain ⟨rel,mode,data⟩ := file
    refine ensures_bind fun r t' hrun => ?_
    have ht' : SameUnderHeads sdk s t' := stage_sameUnderHeads sdk
      (hfs (rel,mode,data) (.head _)) h r t' hrun
    cases r with
    | error e => exact ht'
    | ok id => exact ih (fun file hfile => hfs file (.tail _ hfile)) _ t' ht'

theorem stageArgs_sameUnderHeads {args} (hargs : ∀ arg∈args,arg.StagesSame sdk s stream)
    (index t) (h : SameUnderHeads sdk s t) :
    Ensures (stageArgs sdk stream args index) t fun _ t' => SameUnderHeads sdk s t' := by
  induction args generalizing index t with
  | nil =>
    intro r t' hrun
    simp only [stageArgs,pure_apply,Option.some.injEq,Prod.mk.injEq] at hrun
    exact hrun.2 ▸ h
  | cons arg args ih =>
    cases arg with
    | missing arg =>
      intro r t' hrun
      simp only [stageArgs,throw_apply,Option.some.injEq,Prod.mk.injEq] at hrun
      exact hrun.2 ▸ h
    | files fs =>
      refine ensures_bind fun r t' hrun => ?_
      have ht' : SameUnderHeads sdk s t' := stageFiles_sameUnderHeads sdk
        (hargs (.files fs) (.head _)) index t h r t' hrun
      cases r with
      | error e => exact ht'
      | ok index' => exact ih (fun arg harg => hargs arg (.tail _ harg)) _ t' ht'

theorem cmdAdd_sameUnderHeads {args} (hargs : ∀ arg∈args,arg.StagesSame sdk s stream) :
    Ensures (cmdAdd sdk stream args) s fun _ s' => SameUnderHeads sdk s s' := by
  have hsame : ∀ s',id s'=s → SameUnderHeads sdk s s' := by
    intro s' hs'
    rw [show s'=s from hs']
    exact SameUnderHeads.refl sdk s
  refine ensures_bind_frame s (resolveStore_keeps _) (fun _ s' => hsame s') ?_ s rfl
  intro _ s₁ hs₁
  refine ensures_bind_frame s .get (fun _ s' => hsame s') ?_ s₁ hs₁
  intro s₂ s₃ hs₃
  refine ensures_bind_frame s .ofExcept (fun _ s' => hsame s') ?_ s₃ hs₃
  intro index s₄ hs₄
  refine ensures_bind fun r s' hrun => ?_
  have hs' : SameUnderHeads sdk s s' :=
    stageArgs_sameUnderHeads sdk hargs index s₄ (hsame s₄ hs₄) r s' hrun
  cases r with
  | error e => exact hs'
  | ok tree => exact ensures_modify ⟨hs'.heads,hs'.read⟩

def RemoteManifest.Names (m : RemoteManifest) (s : Store) : Prop :=
  ∀ n id,m.branches[n]? = some id ↔ s.readRef .heads n=.ok id

def RemoteManifest.Lists (m : RemoteManifest) (s : Store) : Prop :=
  ∀ x,FromHeads sdk s x → hex x∈m.objectIds

structure ServesCurrent (s : Store) : Prop where
  full : ∀ info,s.loadMeta=.ok info →
    ∃ m,s.servedManifest sdk info none=.ok m ∧ m.Names s ∧ m.Lists sdk s
  listed : ∀ info,s.loadMeta=.ok info → ∃ m : RemoteManifest,m.Names s ∧ ∀ manifestJson,
    serveLs manifestJson s info=Pack.sendAll [(msgManifest,manifestJson m),(msgDone,[])]
  limited : ∀ info n m,s.loadMeta=.ok info → s.servedManifest sdk info (some n)=.ok m → m.Names s

theorem loadRefs_names {depth rows} (out : List (String × ObjectId))
    (h : loadRefs depth rows=.ok out) : out.map Prod.fst=rows.map Prod.fst := by
  induction rows generalizing out with
  | nil =>
    simp only [loadRefs,Except.ok.injEq] at h
    simp [← h]
  | cons row rows ih =>
    obtain ⟨n,x⟩ := row
    obtain ⟨-,signed,rest,rfl,hrest,rfl⟩ := loadRefs_cons.1 h
    rw [List.map_cons,List.map_cons,ih rest hrest]

theorem ownManifest_names {info} (hinfo : s.loadMeta=.ok info) (ids) :
    (ownManifest info ids).Names s := by
  obtain ⟨-,hbranches,-⟩ := s.loadMeta_eq_ok info hinfo
  have hnames:=loadRefs_names _ hbranches
  have hasc : Ascending info.branches := by
    have hheads : (s.heads.toList.map Prod.fst).Pairwise fun a b => compare a b=.lt :=
      List.pairwise_map.mpr (ascending_toList s.heads)
    rw [← hnames] at hheads
    exact List.pairwise_map.mp hheads
  intro n id
  rw [← s.mem_loaded_iff .heads 0 info.branches hbranches n id]
  exact getElem?_ofList hasc.distinct n id

def PublishedCurrent (s : Store) : Prop :=
  ∀ m,s.publishedManifest=some m → m.Names s ∧ m.Lists sdk s

theorem servesCurrent_of_published (h : PublishedCurrent sdk s) : ServesCurrent sdk s := by
  refine ⟨fun info hinfo => ?_,fun info hinfo => ?_,fun info n m hinfo hm => ?_⟩
  · obtain ⟨-,hbranches,-⟩ := s.loadMeta_eq_ok info hinfo
    obtain ⟨ids,hids,hreach⟩ := s.reachableFromRefs_spec sdk (info.branches.map Prod.snd)
      (info.tags.map Prod.snd) []
    cases hpub : s.publishedManifest with
    | some m =>
      refine ⟨m,?_,h m hpub⟩
      simp only [servedManifest,hids,Except.map,hpub,Option.getD_some]
    | none =>
      refine ⟨ownManifest info (Std.ExtTreeSet.ofList ids compare).toList,?_,
        ownManifest_names hinfo _,fun x hx => ?_⟩
      · simp only [servedManifest,hids,Except.map,hpub,Option.getD_none]
      · obtain ⟨n,tip,htip,hpath⟩ := hx
        have hroot : tip∈info.branches.map Prod.snd :=
          (s.mem_targets_iff .heads 0 info.branches hbranches tip).mpr ⟨n,htip⟩
        have hmem : x∈ids := (hreach x).mpr ⟨tip,by simp [hroot],hpath⟩
        refine List.mem_map.mpr ⟨x,?_,rfl⟩
        rw [Std.ExtTreeSet.mem_toList,Std.ExtTreeSet.mem_ofList,List.contains_iff_mem]
        exact hmem
  · refine ⟨s.listedManifest info,?_,fun json => serveLs_eq_sendAll json s info⟩
    cases hpub : s.publishedManifest with
    | some m =>
      simp only [listedManifest,hpub,Option.getD_some]
      exact (h m hpub).1
    | none =>
      simp only [listedManifest,hpub,Option.getD_none]
      exact ownManifest_names hinfo []
  · simp only [servedManifest] at hm
    cases hdepth : s.depthReachable sdk (info.branches.map Prod.snd) (info.tags.map Prod.snd) []
        n with
    | error e => simp [hdepth,Except.map] at hm
    | ok r =>
      simp only [hdepth,Except.map,Except.ok.injEq] at hm
      rw [← hm]
      exact ownManifest_names hinfo _

inductive ServeStep
  | add (stream : Bool) (args : List AddArg)
  | commit (env : Env) (args : CommitArgs)
  | checkout (env : Env) (args : CheckoutArgs)
  | merge (env : Env) (args : MergeArgs)
  | branch (env : Env) (args : BranchArgs)
  | push (env : Env) (conn : Conn)

namespace ServeStep

def exec : ServeStep → Store → Option Store
  | .add stream args => (cmdAdd sdk stream args).after
  | .commit env args => (cmdCommit sdk env args).after
  | .checkout env args => (cmdCheckout sdk env args).after
  | .merge env args => (cmdMerge sdk env args).after
  | .branch env args => (cmdBranch sdk env args).after
  | .push env conn => fun s => (servePush sdk env ⟨s,conn⟩).map fun p => p.2.store

structure Covers (s : Store) (env : Env) (conn : Conn) (m : RemoteManifest) (srv : Server)
    (sign : Bytes → Signature) : Prop where
  received : received sdk ⟨s,conn⟩=some (m,srv)
  signed : env.signingBundle=.ok sign
  adopted : AllAdopted sdk srv.store m.force m.branches.toList
  names : ∀ n id,s.readRef .heads n=.ok id → n∈m.branches.toList.map Prod.fst
  lists : ∀ p∈m.branches.toList,∀ x,srv.store.Reaches sdk p.2 x → hex x∈m.objectIds

/-- While a manifest is published, the working copy writes no branch, and `add` puts
nothing else where the branches lead to. -/
def Undisturbed (s : Store) : ServeStep → Prop
  | .add stream args =>
    s.publishedManifest=none ∨ ∀ arg∈args,arg.StagesSame sdk s stream
  | .checkout _ _ => True
  | .branch _ args => s.publishedManifest=none ∨ args=⟨none,none,none,args.pivot⟩
  | .commit _ _ => s.publishedManifest=none
  | .merge _ _ => s.publishedManifest=none
  | .push env conn => ∃ m srv sign,Covers sdk s env conn m srv sign

end ServeStep

theorem publishedCurrent_of_none {s'} (hs : s.publishedManifest=none)
    (hkeep : s'.publishedManifest=s.publishedManifest) : PublishedCurrent sdk s' := by
  intro m hm
  rw [hkeep,hs] at hm
  cases hm

theorem publishedCurrent_of_same {s'} (hs : PublishedCurrent sdk s)
    (hkeep : s'.publishedManifest=s.publishedManifest) (hsame : SameUnderHeads sdk s s') :
    PublishedCurrent sdk s' := by
  intro m hm
  rw [hkeep] at hm
  obtain ⟨hnames,hlists⟩ := hs m hm
  refine ⟨fun n id => ?_,fun x hx => hlists x (hsame.fromHeads sdk s s' x hx)⟩
  rw [hnames n id,s'.readRef_heads_congr s hsame.heads n]

theorem sameUnderHeads_of_eq {s'} (hheads : s'.heads=s.heads) (hobjects : s'.objects=s.objects) :
    SameUnderHeads sdk s s' :=
  ⟨hheads,fun x _ => by rw [s'.read_congr sdk s hobjects]⟩

theorem servePush_publishes {s' env conn m srv sign}
    (h : ServeStep.Covers sdk s env conn m srv sign)
    (hexec : ServeStep.exec sdk (.push env conn) s=some s') : PublishedCurrent sdk s' := by
  obtain ⟨p,hrun,hp⟩ := Option.map_eq_some_iff.mp hexec
  obtain ⟨objs,hstore,-,-,-⟩ := received_frame sdk h.received
  obtain ⟨t,hwritten,hpub,hadopt⟩ := adoptManifest_adopted sdk env m sign srv h.signed h.adopted
  rw [servePush_received sdk env h.received,hadopt] at hrun
  have ht : p.2.store=t := by
    simp only [sendMsg] at hrun
    cases hsend : srv.conn.sendError with
    | none | some =>
      simp only [hsend,Option.some.injEq] at hrun
      rw [← hrun]
  rw [← hp,ht]
  -- the heads are the branches of the manifest: every old one was named and overwritten
  have hnames : m.Names t := by
    intro n id
    rw [← Std.ExtTreeMap.mem_toList_iff_getElem?_eq_some]
    constructor
    · exact hwritten.new (n,id)
    · intro hread
      by_cases hn : n∈m.branches.toList.map Prod.fst
      · obtain ⟨q,hq,rfl⟩ := List.mem_map.mp hn
        have hnew:=hwritten.new q hq
        rw [hread,Except.ok.injEq] at hnew
        rw [hnew]
        exact hq
      · have hold : s.readRef .heads n=.ok id := by
          rw [← hread,hwritten.old n hn,hstore]
          rfl
        exact absurd (h.names n id hold) hn
  intro m' hm'
  rw [hpub,Option.some.injEq] at hm'
  subst hm'
  refine ⟨hnames,fun x hx => ?_⟩
  obtain ⟨n,id,hid,hpath⟩ := hx
  have hmem : (n,id)∈m.branches.toList :=
    Std.ExtTreeMap.mem_toList_iff_getElem?_eq_some.mpr ((hnames n id).mpr hid)
  exact h.lists (n,id) hmem x ((reaches_congr sdk hwritten.objects id x).mp hpath)

theorem exec_publishedCurrent (s) (step : ServeStep) (s') (hs : PublishedCurrent sdk s)
    (hstep : step.Undisturbed sdk s) (hexec : step.exec sdk s=some s') :
    PublishedCurrent sdk s' := by
  cases step with
  | add stream args =>
    obtain ⟨⟨r,t⟩,hrun,rfl⟩ := Option.map_eq_some_iff.mp hexec
    have hkeep : t.publishedManifest=s.publishedManifest :=
      cmdAdd_keeps sdk (fun _ _ => rfl) (fun _ _ => rfl) stream args s r t hrun
    cases hstep with
    | inl hnone => exact publishedCurrent_of_none sdk hnone hkeep
    | inr hargs =>
      have hsame:=cmdAdd_sameUnderHeads sdk hargs r t hrun
      exact publishedCurrent_of_same sdk hs hkeep hsame
  | commit env args =>
    obtain ⟨⟨r,t⟩,hrun,rfl⟩ := Option.map_eq_some_iff.mp hexec
    exact publishedCurrent_of_none sdk hstep (cmdCommit_keeps_published sdk env args s r t hrun)
  | merge env args =>
    obtain ⟨⟨r,t⟩,hrun,rfl⟩ := Option.map_eq_some_iff.mp hexec
    exact publishedCurrent_of_none sdk hstep (cmdMerge_keeps_published sdk env args s r t hrun)
  | checkout env args =>
    obtain ⟨⟨r,t⟩,hrun,rfl⟩ := Option.map_eq_some_iff.mp hexec
    have hkeep {γ : Type} (f : Store → γ) (hsparse : ∀ s paths,f { s with sparse := paths }=f s)
        (hhead : ∀ s branch,f (setHead branch s)=f s)
        (hindex : ∀ s tree,f (saveIndex tree s)=f s) : f t=f s :=
      cmdCheckout_keeps sdk env hsparse hhead hindex args s r t hrun
    refine publishedCurrent_of_same sdk hs
      (hkeep publishedManifest (fun _ _ => rfl) (fun _ _ => rfl) (fun _ _ => rfl)) ?_
    exact sameUnderHeads_of_eq sdk (hkeep heads (fun _ _ => rfl) (fun _ _ => rfl) (fun _ _ => rfl))
      (hkeep objects (fun _ _ => rfl) (fun _ _ => rfl) (fun _ _ => rfl))
  | branch env args =>
    obtain ⟨⟨r,t⟩,hrun,rfl⟩ := Option.map_eq_some_iff.mp hexec
    cases hstep with
    | inl hnone =>
      exact publishedCurrent_of_none sdk hnone (cmdBranch_keeps_published sdk env args s r t hrun)
    | inr hlist =>
      have hsame : t=s := by
        rw [hlist] at hrun
        refine Keeps.bind (f := id) (resolveStore_keeps _) (fun info => ?_) s r t hrun
        exact listBranches_keeps id info
      rw [hsame]
      exact hs
  | push env conn =>
    obtain ⟨m,srv,sign,hcovers⟩ := hstep
    exact servePush_publishes sdk hcovers hexec

/-- The branches that are served are those of the store, while the working copy writes none
after the first push and every push names all and lists all they lead to. -/
theorem full_fetch_serves_branches (steps : List ServeStep) (s : Store)
    (hs : PublishedCurrent sdk s) (entries : List (Entry Store ServeStep))
    (hrun : trace (ServeStep.exec sdk) steps s=some entries)
    (hstep : ∀ e∈entries,e.step.Undisturbed sdk e.before) :
    ∀ e∈entries,ServesCurrent sdk e.before ∧ ServesCurrent sdk e.after := by
  intro e he
  obtain ⟨hbefore,hafter⟩ := trace_invariant (exec_publishedCurrent sdk) s hs entries hrun
    hstep e he
  exact ⟨servesCurrent_of_published sdk hbefore,servesCurrent_of_published sdk hafter⟩

namespace Sample

def treeObjects : List Bytes := [treeTip,Sample.sdk.treeObjectJson ⟨2,[]⟩]
def pushTree : ServeStep := .push Sample.env (pushMain treeObjects).conn
def showBranches : ServeStep := .branch Sample.env ⟨none,none,none,none⟩
def stageFile : ServeStep := .add false [.files [("file",.file,.ok [7])]]
def commitFile : ServeStep := .commit Sample.env ⟨"local",false,none,none⟩

theorem eq_ok_of_toOption {α : Type} {x : Except String α} {a} (h : x.toOption=some a) :
    x=.ok a := by
  cases x with
  | error e => cases h
  | ok b =>
    simp only [Except.toOption,Option.some.injEq] at h
    rw [h]

theorem empty_published : PublishedCurrent Sample.sdk Store.empty := by
  intro m hm
  simp [Store.empty] at hm

theorem pushTree_covers :
    ∃ m srv sign,ServeStep.Covers Sample.sdk Store.empty Sample.env (pushMain treeObjects).conn
      m srv sign := by
  have hcheck : (received Sample.sdk ⟨Store.empty,(pushMain treeObjects).conn⟩).map (fun p =>
      (p.1.branches.toList,p.1.objectIds,branchVerdict Sample.sdk p.2.store p.1.force "main" 1,
        p.2.store.links Sample.sdk true 1,p.2.store.links Sample.sdk true 2))=
      some ([("main",1)],[hex 1,hex 2],.accepts { Commit.new with tree := 2 },[2],[]) := by
    decide +kernel
  obtain ⟨⟨m,srv⟩,hrecv,hval⟩ := Option.map_eq_some_iff.mp hcheck
  simp only [Prod.mk.injEq] at hval
  obtain ⟨hbranches,hids,hverdict,hone,htwo⟩ := hval
  obtain ⟨objs,hstore,-,-,-⟩ := received_frame Sample.sdk hrecv
  refine ⟨m,srv,Sample.sign,hrecv,rfl,?_,?_,?_⟩
  · intro pre p post hsplit
    rw [hbranches,eq_comm,List.append_eq_singleton_iff] at hsplit
    simp only [List.cons.injEq,reduceCtorEq,and_false,or_false] at hsplit
    obtain ⟨rfl,rfl,-⟩ := hsplit
    exact ⟨⟨_,hverdict⟩,by rw [hstore]; rfl⟩
  · intro n id hid
    simp [readRef,readRefSigned,refMap,Store.empty,Except.map] at hid
  · intro p hp x hx
    rw [hbranches,List.mem_singleton] at hp
    subst hp
    -- from the commit only its tree is reached, and nothing from there
    have hreach : x=1 ∨ x=2 := by
      induction hx with
      | refl => exact .inl rfl
      | tail _ hlink ih =>
        rcases ih with rfl | rfl
        · rw [hone,List.mem_singleton] at hlink
          exact .inr hlink
        · rw [htwo] at hlink
          cases hlink
    rw [hids]
    rcases hreach with rfl | rfl <;> simp

theorem trace_two {σ ι : Type} {exec : ι → σ → Option σ} {i j s entries}
    (h : trace exec [i,j] s=some entries) : ∃ s₁ s₂,entries=[⟨s,i,s₁⟩,⟨s₁,j,s₂⟩] := by
  rcases hi : exec i s with _ | s₁
  · simp [trace,hi] at h
  cases hj : exec j s₁ with
  | none => simp [trace,hi,hj] at h
  | some s₂ =>
    simp only [trace,hi,hj,Option.map_some,Option.some.injEq] at h
    exact ⟨s₁,s₂,h.symm⟩

end Sample
open Sample in
theorem full_fetch_serves_pushed_branch :
    ∃ entries,trace (ServeStep.exec Sample.sdk) [pushTree,showBranches] Store.empty=
        some entries ∧ entries.length=2 ∧
      ∀ e∈entries,ServesCurrent Sample.sdk e.before ∧ ServesCurrent Sample.sdk e.after := by
  have hlength : (trace (ServeStep.exec Sample.sdk) [pushTree,showBranches] Store.empty).map
      List.length=some 2 := by decide +kernel
  obtain ⟨entries,hrun,htwo⟩ := Option.map_eq_some_iff.mp hlength
  refine ⟨entries,hrun,htwo,?_⟩
  refine full_fetch_serves_branches Sample.sdk _ Store.empty empty_published entries hrun ?_
  obtain ⟨s₁,s₂,hentries⟩ := trace_two hrun
  rw [hentries]
  intro e he
  simp only [List.mem_cons,List.not_mem_nil,or_false] at he
  rcases he with rfl | rfl
  · exact pushTree_covers
  · exact .inr rfl

open Sample in
/-- A commit on `main` after `main` was pushed: a full fetch and a list request still
name the commit that was pushed, a depth-limited fetch names the new one. -/
theorem full_fetch_serves_pushed_tip :
    ∃ entries e info full limited,trace (ServeStep.exec Sample.sdk)
        [pushTree,stageFile,commitFile] Store.empty=some entries ∧
      PublishedCurrent Sample.sdk Store.empty ∧ e∈entries ∧ e.after.loadMeta=.ok info ∧
      e.after.servedManifest Sample.sdk info none=.ok full ∧
      e.after.servedManifest Sample.sdk info (some 1)=.ok limited ∧
      full.branches["main"]? = some 1 ∧
      (e.after.listedManifest info).branches["main"]? = some 1 ∧
      limited.branches["main"]? ≠ some 1 ∧ ¬ ServesCurrent Sample.sdk e.after := by
  have hlast : ((trace (ServeStep.exec Sample.sdk) [pushTree,stageFile,commitFile]
      Store.empty).bind List.getLast?).map (fun e => e.after.loadMeta.toOption.map fun info =>
        ((e.after.servedManifest Sample.sdk info none).toOption.map fun m => m.branches["main"]?,
          (e.after.servedManifest Sample.sdk info (some 1)).toOption.map fun m =>
            decide (m.branches["main"]? = some 1),
          (e.after.listedManifest info).branches["main"]?,
          decide (e.after.readRef .heads "main"=.ok 1)))=
      some (some (some (some 1),some false,some 1,false)) := by
    decide +kernel
  obtain ⟨e,he,hval⟩ := Option.map_eq_some_iff.mp hlast
  obtain ⟨entries,hrun,hmem⟩ := Option.bind_eq_some_iff.mp he
  obtain ⟨info,hinfo,hserved⟩ := Option.map_eq_some_iff.mp hval
  simp only [Prod.mk.injEq,Option.map_eq_some_iff,decide_eq_false_iff_not] at hserved
  obtain ⟨⟨full,hfull,hfulltip⟩,⟨limited,hlimited,hlimitedtip⟩,hlisted,hread⟩ := hserved
  have hload : e.after.loadMeta=.ok info := eq_ok_of_toOption hinfo
  refine ⟨entries,e,info,full,limited,hrun,empty_published,
    List.mem_of_getLast? hmem,hload,eq_ok_of_toOption hfull,eq_ok_of_toOption hlimited,
    hfulltip,hlisted,hlimitedtip,fun h => ?_⟩
  obtain ⟨m,hm,hnames,-⟩ := h.full info hload
  rw [eq_ok_of_toOption hfull,Except.ok.injEq] at hm
  exact hread ((hnames "main" 1).mp (hm ▸ hfulltip))

end OriginTools.Vcs
