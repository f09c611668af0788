import OriginTools.Vcs.History
import OriginTools.Vcs.Resolve
import OriginTools.Vcs.TextMerge
import OriginTools.Vcs.TreeMerge
import OriginTools.Vcs.TreeStore

/-!
# Commands of the working copy

`add`, `commit`, `checkout` and `merge` (`commands.rs`) as commands on the store.
-/

namespace OriginTools.Vcs
open Store Command

structure Env where
  whoami : String
  nowTs : ℕ
  signingBundle : Except String (Bytes → Signature)
  ensureTreeOnDisk : Store → Tree → Except String Unit
  ensureTreeOnDiskStreamed : Store → Tree → Except String Unit

variable (sdk : Sdk) (env : Env)

def resolveStore : Command Store String RepoMeta := do
  let s ← get
  ofExcept s.loadMeta

def restoreTree (tree : Tree) : Command Store String Unit := do
  let s ← get
  ofExcept (env.ensureTreeOnDisk s tree)

theorem resolveStore_keeps {γ : Type} (f : Store → γ) : Keeps f resolveStore :=
  .bind .get fun _ => .ofExcept

theorem restoreTree_keeps {γ : Type} (f : Store → γ) (tree : Tree) :
    Keeps f (restoreTree env tree) :=
  .bind .get fun _ => .ofExcept

/-- One argument of `add` after looking at the working directory: the files it
stands for, with the outcome of reading each, or nothing. -/
inductive AddArg
  | files (fs : List (String × FileMode × Except String Bytes))
  | missing (arg : String)

def stage (stream : Bool) (mode : FileMode) (data : Except String Bytes) :
    Command Store String ObjectId := do
  let bytes ← ofExcept data
  if mode=.symlink then writeBlob sdk bytes
  else if stream then writeBlobStream sdk bytes
  else writeBlob sdk bytes

def stageFiles (stream : Bool) : List (String × FileMode × Except String Bytes) → Tree →
    Command Store String Tree
  | [],index => pure index
  | (rel,mode,data)::fs,index => do
    let id ← stage sdk stream mode data
    stageFiles stream fs { index with entries := index.entries.insert rel ⟨mode,id⟩ }

def stageArgs (stream : Bool) : List AddArg → Tree → Command Store String Tree
  | [],index => pure index
  | .files fs::args,index => do
    let index ← stageFiles sdk stream fs index
    stageArgs stream args index
  | .missing arg::_,_ => throw s!"path not found: {arg}"

def cmdAdd (stream : Bool) (args : List AddArg) : Command Store String Unit := do
  let _ ← resolveStore
  let s ← get
  let index ← ofExcept s.index
  let index ← stageArgs sdk stream args index
  modify (saveIndex index)

def recordCommit (sign : Bytes → Signature) (branch : String) (commit : Commit) :
    Command Store String ObjectId := do
  let sig:=sign (canonicalCommit sdk commit)
  let id ← writeCommit sdk commit sig
  writeRef .heads branch id sig
  appendCommitLeaf sdk id
  pure id

structure CommitArgs where
  message : String
  amend : Bool
  author : Option String
  date : Option ℕ

/-- The parents of a commit that does not amend: the two sides of the merge in
progress, or the tip of the branch. -/
def commitParents (s : Store) (branch : String) : Option MergeState → Except String (List ObjectId)
  -- the head recorded when the merge stopped, even if the branch has moved since
  | some st => .ok [st.headId,st.otherId]
  | none =>
    if s.refExists .heads branch then (s.readRef .heads branch).map ([·]) else .ok []

def commitParts (args : CommitArgs) (branch : String) (index : Tree)
    (mergeState : Option MergeState) :
    Command Store String (List ObjectId × ObjectId × String) := do
  let s ← get
  if args.amend then
    if s.refExists .heads branch then do
      let headId ← ofExcept (s.readRef .heads branch)
      let headCommit ← ofExcept (s.readCommit sdk headId)
      let newTree ← writeTree sdk index
      pure (headCommit.parents,newTree,
        if args.message = "" then headCommit.message else args.message)
    else throw "nothing to amend (no commits on this branch yet)"
  else do
    let parents ← ofExcept (commitParents s branch mergeState)
    let treeId ← writeTree sdk index
    pure (parents,treeId,args.message)

def clearMergeState : Command Store String Unit := modify fun s => { s with mergeState := .ok none }

def commitOn (args : CommitArgs) (branch : String) (index : Tree)
    (mergeState : Option MergeState) : Command Store String ObjectId := do
  let (parentIds,treeId,message) ← commitParts sdk args branch index mergeState
  let author:=args.author.getD env.whoami
  let commit : Commit := { Commit.new with
    tree := treeId,parents := parentIds,message := message,author := author,
    committer := author,ts := args.date.getD env.nowTs }
  let sign ← ofExcept env.signingBundle
  let id ← recordCommit sdk sign branch commit
  if args.amend=false ∧ mergeState.isSome then do
    clearMergeState
    pure id
  else pure id

def cmdCommit (args : CommitArgs) : Command Store String ObjectId := do
  let _ ← resolveStore
  let s ← get
  let mergeState ← ofExcept s.mergeState
  if args.amend ∧ mergeState.isSome then
    throw "cannot amend during a merge; complete or abort the merge first"
  else do
    let index ← ofExcept s.index
    if index.entries.isEmpty ∧ mergeState.isNone then
      throw "nothing to commit (index is empty; use 'add')"
    else do
      let branch ← ofExcept (s.currentBranch "no branch checked out (init first)")
      commitOn sdk env args branch index mergeState

structure CheckoutArgs where
  target : String
  path : List String
  stream : Bool

def cmdCheckout (args : CheckoutArgs) : Command Store String ObjectId := do
  let info ← resolveStore
  modify fun s => { s with sparse := .ok args.path }
  let s ← get
  let id ← ofExcept (s.resolveId sdk info args.target)
  let commit ← ofExcept (s.readCommit sdk id)
  let tree ← ofLoop (s.readTree sdk commit.tree)
  -- only a branch name moves HEAD
  modify fun s => if s.refExists .heads args.target then setHead (some args.target) s else s
  modify (saveIndex tree)
  let s ← get
  ofExcept (if args.stream then env.ensureTreeOnDiskStreamed s tree
    else env.ensureTreeOnDisk s tree)
  pure id

def baseData (s : Store) : Option TreeEntry → Except String Bytes
  | some be => (s.readBlob sdk be.id).map Blob.data
  | none => .ok []

def mergeBlobs (b : Option TreeEntry) (oe te : TreeEntry) :
    Command Store String (Option TreeEntry × Bool) := do
  let s ← get
  let base ← ofExcept (baseData sdk s b)
  let ours ← ofExcept ((s.readBlob sdk oe.id).map Blob.data)
  let theirs ← ofExcept ((s.readBlob sdk te.id).map Blob.data)
  let (bytes,marker) := mergeLines base ours theirs
  let id ← writeBlob sdk bytes
  -- the mode of ours, whatever theirs made of it
  pure (some ⟨oe.mode,id⟩,marker)

/-- The decision of `three_way`, except that two different changes of one file are
merged line by line. -/
def threeWayTextualEntry (b o t : Option TreeEntry) :
    Command Store String (Option TreeEntry × Bool) :=
  match o,t,(threeWayEntry b o t).2 with
  | some oe,some te,true => mergeBlobs sdk b oe te
  | _,_,_ => pure (threeWayEntry b o t)

def threeWayTextualLoop (base ours theirs : Tree) : List String → Tree × List String →
    Command Store String (Tree × List String)
  | [],acc => pure acc
  | p::ps,(merged,conflicts) => do
    let (chosen,conflict) ← threeWayTextualEntry sdk base.entries[p]? ours.entries[p]?
      theirs.entries[p]?
    let merged:=match chosen with
      | some e => { merged with entries := merged.entries.insert p e }
      | none => merged
    threeWayTextualLoop base ours theirs ps (merged,if conflict then conflicts++[p] else conflicts)

def threeWayTextual (base ours theirs : Tree) : Command Store String (Tree × List String) :=
  threeWayTextualLoop sdk base ours theirs (mergePaths base ours theirs) (Tree.new,[])

def mergeByStrategy (strategy : String) (base ours theirs : Tree) :
    Command Store String (Tree × List String) :=
  if strategy = "textual" then threeWayTextual sdk base ours theirs
  else ofExcept (threeWay base ours theirs)

structure MergeArgs where
  branch : String
  message : String
  strategy : String
  abort : Bool

inductive MergeReport
  | aborted
  | upToDate
  | fastForwarded
  | conflicted (paths : List String)
  | merged (id : ObjectId)
  deriving DecidableEq,Repr

def abortMerge : Command Store String MergeReport := do
  let s ← get
  let mergeState ← ofExcept s.mergeState
  match mergeState with
  | none => throw "no merge in progress to abort"
  | some state => do
    let headCommit ← ofExcept (s.readCommit sdk state.headId)
    let tree ← ofLoop (s.readTree sdk headCommit.tree)
    let sign ← ofExcept env.signingBundle
    let sig:=sign (canonicalCommit sdk headCommit)
    writeRef .heads state.headBranch state.headId sig
    modify (saveIndex tree)
    restoreTree env tree
    clearMergeState
    pure .aborted

def fastForward (headBranch : String) (other : ObjectId) : Command Store String MergeReport := do
  let s ← get
  let otherCommit ← ofExcept (s.readCommit sdk other)
  let tree ← ofLoop (s.readTree sdk otherCommit.tree)
  let sign ← ofExcept env.signingBundle
  let sig:=sign (canonicalCommit sdk otherCommit)
  writeRef .heads headBranch other sig
  modify (saveIndex tree)
  restoreTree env tree
  pure .fastForwarded

def stopOnConflicts (state : MergeState) (merged : Tree) (conflicts : List String) :
    Command Store String MergeReport := do
  modify fun s => { s with mergeState := .ok (some state) }
  modify (saveIndex merged)
  restoreTree env merged
  pure (.conflicted conflicts)

def commitMerge (headBranch : String) (head other : ObjectId) (message : String) (merged : Tree) :
    Command Store String MergeReport := do
  let sign ← ofExcept env.signingBundle
  let treeId ← writeTree sdk merged
  let commit : Commit := { Commit.new with
    tree := treeId,parents := [head,other],message := message,author := env.whoami,
    committer := env.whoami,ts := env.nowTs }
  let mid ← recordCommit sdk sign headBranch commit
  modify (saveIndex merged)
  restoreTree env merged
  pure (.merged mid)

def mergeTrees (args : MergeArgs) (headBranch : String) (head other base : ObjectId) :
    Command Store String MergeReport := do
  let s ← get
  let headCommit ← ofExcept (s.readCommit sdk head)
  let otherCommit ← ofExcept (s.readCommit sdk other)
  let baseCommit ← ofExcept (s.readCommit sdk base)
  let headTree ← ofLoop (s.readTree sdk headCommit.tree)
  let otherTree ← ofLoop (s.readTree sdk otherCommit.tree)
  let baseTree ← ofLoop (s.readTree sdk baseCommit.tree)
  let (merged,conflicts) ← mergeByStrategy sdk args.strategy baseTree headTree otherTree
  if conflicts=[] then commitMerge sdk env headBranch head other args.message merged
  else stopOnConflicts env ⟨headBranch,head,other,args.branch,base,args.message⟩ merged conflicts

def mergeInto (args : MergeArgs) (headBranch : String) (head other : ObjectId) :
    Command Store String MergeReport := do
  let s ← get
  let base ← ofLoop (s.mergeBase sdk head other)
  if base=other then pure .upToDate
  else if base=head then fastForward sdk env headBranch other
  else mergeTrees sdk env args headBranch head other base

def cmdMerge (args : MergeArgs) : Command Store String MergeReport := do
  let info ← resolveStore
  let s ← get
  if s.shallow then
    throw "merge on a shallow clone is not supported; fetch the full history first (re-clone without --shallow)"
  else if args.abort then abortMerge sdk env
  else do
    let headBranch ← ofExcept (s.currentBranch "no HEAD")
    let head ← ofExcept (s.readRef .heads headBranch)
    let other ← ofExcept (s.resolveId sdk info args.branch)
    mergeInto sdk env args headBranch head other

end OriginTools.Vcs
