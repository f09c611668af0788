import OriginTools.Foundation.Command
import OriginTools.Vcs.Object

/-!
# The object store

The state of a repository (`store.rs`) and the operations on it.
-/

namespace OriginTools.Vcs

structure MergeState where
  headBranch : String
  headId : ObjectId
  otherId : ObjectId
  otherName : String
  baseId : ObjectId
  message : String
  deriving DecidableEq,Repr

structure RebaseEntry where
  action : String
  id : ObjectId
  message : Option String
  deriving DecidableEq,Repr

structure RebaseState where
  branch : String
  origHead : ObjectId
  cur : ObjectId
  remaining : List RebaseEntry
  strategy : String
  deriving DecidableEq,Repr

structure BisectState where
  goods : List ObjectId
  bads : List ObjectId
  skipped : List ObjectId
  deriving DecidableEq,Repr

/-- Ref files of one category by name, with what reading them gives. -/
abbrev RefMap : Type := Std.ExtTreeMap String (Except String SignedRef) compare

inductive RefCategory
  | heads
  | tags
  | remotes
  deriving DecidableEq,Repr

structure Store where
  objects : Std.ExtTreeMap ObjectId Bytes compare
  heads : RefMap
  tags : RefMap
  remotes : RefMap
  /-- The text of the file `HEAD`. -/
  head : Option String
  mmr : MmrState
  commitLog : Except String (List ObjectId)
  index : Except String Tree
  stashes : Except String (List ObjectId)
  mergeState : Except String (Option MergeState)
  rebaseState : Except String RebaseState
  bisectState : Except String BisectState
  sparse : Except String (List String)
  shallow : Bool
  publishedManifest : Option RemoteManifest

def noSuchFile : String := "No such file or directory (os error 2)"

namespace Store

def empty : Store where
  objects := ∅
  heads := ∅
  tags := ∅
  remotes := ∅
  head := some "main"
  mmr := MmrState.new
  commitLog := .ok []
  index := .ok Tree.new
  stashes := .ok []
  mergeState := .ok none
  rebaseState := .error s!"rebase state: {noSuchFile}"
  bisectState := .error s!"bisect state: {noSuchFile}"
  sparse := .ok []
  shallow := false
  publishedManifest := none

variable (sdk : Sdk)

def objectExists (s : Store) (id : ObjectId) : Bool := s.objects.contains id

def read (s : Store) (id : ObjectId) : Except String Bytes :=
  match s.objects[id]? with
  | none => .error s!"read {hex id}: {noSuchFile}"
  | some bytes => sdk.decrypt bytes

def putRaw (id : ObjectId) (plaintext : Bytes) : Command Store String Unit := do
  let bytes ← Command.ofExcept (sdk.encrypt plaintext)
  Command.modify fun s => { s with objects := s.objects.insert id bytes }

def putEnvelopeBytes (id : ObjectId) (bytes : Bytes) (s : Store) : Store :=
  if s.objectExists id then s else { s with objects := s.objects.insert id bytes }

def isStreamed (bytes : Bytes) : Bool := bytes.take 4=utf8 "OVCS"

def readBlob (s : Store) (id : ObjectId) : Except String Blob :=
  match s.objects[id]? with
  | none => .error s!"read {hex id}: {noSuchFile}"
  | some bytes =>
    if isStreamed bytes then (sdk.streamDecrypt bytes).map Blob.mk
    else (sdk.decrypt bytes).map Blob.mk

def writeBlob (data : Bytes) : Command Store String ObjectId := do
  let id:=blobAddress sdk ⟨data⟩
  putRaw sdk id data
  pure id

def writeBlobStream (data : Bytes) : Command Store String ObjectId := do
  let id:=blobAddress sdk ⟨data⟩
  let bytes ← Command.ofExcept (sdk.streamEncrypt data)
  Command.modify fun s => { s with objects := s.objects.insert id bytes }
  pure id

def writeCommit (commit : Commit) (sig : Signature) : Command Store String ObjectId := do
  let id:=commitAddress sdk commit
  putRaw sdk id (sdk.recordJson ⟨commit,sig⟩)
  pure id

def readCommitRecord (s : Store) (id : ObjectId) : Except String CommitRecord :=
  match s.read sdk id with
  | .error e => .error e
  | .ok bytes => (sdk.parseRecord bytes).mapError fun e => s!"decoded commit: {e}"

def readCommit (s : Store) (id : ObjectId) : Except String Commit :=
  (s.readCommitRecord sdk id).map CommitRecord.commit

def readTag (s : Store) (id : ObjectId) : Except String Tag :=
  match s.read sdk id with
  | .error e => .error e
  | .ok bytes => (sdk.parseTag bytes).mapError fun e => s!"decoded tag: {e}"

def refMap (s : Store) : RefCategory → RefMap
  | .heads => s.heads
  | .tags => s.tags
  | .remotes => s.remotes

def setRefMap (s : Store) (category : RefCategory) (m : RefMap) : Store :=
  match category with
  | .heads => { s with heads := m }
  | .tags => { s with tags := m }
  | .remotes => { s with remotes := m }

def splitPath (s : String) : List String := (s.toList.splitOn '/').map String.ofList

def isAbove (dir name : String) : Bool :=
  (splitPath dir).isPrefixOf (splitPath name)&&decide (dir≠name)

/-- What is in the way of the file of a ref among the refs that are there: a file above
it, or a directory in its place. -/
def refClash (names : List String) (name : String) : Option String :=
  if names.contains name then none
  else if names.any fun dir => isAbove dir name then
    let dir:=String.intercalate "/" (splitPath name).dropLast
    if names.contains dir then some "refs parent: File exists (os error 17)"
    else some "refs parent: Not a directory (os error 20)"
  else if names.any fun below => isAbove name below then
    some s!"write ref {name}: cannot rename temp file to '{name}': Is a directory (os error 21)"
  else none

/-- The refs can be written one after the other. -/
def refsFit (names : List String) : List String → Bool
  | [] => true
  | name::rest => (refClash names name).isNone&&refsFit (name::names) rest

def putRef (category : RefCategory) (name : String) (target : ObjectId)
    (signature : Signature) (s : Store) : Store :=
  s.setRefMap category ((s.refMap category).insert name (.ok ⟨target,signature⟩))

def writeRef (category : RefCategory) (name : String) (target : ObjectId)
    (signature : Signature) : Command Store String Unit := do
  let s ← Command.get
  match refClash (s.refMap category).keys name with
  | some e => Command.throw e
  | none => Command.modify (putRef category name target signature)

def eraseRef (category : RefCategory) (name : String) (s : Store) : Store :=
  s.setRefMap category ((s.refMap category).erase name)

def readRefSigned (s : Store) (category : RefCategory) (name : String) : Except String SignedRef :=
  match (s.refMap category)[name]? with
  | none => .error s!"read ref {name}: {noSuchFile}"
  | some r => r

def readRef (s : Store) (category : RefCategory) (name : String) : Except String ObjectId :=
  (s.readRefSigned category name).map SignedRef.target

/-- A directory of refs counts as well. -/
def refExists (s : Store) (category : RefCategory) (name : String) : Bool :=
  (s.refMap category).contains name||(s.refMap category).keys.any fun below => isAbove name below

def deleteRef (category : RefCategory) (name : String) : Command Store String Unit := do
  let s ← Command.get
  if s.refExists category name&&!(s.refMap category).contains name then
    Command.throw s!"delete ref {name}: Is a directory (os error 21)"
  else Command.modify (eraseRef category name)

def isSpace (c : Char) : Bool :=
  (9≤c.toNat ∧ c.toNat≤13) ∨ (0x2000≤c.toNat ∧ c.toNat≤0x200A) ∨
    c.toNat∈[0x20,0x85,0xA0,0x1680,0x2028,0x2029,0x202F,0x205F,0x3000]

def trim (s : String) : String :=
  String.ofList ((s.toList.dropWhile isSpace).reverse.dropWhile isSpace).reverse

def setHead (branch : Option String) (s : Store) : Store :=
  { s with head := some (branch.getD "-") }

def headBranch (s : Store) : Except String (Option String) :=
  match s.head with
  | none => .error s!"read HEAD: {noSuchFile}"
  | some raw => if trim raw = "-" then .ok none else .ok (some (trim raw))

/-- The branch that is checked out; `missing` is the error when there is none. -/
def currentBranch (s : Store) (missing : String) : Except String String :=
  match s.headBranch with
  | .error e => .error e
  | .ok none => .error missing
  | .ok (some branch) => .ok branch

/-- The targets of the ref files `depth` directories down. A longer name is a
directory there, which cannot be read as a ref. -/
def loadRefs (depth : ℕ) :
    List (String × Except String SignedRef) → Except String (List (String × ObjectId))
  | [] => .ok []
  | (name,r)::rest =>
    if depth+1<(splitPath name).length then
      let dir:=String.intercalate "/" ((splitPath name).take (depth+1))
      .error s!"read ref {dir}: Is a directory (os error 21)"
    else match r with
      | .error e => .error e
      | .ok signed => (loadRefs depth rest).map ((name,signed.target) :: ·)

structure RepoMeta where
  head : Option String
  branches : List (String × ObjectId)
  tags : List (String × ObjectId)

def loadMeta (s : Store) : Except String RepoMeta := do
  let head ← s.headBranch
  let branches ← loadRefs 0 s.heads.toList
  let tags ← loadRefs 0 s.tags.toList
  .ok ⟨head,branches,tags⟩

def remoteRefs (s : Store) : Except String (List ObjectId) :=
  (loadRefs 1 s.remotes.toList).map (·.map Prod.snd)

variable (s : Store)

theorem read_congr (t : Store) (h : s.objects=t.objects) : s.read sdk=t.read sdk := by
  funext id
  simp only [read,h]

theorem readCommit_congr (t : Store) (h : s.objects=t.objects) :
    s.readCommit sdk=t.readCommit sdk := by
  funext id
  simp only [readCommit,readCommitRecord,s.read_congr sdk t h]

theorem readRef_putRef (b n id sig) : (putRef .heads b id sig s).readRef .heads n=
      if b=n then .ok id else s.readRef .heads n := by
  by_cases h : b=n
  · simp [putRef,readRef,readRefSigned,refMap,setRefMap,h,Except.map]
  · simp [putRef,readRef,readRefSigned,refMap,setRefMap,h,Std.ExtTreeMap.getElem?_insert]

theorem refClash_congr {names names' : List String} (h : ∀ n,n∈names ↔ n∈names') (name) :
    refClash names name=refClash names' name := by
  have hcontains (n) : names.contains n=names'.contains n := by
    rw [Bool.eq_iff_iff,List.contains_iff_mem,List.contains_iff_mem,h]
  have hany (p) : names.any p=names'.any p := by
    rw [Bool.eq_iff_iff,List.any_eq_true,List.any_eq_true]
    simp only [h]
  simp only [refClash,hcontains,hany]

theorem refsFit_congr {names names' : List String} (h : ∀ n,n∈names ↔ n∈names') (rest) :
    refsFit names rest=refsFit names' rest := by
  induction rest generalizing names names' with
  | nil => rfl
  | cons name rest ih =>
    have hcons : ∀ n,n∈name::names ↔ n∈name::names' := fun n => by simp [h]
    rw [refsFit,refsFit,refClash_congr h,ih hcons]

theorem refClash_of_mem {names : List String} {name} (h : name∈names) :
    refClash names name=none := by
  rw [refClash,if_pos (List.contains_iff_mem.mpr h)]

theorem writeRef_cases (category name target signature) :
    (∃ e,writeRef category name target signature s=some (.error e,s)) ∨
      writeRef category name target signature s=
        some (.ok (),putRef category name target signature s) := by
  simp only [writeRef,Command.bind_apply,Command.get_apply]
  cases refClash (s.refMap category).keys name with
  | some e => exact .inl ⟨e,rfl⟩
  | none => exact .inr rfl

theorem writeRef_keeps {γ : Type} {f : Store → γ} {category}
    (hf : ∀ s m,f (setRefMap s category m)=f s) (name target signature) :
    Command.Keeps f (writeRef category name target signature) := by
  intro s r s' h
  rcases s.writeRef_cases category name target signature with ⟨e,he⟩ | hok
  · rw [he,Option.some.injEq,Prod.mk.injEq] at h
    rw [h.2]
  · rw [hok,Option.some.injEq,Prod.mk.injEq] at h
    rw [← h.2]
    exact hf s _

theorem deleteRef_of_contains {category name} (h : (s.refMap category).contains name=true) :
    deleteRef category name s=some (.ok (),eraseRef category name s) := by
  rw [deleteRef,Command.bind_apply,Command.get_apply]
  simp only [h,Bool.not_true,Bool.and_false,Bool.false_eq_true,if_false,Command.modify_apply]

theorem deleteRef_keeps {γ : Type} {f : Store → γ} {category}
    (hf : ∀ s m,f (setRefMap s category m)=f s) (name) :
    Command.Keeps f (deleteRef category name) :=
  .bind .get fun _ => .ite .throw (.modify fun s => hf s _)

theorem readRef_heads_congr (t : Store) (h : s.heads=t.heads) (name : String) :
    s.readRef .heads name=t.readRef .heads name := by
  simp only [readRef,readRefSigned,refMap,h]

theorem loadRefs_cons {depth n x rows out} :
    loadRefs depth ((n,x)::rows)=.ok out ↔ ¬ depth+1<(splitPath n).length ∧
      ∃ signed rest,x=.ok signed ∧ loadRefs depth rows=.ok rest ∧ (n,signed.target)::rest=out := by
  simp only [loadRefs]
  split_ifs with hdir
  · simp [hdir]
  rcases x with e | signed
  · simp
  · rcases loadRefs depth rows with e | rest <;> simp [hdir,Except.map]

theorem mem_loadRefs {depth rows} (out) (h : loadRefs depth rows=.ok out) (name id) :
    (name,id)∈out ↔ ∃ r,(name,.ok r)∈rows ∧ r.target=id := by
  induction rows generalizing out with
  | nil =>
    simp only [loadRefs,Except.ok.injEq] at h
    simp [← h]
  | cons row rows ih =>
    obtain ⟨n,x⟩ := row
    obtain ⟨-,signed,rest,rfl,hrest,rfl⟩ := loadRefs_cons.1 h
    simp only [List.mem_cons,ih rest hrest,Prod.mk.injEq,Except.ok.injEq]
    grind

theorem readRef_eq_ok (category name id) : s.readRef category name=.ok id ↔
      ∃ r,(s.refMap category)[name]? = some (.ok r) ∧ r.target=id := by
  simp only [readRef,readRefSigned]
  rcases h : (s.refMap category)[name]? with - | r
  · simp [Except.map]
  · cases r with
    | error | ok => simp [Except.map]

theorem mem_loaded_iff (category depth out)
    (h : loadRefs depth (s.refMap category).toList=.ok out) (name id) :
    (name,id)∈out ↔ s.readRef category name=.ok id := by
  rw [mem_loadRefs out h name id,readRef_eq_ok]
  simp only [Std.ExtTreeMap.mem_toList_iff_getElem?_eq_some]

theorem mem_targets_iff (category depth) (out : List (String × ObjectId))
    (h : loadRefs depth (s.refMap category).toList=.ok out) (id) :
    id∈out.map Prod.snd ↔ ∃ name,s.readRef category name=.ok id := by
  simp only [List.mem_map,Prod.exists,exists_eq_right]
  exact exists_congr fun name => s.mem_loaded_iff category depth out h name id

theorem loadMeta_eq_ok (info : RepoMeta) (h : s.loadMeta=.ok info) :
    s.headBranch=.ok info.head ∧ loadRefs 0 s.heads.toList=.ok info.branches ∧
      loadRefs 0 s.tags.toList=.ok info.tags := by
  rcases hhead : s.headBranch with e | head
  · simp [loadMeta,hhead,bind,Except.bind] at h
  rcases hbranches : loadRefs 0 s.heads.toList with e | branches
  · simp [loadMeta,hhead,hbranches,bind,Except.bind] at h
  rcases htags : loadRefs 0 s.tags.toList with e | tags
  · simp [loadMeta,hhead,hbranches,htags,bind,Except.bind] at h
  simp only [loadMeta,hhead,hbranches,htags,bind,Except.bind,Except.ok.injEq] at h
  simp [← h]

def saveIndex (tree : Tree) (s : Store) : Store := { s with index := .ok tree }

/-- Add a commit to the mountain range and to the commit log; the range is saved
before the log is read. -/
def appendCommitLeaf (id : ObjectId) : Command Store String Unit := do
  Command.modify fun s => { s with mmr := s.mmr.append sdk id }
  let s ← Command.get
  let log ← Command.ofExcept s.commitLog
  Command.modify fun s => { s with commitLog := .ok (log++[id]) }

end Store

def sparseInScope (sparse : List String) (rel : String) : Bool :=
  sparse=[] ∨ sparse.any fun p => rel=p||(p.toList++['/']).isPrefixOf rel.toList

end OriginTools.Vcs
