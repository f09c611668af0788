import OriginTools.Vcs.Sample

/-!
# Verification of a repository

`verify` (`commands.rs`) replays the commit log into a mountain range, checks the tag
objects, and walks the commits from all refs.
-/

namespace OriginTools.Vcs
open Store
variable (sdk : Sdk)

structure VerifyArgs where
  target : Option String
  tree : Bool

structure VerifyReport where
  checked : ℕ
  tags : ℕ
  deriving DecidableEq,Repr

def replayRoot (log : List ObjectId) : ObjectId :=
  (log.foldl (fun acc id => acc.append sdk id) MmrState.new).root sdk

def checkTag (s : Store) (name : String) : Except String ObjectId :=
  match s.readRefSigned .tags name with
  | .error e => .error e
  | .ok signed =>
    match s.readTag sdk signed.target with
    | .error e => .error e
    | .ok tag =>
      if tagAddress sdk tag≠signed.target then
        .error s!"tag '{name}' content-address mismatch (tampered object)"
      else match sdk.verify signed.signature (sdk.tagJson tag) with
        | .error e => .error s!"tag '{name}' signature invalid: {e}"
        | .ok () => .ok tag.target

def checkTags (s : Store) : List String → Except String (List ObjectId)
  | [] => .ok []
  | name::names =>
    match checkTag sdk s name with
    | .error e => .error e
    | .ok target => (checkTags s names).map (target :: ·)

def missingBlob (s : Store) (tree : Tree) : Option (String × TreeEntry) :=
  tree.entries.toList.find? fun p => !s.objectExists p.2.id

/-- Check one commit; the result is its parents. The error `none` stands for a
tree that is never read to the end. -/
def checkCommit (s : Store) (id : ObjectId) : Except (Option String) (List ObjectId) :=
  match s.readCommitRecord sdk id with
  | .error e =>
    -- past the boundary of a shallow clone
    if s.shallow then .ok [] else .error (some s!"commit {short id} unreadable: {e}")
  | .ok record =>
    if commitAddress sdk record.commit≠id then
      .error (some s!"commit {hex id} content-address mismatch (tampered object)")
    else match sdk.verify record.signature (canonicalCommit sdk record.commit) with
      | .error e => .error (some s!"commit {short id} signature invalid: {e}")
      | .ok () =>
        match s.readTree sdk record.commit.tree with
        | none => .error none
        | some (.error e) => .error (some s!"commit {short id} tree: {e}")
        | some (.ok tree) =>
          -- neither the tree nor a blob is compared with its address
          match missingBlob s tree with
          | some (rel,entry) => .error (some
              s!"commit {short id} references missing blob \"{short entry.id}\" for '{rel}'")
          | none => .ok record.commit.parents

def isReadable (s : Store) (id : ObjectId) : Bool := (s.readCommitRecord sdk id).toBool
def workingFileId (data : Bytes) : ObjectId := blobAddress sdk ⟨data⟩
abbrev WorkingFiles : Type := Std.ExtTreeMap String (Except String Bytes) compare

def isModified (tree : Tree) (rel : String) (data : Except String Bytes) : Bool :=
  match tree.entries[rel]?,data with
  | some entry,.ok bytes => entry.id≠workingFileId sdk bytes
  | _,_ => false

def treeDrift (tree : Tree) (sparse : List String) (files : WorkingFiles) : List String :=
  let inScope:=files.toList.filter fun p => sparseInScope sparse p.1
  let modified:=inScope.filter fun p => isModified sdk tree p.1 p.2
  let untracked:=inScope.filter fun p => !tree.entries.contains p.1
  let deleted:=tree.entries.keys.filter fun rel => sparseInScope sparse rel && !files.contains rel
  modified.map (fun p => s!"  M {p.1}")++deleted.map (fun rel => s!"  D {rel}")++
    untracked.map (fun p => s!"  ?? {p.1}")

def headTree (s : Store) : Option (Except String (String × Tree)) :=
  match s.currentBranch "no HEAD branch checked out" with
  | .error e => some (.error e)
  | .ok head =>
    match s.readRef .heads head with
    | .error e => some (.error e)
    | .ok headId =>
      match s.readCommit sdk headId with
      | .error e => some (.error e)
      | .ok headCommit => (s.readTree sdk headCommit.tree).map (·.map (head,·))

def checkTreeDrift (s : Store) (files : Except String WorkingFiles) : Option (Except String Unit) :=
  match headTree sdk s with
  | none => none
  | some (.error e) => some (.error e)
  | some (.ok (head,tree)) =>
    match files,s.sparse with
    | .error e,_ => some (.error e)
    | .ok _,.error e => some (.error e)
    | .ok files,.ok sparse =>
      let drift:=treeDrift sdk tree sparse files
      let lines:=String.intercalate "\n" drift
      if drift=[] then some (.ok ())
      else some (.error s!"working tree does not match HEAD ({head}):\n{lines}")

def verifyTarget (s : Store) (info : RepoMeta) : Option String → Except String (List ObjectId)
  | none => .ok []
  | some spec => (s.resolveId sdk info spec).map ([·])

def verifyQueue (s : Store) (info : RepoMeta) (target : Option String) :
    Except String (List ObjectId) :=
  match s.remoteRefs,verifyTarget sdk s info target,checkTags sdk s (info.tags.map Prod.fst) with
  | .error e,_,_ => .error e
  | .ok _,.error e,_ => .error e
  | .ok _,.ok _,.error e => .error e
  | .ok remotes,.ok extra,.ok tagged =>
    .ok (info.branches.map Prod.snd++remotes++extra++tagged)

def verifyEnd (files : Except String WorkingFiles) (args : VerifyArgs) (s : Store)
    (info : RepoMeta) (log seen : List ObjectId) : Option (Except String VerifyReport) :=
  let checked:=(seen.filter (isReadable sdk s)).length
  if replayRoot sdk log≠s.mmr.root sdk then
    some (.error "mmr log/root mismatch — history was tampered")
  else if checked=0 then some (.error "no commits to verify (repository is empty)")
  else if args.tree then
    (checkTreeDrift sdk s files).map (·.map fun _ => ⟨checked,info.tags.length⟩)
  else some (.ok ⟨checked,info.tags.length⟩)

def cmdVerify (files : Except String WorkingFiles) (args : VerifyArgs) (s : Store) :
    Option (Except String VerifyReport) :=
  match s.loadMeta with
  | .error e => some (.error e)
  | .ok info =>
    match s.commitLog with
    | .error e => some (.error e)
    | .ok log =>
      match verifyQueue sdk s info args.target with
      | .error e => some (.error e)
      | .ok queue =>
        match Walk.explore (checkCommit sdk s) s.objects.keys queue with
        | .error none => none
        | .error (some e) => some (.error e)
        | .ok seen => verifyEnd sdk files args s info log seen

def TagChecked (s : Store) (name : String) (target : ObjectId) : Prop :=
  ∃ signed tag,s.readRefSigned .tags name=.ok signed ∧ s.readTag sdk signed.target=.ok tag ∧
    tagAddress sdk tag=signed.target ∧ sdk.verify signed.signature (sdk.tagJson tag)=.ok () ∧
    tag.target=target

theorem checkTag_eq_ok (s name target) :
    checkTag sdk s name=.ok target ↔ TagChecked sdk s name target := by
  unfold checkTag TagChecked
  rcases hsigned : s.readRefSigned .tags name with e | signed
  · simp
  rcases htag : s.readTag sdk signed.target with e | tag
  · simp [htag]
  by_cases haddr : tagAddress sdk tag=signed.target
  · rcases hsig : sdk.verify signed.signature (sdk.tagJson tag) with e | u
    · simp [htag,haddr,hsig]
    · simp [htag,haddr,hsig]
  · simp [htag,haddr]

variable {s : Store} {id : ObjectId}

theorem tagChecked_object {name t} (h : TagChecked sdk s name t)
    (hid : s.readRef .tags name=.ok id) :
    ∃ tag,s.readTag sdk id=.ok tag ∧ tagAddress sdk tag=id ∧ tag.target=t := by
  obtain ⟨signed,tag,hsigned,htag,haddr,-,ht⟩ := h
  simp only [readRef,hsigned,Except.map,Except.ok.injEq] at hid
  exact ⟨tag,hid ▸ htag,hid ▸ haddr,ht⟩

theorem checkTags_eq_ok {names} (targets) (h : checkTags sdk s names=.ok targets) :
    (∀ name∈names,∃ t,TagChecked sdk s name t) ∧
      ∀ t,t∈targets ↔ ∃ name∈names,TagChecked sdk s name t := by
  induction names generalizing targets with
  | nil =>
    simp only [checkTags,Except.ok.injEq] at h
    simp [← h]
  | cons name names ih =>
    simp only [checkTags] at h
    rcases hname : checkTag sdk s name with e | target
    · simp [hname] at h
    rcases hrest : checkTags sdk s names with e | rest
    · simp [hname,hrest,Except.map] at h
    simp only [hname,hrest,Except.map,Except.ok.injEq] at h
    obtain ⟨hall,hmem⟩ := ih rest hrest
    have hchecked:=(checkTag_eq_ok sdk s name target).mp hname
    have honly : ∀ t,TagChecked sdk s name t ↔ t=target := by
      intro t
      rw [← checkTag_eq_ok,hname,Except.ok.injEq,eq_comm]
    refine ⟨fun n hn => ?_,fun t => ?_⟩
    · rcases List.mem_cons.mp hn with rfl | hn
      · exact ⟨target,hchecked⟩
      · exact hall n hn
    · simp [← h,hmem t,honly t]

theorem checkTags_succeeds {names} (h : ∀ name∈names,∃ t,TagChecked sdk s name t) :
    ∃ targets,checkTags sdk s names=.ok targets := by
  induction names with
  | nil => exact ⟨[],rfl⟩
  | cons name names ih =>
    obtain ⟨t,ht⟩ := h name (.head _)
    obtain ⟨targets,htargets⟩ := ih fun n hn => h n (.tail _ hn)
    exact ⟨t::targets,by simp [checkTags,(checkTag_eq_ok sdk s name t).mpr ht,htargets,Except.map]⟩

def BlobsPresent (s : Store) (tree : Tree) : Prop :=
  ∀ (path : String) (entry : TreeEntry),tree.entries[path]? = some entry → entry.id∈s.objects

theorem missingBlob_eq_none (s tree) : missingBlob s tree=none ↔ BlobsPresent s tree := by
  simp [missingBlob,List.find?_eq_none,BlobsPresent,objectExists]

def CommitChecked (s : Store) (id : ObjectId) (record : CommitRecord) : Prop :=
  commitAddress sdk record.commit=id ∧
    sdk.verify record.signature (canonicalCommit sdk record.commit)=.ok () ∧
    ∃ tree,s.readTree sdk record.commit.tree=some (.ok tree) ∧ BlobsPresent s tree

theorem checkCommit_readable {record} (ps) (h : s.readCommitRecord sdk id=.ok record) :
    checkCommit sdk s id=.ok ps ↔ CommitChecked sdk s id record ∧ ps=record.commit.parents := by
  simp only [checkCommit,CommitChecked,h]
  by_cases haddr : commitAddress sdk record.commit=id
  swap
  · simp [haddr]
  rcases hsig : sdk.verify record.signature (canonicalCommit sdk record.commit) with e | u
  · simp [haddr]
  rcases htree : s.readTree sdk record.commit.tree with - | r
  · simp [haddr]
  rcases r with e | tree
  · simp [haddr]
  have hblobs:=missingBlob_eq_none s tree
  rcases hmissing : missingBlob s tree with - | p
  · simp [haddr,hmissing,hblobs.mp hmissing,eq_comm]
  have hnot : ¬ BlobsPresent s tree := by
    rw [← hblobs,hmissing]
    simp
  simp [haddr,hmissing,hnot]

theorem checkCommit_unreadable {e} (ps) (h : s.readCommitRecord sdk id=.error e) :
    checkCommit sdk s id=.ok ps ↔ s.shallow=true ∧ ps=[] := by
  simp only [checkCommit,h]
  by_cases hshallow : s.shallow=true
  · simp [hshallow,eq_comm]
  · simp [hshallow]

inductive Role
  | commit
  | tag
  | tree
  | subtree
  | blob
  deriving DecidableEq,Repr

def rowObject (row : String × String × String) : Option (Role × ObjectId) :=
  match idFromHexStr row.2.2 with
  | .error _ => none
  | .ok id => some (if row.2.1 = "tree" then .subtree else .blob,id)

def nestedChildren (bytes : Bytes) : List (Role × ObjectId) :=
  match sdk.parseTreeObject bytes with
  | .error _ => []
  | .ok obj => obj.entries.filterMap rowObject

def children (s : Store) : Role → ObjectId → List (Role × ObjectId)
  | .commit,id =>
    match s.readCommitRecord sdk id with
    | .error _ => []
    | .ok record => (.tree,record.commit.tree)::record.commit.parents.map fun p => (.commit,p)
  | .tag,id =>
    match s.readTag sdk id with
    | .error _ => []
    | .ok tag => [(.commit,tag.target)]
  | .tree,id =>
    match s.read sdk id with
    | .error _ => []
    | .ok bytes =>
      if sdk.jsonVersion bytes=.ok (some 2) then nestedChildren sdk bytes
      else match sdk.parseTree bytes with
        | .error _ => []
        | .ok t => t.entries.values.map fun e => (.blob,e.id)
  | .subtree,id =>
    match s.read sdk id with
    | .error _ => []
    | .ok bytes => nestedChildren sdk bytes
  | .blob,_ => []

inductive VerifiedRef (s : Store) (target : Option String) : Role → ObjectId → Prop
  | branch (name : String) (id : ObjectId) (h : s.readRef .heads name=.ok id) :
      VerifiedRef s target .commit id
  | tracking (name : String) (id : ObjectId) (h : s.readRef .remotes name=.ok id) :
      VerifiedRef s target .commit id
  | tag (name : String) (id : ObjectId) (h : s.readRef .tags name=.ok id) :
      VerifiedRef s target .tag id
  | target (spec : String) (info : RepoMeta) (id : ObjectId) (ht : target=some spec)
      (hinfo : s.loadMeta=.ok info) (h : s.resolveId sdk info spec=.ok id) :
      VerifiedRef s target .commit id

inductive Stored (s : Store) (target : Option String) : Role → ObjectId → Prop
  | ref {role : Role} {id : ObjectId} (h : VerifiedRef sdk s target role id) :
      Stored s target role id
  | child {role role' : Role} {id id' : ObjectId} (h : Stored s target role id)
      (hc : (role',id')∈children sdk s role id) : Stored s target role' id'

variable {role : Role}

theorem rowObject_role {row} (h : rowObject row=some (role,id)) : role=.subtree ∨ role=.blob := by
  unfold rowObject at h
  rcases hid : idFromHexStr row.2.2 with e | x
  · simp [hid] at h
  simp only [hid,Option.some.injEq,Prod.mk.injEq] at h
  rw [← h.1]
  split_ifs
  · exact .inl rfl
  · exact .inr rfl

theorem nestedChildren_role {bytes} (h : (role,id)∈nestedChildren sdk bytes) :
    role=.subtree ∨ role=.blob := by
  unfold nestedChildren at h
  rcases hobj : sdk.parseTreeObject bytes with e | obj
  · simp [hobj] at h
  · simp only [hobj,List.mem_filterMap] at h
    obtain ⟨row,-,hrow⟩ := h
    exact rowObject_role hrow

theorem children_role {role' id'} (h : (role',id')∈children sdk s role id) :
    (role=.commit ∧ role'=.commit ∧
      ∃ record,s.readCommitRecord sdk id=.ok record ∧ id'∈record.commit.parents) ∨
    (role=.tag ∧ role'=.commit ∧ ∃ tag,s.readTag sdk id=.ok tag ∧ id'=tag.target) ∨
    (role'≠.commit ∧ role'≠.tag) := by
  cases role with
  | commit =>
    rcases hrecord : s.readCommitRecord sdk id with e | record
    · simp [children,hrecord] at h
    simp only [children,hrecord,List.mem_cons,Prod.mk.injEq,List.mem_map] at h
    rcases h with ⟨hrole,-⟩ | ⟨p,hp,hrole,hid⟩
    · exact .inr (.inr (by simp [hrole]))
    · exact .inl ⟨rfl,hrole.symm,record,rfl,hid ▸ hp⟩
  | tag =>
    rcases htag : s.readTag sdk id with e | tag
    · simp [children,htag] at h
    · simp only [children,htag,List.mem_singleton,Prod.mk.injEq] at h
      exact .inr (.inl ⟨rfl,h.1,tag,rfl,h.2⟩)
  | tree =>
    refine .inr (.inr ?_)
    rcases hread : s.read sdk id with e | bytes
    · simp [children,hread] at h
    simp only [children,hread] at h
    split_ifs at h with hnested
    · rcases nestedChildren_role sdk h with rfl | rfl <;> simp
    rcases htree : sdk.parseTree bytes with e | t
    · simp [htree] at h
    · simp only [htree,List.mem_map,Prod.mk.injEq] at h
      obtain ⟨e,-,hrole,-⟩ := h
      simp [← hrole]
  | subtree =>
    refine .inr (.inr ?_)
    rcases hread : s.read sdk id with e | bytes
    · simp [children,hread] at h
    · simp only [children,hread] at h
      rcases nestedChildren_role sdk h with rfl | rfl <;> simp
  | blob => simp [children] at h

theorem stored_tag {target} (h : Stored sdk s target .tag id) :
    ∃ name,s.readRef .tags name=.ok id := by
  cases h with
  | ref h =>
    cases h with
    | tag name _ h => exact ⟨name,h⟩
  | child _ hc =>
    rcases children_role sdk hc with ⟨-,h,-⟩ | ⟨-,h,-⟩ | ⟨-,h⟩
    · cases h
    · cases h
    · exact absurd rfl h

theorem checkCommit_edge {p} (h : Walk.Edge (checkCommit sdk s) id p) :
    (Role.commit,p)∈children sdk s .commit id := by
  obtain ⟨ps,hps,hp⟩ := h
  rcases hrecord : s.readCommitRecord sdk id with e | record
  · have hnil:=((checkCommit_unreadable sdk ps hrecord).mp hps).2
    simp [hnil] at hp
  · have hparents:=((checkCommit_readable sdk ps hrecord).mp hps).2
    simp [children,hrecord,← hparents,hp]

theorem checkCommit_supported (s : Store) : Walk.Supported (checkCommit sdk s) s.objects.keys := by
  intro id ps hps hne
  rcases hrecord : s.readCommitRecord sdk id with e | record
  · exact absurd ((checkCommit_unreadable sdk ps hrecord).mp hps).2 hne
  · have hcommit : s.readCommit sdk id=.ok record.commit := by
      simp [readCommit,hrecord,Except.map]
    exact s.readCommit_mem sdk record.commit hcommit

theorem verifyQueue_eq_ok (s : Store) (info : RepoMeta) (target queue) :
    verifyQueue sdk s info target=.ok queue ↔ ∃ remotes extra tagged,s.remoteRefs=.ok remotes ∧
        verifyTarget sdk s info target=.ok extra ∧
        checkTags sdk s (info.tags.map Prod.fst)=.ok tagged ∧
        info.branches.map Prod.snd++remotes++extra++tagged=queue := by
  unfold verifyQueue
  rcases hremotes : s.remoteRefs with e | remotes
  · simp
  rcases hextra : verifyTarget sdk s info target with e | extra
  · simp
  rcases htagged : checkTags sdk s (info.tags.map Prod.fst) with e | tagged
  · simp
  simp

theorem mem_remoteRefs (s : Store) (remotes) (h : s.remoteRefs=.ok remotes) (id) :
    id∈remotes ↔ ∃ name,s.readRef .remotes name=.ok id := by
  rcases hload : loadRefs 1 s.remotes.toList with e | out
  · simp [remoteRefs,hload,Except.map] at h
  · simp only [remoteRefs,hload,Except.map,Except.ok.injEq] at h
    rw [← h]
    exact s.mem_targets_iff .remotes 1 out hload id

theorem mem_verifyTarget (s : Store) (info target extra)
    (h : verifyTarget sdk s info target=.ok extra) (id) :
    id∈extra ↔ ∃ spec,target=some spec ∧ s.resolveId sdk info spec=.ok id := by
  cases target with
  | none =>
    simp only [verifyTarget,Except.ok.injEq] at h
    simp [← h]
  | some spec =>
    rcases hid : s.resolveId sdk info spec with e | x
    · simp [verifyTarget,hid,Except.map] at h
    · simp only [verifyTarget,hid,Except.map,Except.ok.injEq] at h
      simp [← h,hid,eq_comm]

theorem mem_tagNames (s : Store) (info : RepoMeta) (hinfo : s.loadMeta=.ok info) (name : String) :
    name∈info.tags.map Prod.fst ↔ ∃ id,s.readRef .tags name=.ok id := by
  obtain ⟨-,-,htags⟩ := s.loadMeta_eq_ok info hinfo
  have hmem:=s.mem_loaded_iff .tags 0 info.tags htags name
  simp only [List.mem_map,Prod.exists,exists_and_right,exists_eq_right,hmem]

theorem verifyQueue_start {info target queue} (hinfo : s.loadMeta=.ok info)
    (h : verifyQueue sdk s info target=.ok queue) :
    (∀ name id,s.readRef .tags name=.ok id → ∃ t,TagChecked sdk s name t) ∧
      (∀ id∈queue,Stored sdk s target .commit id) ∧
      (∀ id,VerifiedRef sdk s target .commit id → id∈queue) ∧
      ∀ name id t,s.readRef .tags name=.ok id → TagChecked sdk s name t → t∈queue := by
  obtain ⟨remotes,extra,tagged,hremotes,hextra,htagged,hqueue⟩ :=
    (verifyQueue_eq_ok sdk s info target queue).mp h
  obtain ⟨-,hbranches,-⟩ := s.loadMeta_eq_ok info hinfo
  have hbranch:=s.mem_targets_iff .heads 0 info.branches hbranches
  have hremote:=mem_remoteRefs s remotes hremotes
  have hspec:=mem_verifyTarget sdk s info target extra hextra
  have hname:=mem_tagNames s info hinfo
  obtain ⟨hall,htag⟩ := checkTags_eq_ok sdk tagged htagged
  subst hqueue
  refine ⟨fun name id hid => hall name ((hname name).mpr ⟨id,hid⟩),fun id hid => ?_,
    fun id hid => ?_,fun name id t hid ht => ?_⟩
  · simp only [List.mem_append] at hid
    rcases hid with ((hid | hid) | hid) | hid
    · obtain ⟨name,hread⟩ := (hbranch id).mp hid
      exact .ref (.branch name id hread)
    · obtain ⟨name,hread⟩ := (hremote id).mp hid
      exact .ref (.tracking name id hread)
    · obtain ⟨spec,hsome,hres⟩ := (hspec id).mp hid
      exact .ref (.target spec info id hsome hinfo hres)
    · obtain ⟨name,hmem,hchecked⟩ := (htag id).mp hid
      obtain ⟨tid,hread⟩ := (hname name).mp hmem
      obtain ⟨tag,hobj,-,ht⟩ := tagChecked_object sdk hchecked hread
      exact .child (.ref (.tag name tid hread)) (by simp [children,hobj,ht])
  · simp only [List.mem_append]
    cases hid with
    | branch name _ hread => exact .inl (.inl (.inl ((hbranch id).mpr ⟨name,hread⟩)))
    | tracking name _ hread => exact .inl (.inl (.inr ((hremote id).mpr ⟨name,hread⟩)))
    | target spec info' _ hsome hinfo' hres =>
      rw [hinfo,Except.ok.injEq] at hinfo'
      exact .inl (.inr ((hspec id).mpr ⟨spec,hsome,hinfo' ▸ hres⟩))
  · exact List.mem_append_right _ ((htag t).mpr ⟨name,(hname name).mpr ⟨id,hid⟩,ht⟩)

theorem mem_seen_iff {info target queue seen} (hinfo : s.loadMeta=.ok info)
    (hqueue : verifyQueue sdk s info target=.ok queue)
    (hseen : Walk.explore (checkCommit sdk s) s.objects.keys queue=.ok seen) (id : ObjectId) :
    id∈seen ↔ Stored sdk s target .commit id := by
  obtain ⟨htags,hstart,hrefs,htargets⟩ := verifyQueue_start sdk hinfo hqueue
  have hmem:=Walk.mem_explore (checkCommit_supported sdk s) hseen
  constructor
  · intro hid
    obtain ⟨r,hr,hreach⟩ := (hmem id).mp hid
    induction hreach with
    | refl => exact hstart r hr
    | tail _ hedge ih =>
      have hprev:=ih ((hmem _).mpr ⟨r,hr,by assumption⟩)
      exact .child hprev (checkCommit_edge sdk hedge)
  · -- by induction on the path, for the commits on it
    suffices hall : ∀ role id,Stored sdk s target role id → role=.commit → id∈seen from
      fun h => hall .commit id h rfl
    intro role id h
    induction h with
    | ref h =>
      rintro rfl
      exact (hmem _).mpr ⟨_,hrefs _ h,Relation.ReflTransGen.refl⟩
    | child hstored hc ih =>
      rintro rfl
      rcases children_role sdk hc with ⟨rfl,-,record,hrecord,hp⟩ | ⟨rfl,-,tag,htag,rfl⟩ | ⟨hne,-⟩
      · have hprev:=ih rfl
        obtain ⟨ps,hps⟩ := Walk.explore_readable (checkCommit_supported sdk s) hseen hprev
        have hparents:=((checkCommit_readable sdk ps hrecord).mp hps).2
        obtain ⟨r,hr,hreach⟩ := (hmem _).mp hprev
        exact (hmem _).mpr ⟨r,hr,hreach.tail ⟨ps,hps,hparents ▸ hp⟩⟩
      · -- the target of a tag is queued by `checkTags`
        obtain ⟨name,hname⟩ := stored_tag sdk hstored
        obtain ⟨t,hchecked⟩ := htags name _ hname
        obtain ⟨tag',htag',-,ht⟩ := tagChecked_object sdk hchecked hname
        rw [htag,Except.ok.injEq] at htag'
        have hin : tag.target∈queue := htag' ▸ ht ▸ htargets name _ t hname hchecked
        exact (hmem _).mpr ⟨_,hin,Relation.ReflTransGen.refl⟩
      · exact absurd rfl hne

def CommitPasses (s : Store) (id : ObjectId) : Prop :=
  match s.readCommitRecord sdk id with
  | .ok record => CommitChecked sdk s id record
  | .error _ => s.shallow=true

theorem commitPasses_iff (s id) : CommitPasses sdk s id ↔ ∃ ps,checkCommit sdk s id=.ok ps := by
  unfold CommitPasses
  rcases hrecord : s.readCommitRecord sdk id with e | record
  · simp [checkCommit_unreadable sdk _ hrecord]
  · simp [checkCommit_readable sdk _ hrecord]

structure Accepts (files : Except String WorkingFiles) (args : VerifyArgs) (s : Store) : Prop where
  refs : ∃ info,s.loadMeta=.ok info ∧
    ∀ spec,args.target=some spec → ∃ id,s.resolveId sdk info spec=.ok id
  remotes : ∃ remotes,s.remoteRefs=.ok remotes
  log : ∃ log,s.commitLog=.ok log ∧ replayRoot sdk log=s.mmr.root sdk
  tags : ∀ name id,s.readRef .tags name=.ok id → ∃ t,TagChecked sdk s name t
  commits : ∀ id,Stored sdk s args.target .commit id → CommitPasses sdk s id
  nonempty : ∃ id,Stored sdk s args.target .commit id ∧ isReadable sdk s id=true
  workingTree : args.tree=true → checkTreeDrift sdk s files=some (.ok ())

theorem verifyEnd_ok_iff (files) (args : VerifyArgs) (s : Store) (info log seen) :
    (∃ report,verifyEnd sdk files args s info log seen=some (.ok report)) ↔
      replayRoot sdk log=s.mmr.root sdk ∧ (∃ id∈seen,isReadable sdk s id=true) ∧
        (args.tree=true → checkTreeDrift sdk s files=some (.ok ())) := by
  have hcount : (seen.filter (isReadable sdk s)).length=0 ↔
      ¬ ∃ id∈seen,isReadable sdk s id=true := by
    simp [List.length_eq_zero_iff,List.filter_eq_nil_iff]
  unfold verifyEnd
  by_cases hroot : replayRoot sdk log=s.mmr.root sdk
  swap
  · simp [hroot]
  by_cases hsome : ∃ id∈seen,isReadable sdk s id=true
  swap
  · simp only [hroot,ne_eq,not_true_eq_false,if_false,hcount.mpr hsome,if_true,hsome,
      false_and,and_false,iff_false]
    simp
  have hpos : ¬ (seen.filter (isReadable sdk s)).length=0 := fun h => hcount.mp h hsome
  simp only [hroot,ne_eq,not_true_eq_false,if_false,hpos,hsome,true_and]
  by_cases htree : args.tree=true
  · simp only [htree,if_true,forall_const]
    rcases checkTreeDrift sdk s files with - | r
    · simp
    · cases r with
      | error | ok => simp [Except.map]
  · simp [htree]

theorem accepts_of_cmdVerify {files args report}
    (h : cmdVerify sdk files args s=some (.ok report)) : Accepts sdk files args s := by
  unfold cmdVerify at h
  rcases hinfo : s.loadMeta with e | info
  · simp [hinfo] at h
  rcases hlog : s.commitLog with e | log
  · simp [hinfo,hlog] at h
  rcases hqueue : verifyQueue sdk s info args.target with e | queue
  · simp [hinfo,hlog,hqueue] at h
  rcases hseen : Walk.explore (checkCommit sdk s) s.objects.keys queue with e | seen
  · cases e <;> simp [hinfo,hlog,hqueue,hseen] at h
  simp only [hinfo,hlog,hqueue,hseen] at h
  obtain ⟨hroot,⟨id,hid,hread⟩,htree⟩ :=
    (verifyEnd_ok_iff sdk files args s info log seen).mp ⟨report,h⟩
  obtain ⟨remotes,extra,tagged,hremotes,hextra,-⟩ :=
    (verifyQueue_eq_ok sdk s info args.target queue).mp hqueue
  have hmem:=mem_seen_iff sdk hinfo hqueue hseen
  refine ⟨⟨info,hinfo,fun spec hspec => ?_⟩,⟨remotes,hremotes⟩,⟨log,hlog,hroot⟩,
    (verifyQueue_start sdk hinfo hqueue).1,fun x hx => ?_,
    ⟨id,(hmem id).mp hid,hread⟩,htree⟩
  · rcases hres : s.resolveId sdk info spec with e | x
    · simp [verifyTarget,hspec,hres,Except.map] at hextra
    · exact ⟨x,rfl⟩
  · exact (commitPasses_iff sdk s x).mpr (Walk.explore_readable
      (checkCommit_supported sdk s) hseen ((hmem x).mpr hx))

theorem cmdVerify_of_accepts (files args s) (h : Accepts sdk files args s) :
    ∃ report,cmdVerify sdk files args s=some (.ok report) := by
  obtain ⟨info,hinfo,htarget⟩ := h.refs
  obtain ⟨remotes,hremotes⟩ := h.remotes
  obtain ⟨log,hlog,hroot⟩ := h.log
  obtain ⟨extra,hextra⟩ : ∃ extra,verifyTarget sdk s info args.target=.ok extra := by
    rcases hspec : args.target with - | spec
    · exact ⟨[],rfl⟩
    · obtain ⟨id,hid⟩ := htarget spec hspec
      exact ⟨[id],by simp [verifyTarget,hid,Except.map]⟩
  obtain ⟨tagged,htagged⟩ := checkTags_succeeds sdk (by
    intro name hname
    obtain ⟨id,hid⟩ := (mem_tagNames s info hinfo name).mp hname
    exact h.tags name id hid)
  have hqueue:=(verifyQueue_eq_ok sdk s info args.target _).mpr
    ⟨remotes,extra,tagged,hremotes,hextra,htagged,rfl⟩
  obtain ⟨-,hstart,-⟩ := verifyQueue_start sdk hinfo hqueue
  -- whatever the walk comes to is a commit of the refs, so it passes
  obtain ⟨seen,hseen⟩ := Walk.explore_succeeds (checkCommit_supported sdk s) (by
      intro r hr x hx
      have hx : Stored sdk s args.target .commit x := by
        induction hx with
        | refl => exact hstart r hr
        | tail _ hedge ih => exact .child ih (checkCommit_edge sdk hedge)
      exact (commitPasses_iff sdk s x).mp (h.commits x hx))
  obtain ⟨id,hid,hread⟩ := h.nonempty
  have hmem:=mem_seen_iff sdk hinfo hqueue hseen
  obtain ⟨report,hreport⟩ := (verifyEnd_ok_iff sdk files args s info log seen).mpr
    ⟨hroot,⟨id,(hmem id).mpr hid,hread⟩,h.workingTree⟩
  exact ⟨report,by simp only [cmdVerify,hinfo,hlog,hqueue,hseen,hreport]⟩

theorem cmdVerify_ok_iff (files args s) :
    (∃ report,cmdVerify sdk files args s=some (.ok report)) ↔ Accepts sdk files args s :=
  ⟨fun ⟨_,h⟩ => accepts_of_cmdVerify sdk h,cmdVerify_of_accepts sdk files args s⟩

def AtAddress (s : Store) : Role → ObjectId → Prop
  | .commit,id =>
    ∃ record,s.readCommitRecord sdk id=.ok record ∧ commitAddress sdk record.commit=id
  | .tag,id => ∃ tag,s.readTag sdk id=.ok tag ∧ tagAddress sdk tag=id
  | .tree,id =>
    ∃ bytes,s.read sdk id=.ok bytes ∧
      if sdk.jsonVersion bytes=.ok (some 2) then treeBodyAddress sdk bytes=id
      else ∃ t,sdk.parseTree bytes=.ok t ∧ treeAddress sdk t=id
  | .subtree,id => ∃ bytes,s.read sdk id=.ok bytes ∧ treeBodyAddress sdk bytes=id
  | .blob,id => ∃ blob,s.readBlob sdk id=.ok blob ∧ blobAddress sdk blob=id

/-- A successful `verify` means that every object behind the verified refs that is
there is stored under the address of its content. -/
def VerifySound (files : Except String WorkingFiles) (args : VerifyArgs) (s : Store) : Prop :=
  ∀ report,cmdVerify sdk files args s=some (.ok report) →
    ∀ role id,Stored sdk s args.target role id → id∈s.objects → AtAddress sdk s role id

/-- The roles in which no address is recomputed: trees, subtrees and files, and
what a shallow clone skips as unreadable. -/
def Unchecked (s : Store) : Role → ObjectId → Prop
  | .commit,id => isReadable sdk s id=false
  | .tag,_ => False
  | .tree,_ => True
  | .subtree,_ => True
  | .blob,_ => True

theorem atAddress_of_accepts {files args} (h : Accepts sdk files args s)
    (hstored : Stored sdk s args.target role id) (hchecked : ¬ Unchecked sdk s role id) :
    AtAddress sdk s role id := by
  cases role with
  | commit =>
    have hpass:=h.commits id hstored
    rcases hrecord : s.readCommitRecord sdk id with e | record
    · exact absurd (by simp [Unchecked,isReadable,hrecord,Except.toBool]) hchecked
    · simp only [CommitPasses,hrecord] at hpass
      exact ⟨record,hrecord,hpass.1⟩
  | tag =>
    obtain ⟨name,hname⟩ := stored_tag sdk hstored
    obtain ⟨t,ht⟩ := h.tags name id hname
    obtain ⟨tag,htag,haddr,-⟩ := tagChecked_object sdk ht hname
    exact ⟨tag,htag,haddr⟩
  | tree | subtree | blob => exact absurd trivial hchecked

theorem cmdVerify_sound_iff (files : Except String WorkingFiles) (args : VerifyArgs) (s : Store) :
    VerifySound sdk files args s ↔
      (Accepts sdk files args s → ∀ role id,Stored sdk s args.target role id → id∈s.objects →
        Unchecked sdk s role id → AtAddress sdk s role id) := by
  constructor
  · intro h hacc role id hstored hmem _
    obtain ⟨report,hreport⟩ := cmdVerify_of_accepts sdk files args s hacc
    exact h report hreport role id hstored hmem
  · intro h report hreport role id hstored hmem
    have hacc:=accepts_of_cmdVerify sdk hreport
    by_cases hchecked : Unchecked sdk s role id
    · exact h hacc role id hstored hmem hchecked
    · exact atAddress_of_accepts sdk hacc hstored hchecked

namespace Sample

def forgedFile : Bytes := utf8 "forged file"
def forgedTree : Bytes := Sample.sdk.treeObjectJson ⟨2,[("file","File",hex 7)]⟩
def forgedCommit : Commit := { Commit.new with tree := 8 }

def forged : Option Store :=
  (recordCommit Sample.sdk sign "main" forgedCommit
    ((Store.empty.putEnvelopeBytes 7 forgedFile).putEnvelopeBytes 8 forgedTree)).map Prod.snd

end Sample
open Sample in
/-- `verify` accepts the forged tree and the forged file. -/
theorem cmdVerify_accepts_forged : ∃ s report,forged=some s ∧
      cmdVerify Sample.sdk (.ok ∅) ⟨none,false⟩ s=some (.ok report) ∧
      Stored Sample.sdk s none .tree 8 ∧ ¬ AtAddress Sample.sdk s .tree 8 ∧
      Stored Sample.sdk s none .blob 7 ∧ ¬ AtAddress Sample.sdk s .blob 7 ∧
      ¬ VerifySound Sample.sdk (.ok ∅) ⟨none,false⟩ s := by
  have hrun : forged.map (fun s => (cmdVerify Sample.sdk (.ok ∅) ⟨none,false⟩ s,
      s.readRef .heads "main",s.objects.contains 7))=
      some (some (.ok ⟨1,0⟩),.ok (commitAddress Sample.sdk forgedCommit),true) := by
    decide +kernel
  have hbytes : forged.map (fun s => (s.read Sample.sdk 8,s.readBlob Sample.sdk 7))=
      some (.ok forgedTree,.ok ⟨forgedFile⟩) := by decide +kernel
  have hlinks : forged.map (fun s =>
      (children Sample.sdk s .commit (commitAddress Sample.sdk forgedCommit),
        children Sample.sdk s .tree 8))=some ([(.tree,8)],[(.blob,7)]) := by decide +kernel
  have hversion : Sample.sdk.jsonVersion forgedTree=.ok (some 2) := by decide +kernel
  obtain ⟨s,hs,hval⟩ := Option.map_eq_some_iff.mp hrun
  rw [hs,Option.map_some,Option.some.injEq,Prod.mk.injEq] at hlinks hbytes
  simp only [Prod.mk.injEq] at hval
  obtain ⟨hverify,htip,hpresent⟩ := hval
  obtain ⟨htreeBytes,hblobBytes⟩ := hbytes
  obtain ⟨hcommit,htree⟩ := hlinks
  have hstoredTree : Stored Sample.sdk s none .tree 8 :=
    .child (.ref (.branch "main" _ htip)) (by rw [hcommit]; exact List.mem_singleton.mpr rfl)
  have hstoredBlob : Stored Sample.sdk s none .blob 7 :=
    .child hstoredTree (by rw [htree]; exact List.mem_singleton.mpr rfl)
  have hbadTree : ¬ AtAddress Sample.sdk s .tree 8 := by
    rintro ⟨bytes,hbytes,haddr⟩
    rw [htreeBytes,Except.ok.injEq] at hbytes
    rw [← hbytes,if_pos hversion] at haddr
    exact absurd haddr (by decide +kernel)
  have hbadBlob : ¬ AtAddress Sample.sdk s .blob 7 := by
    rintro ⟨blob,hblob,haddr⟩
    rw [hblobBytes,Except.ok.injEq] at hblob
    rw [← hblob] at haddr
    exact absurd haddr (by decide +kernel)
  refine ⟨s,⟨1,0⟩,hs,hverify,hstoredTree,hbadTree,hstoredBlob,hbadBlob,fun hsound => ?_⟩
  exact hbadBlob (hsound ⟨1,0⟩ hverify .blob 7 hstoredBlob
    (Std.ExtTreeMap.mem_iff_contains.mpr hpresent))

end OriginTools.Vcs
