import OriginTools.Vcs.Store

/-!
# Refs across a reopening

`write_ref`, `update_mem_ref` and `load_meta` (`store.rs`) as the creation of branches and
tags uses them: a name is a path on writing, and one level is listed on loading.
-/

namespace OriginTools.Vcs
open Store

inductive RefKind
  | branch
  | tag
  deriving DecidableEq,Repr

def RefKind.category : RefKind → RefCategory
  | .branch => .heads
  | .tag => .tags

/-- A repository in use: its files, and the branch and tag maps held in memory. -/
structure OpenRepo where
  store : Store
  held : RefKind → Std.ExtTreeMap String ObjectId compare

structure NewRef where
  kind : RefKind
  name : String
  target : ObjectId
  signature : Signature

/-- Only a branch is refused when there is one of that name. -/
def createRef (r : OpenRepo) (c : NewRef) : Except String OpenRepo :=
  if c.kind=.branch ∧ r.store.refExists .heads c.name then .error s!"branch exists: {c.name}"
  else match refClash (r.store.refMap c.kind.category).keys c.name with
    | some e => .error e
    | none => .ok ⟨putRef c.kind.category c.name c.target c.signature r.store,
        Function.update r.held c.kind ((r.held c.kind).insert c.name c.target)⟩

def OpenRepo.Reloads (r : OpenRepo) : Prop :=
  ∃ info,r.store.loadMeta=.ok info ∧
    (∀ name id,(name,id)∈info.branches ↔ (r.held .branch)[name]? = some id) ∧
    ∀ name id,(name,id)∈info.tags ↔ (r.held .tag)[name]? = some id

def OpenRepo.files (r : OpenRepo) (k : RefKind) : RefMap := r.store.refMap k.category

/-- Every file can be read, and the targets read are those held in memory. -/
structure Mirrors (files : RefMap) (held : Std.ExtTreeMap String ObjectId compare) : Prop where
  readable : ∀ (name : String) (x : Except String SignedRef),
    files[name]? = some x → ∃ signed,x=.ok signed
  same : ∀ (name : String) (id : ObjectId),
    (∃ signed,files[name]? = some (.ok signed) ∧ signed.target=id) ↔ held[name]? = some id

def Flat (files : RefMap) : Prop := ∀ name : String,files[name]? ≠ none → '/'∉name.toList

theorem splitPath_long (s : String) : 1<(splitPath s).length ↔ '/'∈s.toList := by
  rw [splitPath,List.length_map,List.splitOn]
  constructor
  · intro h
    by_contra hslash
    rw [List.splitOnP_eq_singleton] at h
    · simp at h
    · intro c hc
      exact beq_eq_false_iff_ne.mpr fun he => hslash (he ▸ hc)
  · intro h
    obtain ⟨a,b,hsplit⟩ := List.append_of_mem h
    have ha:=List.length_pos_iff.mpr (List.splitOnP_ne_nil (· == '/') a)
    have hb:=List.length_pos_iff.mpr (List.splitOnP_ne_nil (· == '/') b)
    rw [hsplit,List.splitOnP_append_cons a b (by simp),List.length_append]
    omega

theorem loadRefs_returns (depth rows) : (∃ out,loadRefs depth rows=.ok out) ↔ ∀ row∈rows,
      ¬ depth+1<(splitPath row.1).length ∧ ∃ signed,row.2=.ok signed := by
  induction rows with
  | nil => simp [loadRefs]
  | cons row rows ih =>
    obtain ⟨n,x⟩ := row
    simp only [List.forall_mem_cons,← ih,loadRefs_cons]
    grind

theorem loads_iff (files : RefMap) (held : Std.ExtTreeMap String ObjectId compare) :
    (∃ out,loadRefs 0 files.toList=.ok out ∧
      ∀ name id,(name,id)∈out ↔ held[name]? = some id) ↔ Mirrors files held ∧ Flat files := by
  have hrows:=loadRefs_returns 0 files.toList
  have hmem (out : List (String × ObjectId)) (h : loadRefs 0 files.toList=.ok out) :=
    mem_loadRefs out h
  simp only [Prod.forall,Std.ExtTreeMap.mem_toList_iff_getElem?_eq_some,Nat.zero_add,
    splitPath_long] at hrows hmem
  constructor
  · rintro ⟨out,hout,hheld⟩
    have hread:=hrows.1 ⟨out,hout⟩
    refine ⟨⟨fun name x hx => (hread name x hx).2,fun name id => ?_⟩,fun name hname => ?_⟩
    · rw [← hmem out hout,hheld]
    · obtain ⟨x,hx⟩ := Option.ne_none_iff_exists'.1 hname
      exact (hread name x hx).1
  · rintro ⟨hmirrors,hflat⟩
    obtain ⟨out,hout⟩ := hrows.2 fun name x hx =>
      ⟨hflat name (by simp [hx]),hmirrors.readable name x hx⟩
    exact ⟨out,hout,fun name id => (hmem out hout name id).trans (hmirrors.same name id)⟩

theorem reloads_iff (r : OpenRepo) : r.Reloads ↔ (∃ head,r.store.headBranch=.ok head) ∧
    ∀ k,Mirrors (r.files k) (r.held k) ∧ Flat (r.files k) := by
  simp only [← loads_iff]
  constructor
  · rintro ⟨info,hload,hbranches,htags⟩
    obtain ⟨hhead,hb,ht⟩ := r.store.loadMeta_eq_ok info hload
    refine ⟨⟨_,hhead⟩,fun k => ?_⟩
    cases k with
    | branch => exact ⟨_,hb,hbranches⟩
    | tag => exact ⟨_,ht,htags⟩
  · rintro ⟨⟨head,hhead⟩,hrefs⟩
    obtain ⟨branches,hb,hbranches⟩ := hrefs .branch
    obtain ⟨tags,ht,htags⟩ := hrefs .tag
    refine ⟨⟨head,branches,tags⟩,?_,hbranches,htags⟩
    simp only [OpenRepo.files,RefKind.category,refMap] at hb ht
    simp [loadMeta,hhead,hb,ht,bind,Except.bind]

variable {r r' : OpenRepo} {c : NewRef}

theorem createRef_files (h : createRef r c=.ok r') : r'.store.headBranch=r.store.headBranch ∧
    r'.files=Function.update r.files c.kind
      ((r.files c.kind).insert c.name (.ok ⟨c.target,c.signature⟩)) ∧
    r'.held=Function.update r.held c.kind ((r.held c.kind).insert c.name c.target) := by
  unfold createRef at h
  split_ifs at h
  split at h
  · cases h
  obtain rfl := Except.ok.inj h
  refine ⟨?_,funext fun k => ?_,rfl⟩
  · cases c.kind <;> rfl
  · rcases c.kind with _ | _ <;> cases k <;>
      simp [OpenRepo.files,RefKind.category,putRef,setRefMap,refMap]

theorem mirrors_insert {files held} (h : Mirrors files held) (n : String) (signed : SignedRef) :
    Mirrors (files.insert n (.ok signed)) (held.insert n signed.target) := by
  constructor
  · intro name x hx
    rw [Std.ExtTreeMap.getElem?_insert] at hx
    split_ifs at hx
    · exact ⟨signed,(Option.some.inj hx).symm⟩
    · exact h.readable name x hx
  · intro name id
    rw [Std.ExtTreeMap.getElem?_insert,Std.ExtTreeMap.getElem?_insert]
    split_ifs
    · simp
    · exact h.same name id

theorem flat_insert (files : RefMap) (n : String) (x) :
    Flat (files.insert n x) ↔ '/'∉n.toList ∧ Flat files := by
  simp only [Flat,Std.ExtTreeMap.getElem?_insert,Std.LawfulEqCmp.compare_eq_iff_eq]
  grind

/-- What a run of creations keeps: files and memory agree, and a name with a slash stays. -/
theorem createRefs_run {cs : List NewRef} (h : cs.foldlM createRef r=.ok r')
    (hr : ∀ k,Mirrors (r.files k) (r.held k)) :
    r'.store.headBranch=r.store.headBranch ∧ (∀ k,Mirrors (r'.files k) (r'.held k)) ∧
      ((∀ k,Flat (r'.files k)) ↔ (∀ c∈cs,'/'∉c.name.toList) ∧ ∀ k,Flat (r.files k)) := by
  induction cs generalizing r with
  | nil =>
    obtain rfl := Except.ok.inj h
    exact ⟨rfl,hr,by simp⟩
  | cons c cs ih =>
    obtain ⟨r₁,hc,hcs⟩ : ∃ r₁,createRef r c=.ok r₁ ∧ cs.foldlM createRef r₁=.ok r' := by
      rw [List.foldlM_cons] at h
      rcases hc : createRef r c with e | r₁
      · simp [hc,bind,Except.bind] at h
      · exact ⟨r₁,rfl,by simpa [hc,bind,Except.bind] using h⟩
    obtain ⟨hsame,hfiles,hheld⟩ := createRef_files hc
    have hr₁ (k : RefKind) : Mirrors (r₁.files k) (r₁.held k) := by
      rw [hfiles,hheld]
      by_cases hk : k=c.kind
      · subst hk
        simpa using mirrors_insert (hr c.kind) c.name ⟨c.target,c.signature⟩
      · simpa [hk] using hr k
    have hflat₁ : (∀ k,Flat (r₁.files k)) ↔ '/'∉c.name.toList ∧ ∀ k,Flat (r.files k) := by
      rw [hfiles,Function.forall_update_iff r.files fun _ => Flat,flat_insert]
      grind
    obtain ⟨hhead,hstep,hflat⟩ := ih hcs hr₁
    refine ⟨hhead.trans hsame,hstep,?_⟩
    rw [hflat,hflat₁,List.forall_mem_cons]
    tauto

theorem refs_survive_reopening_iff (r r' : OpenRepo) (cs : List NewRef) (hopen : r.Reloads)
    (h : cs.foldlM createRef r=.ok r') :
    r'.Reloads ↔ ∀ c∈cs,'/'∉c.name.toList := by
  obtain ⟨hhead,hr⟩ := (reloads_iff r).1 hopen
  obtain ⟨hsame,hmirrors,hflat⟩ := createRefs_run h fun k => (hr k).1
  rw [reloads_iff,hsame,forall_and,hflat]
  simp only [hhead,true_and,hmirrors,fun k => (hr k).2,implies_true,and_true]

namespace Sample

def freshRepo : OpenRepo := ⟨Store.empty,fun _ => ∅⟩
def newBranch (name : String) : NewRef := ⟨.branch,name,1,⟨[],[],[],[]⟩⟩

theorem freshRepo_reloads : freshRepo.Reloads :=
  ⟨⟨some "main",[],[]⟩,rfl,by simp [freshRepo],by simp [freshRepo]⟩

end Sample
open Sample

theorem plain_branch_survives :
    ∃ r',[newBranch "dev"].foldlM createRef freshRepo=.ok r' ∧ r'.Reloads := by
  refine ⟨_,rfl,?_⟩
  exact (refs_survive_reopening_iff freshRepo _ [newBranch "dev"]
    freshRepo_reloads rfl).2 (by decide)

theorem slash_branch_blocks_reopening :
    ∃ r',[newBranch "feature/x"].foldlM createRef freshRepo=.ok r' ∧
      r'.store.loadMeta.isOk=false ∧ ¬ r'.Reloads := by
  refine ⟨_,rfl,by decide +kernel,fun h => ?_⟩
  have hflat:=(((reloads_iff _).1 h).2 .branch).2
  exact hflat "feature/x" (by decide +kernel) (by decide)

end OriginTools.Vcs
