import OriginTools.Vcs.MergeBase

/-!
# Branches move forward

What `add`, `commit`, `checkout` and `merge` do to the branches.
-/

namespace OriginTools.Vcs
open Store Command
variable (sdk : Sdk) (env : Env)
section Frames
variable {γ : Type} (f : Store → γ) (hf : ∀ s objects,f { s with objects := objects }=f s)
include hf

theorem putRaw_keeps (id plaintext) : Keeps f (putRaw sdk id plaintext) :=
  .bind .ofExcept fun _ => .modify fun s => hf s _

theorem writeBlob_keeps (data : Bytes) : Keeps f (writeBlob sdk data) :=
  .bind (putRaw_keeps sdk f hf _ data) fun _ => .pure

theorem writeBlobStream_keeps (data : Bytes) : Keeps f (writeBlobStream sdk data) := by
  refine .bind .ofExcept fun bytes => ?_
  exact .bind (.modify fun s => hf s _) fun _ => .pure

theorem writeTreeObject_keeps (rows) : Keeps f (writeTreeObject sdk rows) :=
  .bind (putRaw_keeps sdk f hf _ _) fun _ => .pure

omit hf in
theorem rowsOfSubs_keeps (write : String → Command Store String ObjectId)
    (hwrite : ∀ name,Keeps f (write name)) (names) : Keeps f (rowsOfSubs write names) := by
  induction names with
  | nil => exact .pure
  | cons name names ih =>
    refine .bind (hwrite name) fun id => ?_
    exact .bind ih fun rows => .pure

theorem writeTreeBucket_keeps (depth entries) : Keeps f (writeTreeBucket sdk depth entries) := by
  induction depth generalizing entries with
  | zero => exact writeTreeObject_keeps sdk f hf _
  | succ depth ih =>
    refine .bind (rowsOfSubs_keeps f _ (fun name => ih _) _) fun subs => ?_
    exact writeTreeObject_keeps sdk f hf _

theorem writeTree_keeps (tree : Tree) : Keeps f (writeTree sdk tree) :=
  writeTreeBucket_keeps sdk f hf _ _

variable (stream : Bool)

theorem stage_keeps (mode data) : Keeps f (stage sdk stream mode data) := by
  refine .bind .ofExcept fun bytes => ?_
  split_ifs
  · exact writeBlob_keeps sdk f hf bytes
  · exact writeBlobStream_keeps sdk f hf bytes
  · exact writeBlob_keeps sdk f hf bytes

theorem stageFiles_keeps (fs index) : Keeps f (stageFiles sdk stream fs index) := by
  induction fs generalizing index with
  | nil => exact .pure
  | cons file fs ih =>
    obtain ⟨rel,mode,data⟩ := file
    exact .bind (stage_keeps sdk f hf stream mode data) fun id => ih _

theorem stageArgs_keeps (args index) : Keeps f (stageArgs sdk stream args index) := by
  induction args generalizing index with
  | nil => exact .pure
  | cons arg args ih =>
    cases arg with
    | files fs => exact .bind (stageFiles_keeps sdk f hf stream fs index) fun _ => ih _
    | missing arg => exact .throw

theorem mergeBlobs_keeps (b oe te) : Keeps f (mergeBlobs sdk b oe te) := by
  refine .bind .get fun s => ?_
  iterate 3 refine .bind .ofExcept fun _ => ?_
  exact .bind (writeBlob_keeps sdk f hf _) fun id => .pure

theorem threeWayTextualEntry_keeps (b o t) : Keeps f (threeWayTextualEntry sdk b o t) := by
  unfold threeWayTextualEntry
  split
  · exact mergeBlobs_keeps sdk f hf b _ _
  · exact .pure

theorem threeWayTextualLoop_keeps (base ours theirs ps acc) :
    Keeps f (threeWayTextualLoop sdk base ours theirs ps acc) := by
  induction ps generalizing acc with
  | nil => exact .pure
  | cons p ps ih =>
    exact .bind (threeWayTextualEntry_keeps sdk f hf _ _ _) fun _ => ih _

theorem mergeByStrategy_keeps (strategy base ours theirs) :
    Keeps f (mergeByStrategy sdk strategy base ours theirs) := by
  unfold mergeByStrategy
  split_ifs
  · exact threeWayTextualLoop_keeps sdk f hf base ours theirs _ _
  · exact .ofExcept

end Frames

/-- A commit record is read back, unless its envelope is too large to be opened. -/
def ReadsBack : Prop :=
  ∀ record bytes,sdk.encrypt (sdk.recordJson record)=.ok bytes → bytes.length ≤ maxEnvelopeLen →
    ∃ plain,sdk.decrypt bytes=.ok plain ∧ sdk.parseRecord plain=.ok record

def RecordsFit (s : Store) : Prop :=
  ∀ (id : ObjectId) record bytes,s.objects[id]? = some bytes →
    sdk.encrypt (sdk.recordJson record)=.ok bytes → bytes.length ≤ maxEnvelopeLen

def Recorded (heads : RefMap) (branch : String) (ps : List ObjectId) (s' : Store) : Prop :=
  s'.heads=heads ∨
    ∃ id sig record bytes,s'.heads=heads.insert branch (.ok ⟨id,sig⟩) ∧
      s'.objects[id]? = some bytes ∧ sdk.encrypt (sdk.recordJson record)=.ok bytes ∧
      record.commit.parents=ps

variable {branch : String} {ps : List ObjectId}

theorem recorded_congr {heads s t} (h : (t.heads,t.objects)=(s.heads,s.objects))
    (hs : Recorded sdk heads branch ps s) : Recorded sdk heads branch ps t := by
  obtain ⟨hheads,hobjects⟩ := Prod.mk.inj h
  rcases hs with hsame | ⟨id,sig,record,bytes,hmoved,hstored,hrecord⟩
  · exact .inl (hheads.trans hsame)
  · exact .inr ⟨id,sig,record,bytes,hheads.trans hmoved,by rw [hobjects,hstored],hrecord⟩

theorem recordCommit_ensures (sign : Bytes → Signature) (branch : String)
    (commit : Commit) (s : Store) :
    Ensures (recordCommit sdk sign branch commit) s fun _ s' =>
      Recorded sdk s.heads branch commit.parents s' := by
  intro r s' hrun
  simp only [recordCommit,writeCommit,putRaw,bind_apply,ofExcept_apply,modify_apply,
    pure_apply] at hrun
  rcases hbytes : sdk.encrypt (sdk.recordJson ⟨commit,sign (canonicalCommit sdk commit)⟩) with
    e | bytes
  · simp only [hbytes,Option.some.injEq,Prod.mk.injEq] at hrun
    exact .inl (by rw [← hrun.2])
  simp only [hbytes] at hrun
  generalize ht : ({ s with objects := s.objects.insert (commitAddress sdk commit) bytes } : Store)=t
    at hrun
  rcases t.writeRef_cases .heads branch (commitAddress sdk commit)
      (sign (canonicalCommit sdk commit)) with ⟨e,he⟩ | hok
  · simp only [he,Option.some.injEq,Prod.mk.injEq] at hrun
    exact .inl (by rw [← hrun.2,← ht])
  simp only [hok] at hrun
  -- the leaf that is added to the mountain range touches neither refs nor objects
  refine recorded_congr sdk (s := putRef .heads branch (commitAddress sdk commit)
    (sign (canonicalCommit sdk commit)) t) ?_ (.inr ⟨commitAddress sdk commit,
    sign (canonicalCommit sdk commit),_,bytes,?_,?_,hbytes,rfl⟩)
  · refine Keeps.bind (f := fun s => (s.heads,s.objects)) ?_ (fun _ => .pure) _ r s' hrun
    refine .bind (.modify fun _ => rfl) fun _ => .bind .get fun _ => ?_
    exact .bind .ofExcept fun _ => .modify fun _ => rfl
  · rw [← ht]
    rfl
  · rw [← ht]
    simp [putRef,setRefMap]

theorem commitParts_ensures {args} (branch index mergeState) (s : Store)
    (hamend : args.amend=false) :
    Ensures (commitParts sdk args branch index mergeState) s fun r s' => s'.heads=s.heads ∧
      ∀ parts,r=.ok parts → commitParents s branch mergeState=.ok parts.1 := by
  intro r s' hrun
  simp only [commitParts,bind_apply,get_apply,hamend,Bool.false_eq_true,if_false,
    ofExcept_apply] at hrun
  rcases hparents : commitParents s branch mergeState with e | ps
  · simp only [hparents,Option.some.injEq,Prod.mk.injEq] at hrun
    exact ⟨by rw [← hrun.2],fun parts hr => by simp [← hrun.1] at hr⟩
  simp only [hparents] at hrun
  rcases htree : writeTree sdk index s with - | ⟨x,t⟩
  · simp [htree] at hrun
  have hheads : t.heads=s.heads := writeTree_keeps sdk Store.heads (fun _ _ => rfl) index s x t htree
  cases x with
  | error e =>
    simp only [htree,Option.some.injEq,Prod.mk.injEq] at hrun
    exact ⟨hrun.2 ▸ hheads,fun parts hr => by simp [← hrun.1] at hr⟩
  | ok treeId =>
    simp only [htree,pure_apply,Option.some.injEq,Prod.mk.injEq] at hrun
    refine ⟨hrun.2 ▸ hheads,fun parts hr => ?_⟩
    rw [← hrun.1,Except.ok.injEq] at hr
    rw [← hr]

def CommitEffect (s s' : Store) : Prop :=
  s'.heads=s.heads ∨ ∃ branch mergeState ps,
    s.currentBranch "no branch checked out (init first)"=.ok branch ∧
    s.mergeState=.ok mergeState ∧ commitParents s branch mergeState=.ok ps ∧
    Recorded sdk s.heads branch ps s'

theorem commitOn_ensures {args} (branch index mergeState) (s : Store)
    (hamend : args.amend=false) :
    Ensures (commitOn sdk env args branch index mergeState) s fun _ s' => s'.heads=s.heads ∨
      ∃ ps,commitParents s branch mergeState=.ok ps ∧ Recorded sdk s.heads branch ps s' := by
  refine ensures_bind ?_
  refine ensures_mono (commitParts_ensures sdk branch index mergeState s hamend) ?_
  rintro r t ⟨hheads,hparents⟩
  rcases r with e | parts
  · exact .inl hheads
  obtain ⟨ps,treeId,message⟩ := parts
  have hps:=hparents _ rfl
  refine ensures_bind_frame s.heads .ofExcept (fun e s' h => .inl h) (fun sign u hu => ?_) t hheads
  refine ensures_bind ?_
  refine ensures_mono (recordCommit_ensures sdk sign branch _ u) ?_
  intro r v hrecorded
  have hrec : Recorded sdk s.heads branch ps v := by
    rw [hu] at hrecorded
    exact hrecorded
  rcases r with e | id
  · exact .inr ⟨ps,hps,hrec⟩
  refine ensures_of_keeps (fun s => (s.heads,s.objects)) ?_ fun s' h =>
    .inr ⟨ps,hps,recorded_congr sdk h hrec⟩
  split_ifs
  · exact .bind (.modify fun _ => rfl) fun _ => .pure
  · exact .pure

theorem cmdCommit_ensures (args : CommitArgs) (s : Store)
    (hamend : args.amend=false) :
    Ensures (cmdCommit sdk env args) s fun _ s' => CommitEffect sdk s s' := by
  intro r s' hrun
  simp only [cmdCommit,resolveStore,bind_apply,get_apply,ofExcept_apply,hamend,
    Bool.false_eq_true,false_and,if_false] at hrun
  rcases hinfo : s.loadMeta with e | info
  · simp only [hinfo,Option.some.injEq,Prod.mk.injEq] at hrun
    exact .inl (by rw [← hrun.2])
  rcases hmerge : s.mergeState with e | mergeState
  · simp only [hinfo,hmerge,Option.some.injEq,Prod.mk.injEq] at hrun
    exact .inl (by rw [← hrun.2])
  rcases hindex : s.index with e | index
  · simp only [hinfo,hmerge,hindex,Option.some.injEq,Prod.mk.injEq] at hrun
    exact .inl (by rw [← hrun.2])
  simp only [hinfo,hmerge,hindex] at hrun
  split_ifs at hrun with hempty
  · simp only [throw_apply,Option.some.injEq,Prod.mk.injEq] at hrun
    exact .inl (by rw [← hrun.2])
  rcases hbranch : s.currentBranch "no branch checked out (init first)" with e | branch
  · simp only [bind_apply,ofExcept_apply,hbranch,Option.some.injEq,Prod.mk.injEq] at hrun
    exact .inl (by rw [← hrun.2])
  simp only [bind_apply,ofExcept_apply,hbranch] at hrun
  rcases commitOn_ensures sdk env branch index mergeState s hamend r s' hrun with
    hsame | ⟨ps,hps,hrecorded⟩
  · exact .inl hsame
  · exact .inr ⟨branch,mergeState,ps,hbranch,hmerge,hps,hrecorded⟩

inductive MergeEffect (s s' : Store) : Prop
  | same (h : s'.heads=s.heads)
  | committed (branch : String) (head other : ObjectId) (hhead : s.readRef .heads branch=.ok head)
      (h : Recorded sdk s.heads branch [head,other] s')
  | forwarded (branch : String) (head other : ObjectId) (sig : Signature)
      (hhead : s.readRef .heads branch=.ok head)
      (h : s'.heads=s.heads.insert branch (.ok ⟨other,sig⟩)) (hobj : s'.objects=s.objects)
      (hdesc : s.Descends sdk other head)

theorem mergeBase_descends {s : Store} {a b m} (h : s.mergeBase sdk a b=some (.ok m)) :
    s.Descends sdk b m := by
  unfold mergeBase at h
  rcases hanc : s.ancestors sdk a with e | anc
  · simp [hanc] at h
  simp only [hanc,Option.map_eq_some_iff] at h
  obtain ⟨halt,hfollow,hend⟩ := h
  have hchain:=Chain.follow_ends _ hfollow
  cases halt with
  | hit x | root x =>
    obtain rfl : x=m := Except.ok.inj hend
    exact s.descends_of_onFirstParents sdk b x hchain.1
  | stuck x e => cases hend

theorem fastForward_ensures {head other s} (hhead : s.readRef .heads branch=.ok head)
    (hdesc : s.Descends sdk other head) :
    Ensures (fastForward sdk env branch other) s fun _ s' => MergeEffect sdk s s' := by
  let part (s' : Store) := (s'.heads,s'.objects)
  have herror : ∀ (e : String) (s' : Store),part s'=part s → MergeEffect sdk s s' :=
    fun _ s' h => .same (Prod.mk.inj h).1
  -- nothing is written before the branch
  refine ensures_bind_frame (part s) .get herror (fun s₁ => ?_) s rfl
  refine ensures_bind_frame (part s) .ofExcept herror fun c => ?_
  refine ensures_bind_frame (part s) .ofLoop herror fun tree => ?_
  refine ensures_bind_frame (part s) .ofExcept herror fun sign t ht => ?_
  obtain ⟨hheads,hobj⟩ := Prod.mk.inj ht
  refine ensures_bind fun r u hwrite => ?_
  rcases t.writeRef_cases .heads branch other (sign (canonicalCommit sdk c)) with ⟨e,he⟩ | hok
  · rw [he,Option.some.injEq,Prod.mk.injEq] at hwrite
    obtain ⟨rfl,rfl⟩ := hwrite
    exact herror e t ht
  rw [hok,Option.some.injEq,Prod.mk.injEq] at hwrite
  obtain ⟨rfl,rfl⟩ := hwrite
  refine ensures_of_keeps part ?_ fun s' h => ?_
  · refine .bind (.modify fun _ => rfl) fun _ => ?_
    exact .bind (restoreTree_keeps env _ _) fun _ => .pure
  · obtain ⟨hmoved,hobj'⟩ := Prod.mk.inj h
    refine .forwarded branch head other (sign (canonicalCommit sdk c)) hhead ?_ ?_ hdesc
    · rw [hmoved,← hheads]
      rfl
    · exact hobj'.trans hobj

theorem commitMerge_ensures {heads} (branch head other message merged) {s}
    (hs : s.heads=heads) :
    Ensures (commitMerge sdk env branch head other message merged) s fun _ s' =>
      Recorded sdk heads branch [head,other] s' := by
  refine ensures_bind_frame heads .ofExcept (fun e t h => .inl h) (fun sign => ?_) s hs
  refine ensures_bind_frame heads
    (writeTree_keeps sdk _ (fun _ _ => rfl) merged) (fun e u h => .inl h) fun treeId t ht => ?_
  refine ensures_bind ?_
  refine ensures_mono (recordCommit_ensures sdk sign branch _ t) ?_
  intro r u hrecorded
  rw [ht] at hrecorded
  rcases r with e | id
  · exact hrecorded
  refine ensures_of_keeps (fun s => (s.heads,s.objects)) ?_ fun s' h =>
    recorded_congr sdk h hrecorded
  refine .bind (.modify fun _ => rfl) fun _ => ?_
  exact .bind (restoreTree_keeps env _ _) fun _ => .pure

theorem stopOnConflicts_keeps (state merged conflicts) :
    Keeps Store.heads (stopOnConflicts env state merged conflicts) := by
  refine .bind (.modify fun _ => rfl) fun _ => ?_
  refine .bind (.modify fun _ => rfl) fun _ => ?_
  exact .bind (restoreTree_keeps env _ _) fun _ => .pure

theorem mergeTrees_ensures (args branch head other base) (s : Store) :
    Ensures (mergeTrees sdk env args branch head other base) s fun _ s' =>
      Recorded sdk s.heads branch [head,other] s' := by
  have herror : ∀ (e : String) (s' : Store),s'.heads=s.heads →
      Recorded sdk s.heads branch [head,other] s' := fun _ _ h => .inl h
  refine ensures_bind_frame s.heads .get herror (fun s₁ => ?_) s rfl
  iterate 3 refine ensures_bind_frame s.heads .ofExcept herror fun _ => ?_
  iterate 3 refine ensures_bind_frame s.heads .ofLoop herror fun _ => ?_
  refine ensures_bind_frame s.heads
    (mergeByStrategy_keeps sdk _ (fun _ _ => rfl) _ _ _ _) herror fun merged t ht => ?_
  dsimp only
  split_ifs
  · exact commitMerge_ensures sdk env branch head other args.message _ ht
  · exact ensures_of_keeps Store.heads (stopOnConflicts_keeps env _ _ _)
      fun s' h => .inl (h.trans ht)

theorem mergeInto_ensures (args head other) {s}
    (hhead : s.readRef .heads branch=.ok head) :
    Ensures (mergeInto sdk env args branch head other) s fun _ s' => MergeEffect sdk s s' := by
  intro r s' hrun
  simp only [mergeInto,bind_apply,get_apply] at hrun
  rcases hbase : s.mergeBase sdk head other with - | x
  · simp [hbase,ofLoop] at hrun
  cases x with
  | error e =>
    simp only [hbase,ofLoop,ofExcept_apply,Option.some.injEq,Prod.mk.injEq] at hrun
    exact .same (by rw [← hrun.2])
  | ok base =>
    simp only [hbase,ofLoop,ofExcept_apply] at hrun
    split_ifs at hrun with hother hfast
    · simp only [pure_apply,Option.some.injEq,Prod.mk.injEq] at hrun
      exact .same (by rw [← hrun.2])
    · have hdesc:=mergeBase_descends sdk hbase
      rw [hfast] at hdesc
      exact fastForward_ensures sdk env hhead hdesc r s' hrun
    · exact .committed branch head other hhead
        (mergeTrees_ensures sdk env args branch head other base s r s' hrun)

theorem cmdMerge_ensures (args : MergeArgs) (s : Store)
    (habort : args.abort=false) :
    Ensures (cmdMerge sdk env args) s fun _ s' => MergeEffect sdk s s' := by
  intro r s' hrun
  rcases cmdMerge_cases sdk env s habort with ⟨e,he⟩ | ⟨info,branch,head,other,-,-,hhead,-,hmerge⟩
  · rw [he,Option.some.injEq,Prod.mk.injEq] at hrun
    exact .same (by rw [← hrun.2])
  · rw [hmerge] at hrun
    exact mergeInto_ensures sdk env args head other hhead r s' hrun

inductive BranchStep
  | add (stream : Bool) (args : List AddArg)
  | commit (env : Env) (args : CommitArgs)
  | checkout (env : Env) (args : CheckoutArgs)
  | merge (env : Env) (args : MergeArgs)

namespace BranchStep

def exec : BranchStep → Store → Option Store
  | .add stream args => (cmdAdd sdk stream args).after
  | .commit env args => (cmdCommit sdk env { args with amend := false }).after
  | .checkout env args => (cmdCheckout sdk env args).after
  | .merge env args => (cmdMerge sdk env { args with abort := false }).after

def isCommit : BranchStep → Bool
  | .commit _ _ => true
  | _ => false

end BranchStep

def Forward (s s' : Store) : Prop :=
  ∀ name tip,s.readRef .heads name=.ok tip →
    ∃ tip',s'.readRef .heads name=.ok tip' ∧ s'.Descends sdk tip' tip

def CommitsOnTip (s s' : Store) : Prop :=
  s'.heads=s.heads ∨ ∃ branch id,(∀ name,s'.readRef .heads name=
        if branch=name then .ok id else s.readRef .heads name) ∧
      ∀ tip,s.readRef .heads branch=.ok tip → s'.firstParent sdk id=.ok (some tip)

def mergeAtTip (s : Store) : Bool :=
  match s.mergeState,s.currentBranch "no branch checked out (init first)" with
  | .ok (some st),.ok branch =>
    match s.readRef .heads branch with
    | .ok tip => tip=st.headId
    | .error _ => true
  | _,_ => true

theorem forward_of_heads (s s' : Store) (h : s'.heads=s.heads) : Forward sdk s s' :=
  fun name tip htip => ⟨tip,(s'.readRef_heads_congr s h name).trans htip,Relation.ReflTransGen.refl⟩

theorem readRef_of_insert (s s' : Store) (branch id sig)
    (h : s'.heads=s.heads.insert branch (.ok ⟨id,sig⟩)) (name) :
    s'.readRef .heads name=if branch=name then .ok id else s.readRef .heads name :=
  (s'.readRef_heads_congr (putRef .heads branch id sig s) h name).trans
    (s.readRef_putRef branch name id sig)

theorem forward_of_insert {s s' id sig} (h : s'.heads=s.heads.insert branch (.ok ⟨id,sig⟩))
    (hdesc : ∀ tip,s.readRef .heads branch=.ok tip → s'.Descends sdk id tip) :
    Forward sdk s s' := by
  intro name tip htip
  have href:=readRef_of_insert s s' branch id sig h name
  by_cases hname : branch=name
  · rw [if_pos hname] at href
    exact ⟨id,href,hdesc tip (hname ▸ htip)⟩
  · rw [if_neg hname] at href
    exact ⟨tip,href.trans htip,Relation.ReflTransGen.refl⟩

theorem recorded_forward (hsdk : ReadsBack sdk) {s s'} (hfit : RecordsFit sdk s')
    (h : Recorded sdk s.heads branch ps s')
    (htip : ∀ tip,s.readRef .heads branch=.ok tip → ps.head? = some tip) :
    Forward sdk s s' ∧ CommitsOnTip sdk s s' := by
  rcases h with hsame | ⟨id,sig,record,bytes,hmoved,hstored,hbytes,hps⟩
  · exact ⟨forward_of_heads sdk s s' hsame,.inl hsame⟩
  obtain ⟨plain,hplain,hparse⟩ := hsdk record bytes hbytes (hfit id record bytes hstored hbytes)
  have hread : s'.readCommit sdk id=.ok record.commit := by
    simp [readCommit,readCommitRecord,Store.read,hstored,hplain,hparse,Except.map,Except.mapError]
  have hfirst : ∀ tip,s.readRef .heads branch=.ok tip → s'.firstParent sdk id=.ok (some tip) := by
    intro tip hread'
    simp only [firstParent,hread,Except.map,hps,htip tip hread']
  refine ⟨forward_of_insert sdk hmoved fun tip hread' => ?_,
    .inr ⟨branch,id,readRef_of_insert s s' branch id sig hmoved,hfirst⟩⟩
  exact Relation.ReflTransGen.single (s'.parentLink_of_next sdk (hfirst tip hread'))

theorem commitParents_head {s mergeState tip} (hat : mergeAtTip s=true)
    (hbranch : s.currentBranch "no branch checked out (init first)"=.ok branch)
    (hmerge : s.mergeState=.ok mergeState) (hps : commitParents s branch mergeState=.ok ps)
    (htip : s.readRef .heads branch=.ok tip) : ps.head? = some tip := by
  cases mergeState with
  | some st =>
    simp only [mergeAtTip,hmerge,hbranch,htip,decide_eq_true_eq] at hat
    simp only [commitParents,Except.ok.injEq] at hps
    simp [← hps,hat]
  | none =>
    have hexists : s.refExists .heads branch=true := by
      obtain ⟨r,hr,-⟩ := (s.readRef_eq_ok .heads branch tip).mp htip
      rw [refExists,Bool.or_eq_true,← Std.ExtTreeMap.mem_iff_contains]
      exact .inl (Std.ExtTreeMap.mem_iff_isSome_getElem?.mpr (by rw [hr]; rfl))
    simp only [commitParents,hexists,if_true,htip,Except.map,Except.ok.injEq] at hps
    simp [← hps]

theorem cmdAdd_keeps {γ : Type} {f : Store → γ}
    (hobjects : ∀ s objects,f { s with objects := objects }=f s)
    (hindex : ∀ s tree,f (saveIndex tree s)=f s) (stream args) :
    Keeps f (cmdAdd sdk stream args) := by
  refine .bind (resolveStore_keeps _) fun _ => ?_
  refine .bind .get fun s => ?_
  refine .bind .ofExcept fun index => ?_
  refine .bind (stageArgs_keeps sdk f hobjects stream args index) fun tree => ?_
  exact .modify fun s => hindex s tree

theorem cmdCheckout_keeps {γ : Type} {f : Store → γ}
    (hsparse : ∀ s paths,f { s with sparse := paths }=f s)
    (hhead : ∀ s branch,f (setHead branch s)=f s) (hindex : ∀ s tree,f (saveIndex tree s)=f s)
    (args) : Keeps f (cmdCheckout sdk env args) := by
  refine .bind (resolveStore_keeps _) fun info => ?_
  refine .bind (.modify fun s => hsparse s _) fun _ => ?_
  refine .bind .get fun s => ?_
  refine .bind .ofExcept fun id => ?_
  refine .bind .ofExcept fun commit => ?_
  refine .bind .ofLoop fun tree => ?_
  refine .bind (.modify fun s => ?_) fun _ => ?_
  · by_cases hexists : s.refExists .heads args.target=true
    · rw [if_pos hexists,hhead]
    · rw [if_neg hexists]
  refine .bind (.modify fun s => hindex s tree) fun _ => ?_
  refine .bind .get fun s => ?_
  exact .bind .ofExcept fun _ => .pure

theorem exec_forward (hsdk : ReadsBack sdk) {step : BranchStep} {s s'}
    (hexec : step.exec sdk s=some s') (hfit : RecordsFit sdk s') (hat : step.isCommit=true → mergeAtTip s=true) :
    Forward sdk s s' ∧ (step.isCommit=true → CommitsOnTip sdk s s') := by
  cases step with
  | add stream args =>
    obtain ⟨⟨r,t⟩,hrun,rfl⟩ := Option.map_eq_some_iff.mp hexec
    have hsame : t.heads=s.heads :=
      cmdAdd_keeps sdk (fun _ _ => rfl) (fun _ _ => rfl) stream args s r t hrun
    exact ⟨forward_of_heads sdk s t hsame,nofun⟩
  | checkout env args =>
    obtain ⟨⟨r,t⟩,hrun,rfl⟩ := Option.map_eq_some_iff.mp hexec
    have hsame : t.heads=s.heads := cmdCheckout_keeps sdk env (fun _ _ => rfl)
      (fun _ _ => rfl) (fun _ _ => rfl) args s r t hrun
    exact ⟨forward_of_heads sdk s t hsame,nofun⟩
  | commit env args =>
    obtain ⟨⟨r,t⟩,hrun,rfl⟩ := Option.map_eq_some_iff.mp hexec
    rcases cmdCommit_ensures sdk env _ s rfl r t hrun with hsame |
      ⟨branch,mergeState,ps,hbranch,hmerge,hps,hrecorded⟩
    · exact ⟨forward_of_heads sdk s t hsame,fun _ => .inl hsame⟩
    -- a commit that ends a merge takes the recorded head as parent: it has to be the tip
    have hforward:=recorded_forward sdk hsdk hfit hrecorded fun tip htip =>
      commitParents_head (hat rfl) hbranch hmerge hps htip
    exact ⟨hforward.1,fun _ => hforward.2⟩
  | merge env args =>
    obtain ⟨⟨r,t⟩,hrun,rfl⟩ := Option.map_eq_some_iff.mp hexec
    refine ⟨?_,nofun⟩
    cases cmdMerge_ensures sdk env _ s rfl r t hrun with
    | same h => exact forward_of_heads sdk s t h
    | committed branch head other hhead h =>
      refine (recorded_forward sdk hsdk hfit h fun tip htip => ?_).1
      rw [hhead,Except.ok.injEq] at htip
      simp [htip]
    | forwarded branch head other sig hhead h hobj hdesc =>
      refine forward_of_insert sdk h fun tip htip => ?_
      rw [hhead,Except.ok.injEq] at htip
      simp only [Descends,t.parents_congr sdk s hobj,← htip]
      exact hdesc

/-- In every run whose commits find a merge in progress only at the tip it was started at,
and whose records can be opened, branches only move forward. -/
theorem branches_move_forward (hsdk : ReadsBack sdk) (steps : List BranchStep) (s : Store)
    (entries : List (Entry Store BranchStep))
    (hrun : trace (BranchStep.exec sdk) steps s=some entries)
    (hfit : ∀ e∈entries,RecordsFit sdk e.after)
    (hat : ∀ e∈entries,e.step.isCommit=true → mergeAtTip e.before=true) :
    ∀ e∈entries,Forward sdk e.before e.after ∧
      (e.step.isCommit=true → CommitsOnTip sdk e.before e.after) := by
  intro e he
  have hexec:=trace_exec s entries hrun e he
  exact exec_forward sdk hsdk hexec (hfit e he) (hat e he)

namespace Sample

theorem readsBack : ReadsBack Sample.sdk := by
  intro record bytes hbytes _
  obtain rfl := Except.ok.inj hbytes
  refine ⟨_,rfl,?_⟩
  show parseTyped 1 recordWire.parse (1::recordWire.put record)=.ok record
  simp [parseTyped,Wire.parse_put]

def fileCommit (id : ℕ) (parents : List ObjectId) : List (ObjectId × Bytes) :=
  [(Fin.ofNat _ id,
      signedRecord { Commit.new with tree := Fin.ofNat _ (100+id),parents := parents }),
    (Fin.ofNat _ (100+id),Sample.sdk.treeJson { Tree.new with
      entries := Std.ExtTreeMap.ofList [("file",⟨.file,Fin.ofNat _ (200+id)⟩)] compare }),
    (Fin.ofNat _ (200+id),[UInt8.ofNat id])]

def threeBranches : Store :=
  { Store.empty with
    objects := Std.ExtTreeMap.ofList
      (fileCommit 1 []++fileCommit 2 [1]++fileCommit 3 [1]++fileCommit 4 [1]) compare
    heads := Std.ExtTreeMap.ofList [("main",.ok ⟨2,sign []⟩),("topic",.ok ⟨3,sign []⟩),
      ("dev",.ok ⟨4,sign []⟩)] compare }

def mergeTopic : BranchStep := .merge Sample.env ⟨"topic","merge","union",false⟩
def completeMerge : BranchStep := .commit Sample.env ⟨"merged",false,none,none⟩
def switchToDev : BranchStep := .checkout Sample.env ⟨"dev",[],false⟩

end Sample
open Sample in
theorem branches_move_forward_merge :
    ∃ entries,trace (BranchStep.exec Sample.sdk) [mergeTopic,completeMerge] threeBranches=
        some entries ∧ entries.length=2 ∧
      ∀ e∈entries,Forward Sample.sdk e.before e.after ∧
        (e.step.isCommit=true → CommitsOnTip Sample.sdk e.before e.after) := by
  have hcheck : (trace (BranchStep.exec Sample.sdk) [mergeTopic,completeMerge] threeBranches).map
      (fun entries => (entries.length,
        entries.all fun e => !e.step.isCommit||mergeAtTip e.before,entries.all fun e =>
          e.after.objects.toList.all fun p => decide (p.2.length ≤ maxEnvelopeLen)))=
      some (2,true,true) := by
    decide +kernel
  obtain ⟨entries,hrun,hval⟩ := Option.map_eq_some_iff.mp hcheck
  simp only [Prod.mk.injEq] at hval
  obtain ⟨hlength,hall,hsmall⟩ := hval
  refine ⟨entries,hrun,hlength,?_⟩
  refine branches_move_forward Sample.sdk readsBack _ _ entries hrun
    (fun e he id record bytes hstored _ => ?_) fun e he hcommit => ?_
  · have hlen:=List.all_eq_true.mp (List.all_eq_true.mp hsmall e he) (id,bytes)
      (Std.ExtTreeMap.mem_toList_iff_getElem?_eq_some.mpr hstored)
    exact of_decide_eq_true hlen
  · have hat:=List.all_eq_true.mp hall e he
    simpa [hcommit] using hat

open Sample in
/-- A conflicted merge into `main` that is completed after switching to `dev`: the
new tip of `dev` has the two merged tips as parents, and the old one is lost. -/
theorem branches_lose_tip : ∃ entries e tip',trace (BranchStep.exec Sample.sdk)
        [mergeTopic,switchToDev,completeMerge] threeBranches=some entries ∧ e∈entries ∧
      e.step.isCommit=true ∧ e.before.readRef .heads "dev"=.ok 4 ∧
      e.after.readRef .heads "dev"=.ok tip' ∧
      e.after.firstParent Sample.sdk tip'=.ok (some 2) ∧ ¬ e.after.Descends Sample.sdk tip' 4 ∧
      ¬ Forward Sample.sdk e.before e.after := by
  -- the history of the new tip is the tip, both merged commits and their base
  have hlast : ((trace (BranchStep.exec Sample.sdk) [mergeTopic,switchToDev,completeMerge]
      threeBranches).bind List.getLast?).map (fun e => (e.step.isCommit,
        e.before.readRef .heads "dev",(e.after.readRef .heads "dev").map fun tip' =>
          decide (e.after.firstParent Sample.sdk tip'=.ok (some 2) ∧ 4≠tip' ∧
            Walk.isClosed (parents Sample.sdk e.after) [tip',1,2,3]=true)))=
      some (true,.ok 4,.ok true) := by decide +kernel
  obtain ⟨e,he,hval⟩ := Option.map_eq_some_iff.mp hlast
  simp only [Prod.mk.injEq] at hval
  obtain ⟨hcommit,hbefore,hafter⟩ := hval
  obtain ⟨entries,hrun,hget⟩ := Option.bind_eq_some_iff.mp he
  rcases htip : e.after.readRef .heads "dev" with err | tip'
  · simp [htip,Except.map] at hafter
  simp only [htip,Except.map,Except.ok.injEq,decide_eq_true_eq] at hafter
  obtain ⟨hfirst,hne,hclosed⟩ := hafter
  have hlost : ¬ e.after.Descends Sample.sdk tip' 4 := by
    intro hdesc
    have hmem:=Walk.reach_mem hclosed (.head _) hdesc
    exact (List.mem_cons.mp hmem).elim hne (by decide)
  refine ⟨entries,e,tip',hrun,List.mem_of_getLast? hget,hcommit,hbefore,htip,hfirst,hlost,
    fun hforward => ?_⟩
  obtain ⟨tip'',htip'',hdesc⟩ := hforward "dev" 4 hbefore
  rw [htip,Except.ok.injEq] at htip''
  exact hlost (htip'' ▸ hdesc)

end OriginTools.Vcs
