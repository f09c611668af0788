import OriginTools.Vcs.MergeBase
import OriginTools.Vcs.Remote

/-!
# What a push does to the server

The server decides each branch on its own and writes it at once.
-/

namespace OriginTools.Vcs
open Store Ancestry Std.ExtTreeMap
variable (sdk : Sdk) (env : Env)

theorem toList_names_nodup (m : Std.ExtTreeMap String ObjectId compare) :
    (m.toList.map Prod.fst).Nodup := by
  have hdistinct:=distinct_keys_toList (t := m)
  rw [List.Nodup,List.pairwise_map]
  refine hdistinct.imp fun {p q} hpq heq => ?_
  rw [heq] at hpq
  exact hpq Std.compare_self

theorem adoptManifest_adopted (m : RemoteManifest) (sign : Bytes → Signature) (srv : Server)
    (hsign : env.signingBundle=.ok sign)
    (hall : AllAdopted sdk srv.store m.force m.branches.toList) :
    ∃ s',Written m.branches.toList srv.store s' ∧ s'.publishedManifest=some m ∧
      adoptManifest sdk env m srv=sendMsg msgDone [] { srv with store := s' } := by
  obtain ⟨s',hrun,h⟩ := adoptBranches_append sdk sign m.force
    m.branches.toList [] srv (by simpa using toList_names_nodup m.branches) hall
  rw [List.append_nil] at hrun
  refine ⟨{ s' with publishedManifest := some m },
    ⟨h.objects,h.shallow,h.new,h.old,h.names⟩,rfl,?_⟩
  simp [adoptManifest,hsign,hrun,adoptBranches]

variable {srv : Server} {p : String × ObjectId}

theorem adoptManifest_stopped {m sign} (hsign : env.signingBundle=.ok sign) (pre post)
    (hlist : m.branches.toList=pre++p::post) (hpre : AllAdopted sdk srv.store m.force pre)
    (hp : ¬ Adopted sdk srv.store m.force pre p) :
    ∃ s',Written pre srv.store s' ∧ adoptManifest sdk env m srv=
        match branchVerdict sdk srv.store m.force p.1 p.2 with
        | .fails e => some (.error e,{ srv with store := s' })
        | .rejects msg => answerError msg { srv with store := s' }
        | .diverges => none
        | .accepts _ => (refClash (pre.map Prod.fst++srv.store.heads.keys) p.1).map fun e =>
            (.error e,{ srv with store := s' }) := by
  have hnodup:=toList_names_nodup m.branches
  rw [hlist] at hnodup
  obtain ⟨s',hrun,hwritten⟩ := adoptBranches_append sdk sign m.force pre (p::post) srv hnodup hpre
  refine ⟨s',hwritten,?_⟩
  have hfresh : p.1∉pre.map Prod.fst := by
    rw [List.map_append] at hnodup
    exact fun hin => (List.nodup_append.mp hnodup).2.2 p.1 hin p.1 (by simp) rfl
  have hp' : branchVerdict sdk s' m.force p.1 p.2=branchVerdict sdk srv.store m.force p.1 p.2 :=
    branchVerdict_written sdk hwritten hfresh p.2
  simp only [adoptManifest,Command.bind_apply,hsign,Command.ofExcept_apply,hlist,hrun]
  obtain ⟨b,id⟩ := p
  simp only [adoptBranches,Command.bind_apply,Command.get_apply,hp']
  cases hv : branchVerdict sdk srv.store m.force b id with
  | diverges | fails => rfl
  | rejects msg =>
    simp only [Command.bind_apply,answerError,sendMsg]
    cases srv.conn.sendError with
    | some | none => simp
  | accepts c =>
    cases hclash : refClash (pre.map Prod.fst++srv.store.heads.keys) b with
    | none => exact absurd ⟨⟨c,hv⟩,hclash⟩ hp
    | some e => simp [onStore,writeRef_written hwritten,hclash]

/-- How the adoption of a manifest ends: the branches written, the answer to the
client and the result of the server. -/
inductive Adoption (m : RemoteManifest) (srv srv' : Server) : Except String Unit → Prop
  | unsigned (e : String) (hsrv : srv'=srv) : Adoption m srv srv' (.error e)
  | done (sign : Bytes → Signature) (hsign : env.signingBundle=.ok sign)
      (hall : AllAdopted sdk srv.store m.force m.branches.toList)
      (hsend : srv.conn.sendError=none)
      (hwritten : Written m.branches.toList srv.store srv'.store)
      (hout : srv'.conn.outbox=srv.conn.outbox++[(msgDone,[])]) : Adoption m srv srv' (.ok ())
  | unsent (e : String) (sign : Bytes → Signature) (hsign : env.signingBundle=.ok sign)
      (hall : AllAdopted sdk srv.store m.force m.branches.toList)
      (hsend : srv.conn.sendError≠none)
      (hwritten : Written m.branches.toList srv.store srv'.store)
      (hout : srv'.conn.outbox=srv.conn.outbox) : Adoption m srv srv' (.error e)
  | failed (e : String) (sign : Bytes → Signature) (hsign : env.signingBundle=.ok sign)
      (pre post : List (String × ObjectId)) (p : String × ObjectId)
      (hlist : m.branches.toList=pre++p::post)
      (hpre : AllAdopted sdk srv.store m.force pre)
      (hp : branchVerdict sdk srv.store m.force p.1 p.2=.fails e)
      (hwritten : Written pre srv.store srv'.store)
      (hout : srv'.conn.outbox=srv.conn.outbox) : Adoption m srv srv' (.error e)
  | blocked (e : String) (sign : Bytes → Signature) (hsign : env.signingBundle=.ok sign)
      (pre post : List (String × ObjectId)) (p : String × ObjectId)
      (hlist : m.branches.toList=pre++p::post)
      (hpre : AllAdopted sdk srv.store m.force pre) (hp : Accepted sdk srv.store m.force p)
      (hclash : refClash (pre.map Prod.fst++srv.store.heads.keys) p.1=some e)
      (hwritten : Written pre srv.store srv'.store)
      (hout : srv'.conn.outbox=srv.conn.outbox) : Adoption m srv srv' (.error e)
  | answered (msg : String) (sign : Bytes → Signature) (hsign : env.signingBundle=.ok sign)
      (pre post : List (String × ObjectId)) (p : String × ObjectId)
      (hlist : m.branches.toList=pre++p::post)
      (hpre : AllAdopted sdk srv.store m.force pre)
      (hp : branchVerdict sdk srv.store m.force p.1 p.2=.rejects msg)
      (hsend : srv.conn.sendError=none) (hwritten : Written pre srv.store srv'.store)
      (hout : srv'.conn.outbox=srv.conn.outbox++[(msgError,utf8 msg)]) :
      Adoption m srv srv' (.ok ())
  -- a refusal that cannot be sent is dropped: the server returns as if all went well
  | unheard (hout : srv'.conn.outbox=srv.conn.outbox) : Adoption m srv srv' (.ok ())

theorem adoptManifest_cases {m srv' r} (hrun : adoptManifest sdk env m srv=some (r,srv')) :
    Adoption sdk env m srv srv' r := by
  rcases hsign : env.signingBundle with e | sign
  · simp only [adoptManifest,Command.bind_apply,hsign,Command.ofExcept_apply,
      Option.some.injEq,Prod.mk.injEq] at hrun
    obtain ⟨rfl,rfl⟩ := hrun
    exact .unsigned e rfl
  rcases first_stopped sdk srv.store m.force m.branches.toList with
    hall | ⟨pre,p,post,hlist,hpre,hp⟩
  · obtain ⟨s',hwritten,-,hadopt⟩ := adoptManifest_adopted sdk env m sign srv hsign hall
    rw [hadopt] at hrun
    cases hsend : srv.conn.sendError with
    | none =>
      simp only [sendMsg,hsend,Option.some.injEq,Prod.mk.injEq] at hrun
      obtain ⟨rfl,rfl⟩ := hrun
      exact .done sign hsign hall hsend hwritten rfl
    | some e =>
      simp only [sendMsg,hsend,Option.some.injEq,Prod.mk.injEq] at hrun
      obtain ⟨rfl,rfl⟩ := hrun
      exact .unsent _ sign hsign hall (by simp [hsend]) hwritten rfl
  · obtain ⟨s',hwritten,hadopt⟩ := adoptManifest_stopped sdk env hsign pre post hlist hpre hp
    rw [hadopt] at hrun
    cases hv : branchVerdict sdk srv.store m.force p.1 p.2 with
    | diverges => simp [hv] at hrun
    | accepts c =>
      simp only [hv,Option.map_eq_some_iff,Prod.mk.injEq] at hrun
      obtain ⟨e,hclash,rfl,rfl⟩ := hrun
      exact .blocked e sign hsign pre post p hlist hpre ⟨c,hv⟩ hclash hwritten rfl
    | fails e =>
      simp only [hv,Option.some.injEq,Prod.mk.injEq] at hrun
      obtain ⟨rfl,rfl⟩ := hrun
      exact .failed e sign hsign pre post p hlist hpre hv hwritten rfl
    | rejects msg =>
      cases hsend : srv.conn.sendError with
      | none =>
        simp only [hv,answerError,sendMsg,hsend,Option.some.injEq,Prod.mk.injEq] at hrun
        obtain ⟨rfl,rfl⟩ := hrun
        exact .answered msg sign hsign pre post p hlist hpre hv hsend hwritten rfl
      | some e =>
        simp only [hv,answerError,sendMsg,hsend,Option.some.injEq,Prod.mk.injEq] at hrun
        obtain ⟨rfl,rfl⟩ := hrun
        exact .unheard rfl

def AnsweredError (srv srv' : Server) : Prop :=
  ∃ body,srv'.conn.outbox=srv.conn.outbox++[(msgError,body)]

structure FastForwardCorrect (s : Store) (a d : ObjectId) : Prop where
  test : ∃ r,s.isAncestor sdk a d=some (.ok r) ∧ (r=true ↔ s.Descends sdk d a)
  push : ∀ (env : Env) (srv srv₁ srv' : Server) (m : RemoteManifest) (b : String)
    (record : CommitRecord) (sign : Bytes → Signature) (r : Except String Unit),
    received sdk srv=some (m,srv₁) → srv₁.store=s → m.force=false →
    m.branches.toList=[(b,d)] → s.readRef .heads b=.ok a →
    s.readCommitRecord sdk d=.ok record →
    sdk.verify record.signature (canonicalCommit sdk record.commit)=.ok () →
    env.signingBundle=.ok sign → srv.conn.sendError=none →
    servePush sdk env srv=some (r,srv') →
    (AnsweredError srv srv' ↔ ¬ s.Descends sdk d a)

theorem branchVerdict_of_test {s b a d record r} (href : s.readRef .heads b=.ok a)
    (hrec : s.readCommitRecord sdk d=.ok record)
    (hsig : sdk.verify record.signature (canonicalCommit sdk record.commit)=.ok ())
    (htest : s.isAncestor sdk a d=some (.ok r)) (hself : a=d → r=true) :
    (r=true → branchVerdict sdk s false b d=.accepts record.commit) ∧
      (r=false → ∃ msg,branchVerdict sdk s false b d=.rejects msg) := by
  simp only [branchVerdict,hrec,hsig,fastForwardVerdict,href]
  by_cases had : a=d
  · simp [had,hself had]
  · cases r <;> simp [had,htest]

theorem servePush_single (srv srv₁ srv' : Server) (m : RemoteManifest) (b d)
    (sign : Bytes → Signature) (r) (hrecv : received sdk srv=some (m,srv₁))
    (hlist : m.branches.toList=[(b,d)]) (hsign : env.signingBundle=.ok sign)
    (hsend : srv.conn.sendError=none) (hrun : servePush sdk env srv=some (r,srv')) :
    (∀ c,branchVerdict sdk srv₁.store m.force b d=.accepts c → ¬ AnsweredError srv srv') ∧
      (∀ msg,branchVerdict sdk srv₁.store m.force b d=.rejects msg → AnsweredError srv srv') := by
  obtain ⟨objs,-,-,hout,hsend₁⟩ := received_frame sdk hrecv
  rw [hsend] at hsend₁
  rw [servePush_received sdk env hrecv] at hrun
  refine ⟨fun c hc => ?_,fun msg hmsg => ?_⟩
  · rintro ⟨body,hbody⟩
    rw [← hout] at hbody
    cases adoptManifest_cases sdk env hrun with
    | unsigned e hsrv => simp [hsrv] at hbody
    | done sign hsign hall hsend hwritten hout => simp [hout,msgDone,msgError] at hbody
    | unsent e sign hsign hall hsend hwritten hout => simp [hout] at hbody
    | failed e sign hsign pre post p hlist hpre hp hwritten hout => simp [hout] at hbody
    | blocked e sign hsign pre post p hlist hpre hp hclash hwritten hout => simp [hout] at hbody
    | unheard hout => simp [hout] at hbody
    | answered msg sign hsign pre post p hlist' hpre hp hsend hwritten hout =>
      -- the only branch is the accepted one
      have hmem : p∈m.branches.toList := by simp [hlist']
      rw [hlist,List.mem_singleton] at hmem
      rw [hmem,hc] at hp
      cases hp
  · have hnot : ¬ Adopted sdk srv₁.store m.force [] (b,d) := by
      rintro ⟨⟨c,hc⟩,-⟩
      rw [hmsg] at hc
      cases hc
    obtain ⟨s',-,hadopt⟩ := adoptManifest_stopped sdk env hsign [] []
      (by simpa using hlist) (by simp [AllAdopted]) hnot
    rw [hadopt] at hrun
    simp only [hmsg,answerError,sendMsg,hsend₁,Option.some.injEq,Prod.mk.injEq] at hrun
    refine ⟨utf8 msg,?_⟩
    rw [← hrun.2,hout]

theorem isAncestor_correct_iff (s : Store) (a d : ObjectId) (hacyc : Acyclic (s.ParentLink sdk))
    (hd : s.HistoryPresent sdk d) :
    FastForwardCorrect sdk s a d ↔ (s.Descends sdk d a → s.OnFirstParents sdk d a) := by
  obtain ⟨r,hr,hchain⟩ := s.isAncestor_spec sdk a d hacyc hd
  constructor
  · intro h hdesc
    obtain ⟨r',hr',hdesc'⟩ := h.test
    rw [hr] at hr'
    cases hr'
    exact hchain.mp (hdesc'.mpr hdesc)
  · intro h
    have hiff : r=true ↔ s.Descends sdk d a := hchain.trans ⟨s.descends_of_onFirstParents sdk d a,h⟩
    refine ⟨⟨r,hr,hiff⟩,?_⟩
    intro env srv srv₁ srv' m b record sign r₁ hrecv hs hforce hlist href hrec hsig hsign hsend hrun
    subst hs
    have hself : a=d → r=true := fun had => hiff.mpr (had ▸ Relation.ReflTransGen.refl)
    obtain ⟨hacc,hrej⟩ := branchVerdict_of_test sdk href hrec hsig hr hself
    obtain ⟨hno,hyes⟩ := servePush_single sdk env srv srv₁ srv' m b d sign r₁ hrecv hlist hsign
      hsend hrun
    rw [hforce] at hno hyes
    rw [← hiff]
    cases r with
    | true => simpa using hno _ (hacc rfl)
    | false =>
      obtain ⟨msg,hmsg⟩ := hrej rfl
      simpa using hyes msg hmsg

open Sample in
theorem isAncestor_correct_first_parent : FastForwardCorrect Sample.sdk diamond 2 4 := by
  refine (isAncestor_correct_iff Sample.sdk diamond 2 4 diamond_acyclic
    (diamond_present (by decide +kernel))).mpr fun _ => ?_
  exact Relation.ReflTransGen.single (show diamond.firstParent Sample.sdk 4=.ok (some 2) by
    decide +kernel)

open Sample in
/-- The merge `4` descends from its second parent `3`, but the test says no. -/
theorem isAncestor_misses_second_parent :
    Acyclic (diamond.ParentLink Sample.sdk) ∧ diamond.HistoryPresent Sample.sdk 4 ∧
      diamond.shallow=false ∧ diamond.Descends Sample.sdk 4 3 ∧
      diamond.isAncestor Sample.sdk 3 4=some (.ok false) ∧
      ¬ FastForwardCorrect Sample.sdk diamond 3 4 := by
  have hmerge : diamond.Descends Sample.sdk 4 3 :=
    Relation.ReflTransGen.single ⟨_,diamond_merge_parents,by simp⟩
  have htest : diamond.isAncestor Sample.sdk 3 4=some (.ok false) := by decide +kernel
  refine ⟨diamond_acyclic,diamond_present (by decide +kernel),rfl,hmerge,htest,?_⟩
  intro h
  obtain ⟨r,hr,hiff⟩ := h.test
  rw [htest] at hr
  cases hr
  simp [hmerge] at hiff

namespace Sample

end Sample
def DoneSent (srv srv' : Server) : Prop := srv'.conn.outbox=srv.conn.outbox++[(msgDone,[])]

def FromHeads (s : Store) (x : ObjectId) : Prop :=
  ∃ n id,s.readRef .heads n=.ok id ∧ s.Reaches sdk id x

def HeadsClosed (s : Store) : Prop := ∀ x,FromHeads sdk s x → x∈s.objects

def LinksPresent (s s₁ : Store) (tips : List (String × ObjectId)) : Prop :=
  ∀ x∈s₁.objects,(∃ p∈tips,s₁.Reaches sdk p.2 x) → ¬ FromHeads sdk s x →
    ∀ y∈s₁.links sdk true x,y∈s₁.objects

theorem accepted_mem {s force} (h : Accepted sdk s force p) : p.2∈s.objects := by
  obtain ⟨c,hc⟩ := h
  unfold branchVerdict at hc
  cases hrec : s.readCommitRecord sdk p.2 with
  | error e => simp [hrec] at hc
  | ok record =>
    have hread : s.readCommit sdk p.2=.ok record.commit := by simp [readCommit,hrec,Except.map]
    exact mem_keys.mp (s.readCommit_mem sdk record.commit hread)

theorem links_present_of_fromHeads {s s₁ : Store} (hclosed : HeadsClosed sdk s)
    (hkeep : KeepsObjects s.objects s₁.objects) {x y} (hx : FromHeads sdk s x)
    (hy : y∈s₁.links sdk true x) : y∈s₁.objects := by
  have hsame : s₁.objects[x]? = s.objects[x]? := hkeep x (hclosed x hx)
  rw [s₁.links_congr sdk s true hsame] at hy
  obtain ⟨n,id,hid,hpath⟩ := hx
  have hold : y∈s.objects := hclosed y ⟨n,id,hid,hpath.tail hy⟩
  rw [mem_iff_isSome_getElem?,hkeep y hold]
  exact mem_iff_isSome_getElem?.mp hold

theorem tips_closed_iff {s s₁ : Store} {tips} (hclosed : HeadsClosed sdk s)
    (hkeep : KeepsObjects s.objects s₁.objects) (htips : ∀ p∈tips,p.2∈s₁.objects) :
    (∀ p∈tips,∀ x,s₁.Reaches sdk p.2 x → x∈s₁.objects) ↔ LinksPresent sdk s s₁ tips := by
  constructor
  · intro h x _ hreach _ y hy
    obtain ⟨p,hp,hpath⟩ := hreach
    exact h p hp y (hpath.tail hy)
  · intro h p hp x hpath
    induction hpath with
    | refl => exact htips p hp
    | tail hfirst hlink ih =>
      next z y =>
      by_cases hz : FromHeads sdk s z
      · exact links_present_of_fromHeads sdk hclosed hkeep hz hlink
      · exact h z ih ⟨p,hp,hfirst⟩ hz y hlink

theorem servePush_done {srv₁ srv' m r} (hrecv : received sdk srv=some (m,srv₁))
    (hrun : servePush sdk env srv=some (r,srv')) (hdone : DoneSent srv srv') :
    (∃ sign,env.signingBundle=.ok sign) ∧ srv.conn.sendError=none ∧
      AllAdopted sdk srv₁.store m.force m.branches.toList ∧
      srv'.store.objects=srv₁.store.objects := by
  obtain ⟨objs,-,-,hout₁,hsend₁⟩ := received_frame sdk hrecv
  rw [servePush_received sdk env hrecv] at hrun
  rw [DoneSent,← hout₁] at hdone
  cases adoptManifest_cases sdk env hrun with
  | done sign hsign hall hsend hwritten hout =>
    exact ⟨⟨sign,hsign⟩,hsend₁ ▸ hsend,hall,hwritten.objects⟩
  | unsigned e hsrv => simp [hsrv] at hdone
  | unsent e sign hsign hall hsend hwritten hout => simp [hout] at hdone
  | failed e sign hsign pre post p hlist hpre hp hwritten hout => simp [hout] at hdone
  | blocked e sign hsign pre post p hlist hpre hp hclash hwritten hout => simp [hout] at hdone
  | answered msg sign hsign pre post p hlist hpre hp hsend hwritten hout =>
    simp [hout,msgDone,msgError] at hdone
  | unheard hout => simp [hout] at hdone

def PushComplete (srv : Server) : Prop :=
  ∀ r srv' m srv₁,servePush sdk env srv=some (r,srv') → DoneSent srv srv' →
    received sdk srv=some (m,srv₁) → ∀ p∈m.branches.toList,∀ x,
    srv'.store.Reaches sdk p.2 x → x∈srv'.store.objects

theorem reaches_congr {s t : Store} (h : s.objects=t.objects) (root x : ObjectId) :
    s.Reaches sdk root x ↔ t.Reaches sdk root x := by
  have hlinks : (fun a b => b∈s.links sdk true a)=fun a b => b∈t.links sdk true a := by
    funext a b
    rw [s.links_congr sdk t true (by rw [h])]
  rw [Reaches,Reaches,hlinks]

theorem servePush_complete_iff (srv : Server) (hclosed : HeadsClosed sdk srv.store) :
    PushComplete sdk env srv ↔
      ∀ m srv₁ sign,received sdk srv=some (m,srv₁) → env.signingBundle=.ok sign →
        srv.conn.sendError=none → AllAdopted sdk srv₁.store m.force m.branches.toList →
        LinksPresent sdk srv.store srv₁.store m.branches.toList := by
  have hclosed_iff (m : RemoteManifest) (srv₁ : Server) (hrecv : received sdk srv=some (m,srv₁))
      (hall : AllAdopted sdk srv₁.store m.force m.branches.toList) :=
    tips_closed_iff sdk hclosed (by
        obtain ⟨objs,hstore,hkeep,-,-⟩ := received_frame sdk hrecv
        rw [hstore]
        exact hkeep)
      (fun p hp => accepted_mem sdk (allAdopted_accepted sdk hall p hp))
  constructor
  · intro h m srv₁ sign hrecv hsign hsend hall
    refine (hclosed_iff m srv₁ hrecv hall).mp fun p hp x hx => ?_
    obtain ⟨objs,-,-,hout,hsend₁⟩ := received_frame sdk hrecv
    obtain ⟨s',hwritten,-,hrun⟩ := adoptManifest_adopted sdk env m sign srv₁ hsign hall
    rw [← servePush_received sdk env hrecv] at hrun
    simp only [sendMsg,hsend₁.trans hsend] at hrun
    have hdone:=h _ _ m srv₁ hrun (by simp [DoneSent,hout]) hrecv p hp x
    have hobj : s'.objects=srv₁.store.objects := hwritten.objects
    rw [← hobj]
    exact hdone ((reaches_congr sdk hobj p.2 x).mpr hx)
  · intro h r srv' m srv₁ hrun hdone hrecv p hp x hx
    obtain ⟨⟨sign,hsign⟩,hsend,hall,hobj⟩ := servePush_done sdk env hrecv hrun hdone
    rw [hobj]
    exact (hclosed_iff m srv₁ hrecv hall).mpr (h m srv₁ sign hrecv hsign hsend hall) p hp x
      ((reaches_congr sdk hobj p.2 x).mp hx)

namespace Sample

def treeTip : Bytes := signedRecord { Commit.new with tree := 2 }

def pushMain (objects : List Bytes) : Server where
  store := Store.empty
  conn :=
    { inbox := .ok (msgManifest,6::manifestBytes
          ⟨ofList [("main",1)] compare,∅,[hex 1,hex 2],false⟩)::
        objects.map (fun bytes => .ok (msgObject,bytes))++[.ok (msgDone,[])]
      outbox := []
      sendError := none }

theorem pushMain_headsClosed (objects) : HeadsClosed Sample.sdk (pushMain objects).store := by
  rintro x ⟨n,id,hid,-⟩
  simp [pushMain,readRef,readRefSigned,refMap,Store.empty,Except.map] at hid

end Sample
open Sample in
theorem servePush_complete_with_tree :
    PushComplete Sample.sdk Sample.env (pushMain [treeTip,Sample.sdk.treeObjectJson ⟨2,[]⟩]) := by
  refine (servePush_complete_iff Sample.sdk Sample.env
    (pushMain [treeTip,Sample.sdk.treeObjectJson ⟨2,[]⟩]) (pushMain_headsClosed _)).mpr ?_
  intro m srv₁ sign hrecv _ _ _ x hx _ _ y hy
  have hcheck : (received Sample.sdk (pushMain [treeTip,Sample.sdk.treeObjectJson ⟨2,[]⟩])).map
      (fun p => p.2.store.objects.keys.all fun x =>
        (p.2.store.links Sample.sdk true x).all fun y => p.2.store.objects.contains y)=
      some true := by decide +kernel
  rw [hrecv,Option.map_some,Option.some.injEq,List.all_eq_true] at hcheck
  have hall:=List.all_eq_true.mp (hcheck x (mem_keys.mpr hx)) y hy
  exact mem_iff_contains.mpr hall

open Sample in
/-- The manifest announces two objects, one is sent, and the server answers DONE
although the tree of the commit is missing. -/
theorem servePush_accepts_incomplete : HeadsClosed Sample.sdk (pushMain [treeTip]).store ∧
      ¬ PushComplete Sample.sdk Sample.env (pushMain [treeTip]) := by
  refine ⟨pushMain_headsClosed _,fun h => ?_⟩
  have hrun : (servePush Sample.sdk Sample.env (pushMain [treeTip])).map (fun p =>
      (p.2.conn.outbox,p.2.store.links Sample.sdk true 1,p.2.store.objects.contains 2))=
        some ([(msgDone,[])],[2],false) := by decide +kernel
  have hrecv : (received Sample.sdk (pushMain [treeTip])).map (fun p => p.1.branches.toList)=
      some [("main",1)] := by decide +kernel
  obtain ⟨⟨r,srv'⟩,hsome,hval⟩ := Option.map_eq_some_iff.mp hrun
  obtain ⟨⟨m,srv₁⟩,hrecv',hlist⟩ := Option.map_eq_some_iff.mp hrecv
  simp only [Prod.mk.injEq] at hval
  obtain ⟨hout,hlinks,hmissing⟩ := hval
  have hreach : srv'.store.Reaches Sample.sdk 1 2 :=
    Relation.ReflTransGen.single (show (2 : ObjectId)∈_ by rw [hlinks]; simp)
  have hmem:=h r srv' m srv₁ hsome (by simp [DoneSent,hout,pushMain]) hrecv'
    ("main",1) (by rw [show m.branches.toList=_ from hlist]; simp) 2 hreach
  rw [mem_iff_contains,hmissing] at hmem
  cases hmem

end OriginTools.Vcs
