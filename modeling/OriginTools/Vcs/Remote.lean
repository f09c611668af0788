import OriginTools.Vcs.Commands
import OriginTools.Vcs.Reachability

/-!
# The receiving side of a push

`serve_push` (`remote.rs`): read a manifest, import the objects that follow it, then
check and adopt the pushed branches one by one, in the order of their names.
-/

namespace OriginTools.Vcs
open Store Command

def msgManifest : UInt8 := 0x02
def msgObject : UInt8 := 0x03
def msgDone : UInt8 := 0x04
def msgError : UInt8 := 0x05
abbrev Incoming : Type := Except String (UInt8 × Bytes)

structure Conn where
  inbox : List Incoming
  outbox : List (UInt8 × Bytes)
  sendError : Option String

structure Server where
  store : Store
  conn : Conn

variable (sdk : Sdk) (env : Env)

def closed : String := "recv pack frame: connection closed"

def recvMsg : Command Server String (UInt8 × Bytes) := fun srv =>
  match srv.conn.inbox with
  | [] => some (.error closed,srv)
  | m::inbox => some (m,{ srv with conn := { srv.conn with inbox := inbox } })

def sendMsg (typ : UInt8) (body : Bytes) : Command Server String Unit := fun srv =>
  match srv.conn.sendError with
  | some e => some (.error s!"send pack frame: {e}",srv)
  | none => some (.ok (),{ srv with conn := { srv.conn with outbox := srv.conn.outbox++[(typ,body)] } })

def hexByte (b : UInt8) : String :=
  String.ofList [Nat.digitChar (b.toNat/16),Nat.digitChar (b.toNat%16)]

/-- The loop over the object messages: how it ends, what is left of the inbox and
the store it leaves behind. The position in the manifest names each object. -/
def importObjects (objectIds : List String) :
    List Incoming → ℕ → Store → Except String Unit × List Incoming × Store
  | [],_,s => (.error closed,[],s)
  | .error e::inbox,_,s => (.error e,inbox,s)
  | .ok (typ,body)::inbox,imported,s =>
    if typ=msgObject then
      match objectIds[imported]? with
      | none => (.error "more objects than manifest",inbox,s)
      | some h =>
        match idFromHexStr h with
        | .error e => (.error e,inbox,s)
        | .ok id => importObjects objectIds inbox (imported+1) (putEnvelopeBytes id body s)
    -- DONE ends the loop, however many of the announced objects have come
    else if typ=msgDone then (.ok (),inbox,s)
    else if typ=msgError then (.error (sdk.fromUtf8Lossy body),inbox,s)
    else (.error s!"push: unexpected frame 0x{hexByte typ}",inbox,s)

def recvObjects (objectIds : List String) : Command Server String Unit := fun srv =>
  let (r,inbox,s) := importObjects sdk objectIds srv.conn.inbox 0 srv.store
  some (r,⟨s,{ srv.conn with inbox := inbox }⟩)

inductive BranchVerdict
  | diverges
  | fails (e : String)
  | rejects (msg : String)
  | accepts (commit : Commit)
  deriving DecidableEq,Repr

def fastForwardVerdict (s : Store) (force : Bool) (b : String) (id : ObjectId) (commit : Commit) :
    BranchVerdict :=
  match s.readRef .heads b with
  -- a branch whose ref cannot be read counts as a new one
  | .error _ => .accepts commit
  | .ok cur =>
    if cur≠id ∧ force=false then
      match s.isAncestor sdk cur id with
      | none => .diverges
      | some (.error e) => .fails e
      | some (.ok true) => .accepts commit
      | some (.ok false) =>
        .rejects s!"push rejected: branch '{b}' is not a fast-forward (server has {short cur}); push --force to overwrite"
    else .accepts commit

def branchVerdict (s : Store) (force : Bool) (b : String) (id : ObjectId) : BranchVerdict :=
  match s.readCommitRecord sdk id with
  | .error e => .fails e
  | .ok record =>
    match sdk.verify record.signature (canonicalCommit sdk record.commit) with
    | .error e => .rejects s!"push rejected: branch '{b}' commit {hex id} bad signature: {e}"
    | .ok () => fastForwardVerdict sdk s force b id record.commit

def onStore (m : Command Store String Unit) : Command Server String Unit := fun srv =>
  match m srv.store with
  | none => none
  | some (r,s) => some (r,{ srv with store := s })

def answerError (msg : String) : Command Server String Unit := fun srv =>
  match sendMsg msgError (utf8 msg) srv with
  | none => none
  | some (_,srv') => some (.ok (),srv')

def adoptBranches (sign : Bytes → Signature) (force : Bool) :
    List (String × ObjectId) → Command Server String Bool
  | [] => pure true
  | (b,id)::rest => do
    let srv ← get
    match branchVerdict sdk srv.store force b id with
    | .diverges => fun _ => none
    | .fails e => throw e
    | .rejects msg => do
      answerError msg
      pure false
    | .accepts commit => do
      -- written before the branches after it are looked at
      onStore (writeRef .heads b id (sign (canonicalCommit sdk commit)))
      adoptBranches sign force rest

def adoptManifest (manifest : RemoteManifest) : Command Server String Unit := do
  let sign ← ofExcept env.signingBundle
  let adopted ← adoptBranches sdk sign manifest.force manifest.branches.toList
  if adopted then do
    modify fun srv => { srv with store := { srv.store with publishedManifest := some manifest } }
    sendMsg msgDone []
  else pure ()

def servePush : Command Server String Unit := do
  let (typ,mbytes) ← recvMsg
  if typ≠msgManifest then do
    sendMsg msgError (utf8 "expected MANIFEST")
    throw "push: expected MANIFEST"
  else do
    let manifest ← ofExcept ((sdk.parseManifest mbytes).mapError fun e => s!"manifest parse: {e}")
    recvObjects sdk manifest.objectIds
    adoptManifest sdk env manifest

def received (srv : Server) : Option (RemoteManifest × Server) :=
  match srv.conn.inbox with
  | .ok (typ,mbytes)::inbox =>
    if typ=msgManifest then
      match sdk.parseManifest mbytes with
      | .error _ => none
      | .ok manifest =>
        match importObjects sdk manifest.objectIds inbox 0 srv.store with
        | (.ok (),inbox',s) => some (manifest,⟨s,{ srv.conn with inbox := inbox' }⟩)
        | (.error _,_,_) => none
    else none
  | _ => none

def KeepsObjects (old new : Std.ExtTreeMap ObjectId Bytes compare) : Prop :=
  ∀ id : ObjectId,id∈old → new[id]? = old[id]?

theorem keepsObjects_put {s id body new} (h : KeepsObjects (putEnvelopeBytes id body s).objects new) :
    KeepsObjects s.objects new := by
  unfold putEnvelopeBytes at h
  split_ifs at h with hex
  · exact h
  intro x hx
  have hne : id≠x := by
    rintro rfl
    exact hex (Std.ExtTreeMap.mem_iff_contains.mp hx)
  have hin : x∈s.objects.insert id body := Std.ExtTreeMap.mem_insert.mpr (.inr hx)
  rw [h x hin]
  simp [Std.ExtTreeMap.getElem?_insert,hne]

theorem importObjects_frame (objectIds inbox imported) (s : Store) :
    ∃ objs,(importObjects sdk objectIds inbox imported s).2.2={ s with objects := objs } ∧
      KeepsObjects s.objects objs := by
  induction inbox generalizing imported s with
  | nil => exact ⟨s.objects,rfl,fun _ _ => rfl⟩
  | cons m inbox ih =>
    have hstay : ∃ objs,s={ s with objects := objs } ∧ KeepsObjects s.objects objs :=
      ⟨s.objects,rfl,fun _ _ => rfl⟩
    rcases m with e | ⟨typ,body⟩
    · exact hstay
    simp only [importObjects]
    split_ifs
    · rcases objectIds[imported]? with _ | h
      · exact hstay
      rcases hid : idFromHexStr h with e | id
      · simpa [hid] using hstay
      obtain ⟨objs,hobjs,hkeep⟩ := ih (imported+1) (putEnvelopeBytes id body s)
      refine ⟨objs,?_,keepsObjects_put hkeep⟩
      simp only [hid,hobjs]
      unfold putEnvelopeBytes
      split_ifs <;> rfl
    · exact hstay
    · exact hstay
    · exact hstay

theorem received_frame {srv srv₁ m} (h : received sdk srv=some (m,srv₁)) :
    ∃ objs,srv₁.store={ srv.store with objects := objs } ∧ KeepsObjects srv.store.objects objs ∧
      srv₁.conn.outbox=srv.conn.outbox ∧ srv₁.conn.sendError=srv.conn.sendError := by
  unfold received at h
  split at h
  · next typ mbytes inbox _ =>
    split_ifs at h
    split at h
    · simp at h
    · next manifest _ =>
      obtain ⟨objs,hobjs,hkeep⟩ := importObjects_frame sdk manifest.objectIds inbox 0 srv.store
      split at h
      · next inbox' s hrun =>
        rw [hrun] at hobjs
        cases h
        exact ⟨objs,hobjs,hkeep,rfl,rfl⟩
      · simp at h
  · simp at h

theorem servePush_received {srv srv₁ m} (h : received sdk srv=some (m,srv₁)) :
    servePush sdk env srv=adoptManifest sdk env m srv₁ := by
  unfold received at h
  unfold servePush
  simp only [bind_apply,recvMsg]
  split at h
  · next typ mbytes inbox hin =>
    split_ifs at h with htyp
    split at h
    · simp at h
    · next manifest hparse =>
      split at h
      · next inbox' s hrun =>
        cases h
        simp [hin,htyp,hparse,Except.mapError,recvObjects,hrun]
      · simp at h
  · simp at h

def Accepted (s : Store) (force : Bool) (p : String × ObjectId) : Prop :=
  ∃ c,branchVerdict sdk s force p.1 p.2=.accepts c

/-- The branch is accepted, and once the branches `pre` are written, nothing is in the way
of its ref. -/
def Adopted (s : Store) (force : Bool) (pre : List (String × ObjectId)) (p : String × ObjectId) :
    Prop :=
  Accepted sdk s force p ∧ refClash (pre.map Prod.fst++s.heads.keys) p.1=none

def AllAdopted (s : Store) (force : Bool) (ps : List (String × ObjectId)) : Prop :=
  ∀ pre p post,ps=pre++p::post → Adopted sdk s force pre p

structure Written (ps : List (String × ObjectId)) (s s' : Store) : Prop where
  objects : s'.objects=s.objects
  shallow : s'.shallow=s.shallow
  new : ∀ p∈ps,s'.readRef .heads p.1=.ok p.2
  old : ∀ n,n∉ps.map Prod.fst → s'.readRef .heads n=s.readRef .heads n
  names : ∀ n,n∈s'.heads.keys ↔ n∈ps.map Prod.fst++s.heads.keys

theorem allAdopted_concat {s force ps p} : AllAdopted sdk s force (ps++[p]) ↔
    AllAdopted sdk s force ps ∧ Adopted sdk s force ps p := by
  constructor
  · intro h
    refine ⟨fun pre q post hps => h pre q (post++[p]) ?_,h ps p [] rfl⟩
    rw [hps,List.append_assoc]
    rfl
  · rintro ⟨hps,hp⟩ pre q post hsplit
    rcases List.eq_nil_or_concat post with rfl | ⟨post,r,rfl⟩
    · obtain ⟨rfl,hq⟩ := List.append_inj' hsplit rfl
      cases hq
      exact hp
    · rw [List.concat_eq_append,← List.cons_append,← List.append_assoc] at hsplit
      exact hps pre q post (List.append_inj' hsplit rfl).1

theorem allAdopted_accepted {s force ps} (h : AllAdopted sdk s force ps) :
    ∀ p∈ps,Accepted sdk s force p := by
  intro p hp
  obtain ⟨pre,post,hps⟩ := List.append_of_mem hp
  exact (h pre p post hps).1

theorem Written.concat {ps s t} (h : Written ps s t) {b : String} (hb : b∉ps.map Prod.fst)
    (id sig) : Written (ps++[(b,id)]) s (putRef .heads b id sig t) := by
  refine ⟨h.objects,h.shallow,fun p hp => ?_,fun n hn => ?_,fun n => ?_⟩
  · rw [readRef_putRef]
    rcases List.mem_append.mp hp with hp | hp
    · have hne : b≠p.1 := fun heq => hb (heq ▸ List.mem_map_of_mem hp)
      rw [if_neg hne]
      exact h.new p hp
    · rw [List.mem_singleton.mp hp,if_pos rfl]
  · rw [List.map_append,List.mem_append,not_or] at hn
    have hne : b≠n := fun heq => hn.2 (by simp [heq])
    rw [readRef_putRef,if_neg hne]
    exact h.old n hn.1
  · have hkeys:=h.names n
    simp only [Std.ExtTreeMap.mem_keys,List.mem_append,List.map_append,List.map_cons,List.map_nil,
      List.mem_singleton] at hkeys ⊢
    show n∈(t.heads.insert b _) ↔ _
    rw [Std.ExtTreeMap.mem_insert,Std.LawfulEqCmp.compare_eq_iff_eq,hkeys]
    tauto

theorem branchVerdict_written {ps s s' force n} (h : Written ps s s') (hn : n∉ps.map Prod.fst)
    (tip) : branchVerdict sdk s' force n tip=branchVerdict sdk s force n tip := by
  have hrecord : s'.readCommitRecord sdk tip=s.readCommitRecord sdk tip := by
    rw [readCommitRecord,s'.read_congr sdk s h.objects]
    rfl
  have hfirst : s'.firstParent sdk=s.firstParent sdk := by
    funext id
    simp only [firstParent,s'.readCommit_congr sdk s h.objects]
  have hanc (cur : ObjectId) : s'.isAncestor sdk cur tip=s.isAncestor sdk cur tip := by
    simp only [isAncestor,hfirst,h.objects,h.shallow]
  simp only [branchVerdict,fastForwardVerdict,h.old n hn,hrecord,hanc]

theorem writeRef_written {ps s s'} (h : Written ps s s') (b id sig) :
    writeRef .heads b id sig s'=some (match refClash (ps.map Prod.fst++s.heads.keys) b with
      | some e => (.error e,s')
      | none => (.ok (),putRef .heads b id sig s')) := by
  have hclash : refClash (s'.refMap .heads).keys b=refClash (ps.map Prod.fst++s.heads.keys) b :=
    refClash_congr h.names b
  simp only [writeRef,bind_apply,get_apply,hclash]
  cases refClash (ps.map Prod.fst++s.heads.keys) b with
  | some e => rfl
  | none => rfl

theorem adoptBranches_append (sign : Bytes → Signature) (force : Bool)
    (pre rest : List (String × ObjectId)) (srv : Server)
    (hnodup : ((pre++rest).map Prod.fst).Nodup) (hpre : AllAdopted sdk srv.store force pre) :
    ∃ s',adoptBranches sdk sign force (pre++rest) srv=
        adoptBranches sdk sign force rest { srv with store := s' } ∧ Written pre srv.store s' := by
  induction pre using List.reverseRecOn generalizing rest with
  | nil => exact ⟨srv.store,rfl,rfl,rfl,by simp,fun _ _ => rfl,fun _ => by simp⟩
  | append_singleton pre p ih =>
    obtain ⟨b,id⟩ := p
    rw [List.append_assoc,List.singleton_append] at hnodup ⊢
    obtain ⟨hpre,⟨c,hc⟩,hfree⟩ := (allAdopted_concat sdk).mp hpre
    obtain ⟨s',hrun,hwritten⟩ := ih ((b,id)::rest) hnodup hpre
    have hb : b∉pre.map Prod.fst := by
      rw [List.map_append] at hnodup
      exact fun hin => (List.nodup_append.mp hnodup).2.2 b hin b (by simp) rfl
    refine ⟨putRef .heads b id (sign (canonicalCommit sdk c)) s',?_,hwritten.concat hb id _⟩
    rw [hrun]
    simp [adoptBranches,branchVerdict_written sdk hwritten hb,hc,onStore,
      writeRef_written hwritten,hfree]

theorem first_stopped (s force branches) : AllAdopted sdk s force branches ∨
      ∃ pre p post,branches=pre++p::post ∧ AllAdopted sdk s force pre ∧
        ¬ Adopted sdk s force pre p := by
  induction branches using List.reverseRecOn with
  | nil => exact .inl (by simp [AllAdopted])
  | append_singleton ps p ih =>
    rcases ih with hall | ⟨pre,q,post,rfl,hpre,hq⟩
    · by_cases hp : Adopted sdk s force ps p
      · exact .inl ((allAdopted_concat sdk).mpr ⟨hall,hp⟩)
      · exact .inr ⟨ps,p,[],rfl,hall,hp⟩
    · exact .inr ⟨pre,q,post++[p],by simp,hpre,hq⟩

end OriginTools.Vcs
