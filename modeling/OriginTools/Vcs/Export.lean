import OriginTools.Vcs.Remote
import OriginTools.Vcs.Sample

/-!
# Exporting the reachable objects

The client side of a push, `push_exchange` (`remote.rs`): send the request, the manifest
and the envelope of every object it lists, then wait for the answer.
-/

namespace OriginTools.Vcs
open Store Command Std.ExtTreeMap

def msgRequest : UInt8 := 0x01

def Store.envelopeBytes (s : Store) (id : ObjectId) : Except String Bytes :=
  match s.objects[id]? with
  | none => .error s!"read {hex id}: {noSuchFile}"
  | some bytes => .ok bytes

def sendObjects : List String → Command Server String Unit
  | [] => pure ()
  | hexid::rest => do
    let id ← ofExcept (idFromHexStr hexid)
    let client ← get
    let bytes ← ofExcept (client.store.envelopeBytes id)
    sendMsg msgObject bytes
    sendObjects rest

variable (sdk : Sdk) (manifestJson : RemoteManifest → Bytes)

def awaitAnswer : Command Server String Unit := do
  let (typ,body) ← recvMsg
  if typ=msgDone then pure ()
  else if typ=msgError then throw (sdk.fromUtf8Lossy body)
  else throw s!"push: unexpected reply type 0x{hexByte typ}"

def pushExchange (manifest : RemoteManifest) : Command Server String Unit := do
  sendMsg msgRequest (utf8 "\x7b\"cmd\":\"push\"\x7d")
  sendMsg msgManifest (manifestJson manifest)
  sendObjects manifest.objectIds
  sendMsg msgDone []
  awaitAnswer sdk

def pack (s : Store) (manifest : RemoteManifest) (ids : List ObjectId) : List (UInt8 × Bytes) :=
  (msgRequest,utf8 "\x7b\"cmd\":\"push\"\x7d")::(msgManifest,manifestJson manifest)::
    (ids.map fun id => (msgObject,s.objects.getD id []))++[(msgDone,[])]

def Server.sent (client : Server) (msgs : List (UInt8 × Bytes)) : Server :=
  { client with conn := { client.conn with outbox := client.conn.outbox++msgs } }

theorem sendMsg_sent (typ body) {client} (hsend : client.conn.sendError=none) :
    sendMsg typ body client=some (.ok (),client.sent [(typ,body)]) := by
  simp [sendMsg,hsend,Server.sent]

theorem sent_sent (client : Server) (a b) : (client.sent a).sent b=client.sent (a++b) := by
  simp [Server.sent]

variable {s : Store}

theorem envelopeBytes_present {id} (h : s.objectExists id) :
    s.envelopeBytes id=.ok (s.objects.getD id []) := by
  have hmem : id∈s.objects := mem_iff_contains.mpr h
  have hget : s.objects[id]? = some (s.objects[id]) := getElem?_eq_some_getElem hmem
  simp [Store.envelopeBytes,hget,getD_eq_getD_getElem?]

theorem sendObjects_sent {ids : List ObjectId} (client : Server)
    (hsend : client.conn.sendError=none)
    (hpresent : ∀ id∈ids,client.store.objectExists id) :
    sendObjects (ids.map hex) client=some (.ok (),client.sent
      (ids.map fun id => (msgObject,client.store.objects.getD id []))) := by
  induction ids generalizing client with
  | nil => simp [sendObjects,Server.sent]
  | cons id ids ih =>
    obtain ⟨hid,hids⟩ := List.forall_mem_cons.mp hpresent
    have hread:=envelopeBytes_present hid
    have hrest:=ih (client.sent [(msgObject,client.store.objects.getD id [])]) hsend hids
    rw [sent_sent] at hrest
    simp only [List.map_cons,sendObjects,bind_apply,ofExcept_apply,
      idFromHexStr_hex,get_apply,hread,sendMsg_sent _ _ hsend]
    exact hrest

theorem awaitAnswer_outbox (client : Server) : ∃ r client',awaitAnswer sdk client=some (r,client') ∧
      client'.conn.outbox=client.conn.outbox := by
  rcases hinbox : client.conn.inbox with - | ⟨m,inbox⟩
  · simp [awaitAnswer,recvMsg,hinbox]
  rcases m with e | ⟨typ,body⟩
  · simp [awaitAnswer,recvMsg,hinbox]
  simp only [awaitAnswer,bind_apply,recvMsg,hinbox]
  split_ifs
  · exact ⟨_,_,rfl,rfl⟩
  · exact ⟨_,_,rfl,rfl⟩
  · exact ⟨_,_,rfl,rfl⟩

theorem pushExchange_sent {manifest : RemoteManifest} {ids : List ObjectId} {client : Server}
    (hids : manifest.objectIds=ids.map hex) (hsend : client.conn.sendError=none)
    (hpresent : ∀ id∈ids,client.store.objectExists id) :
    ∃ r client',pushExchange sdk manifestJson manifest client=some (r,client') ∧
      client'.conn.outbox=client.conn.outbox++pack manifestJson client.store manifest ids := by
  let client₁:=client.sent [(msgRequest,utf8 "\x7b\"cmd\":\"push\"\x7d")]
  let client₂:=client₁.sent [(msgManifest,manifestJson manifest)]
  let client₃:=client₂.sent (ids.map fun id => (msgObject,client.store.objects.getD id []))
  let client₄:=client₃.sent [(msgDone,[])]
  have hrequest:=sendMsg_sent msgRequest (utf8 "\x7b\"cmd\":\"push\"\x7d") hsend
  have hmanifest : sendMsg msgManifest (manifestJson manifest) client₁=some (.ok (),client₂) :=
    sendMsg_sent _ _ hsend
  have hobjects : sendObjects (ids.map hex) client₂=some (.ok (),client₃) :=
    sendObjects_sent client₂ hsend hpresent
  have hdone : sendMsg msgDone [] client₃=some (.ok (),client₄) := sendMsg_sent _ _ hsend
  have hrun : pushExchange sdk manifestJson manifest client=awaitAnswer sdk client₄ := by
    simp only [pushExchange,bind_apply,hrequest,hids]
    rw [hmanifest]
    dsimp only
    rw [hobjects]
    dsimp only
    rw [hdone]
  obtain ⟨r,client',hanswer,hout⟩ := awaitAnswer_outbox sdk client₄
  refine ⟨r,client',hrun.trans hanswer,hout.trans ?_⟩
  simp [client₄,client₃,client₂,client₁,Server.sent,pack]

def OnlyParentsMissing (s : Store) : Prop :=
  ∀ id y : ObjectId,y∈s.links sdk false id → s.objectExists y

/-- The returned ids are there, they include every object that is there and reached,
and a push of them, in whatever order the set lists them, over a connection that can
send sends the envelope of each. -/
def Exportable (s : Store) (branches tags extra : List ObjectId) : Prop :=
  ∃ out,s.reachableFromRefs sdk branches tags extra=.ok out ∧ (∀ id∈out,s.objectExists id) ∧
    (∀ x,s.objectExists x →
      (∃ r∈branches++tags++extra++okOrNil s.stashes,s.Reaches sdk r x) → x∈out) ∧
    ∀ (client : Server) (manifest : RemoteManifest) (ids : List ObjectId),client.store=s →
      client.conn.sendError=none → ids.Perm out → manifest.objectIds=ids.map hex →
      ∃ r client',pushExchange sdk manifestJson manifest client=some (r,client') ∧
        client'.conn.outbox=client.conn.outbox++pack manifestJson s manifest ids

def ParentsPresent (s : Store) (roots : List ObjectId) : Prop :=
  ∀ r∈roots,∀ c record,s.Reaches sdk r c → s.readCommitRecord sdk c=.ok record →
    ∀ p∈record.commit.parents,s.objectExists p

theorem mem_links_cases {x y} (h : y∈s.links sdk true x) : y∈s.links sdk false x ∨
      ∃ record,s.readCommitRecord sdk x=.ok record ∧ y∈record.commit.parents := by
  rcases hrecord : s.readCommitRecord sdk x with e | record
  · left
    simpa only [links,hrecord] using h
  simp only [links,hrecord,if_true,List.mem_cons] at h
  rcases h with htree | hparent
  · left
    simp [links,hrecord,htree]
  · exact .inr ⟨record,rfl,hparent⟩

theorem links_false_subset {x y} (h : y∈s.links sdk false x) : y∈s.links sdk true x := by
  rcases hrecord : s.readCommitRecord sdk x with e | record
  · simpa only [links,hrecord] using h
  · simp only [links,hrecord,Bool.false_eq_true,if_false,List.mem_singleton] at h
    simp [links,hrecord,h]

theorem links_present (s : Store) (followParents) (h : (s.objects.keys.all fun id =>
      (s.links sdk followParents id).all s.objectExists)=true) (id y)
    (hy : y∈s.links sdk followParents id) : s.objectExists y := by
  have hid : id∈s.objects := by
    by_contra habsent
    simp [s.links_missing sdk followParents habsent] at hy
  have hall:=List.all_eq_true.mp h id (mem_keys.mpr hid)
  exact List.all_eq_true.mp hall y hy

theorem parent_mem_links {x p record} (hrecord : s.readCommitRecord sdk x=.ok record)
    (hp : p∈record.commit.parents) : p∈s.links sdk true x := by
  simp [links,hrecord,hp]

theorem reaches_present {roots} (honly : OnlyParentsMissing sdk s)
    (hroots : ∀ r∈roots,s.objectExists r) (hparents : ParentsPresent sdk s roots) {r x}
    (hr : r∈roots) (hreach : s.Reaches sdk r x) : s.objectExists x := by
  induction hreach with
  | refl => exact hroots r hr
  | @tail y z hry hyz _ =>
    rcases mem_links_cases sdk hyz with hlink | ⟨record,hrecord,hparent⟩
    · exact honly y z hlink
    · exact hparents r hr y record hry hrecord z hparent

theorem exportable_iff (s : Store) (branches tags extra : List ObjectId)
    (honly : OnlyParentsMissing sdk s)
    (htips : ∀ r∈branches++tags++extra++okOrNil s.stashes,s.objectExists r) :
    Exportable sdk manifestJson s branches tags extra ↔
      ParentsPresent sdk s (branches++tags++extra++okOrNil s.stashes) := by
  constructor
  · rintro ⟨out,hout,hpresent,-,-⟩
    intro r hr c record hreach hrecord p hp
    obtain ⟨out',hout',hmem⟩ := s.reachableFromRefs_spec sdk branches tags extra
    have heq : out'=out := Except.ok.inj (hout'.symm.trans hout)
    have hlink : p∈s.links sdk true c := parent_mem_links sdk hrecord hp
    have hin : p∈out := by
      rw [← heq,hmem p]
      exact ⟨r,hr,hreach.tail hlink⟩
    exact hpresent p hin
  · intro hparents
    obtain ⟨out,hout,hmem⟩ := s.reachableFromRefs_spec sdk branches tags extra
    have hpresent : ∀ id∈out,s.objectExists id := by
      intro id hid
      obtain ⟨r,hr,hreach⟩ := (hmem id).mp hid
      exact reaches_present sdk honly htips hparents hr hreach
    refine ⟨out,hout,hpresent,fun x _ hx => (hmem x).mpr hx,?_⟩
    rintro client manifest ids rfl hsend hperm hids
    exact pushExchange_sent sdk manifestJson hids hsend
      fun id hid => hpresent id (hperm.mem_iff.mp hid)

namespace Sample

def shallowClone : Store :=
  { Store.empty with
    objects := ofList [(1,signedRecord { Commit.new with tree := 2,parents := [3] }),
        (2,Sample.sdk.treeObjectJson ⟨2,[]⟩)] compare }

def fullClone : Store :=
  { Store.empty with
    objects := ofList [(1,signedRecord { Commit.new with tree := 2,parents := [3] }),
        (2,Sample.sdk.treeObjectJson ⟨2,[]⟩),
        (3,signedRecord { Commit.new with tree := 2 })] compare }

end Sample
open Sample in
theorem fullClone_exportable : Exportable Sample.sdk Sample.manifestBytes fullClone [1] [] [] := by
  have hclosed:=links_present Sample.sdk fullClone true (by decide +kernel)
  have hparents : ParentsPresent Sample.sdk fullClone ([1]++[]++[]++okOrNil fullClone.stashes) :=
    fun _ _ c record _ hrecord p hp => hclosed c p (parent_mem_links Sample.sdk hrecord hp)
  have honly : OnlyParentsMissing Sample.sdk fullClone :=
    fun id y hy => hclosed id y (links_false_subset Sample.sdk hy)
  have htips : ([1]++[]++[]++okOrNil fullClone.stashes).all fullClone.objectExists=true := by
    decide +kernel
  exact (exportable_iff Sample.sdk Sample.manifestBytes fullClone [1] [] [] honly
    (List.all_eq_true.mp htips)).mpr hparents

open Sample in
/-- The parent that was cut off is among the ids to export, and a push of them stops
there. -/
theorem shallowClone_not_exportable :
    OnlyParentsMissing Sample.sdk shallowClone ∧ shallowClone.objectExists 1 ∧
      shallowClone.reachableFromRefs Sample.sdk [1] [] []=.ok [2,3,1] ∧
      shallowClone.objectExists 3=false ∧
      (sendObjects ([2,3,1].map hex) ⟨shallowClone,⟨[],[],none⟩⟩).map Prod.fst=
        some (.error s!"read {hex 3}: {noSuchFile}") ∧
      ¬ Exportable Sample.sdk Sample.manifestBytes shallowClone [1] [] [] := by
  have hreach : shallowClone.reachableFromRefs Sample.sdk [1] [] []=.ok [2,3,1] := by
    decide +kernel
  have hmissing : shallowClone.objectExists 3=false := by decide +kernel
  refine ⟨links_present Sample.sdk shallowClone false (by decide +kernel),by decide +kernel,
    hreach,hmissing,by decide +kernel,?_⟩
  rintro ⟨out,hout,hpresent,-,-⟩
  rw [hreach,Except.ok.injEq] at hout
  have hthree:=hpresent 3 (by simp [← hout])
  rw [hmissing] at hthree
  exact Bool.false_ne_true hthree

end OriginTools.Vcs
