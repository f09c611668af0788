import OriginTools.Foundation.Footprint
import OriginTools.Payments.Run

/-!
# Deferred commitments and the batches they go into

`commit_deferred_batch` collects the queue, writes the manifest of the batch,
checkpoints its content hash and empties the queue: three writes, one after another.
-/

namespace OriginTools.Payments
open Process List
variable {W : Type} (sdk : PaySdk)

def collectFrom (new : Proc Error DeferredBatch) : Proc Error DeferredBatch := do
  let batch ← new
  let items : List DeferredItem ← readLog .deferred
  admitItems sdk items batch

def collectBatch (date : String) : Proc Error DeferredBatch :=
  collectFrom sdk (DeferredBatch.new sdk date)

def persistBatch (batch : DeferredBatch) : Proc Error DeferredBatch := do
  appendLog .batches batch
  checkpointMmr batch.contentHash
  replaceLog .deferred []
  return batch

theorem commitDeferredBatch_eq (date : String) : commitDeferredBatch sdk date=
      (collectFrom sdk (DeferredBatch.new sdk date)).bind persistBatch := by
  unfold commitDeferredBatch collectFrom
  generalize DeferredBatch.new sdk date=new
  refine ((bind_assoc new _ _).trans ?_).symm
  refine congrArg (Process.bind new) (funext fun batch => ?_)
  exact bind_assoc (readLog .deferred) (fun items => admitItems sdk items batch) persistBatch

/-- What `DeferredBatch::new` does: it refuses the date, or returns an empty batch. -/
inductive StartsBatch : Proc Error DeferredBatch → Prop
  | refused (e : Error) : StartsBatch (.fail e)
  | started (batch : String → String → DeferredBatch) (hitems : ∀ id now,(batch id now).items=[])
      (htotal : ∀ id now,(batch id now).totalMinor=0) :
      StartsBatch ((ask .uuid).bind fun id => (ask .now).bind fun now => .done (batch id now))

theorem newBatch_starts (date : String) : StartsBatch (DeferredBatch.new sdk date) := by
  unfold DeferredBatch.new
  split
  · exact .refused _
  · exact .started _ (fun _ _ => rfl) fun _ _ => rfl

def tally : List DeferredItem → ℤ → Except Error ℤ
  | [],total => .ok total
  | item::rest,total => do
      let minor ← parseAmount item.amount
      tally rest (wrap128 (total+minor))

abbrev Asks {ε α : Type} (R : α → Prop) (p : Proc ε α) : Prop :=
  Emits (fun op : Op => ∃ q,op=.ask q) R p

theorem handle_ask {op} (h : ∃ q,op=.ask q) (a : op.Ans W) (w : World W) : (handle op a w).2=w := by
  obtain ⟨q,rfl⟩ := h
  rfl

theorem asks_ask {ε : Type} (q : Question) : Asks (fun _ => True) (ask q : Proc ε q.Answer) :=
  .call ⟨q,rfl⟩ fun _ => .done trivial

theorem asks_verifyItem (item) : Asks (fun _ => True) (verifyItem item) := by
  unfold verifyItem
  have hask : Asks (fun _ => True) ((ask (.verifyPaymentPayload item.signedPayload
      item.resourceUrl)).bind Process.ofExcept : Proc Error Bool) :=
    (asks_ask _).bind fun r _ => .ofExcept r fun _ => trivial
  apply hask.mapErr.bind
  intro ok _
  cases ok with
  | true => exact .done trivial
  | false => exact .fail _

theorem asks_admitItems (items) (batch : DeferredBatch) :
    Asks (fun b => b.items=batch.items++items ∧
      tally items batch.totalMinor=.ok b.totalMinor) (admitItems sdk items batch) := by
  induction items generalizing batch with
  | nil => exact .done ⟨(append_nil _).symm,rfl⟩
  | cons item rest ih =>
    unfold admitItems DeferredBatch.push
    apply (asks_verifyItem item).bind
    intro _ _
    simp only [bind_eq,bind_assoc]
    apply (asks_verifyItem item).bind
    intro _ _
    rcases hminor : parseAmount item.amount with e | minor
    · exact .fail e
    apply (ih _).mono (fun _ h => h)
    intro b hb
    refine ⟨by rw [hb.1,append_assoc]; rfl,?_⟩
    unfold tally
    rw [hminor]
    exact hb.2

theorem collectFrom_safe {new} (hnew : StartsBatch new) (w : World W) :
    Safe handle (fun _ _ _ => True) (fun w' => w'=w) (fun o w' => w'=w ∧ ∀ b,o=.done b →
        b.items=w.store.deferred ∧ tally b.items 0=.ok b.totalMinor)
      (collectFrom sdk new) w := by
  cases hnew with
  | refused e => exact ⟨rfl,rfl,fun b hb => by cases hb⟩
  | started batch hitems htotal =>
    refine ⟨rfl,fun (id : String) _ => ⟨rfl,fun (now : String) _ => ⟨rfl,fun a _ => ?_⟩⟩⟩
    cases a with
    | some e => exact ⟨rfl,rfl,fun b hb => by cases hb⟩
    | none =>
      have hadmits:=(asks_admitItems sdk w.store.deferred (batch id now)).leaves
        (f := fun w : World W => w) (fun op a w hop (_ : True) => handle_ask hop a w)
      apply hadmits.safe (fun _ h => h)
      intro o w' hadmit hw'
      refine ⟨hw',fun b hb => ?_⟩
      obtain ⟨hb,htally⟩ := hadmit b hb
      rw [hitems,nil_append] at hb
      rw [htotal] at htally
      exact ⟨hb,by rw [hb]; exact htally⟩

def Refuses (item : DeferredItem) : (op : Op) → op.Ans W → Prop
  | .ask (.verifyPaymentPayload payload url),answer =>
      payload=item.signedPayload → url=item.resourceUrl → answer≠Except.ok true
  | _,_ => True

variable {w : World W} {item : DeferredItem}

theorem verifyItem_safe {allowed I Q} (hI : I w) (hfail : ∀ e,Q (.fail e) w)
    (hdone : allowed w (.ask (.verifyPaymentPayload item.signedPayload item.resourceUrl))
      (Except.ok true) → Q (.done ()) w) : Safe handle allowed I Q (verifyItem item) w := by
  refine ⟨hI,fun (a : Except Error Bool) ha => ?_⟩
  rcases a with e | verified
  · exact ⟨hI,hfail _⟩
  cases verified with
  | true => exact ⟨hI,hdone ha⟩
  | false => exact ⟨hI,hfail _⟩

theorem admitItems_refused {items} (hitem : item∈items) (batch : DeferredBatch) (w : World W) :
    Safe handle (fun _ => Refuses item) (fun _ => True) (fun o _ => ∃ e,o=.fail e)
      (admitItems sdk items batch) w := by
  induction items generalizing batch with
  | nil => cases hitem
  | cons head rest ih =>
    apply Safe.bind
    refine verifyItem_safe trivial (fun e => ⟨e,rfl⟩) fun hok => ?_
    rcases mem_cons.1 hitem with hhead | hrest
    · exact absurd rfl (hok (by rw [hhead]) (by rw [hhead]))
    apply Safe.bind
    apply Safe.bind
    refine verifyItem_safe trivial (fun e => ⟨e,rfl⟩) fun _ => ?_
    unfold Then
    cases parseAmount head.amount with
    | error e => exact ⟨trivial,e,rfl⟩
    | ok minor => exact ⟨trivial,ih hrest _⟩

theorem collectBatch_unverified (date : String) {source} (hitem : item∈w.store.deferred)
    (hrefused : ∀ t,source t (.ask (.verifyPaymentPayload item.signedPayload item.resourceUrl))≠
      Except.ok true) : ∃ e,(exec handle source 0 (collectBatch sdk date) w).1=.fail e := by
  have hobeyed : ∀ t (w : World W) op,Refuses item op (source t op) := by
    intro t _ op
    cases op with
    | ask q =>
      cases q with
      | verifyPaymentPayload payload url =>
        intro hpayload hurl
        rw [hpayload,hurl]
        exact hrefused t
      | _ => trivial
    | _ => trivial
  have hnew:=newBatch_starts sdk date
  unfold collectBatch
  generalize DeferredBatch.new sdk date=new at hnew ⊢
  have hsafe : Safe handle (fun _ => Refuses item) (fun _ => True) (fun o _ => ∃ e,o=.fail e)
      (collectFrom sdk new) w := by
    cases hnew with
    | refused e => exact ⟨trivial,e,rfl⟩
    | started batch hitems htotal =>
      refine ⟨trivial,fun id _ => ⟨trivial,fun now _ => ⟨trivial,fun a _ => ?_⟩⟩⟩
      cases a with
      | some e => exact ⟨trivial,e,rfl⟩
      | none => exact admitItems_refused sdk hitem (batch id now) w
  exact Safe.exec 0 w hsafe (obeyed_of_forall _ _ _ hobeyed 0 _ w)

def DeferredBatch.authorizations (b : DeferredBatch) : List Bytes :=
  b.items.map DeferredItem.signedPayload

namespace Store

def queued (s : Store) : List Bytes := s.deferred.map DeferredItem.signedPayload
def persisted (s : Store) : List Bytes := s.batches.flatMap DeferredBatch.authorizations

def checkpointed (s : Store) : List DeferredBatch :=
  s.batches.filter fun b => s.checkpoints.contains b.contentHash

structure Once (s : Store) : Prop where
  distinct : s.persisted.Nodup
  totalled : ∀ b∈s.batches,tally b.items 0=.ok b.totalMinor

structure Fresh (s : Store) : Prop where
  distinct : s.queued.Nodup
  unbatched : ∀ a∈s.queued,a∉s.persisted

variable {s s' : Store}

theorem Once.of_batches (h : s.Once) (hs : s'.batches=s.batches) : s'.Once := by
  refine ⟨?_,?_⟩
  · unfold persisted
    rw [hs]
    exact h.distinct
  · rw [hs]
    exact h.totalled

theorem Once.batched (h : s.Once) (hfresh : s.Fresh) {b} (hitems : b.items=s.deferred)
    (htally : tally b.items 0=.ok b.totalMinor) (hs : s'.batches=s.batches++[b]) :
    s'.Once := by
  have hqueued : b.authorizations=s.queued := by
    unfold DeferredBatch.authorizations queued
    rw [hitems]
  have hpersisted : s'.persisted=s.persisted++s.queued := by
    unfold persisted
    rw [hs,flatMap_append,flatMap_singleton,hqueued]
  refine ⟨?_,fun b' hb' => ?_⟩
  · rw [hpersisted]
    refine h.distinct.append hfresh.distinct fun a ha ha' => ?_
    exact hfresh.unbatched a ha' ha
  · rw [hs,mem_append,mem_singleton] at hb'
    rcases hb' with hb' | hb'
    · exact h.totalled b' hb'
    · rw [hb']
      exact htally

theorem Once.nodup (h : s.Once) {b} (hb : b∈s.batches) : b.authorizations.Nodup :=
  (nodup_flatMap.1 h.distinct).1 b hb

theorem Once.at_most_one (h : s.Once) (a : Bytes) :
    (s.checkpointed.filter fun b => decide (a∈b.authorizations)).length≤1 := by
  have hmem : ∀ b∈s.checkpointed.filter fun b => decide (a∈b.authorizations),
      a∈b.authorizations := fun b hb => of_decide_eq_true (mem_filter.1 hb).2
  have hdisjoint:=(nodup_flatMap.1 h.distinct).2.sublist (filter_sublist.trans filter_sublist :
      (s.checkpointed.filter fun b => decide (a∈b.authorizations)).Sublist s.batches)
  generalize s.checkpointed.filter (fun b => decide (a∈b.authorizations))=holders
    at hmem hdisjoint ⊢
  rcases holders with _ | ⟨b,rest⟩
  · exact Nat.zero_le 1
  rcases rest with _ | ⟨b',rest⟩
  · exact le_refl 1
  have hapart:=(pairwise_cons.1 hdisjoint).1 b' (.head _)
  exact (hapart (hmem b (.head _)) (hmem b' (.tail _ (.head _)))).elim

end Store

theorem persistBatch_safe (honce : w.store.Once) (hfresh : w.store.Fresh) {b}
    (hitems : b.items=w.store.deferred) (htally : tally b.items 0=.ok b.totalMinor) :
    Safe handle (fun _ _ _ => True) (fun w' => w'.store.Once) (fun _ w' => w'.store.Once)
      (persistBatch b) w := by
  refine ⟨honce,fun a _ => ?_⟩
  cases a with
  | some e => exact ⟨honce,honce⟩
  | none =>
    have hrest : Emits (fun op : Op => op.log? ≠ some .batches) (fun _ => True)
        ((checkpointMmr b.contentHash).bind fun _ =>
          (replaceLog .deferred []).bind fun _ => (.done b : Proc Error DeferredBatch)) := by
      have hcheckpoint : Emits (fun op : Op => op.log? ≠ some .batches) (fun _ => True)
          (checkpointMmr b.contentHash) := by
        refine .call (by decide) fun r => ?_
        cases r with
        | error e => exact .fail e
        | ok leaves => exact .call (by simp [Op.log?]) fun r => .ofExcept r fun _ => trivial
      refine hcheckpoint.bind fun _ _ => ?_
      exact .call (by simp [Op.log?]) fun r =>
        (Emits.ofExcept r fun _ => trivial).bind fun _ _ => .done trivial
    have hlater:=hrest.leaves (f := fun w : World W => w.store.get .batches)
      (fun op a w' hop (_ : True) => handle_elsewhere hop a w')
    have honce' : ∀ w' : World W,w'.store.get .batches=(w.push .batches b).store.get .batches →
        w'.store.Once := fun w' hw' => honce.batched hfresh hitems htally hw'
    exact hlater.safe honce' fun _ w' _ hw' => honce' w' hw'

theorem commitFrom_safe {new} (hnew : StartsBatch new) (honce : w.store.Once)
    (hfresh : w.store.Fresh) :
    Safe handle (fun _ _ _ => True) (fun w' => w'.store.Once) (fun _ w' => w'.store.Once)
      ((collectFrom sdk new).bind persistBatch) w := by
  apply Safe.bind
  apply (collectFrom_safe sdk hnew w).mono
  · intro w' hw'
    rw [hw']
    exact honce
  · intro o w' _ hcollect
    obtain ⟨hw',hbatch⟩ := hcollect
    subst hw'
    cases o with
    | done b => exact persistBatch_safe honce hfresh (hbatch b rfl).1 (hbatch b rfl).2
    | fail | panic => exact honce

theorem commit_refused {date source e}
    (h : (exec handle source 0 (collectBatch sdk date) w).1=.fail e) :
    exec handle source 0 (commitDeferredBatch sdk date) w=(.fail e,w) := by
  have hnew:=newBatch_starts sdk date
  rw [commitDeferredBatch_eq]
  unfold collectBatch at h
  generalize DeferredBatch.new sdk date=new at hnew h ⊢
  have hsame:=(Safe.exec 0 w (collectFrom_safe sdk hnew w)
    (obeyed_of_forall handle source _ (fun _ _ _ => trivial) 0 _ w)).1
  rw [exec_bind_fail handle source h,hsame]

inductive DeferredCall where
  | enqueue (item : DeferredItem)
  | commit (date : String)

def DeferredCall.process : DeferredCall → Proc Error Unit
  | .enqueue item => appendLog .deferred item
  | .commit date => (commitDeferredBatch sdk date).bind fun _ => .done ()

/-- A call with the answers it gets, cut off after a number of operations. -/
structure DeferredEvent (W : Type) where
  call : DeferredCall
  source : ℕ → (op : Op) → op.Ans W
  steps : ℕ

def DeferredEvent.after (e : DeferredEvent W) (w : World W) : World W :=
  (Process.run handle e.source e.steps 0 (e.call.process sdk) w).2

def runDeferred : List (DeferredEvent W) → World W → World W
  | [],w => w
  | e::es,w => runDeferred es (e.after sdk w)

def DeferredEvent.Starts (e : DeferredEvent W) (w : World W) : Prop :=
  match e.call with
  | .enqueue _ => True
  | .commit _ => w.store.Fresh

def FreshCommits : List (DeferredEvent W) → World W → Prop
  | [],_ => True
  | e::es,w => e.Starts w ∧ FreshCommits es (e.after sdk w)

theorem once_after (e : DeferredEvent W) (honce : w.store.Once) (hstarts : e.Starts w) :
    (e.after sdk w).store.Once := by
  obtain ⟨call,source,steps⟩ := e
  have hsafe : Safe handle (fun _ _ _ => True) (fun w' => w'.store.Once) (fun _ w' => w'.store.Once)
      (call.process sdk) w := by
    cases call with
    | enqueue item =>
      refine ⟨honce,fun a _ => ?_⟩
      cases a with
      | some e => exact ⟨honce,honce⟩
      | none => exact ⟨honce.of_batches rfl,honce.of_batches rfl⟩
    | commit date =>
      have hnew:=newBatch_starts sdk date
      simp only [DeferredCall.process,commitDeferredBatch_eq]
      generalize DeferredBatch.new sdk date=new at hnew ⊢
      apply Safe.bind
      apply (commitFrom_safe sdk hnew honce hstarts).post
      intro o w' _ honce'
      cases o with
      | done b => exact ⟨honce',honce'⟩
      | fail | panic => exact honce'
  have hobeys:=obeys_of_forall handle source (fun _ _ _ => True) (fun _ _ _ => trivial) steps 0
    (call.process sdk) w
  exact (Safe.run steps 0 _ w hsafe hobeys).inv

theorem once_run {es} (honce : w.store.Once) (hfresh : FreshCommits sdk es w) :
    (runDeferred sdk es w).store.Once := by
  induction es generalizing w with
  | nil => exact honce
  | cons e es ih => exact ih (once_after sdk e honce hfresh.1) hfresh.2

instance decidableFresh (s : Store) : Decidable s.Fresh :=
  decidable_of_iff (s.queued.Nodup ∧ (s.queued.all fun a => !s.persisted.contains a)=true)
    ⟨fun h => ⟨h.1,by simpa using h.2⟩,fun h => ⟨h.distinct,by simpa using h.unbatched⟩⟩

instance decidableStarts (w : World W) : (e : DeferredEvent W) → Decidable (e.Starts w)
  | ⟨.enqueue _,_,_⟩ => isTrue trivial
  | ⟨.commit _,_,_⟩ => inferInstanceAs (Decidable w.store.Fresh)

instance decidableFreshCommits : (es : List (DeferredEvent W)) → (w : World W) →
    Decidable (FreshCommits sdk es w)
  | [],_ => isTrue trivial
  | e::es,w =>
      haveI := decidableFreshCommits es (e.after sdk w)
      inferInstanceAs (Decidable (e.Starts w ∧ FreshCommits sdk es (e.after sdk w)))

/-- Over admissions and commits, each cut off anywhere, with commits that start with a fresh
queue, every authorization is in one checkpointed batch at most. -/
theorem deferred_committed_once (es : List (DeferredEvent W)) (w : World W)
    (honce : w.store.Once) (hfresh : FreshCommits sdk es w) :
    let v:=runDeferred sdk es w
    (∀ a,(v.store.checkpointed.filter fun b => decide (a∈b.authorizations)).length≤1) ∧
      (∀ b∈v.store.batches,b.authorizations.Nodup ∧ tally b.items 0=.ok b.totalMinor) ∧
      (∀ date source e,(exec handle source 0 (collectBatch sdk date) v).1=.fail e →
        exec handle source 0 (commitDeferredBatch sdk date) v=(.fail e,v)) ∧
      ∀ date source,∀ item∈v.store.deferred,
        (∀ t,source t (.ask (.verifyPaymentPayload item.signedPayload item.resourceUrl))≠
          Except.ok true) →
        ∃ e,exec handle source 0 (commitDeferredBatch sdk date) v=(.fail e,v) := by
  intro v
  have honce' : v.store.Once := once_run sdk honce hfresh
  refine ⟨honce'.at_most_one,fun b hb => ⟨honce'.nodup hb,honce'.totalled b hb⟩,
    fun date source e h => commit_refused sdk h,?_⟩
  intro date source item hitem hrefused
  obtain ⟨e,he⟩ := collectBatch_unverified sdk date hitem hrefused
  exact ⟨e,commit_refused sdk he⟩

namespace Sample

def batchSdk : PaySdk :=
  { paySdk with itemsJson := fun _ items => (items.map DeferredItem.signedPayload).flatten }

def commitment (payload : Bytes) : DeferredItem where
  paymentOrderId := "o1"
  amount := "1.00"
  currency := "USD"
  signedPayload := payload
  resourceUrl := "https://shop"

def enqueue (payload : Bytes) : DeferredEvent Unit :=
  ⟨.enqueue (commitment payload),source .default "a" accepting,1⟩

def commit (stamp : String) (steps : ℕ) : DeferredEvent Unit :=
  ⟨.commit "2026-08-23",source .default stamp accepting,steps⟩

theorem emptyWorld_once : emptyWorld.store.Once := ⟨nodup_nil,fun _ hb => by cases hb⟩

end Sample
open Sample

/-- A commit is cut off after its checkpoint, before it empties the queue, and the next one
commits the authorization again; and an authorization that is admitted twice is counted twice. -/
theorem deferred_committed_twice :
    let crashed:=runDeferred batchSdk
      [Sample.enqueue [7],Sample.commit "a" 8,Sample.commit "b" 20] emptyWorld
    let replayed:=runDeferred batchSdk
      [Sample.enqueue [7],Sample.enqueue [7],Sample.commit "a" 20] emptyWorld
    emptyWorld.store.Once ∧ (crashed.store.checkpointed.map DeferredBatch.batchId=["a","b"] ∧
        crashed.store.checkpointed.map DeferredBatch.authorizations=[[[7]],[[7]]]) ∧
      replayed.store.checkpointed.map DeferredBatch.authorizations=[[[7],[7]]] ∧
        replayed.store.checkpointed.map DeferredBatch.totalMinor=[200] := by
  intro crashed replayed
  exact ⟨emptyWorld_once,⟨by decide +kernel,by decide +kernel⟩,by decide +kernel,by decide +kernel⟩

/-- A commit that is cut off before its manifest, the same commit again, and one more. -/
theorem deferred_committed_once_two_batches :
    let es:=[Sample.enqueue [7],Sample.commit "a" 5,Sample.commit "b" 20,Sample.enqueue [8],
      Sample.commit "c" 20]
    let v:=runDeferred batchSdk es emptyWorld
    v.store.checkpointed.map DeferredBatch.authorizations=[[[7]],[[8]]] ∧
      ∀ b∈v.store.batches,b.authorizations.Nodup ∧ tally b.items 0=.ok b.totalMinor := by
  intro es v
  exact ⟨by decide +kernel,(deferred_committed_once batchSdk es emptyWorld
    emptyWorld_once (by decide +kernel)).2.1⟩

end OriginTools.Payments
