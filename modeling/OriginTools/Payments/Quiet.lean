import OriginTools.Payments.Lifecycle

/-!
# Processes that leave the book alone

Most of what a pass does (notifications, audit records, the event roll-up, the questions
it asks) touches neither the order log, the journal, the dead letters nor a rail.
-/

namespace OriginTools.Payments
open Process
variable {W : Type}

def World.book (w : World W) : Book where
  orders := w.store.orders
  postings := w.store.postings
  dead := w.store.dlq
  requests := w.requests

def Op.works : (op : Op) → op.Ans W → Bool
  | .read _,a => Option.isNone a
  | .append _ _,a => Option.isNone a
  | .replace _ _,a => Option.isNone a
  | _,_ => true

def Op.buries : Op → Option String
  | .append .dlq r => some (DlqRecord.paymentOrderId r)
  | _ => none

def Op.starts : (op : Op) → op.Ans W → Option PaymentsConfig
  | .ask .config,.ok config => some config
  | _,_ => none

def Op.cuts : (op : Op) → op.Ans W → Bool
  | .ask (.sign _ _),.error _ => true
  | _,_ => false

/-- The store works; a dead letter is written, a pass starts and a signature fails
only where the rules permit it. -/
def Allowed (R : Rules) (w : World W) (op : Op) (a : op.Ans W) : Prop :=
  op.works a=true ∧ (∀ id∈op.buries,R.bury w.book id) ∧
    (∀ config∈op.starts a,R.start w.book config) ∧ (op.cuts a=true → R.cut w.book)

class Rules.Decides (R : Rules) where
  start : ∀ b config,Decidable (R.start b config)
  cut : ∀ b,Decidable (R.cut b)
  bury : ∀ b id,Decidable (R.bury b id)
  crash : ∀ b,Decidable (R.crash b)
  callbacks : Decidable R.callbacks

attribute [reducible,instance] Rules.Decides.start Rules.Decides.cut Rules.Decides.bury
  Rules.Decides.crash Rules.Decides.callbacks

instance decidableAllowed (R : Rules) [R.Decides] (w : World W) (op : Op) (a : op.Ans W) :
    Decidable (Allowed R w op a) := inferInstanceAs (Decidable (_ ∧ _ ∧ _ ∧ _))

def Log.aside : Log → Bool
  | .orders => false
  | .postings => false
  | .dlq => false
  | _ => true

theorem book_set_aside (w : World W) {l} (es) (h : l.aside=true) :
    ({ w with store := w.store.set l es } : World W).book=w.book := by
  cases l <;> first | rfl | cases h

def Quiet {ε α : Type} (W : Type) (R : Rules) (post : Outcome ε α → Prop) (p : Proc ε α) : Prop :=
  Leaves (handle (W := W)) (Allowed R) World.book post p

def QuietReturns {ε α : Type} (W : Type) (R : Rules) (P : α → Prop) (p : Proc ε α) : Prop :=
  Quiet W R (fun o => ∃ a,o=.done a ∧ P a) p

def QuietEnds {ε α : Type} (W : Type) (R : Rules) (p : Proc ε α) : Prop :=
  Quiet W R (fun o => o≠.panic) p

section
variable {ε ε' α β : Type} {R : Rules}
variable {P : α → Prop}

theorem QuietReturns.of_done {a} (h : P a) : QuietReturns W R P (.done a : Proc ε α) :=
  Leaves.of_done a ⟨a,rfl,h⟩

variable {p : Proc ε α}

theorem QuietReturns.bind {post : Outcome ε β → Prop} {g : α → Proc ε β} (h : QuietReturns W R P p)
    (hg : ∀ a,P a → Quiet W R post (g a)) : Quiet W R post (p.bind g) := by
  apply Leaves.bind h
  · rintro a ⟨a',ha,hP⟩
    cases ha
    exact hg a hP
  · rintro e ⟨a,ha,_⟩
    cases ha
  · rintro ⟨a,ha,_⟩
    cases ha

theorem QuietReturns.mapErr {g : ε → ε'} (h : QuietReturns W R P p) :
    QuietReturns W R P (p.mapErr g) := by
  apply Leaves.mapErr
  apply Leaves.mono h
  rintro o ⟨a,rfl,ha⟩
  exact ⟨a,rfl,ha⟩

theorem QuietReturns.ends (h : QuietReturns W R P p) : QuietEnds W R p := by
  apply Leaves.mono h
  rintro o ⟨a,rfl,_⟩ he
  cases he

theorem QuietEnds.bind {g : α → Proc ε β} (h : QuietEnds W R p) (hg : ∀ a,QuietEnds W R (g a)) :
    QuietEnds W R (p.bind g) := by
  apply Leaves.bind h
  · intro a _
    exact hg a
  · intro e _ he
    cases he
  · intro hp
    exact absurd rfl hp

theorem QuietEnds.mapErr {g : ε → ε'} (h : QuietEnds W R p) : QuietEnds W R (p.mapErr g) := by
  apply Leaves.mapErr
  apply Leaves.mono h
  intro o ho he
  cases o with
  | done | fail => cases he
  | panic => exact ho rfl

theorem quietEnds_done (a : α) : QuietEnds W R (.done a : Proc ε α) :=
  Leaves.of_done a fun h => by cases h

theorem quietEnds_fail (e : ε) : QuietEnds W R (.fail e : Proc ε α) :=
  Leaves.of_fail fun h => by cases h

theorem quiet_ask (q : Question) : QuietReturns W R (fun _ => True) (ask q : Proc ε q.Answer) :=
  fun _ => ⟨rfl,fun ans _ => ⟨rfl,⟨ans,rfl,trivial⟩,rfl⟩⟩

theorem quiet_readLog (l : Log) : QuietReturns W R (fun _ => True) (readLog l) := by
  intro w
  refine ⟨rfl,fun ans ha => ?_⟩
  cases ans with
  | none => exact ⟨rfl,⟨_,rfl,trivial⟩,rfl⟩
  | some e => cases ha.1

theorem quiet_appendLog (l : Log) (entry : l.Entry) (h : l.aside=true) :
    QuietReturns W R (fun _ => True) (appendLog l entry) := by
  intro w
  refine ⟨rfl,fun ans ha => ?_⟩
  have hbook:=book_set_aside w (w.store.get l++[entry]) h
  cases ans with
  | none => exact ⟨hbook,⟨(),rfl,trivial⟩,hbook⟩
  | some e => cases ha.1

theorem quiet_replaceLog (l : Log) (entries) (h : l.aside=true) :
    QuietReturns W R (fun _ => True) (replaceLog l entries) := by
  intro w
  refine ⟨rfl,fun ans ha => ?_⟩
  have hbook:=book_set_aside w entries h
  cases ans with
  | none => exact ⟨hbook,⟨(),rfl,trivial⟩,hbook⟩
  | some e => cases ha.1

theorem quiet_ofExcept (r) : QuietEnds W R (ofExcept r : Proc ε α) := by
  cases r with
  | ok a => exact quietEnds_done a
  | error e => exact quietEnds_fail e

theorem quietEnds_ask {q : Question} {g : q.Answer → Proc ε α} (h : ∀ r,QuietEnds W R (g r)) :
    QuietEnds W R ((ask q).bind g) :=
  (quiet_ask q).bind fun r _ => h r

theorem quiet_transition (o : PaymentOrder) (target) (h : o.status.canTransition target=true) :
    QuietReturns W R (fun o' => ∃ now,o'={ o with status := target,updatedAt := now })
      (o.transition target) := by
  rw [PaymentOrder.transition,if_pos h]
  exact (quiet_ask .now).bind fun now _ => QuietReturns.of_done ⟨now,rfl⟩

theorem quiet_latestOrders : QuietReturns W R (fun _ => True) latestOrders :=
  (quiet_readLog .orders).bind fun lines _ =>
    (quiet_ask (.hashOrder (latestOf lines))).bind fun _ _ => QuietReturns.of_done trivial

theorem quiet_recordReceiptHash (orderId hash) :
    QuietReturns W R (fun _ => True) (recordReceiptHash orderId hash) :=
  (quiet_ask .now).bind fun _ _ => quiet_appendLog .receipts _ rfl

theorem quiet_isReceiptSettled (hash : Bytes) :
    QuietReturns W R (fun _ => True) (isReceiptSettled hash) :=
  (quiet_readLog .receipts).bind fun _ _ => QuietReturns.of_done trivial

theorem quiet_notify (orderId event : String) :
    QuietReturns W R (fun _ => True) (notify orderId event) :=
  (quiet_ask .uuid).bind fun _ _ => (quiet_ask .now).bind fun _ _ =>
    quiet_appendLog .notifications _ rfl

theorem quiet_checkpointMmr (leaf : Bytes) :
    QuietReturns W R (fun _ => True) (checkpointMmr leaf) :=
  (quiet_readLog .checkpoints).bind fun _ _ => quiet_replaceLog .checkpoints _ rfl

variable (sdk : PaySdk)

theorem quiet_auditRecord (entryType payload) :
    QuietReturns W R (fun _ => True) (auditRecord sdk entryType payload none) :=
  (quiet_readLog .audit).bind fun _ _ => (quiet_ask .nanos).bind fun _ _ =>
    quiet_appendLog .audit _ rfl

theorem quiet_rollupEvent (orderId : String) :
    QuietReturns W R (fun _ => True) (rollupEvent orderId) := by
  apply (quiet_readLog .events).bind
  intro events _
  beta_reduce
  split
  · exact QuietReturns.of_done trivial
  · exact quiet_latestOrders.bind fun orders _ => quiet_appendLog .events _ rfl

theorem quiet_verifyItem (item) : QuietEnds W R (verifyItem item) := by
  refine QuietEnds.bind (QuietEnds.mapErr (quietEnds_ask fun r => quiet_ofExcept r)) fun ok => ?_
  cases ok with
  | true => exact quietEnds_done ()
  | false => exact quietEnds_fail _

theorem quiet_batchNew (date : String) : QuietEnds W R (DeferredBatch.new sdk date) := by
  rw [DeferredBatch.new]
  split
  · exact quietEnds_fail _
  · exact (quiet_ask .uuid).bind fun _ _ => (quiet_ask .now).bind fun _ _ => quietEnds_done _

theorem quiet_batchPush (batch : DeferredBatch) (item) : QuietEnds W R (batch.push sdk item) := by
  rw [DeferredBatch.push,bind_eq]
  refine (quiet_verifyItem item).bind fun _ => ?_
  generalize parseAmount item.amount=parsed
  exact (quiet_ofExcept parsed).bind fun _ => quietEnds_done _

theorem quiet_admitItems (items batch) : QuietEnds W R (admitItems sdk items batch) := by
  induction items generalizing batch with
  | nil => exact quietEnds_done batch
  | cons item rest ih =>
    exact (quiet_verifyItem item).bind fun _ =>
      (quiet_batchPush sdk batch item).bind fun batch => ih batch

theorem quiet_commitDeferredBatch (date : String) :
    QuietEnds W R (commitDeferredBatch sdk date) := by
  have hnew:=quiet_batchNew (W := W) (R := R) sdk date
  rw [commitDeferredBatch,bind_eq]
  generalize DeferredBatch.new sdk date=new at hnew ⊢
  refine hnew.bind fun batch => ?_
  refine (quiet_readLog .deferred).ends.bind fun items => ?_
  rw [bind_eq]
  refine (quiet_admitItems sdk items batch).bind fun batch => ?_
  refine (quiet_appendLog .batches batch rfl).ends.bind fun _ => ?_
  refine (quiet_checkpointMmr batch.contentHash).ends.bind fun _ => ?_
  exact (quiet_replaceLog .deferred [] rfl).ends.bind fun _ => quietEnds_done batch

theorem quiet_commitDeferred (config) : QuietEnds W R (commitDeferred sdk config) := by
  rw [commitDeferred]
  split
  · apply (quiet_readLog .deferred).ends.bind
    intro pending
    show QuietEnds W R (if List.isEmpty pending then _ else _)
    split
    · exact quietEnds_done 0
    · refine (quiet_ask .today).ends.bind fun date => ?_
      have hcommit:=quiet_commitDeferredBatch (W := W) (R := R) sdk date
      rw [bind_eq]
      generalize commitDeferredBatch sdk date=commit at hcommit ⊢
      exact hcommit.bind fun _ => quietEnds_done 1
  · exact quietEnds_done 0

theorem quiet_openWallet (path : String) : QuietEnds W R (openWallet path) := by
  apply QuietEnds.mapErr
  intro w
  refine ⟨rfl,fun ans _ => ?_⟩
  cases ans with
  | none | some => exact ⟨rfl,(fun h => by cases h),rfl⟩

theorem quiet_saveWallet : QuietEnds W R saveWallet := by
  apply QuietEnds.mapErr
  intro w
  refine ⟨rfl,fun ans _ => ?_⟩
  cases ans with
  | none | some => exact ⟨rfl,(fun h => by cases h),rfl⟩

end
end OriginTools.Payments
