import OriginTools.Payments.Executor

/-!
# The life of an order

An abstract machine over what decides whether an order is paid once: the order log, the
journal, the dead letters and the requests the rails have received.
-/

namespace OriginTools.Payments

structure Book where
  orders : List PaymentOrder
  postings : List LedgerPosting
  dead : List DlqRecord
  requests : List RailRequest

namespace Book

def logged (b : Book) (o : PaymentOrder) : Book := { b with orders := b.orders++[o] }
def posted (b : Book) (p : LedgerPosting) : Book := { b with postings := b.postings++[p] }
def buried (b : Book) (r : DlqRecord) : Book := { b with dead := b.dead++[r] }
def requested (b : Book) (r : RailRequest) : Book := { b with requests := b.requests++[r] }
def current (b : Book) (id : String) : Option PaymentOrder := latest b.orders id

theorem current_logged (b : Book) (o : PaymentOrder) (id : String) :
    (b.logged o).current id=if o.paymentOrderId=id then some o else b.current id :=
  latest_append b.orders o id

theorem current_logged_self (b : Book) (o : PaymentOrder) :
    (b.logged o).current o.paymentOrderId=some o :=
  latest_append_self b.orders o

theorem current_logged_ne (b : Book) {o id} (h : id≠o.paymentOrderId) :
    (b.logged o).current id=b.current id :=
  latest_append_ne b.orders h

theorem current_id {b : Book} {id} {o : PaymentOrder} (h : b.current id=some o) :
    o.paymentOrderId=id :=
  latest_id h

@[simp] theorem buried_dead (b : Book) (r : DlqRecord) : (b.buried r).dead=b.dead++[r] := rfl

@[simp] theorem requested_requests (b : Book) (r) : (b.requested r).requests=b.requests++[r] := rfl

end Book
namespace PaymentOrder

def started (o : PaymentOrder) (now since : String) : PaymentOrder :=
  { o with
    status := .executing,updatedAt := now,executingSince := some since,
    attempts := o.attempts+1 }

def settled (o : PaymentOrder) (now : String) (receipt : RailReceipt) (walletUpdated : Bool) :
    PaymentOrder :=
  { o with
    receipt := some receipt,status := .success,updatedAt := now,ledgerUpdated := true,
    walletUpdated := walletUpdated }

def postponed (o : PaymentOrder) (now deadline : String) : PaymentOrder :=
  { o with status := .failed,updatedAt := now,nextRetryAt := some deadline }

def parked (o : PaymentOrder) (now : String) : PaymentOrder :=
  { o with status := .requiresAction,updatedAt := now }

def refused (o : PaymentOrder) (now : String) : PaymentOrder :=
  { o with status := .failed,updatedAt := now }

def requeued (o : PaymentOrder) (now : String) : PaymentOrder :=
  { o with
    status := .notStarted,updatedAt := now,executingSince := none,nextRetryAt := none }

def counted (o : PaymentOrder) : PaymentOrder := { o with attempts := o.attempts+1 }

def Ready (o : PaymentOrder) : Prop :=
  o.status=.notStarted ∨ (o.status=.failed ∧ o.nextRetryAt≠none)

def IsNew (o : PaymentOrder) : Prop := o.status=.notStarted ∧ o.attempts=0 ∧ o.nextRetryAt=none

end PaymentOrder

inductive Phase where
  | off
  | pass (config : PaymentsConfig)
  | attempt (config : PaymentsConfig) (o : PaymentOrder) (sent : Bool)
  | posting (config : PaymentsConfig) (o : PaymentOrder) (batch : String)
  | failing (pass : Option PaymentsConfig) (o : PaymentOrder)

/-- Where a process goes on after a dead letter: in its pass, or nowhere. -/
def Phase.back : Option PaymentsConfig → Phase
  | some config => .pass config
  | none => .off

structure Rules where
  start : Book → PaymentsConfig → Prop
  cut : Book → Prop
  bury : Book → String → Prop
  crash : Book → Prop
  callbacks : Prop

inductive Step (R : Rules) : Phase × Book → Phase × Book → Prop
  | start {b : Book} {config : PaymentsConfig} (h : R.start b config) :
      Step R (.off,b) (.pass config,b)
  | finish {b : Book} {config : PaymentsConfig} : Step R (.pass config,b) (.off,b)
  | crash {ph : Phase} {b : Book} (h : R.crash b) : Step R (ph,b) (.off,b)
  | requeue {b : Book} {config : PaymentsConfig} {o : PaymentOrder} {now : String}
      (hcur : b.current o.paymentOrderId=some o) (hs : o.status=.executing)
      (ha : o.attempts+1<config.retry.maxAttempts) :
      Step R (.pass config,b) (.pass config,b.logged (o.counted.requeued now))
  | expire {b : Book} {config : PaymentsConfig} {o : PaymentOrder} {now : String}
      (hcur : b.current o.paymentOrderId=some o) (hs : o.status=.executing) :
      Step R (.pass config,b)
        (.failing (some config) (o.counted.refused now),b.logged (o.counted.refused now))
  | pick {b : Book} {config : PaymentsConfig} {o : PaymentOrder} {now since : String}
      (hcur : b.current o.paymentOrderId=some o) (hr : o.Ready) :
      Step R (.pass config,b)
        (.attempt config (o.started now since) false,b.logged (o.started now since))
  | submit {b : Book} {config : PaymentsConfig} {o : PaymentOrder} {r : RailRequest}
      (hg : (settleGate config o).isOk) (hid : r.orderId=o.paymentOrderId) :
      Step R (.attempt config o false,b) (.attempt config o true,b.requested r)
  | post {b : Book} {config : PaymentsConfig} {o : PaymentOrder} {p : LedgerPosting}
      (hid : p.paymentOrderId=o.paymentOrderId) :
      Step R (.attempt config o true,b) (.posting config o p.batchId,b.posted p)
  | postMore {b : Book} {config : PaymentsConfig} {o : PaymentOrder} {p : LedgerPosting}
      (hid : p.paymentOrderId=o.paymentOrderId) :
      Step R (.posting config o p.batchId,b) (.posting config o p.batchId,b.posted p)
  | settle {b : Book} {config : PaymentsConfig} {o : PaymentOrder} {batch now : String}
      {receipt : RailReceipt} {walletUpdated : Bool} :
      Step R (.posting config o batch,b)
        (.pass config,b.logged (o.settled now receipt walletUpdated))
  | postpone {b : Book} {config : PaymentsConfig} {o : PaymentOrder} {sent : Bool}
      {now deadline : String} (hg : (settleGate config o).isOk)
      (ha : o.attempts<config.retry.maxAttempts) :
      Step R (.attempt config o sent,b) (.pass config,b.logged (o.postponed now deadline))
  | park {b : Book} {config : PaymentsConfig} {o : PaymentOrder} {now : String} :
      Step R (.attempt config o true,b) (.pass config,b.logged (o.parked now))
  | refuse {b : Book} {config : PaymentsConfig} {o : PaymentOrder} {sent : Bool} {now : String} :
      Step R (.attempt config o sent,b)
        (.failing (some config) (o.refused now),b.logged (o.refused now))
  | cut {b : Book} {config : PaymentsConfig} {o : PaymentOrder} {batch : String}
      (h : R.cut b) : Step R (.posting config o batch,b) (.attempt config o true,b)
  | bury {b : Book} {back : Option PaymentsConfig} {o : PaymentOrder} {r : DlqRecord}
      (hid : r.paymentOrderId=o.paymentOrderId) (h : R.bury b r.paymentOrderId) :
      Step R (.failing back o,b) (Phase.back back,b.buried r)
  | payout {b : Book} {config : PaymentsConfig} {o : PaymentOrder}
      (hfresh : b.current o.paymentOrderId=none) (hnew : o.IsNew) :
      Step R (.pass config,b) (.pass config,b.logged o)
  | confirm {b : Book} {o : PaymentOrder} {now : String} (hc : R.callbacks)
      (hcur : b.current o.paymentOrderId=some o) (hs : o.status=.requiresAction) :
      Step R (.off,b) (.off,b.logged (o.requeued now))
  | reject {b : Book} {o : PaymentOrder} {now : String} (hc : R.callbacks)
      (hcur : b.current o.paymentOrderId=some o) (hs : o.status=.requiresAction) :
      Step R (.off,b) (.failing none (o.refused now),b.logged (o.refused now))

def Steps (R : Rules) : Phase × Book → Phase × Book → Prop := Relation.ReflTransGen (Step R)

namespace Steps
variable {R : Rules}

theorem refl (a) : Steps R a a := Relation.ReflTransGen.refl

theorem step {a a' a''} (h : Steps R a a') (hs : Step R a' a'') : Steps R a a'' :=
  Relation.ReflTransGen.tail h hs

theorem invariant {I : Phase × Book → Prop} (hstep : ∀ a a',I a → Step R a a' → I a') {a a'}
    (h : Steps R a a') (ha : I a) : I a' := by
  induction h with
  | refl => exact ha
  | tail _ hs ih => exact hstep _ _ ih hs

end Steps
end OriginTools.Payments
