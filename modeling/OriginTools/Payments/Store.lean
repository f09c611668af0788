import OriginTools.Foundation.Process
import OriginTools.Payments.Decimal

/-!
# The payment store and the world around a process

Every collection of the store is a log of records.
-/

namespace OriginTools.Payments

inductive Account where
  | debit
  | credit
  deriving DecidableEq

structure PostingBody where
  postingId : String
  batchId : String
  paymentOrderId : String
  account : Account
  amount : String
  currency : String
  ts : String
  prevHash : Bytes
  fxRate : Option FxRate

structure LedgerPosting extends PostingBody where
  signature : Option Bytes
  signer : Option OrderSigner

inductive PayloadValue where
  | text (s : String)
  | number (n : ℤ)
  | null

abbrev Payload := List (String × PayloadValue)

def PayloadValue.ofOption : Option String → PayloadValue
  | some s => .text s
  | none => .null

structure AuditRecord where
  prevHash : Bytes
  seq : ℕ
  entryType : ℕ
  payloadHash : Bytes
  payload : Payload
  timestamp : ℕ
  signature : Option Bytes

structure RetryJob where
  paymentOrderId : String
  attempt : ℕ
  nextRetryAt : String
  backoffMs : ℕ
  lastError : String

structure DlqRecord where
  paymentOrderId : String
  reason : String
  evidence : Payload
  createdAt : String

structure Notification where
  notificationId : String
  paymentOrderId : String
  event : String
  createdAt : String

structure ReceiptRecord where
  orderId : String
  hash : Bytes
  recordedAt : String

structure DeferredItem where
  paymentOrderId : String
  amount : String
  currency : String
  signedPayload : Bytes
  resourceUrl : String

structure DeferredBatch where
  batchId : String
  date : String
  createdAt : String
  items : List DeferredItem
  contentHash : Bytes
  totalMinor : ℤ

structure RetryPolicy where
  baseMs : ℕ
  factor : ℕ
  capMs : ℕ
  maxAttempts : ℕ
  deriving DecidableEq

inductive SettlementPreference where
  | hold
  | offRamp
  | split

structure PaymentsConfig where
  enabledRails : List String
  retry : RetryPolicy
  perTxCap : Option String
  executingTtlSecs : ℕ
  deferredSettlementEnabled : Bool
  settlementPreference : SettlementPreference
  splitPct : ℕ

def PaymentsConfig.default : PaymentsConfig where
  enabledRails := ["native"]
  retry := { baseMs := 1000,factor := 2,capMs := 300000,maxAttempts := 5 }
  perTxCap := none
  executingTtlSecs := 300
  deferredSettlementEnabled := false
  settlementPreference := .hold
  splitPct := 50

structure FacilitatorConfig where
  url : String
  apiKey : String

inductive Log where
  | orders
  | events
  | postings
  | retryJobs
  | dlq
  | notifications
  | audit
  | receipts
  | deferred
  | batches
  | checkpoints
  deriving DecidableEq

def Log.Entry : Log → Type
  | .orders => PaymentOrder
  | .events => PaymentEvent
  | .postings => LedgerPosting
  | .retryJobs => RetryJob
  | .dlq => DlqRecord
  | .notifications => Notification
  | .audit => AuditRecord
  | .receipts => ReceiptRecord
  | .deferred => DeferredItem
  | .batches => DeferredBatch
  | .checkpoints => Bytes

/-- The files of the payments root; `checkpoints` are the leaves of `mmr.json`. -/
structure Store where
  orders : List PaymentOrder := []
  events : List PaymentEvent := []
  postings : List LedgerPosting := []
  retryJobs : List RetryJob := []
  dlq : List DlqRecord := []
  notifications : List Notification := []
  audit : List AuditRecord := []
  receipts : List ReceiptRecord := []
  deferred : List DeferredItem := []
  batches : List DeferredBatch := []
  checkpoints : List Bytes := []

namespace Store

def get (s : Store) : (l : Log) → List l.Entry
  | .orders => s.orders
  | .events => s.events
  | .postings => s.postings
  | .retryJobs => s.retryJobs
  | .dlq => s.dlq
  | .notifications => s.notifications
  | .audit => s.audit
  | .receipts => s.receipts
  | .deferred => s.deferred
  | .batches => s.batches
  | .checkpoints => s.checkpoints

def set (s : Store) : (l : Log) → List l.Entry → Store
  | .orders,es => { s with orders := es }
  | .events,es => { s with events := es }
  | .postings,es => { s with postings := es }
  | .retryJobs,es => { s with retryJobs := es }
  | .dlq,es => { s with dlq := es }
  | .notifications,es => { s with notifications := es }
  | .audit,es => { s with audit := es }
  | .receipts,es => { s with receipts := es }
  | .deferred,es => { s with deferred := es }
  | .batches,es => { s with batches := es }
  | .checkpoints,es => { s with checkpoints := es }

theorem get_set_self (s : Store) (l : Log) (es) : (s.set l es).get l=es := by
  cases l <;> rfl

theorem get_set_ne (s : Store) {l l'} (es) (h : l'≠l) : (s.set l es).get l'=s.get l' := by
  cases l <;> cases l' <;> first | rfl | exact absurd rfl h

end Store

inductive ComplianceVerdict where
  | accept
  | flag (reason : String)
  | reject (reason : String)

structure PaymentOption where
  scheme : String
  network : String
  payTo : String
  amount : String
  maxTimeoutSecs : Option ℕ

structure PaymentRequirements where
  accepts : List PaymentOption

inductive VerifyVerdict where
  | accept
  | reject (reason : String)

structure SettlementResponse where
  status : String
  transaction : Option String
  error : Option String

/-- What the code asks of the system, the keys, the vault and the network without
moving money. Operator keys are named by their public part. -/
inductive Question where
  | config
  | now
  | uuid
  | today
  | nanos
  | random
  | deadline (backoffMs : ℕ)
  | expired (since : String) (ttlSecs : ℕ)
  | hashOrder (orders : List PaymentOrder)
  | operatorKeys
  | sign (keys : OrderSigner) (body : Bytes)
  | cents (minor : ℤ)
  | score (order : PaymentOrder)
  | facilitatorConfig (rail : String)
  | httpGet (url : String)
  | parseRequirements (raw : String)
  | signPayment (keys : OrderSigner) (requirements : PaymentRequirements) (url : String)
  | verifySignedPayload (payload : Bytes) (url amount : String)
  | verifyPaymentPayload (payload : Bytes) (url : String)
  | facilitatorVerify (cfg : FacilitatorConfig) (payload : Bytes)
      (requirements : PaymentRequirements) (url : String)
  | decodeReceipt (raw : String)
  | settlementResponse (receipt : Bytes)
  | settlementRef (receipt : Bytes)

/-- The type of the reply. Arithmetic on times panics out of range (`none`); a hash
map gives its values in any order; an HTTP reply is its status and the one header
that the caller looks up. -/
def Question.Answer : Question → Type
  | .config => Except Error PaymentsConfig
  | .now => String
  | .uuid => String
  | .today => String
  | .nanos => ℕ
  | .random => ℕ
  | .deadline _ => Option String
  | .expired _ _ => Option Bool
  | .hashOrder orders => { shuffled : List PaymentOrder // shuffled.Perm orders }
  | .operatorKeys => Option OrderSigner
  | .sign _ _ => Except Error Bytes
  | .cents _ => String
  | .score _ => Except Error ComplianceVerdict
  | .facilitatorConfig _ => Except Error (Option FacilitatorConfig)
  | .httpGet _ => Except Error (ℕ × Option String)
  | .parseRequirements _ => Except Error PaymentRequirements
  | .signPayment _ _ _ => Except Error Bytes
  | .verifySignedPayload _ _ _ => VerifyVerdict
  | .verifyPaymentPayload _ _ => Except Error Bool
  | .facilitatorVerify _ _ _ _ => Except Error Bool
  | .decodeReceipt _ => Except Error Bytes
  | .settlementResponse _ => Except Error SettlementResponse
  | .settlementRef _ => String

structure NativePayParams where
  recipient : String
  amount : ℕ
  memo : Bytes
  spendCap : Option ℕ
  credit : Option ℕ

structure CardAuthRequest where
  token : String
  network : String
  last4 : String
  amount : String
  currency : String
  paymentOrderId : String
  checkoutId : String

inductive FacilitatorSettleOutcome where
  | settled (receipt : Bytes)
  | pending (transaction : Option String) (retryAfter : Option ℕ)
  | rejected (error : String) (retryAfter : Option ℕ)

inductive CardAuthOutcome where
  | settled (auth : Bytes)
  | pending (transaction : Option String)
  | declined (error : String)

inductive RailRequest where
  | pay (orderId : String) (params : NativePayParams)
  | x402Pay (orderId url : String) (payload : Bytes)
  | facilitatorSettle (orderId : String) (cfg : FacilitatorConfig) (payload : Bytes)
      (requirements : PaymentRequirements) (url : String)
  | authorize (cfg : FacilitatorConfig) (req : CardAuthRequest)

def RailRequest.orderId : RailRequest → String
  | .pay orderId _ => orderId
  | .x402Pay orderId _ _ => orderId
  | .facilitatorSettle orderId _ _ _ _ => orderId
  | .authorize _ req => req.paymentOrderId

/-- The rail's answer; for the native rail the receipt together with the result of
serializing it. -/
def RailRequest.Answer : RailRequest → Type
  | .pay _ _ => Except String (Except String Bytes)
  | .x402Pay _ _ _ => Except Error (ℕ × Option String)
  | .facilitatorSettle _ _ _ _ _ => Except Error FacilitatorSettleOutcome
  | .authorize _ _ => Except Error CardAuthOutcome

inductive Op where
  | read (l : Log)
  | append (l : Log) (entry : l.Entry)
  | replace (l : Log) (entries : List l.Entry)
  | ask (q : Question)
  | submit (r : RailRequest)
  | openWallet
  | saveWallet

def Op.Resp : Op → Type
  | .read l => Except Error (List l.Entry)
  | .append _ _ => Except Error Unit
  | .replace _ _ => Except Error Unit
  | .ask q => q.Answer
  | .submit r => r.Answer
  | .openWallet => Except String Unit
  | .saveWallet => Except String Unit

/-- What the outside decides about an operation: whether it fails, the reply to a
question, and for a rail the answer with the wallet as the native rail leaves it. -/
def Op.Ans (W : Type) : Op → Type
  | .read _ => Option Error
  | .append _ _ => Option Error
  | .replace _ _ => Option Error
  | .ask q => q.Answer
  | .submit r => r.Answer × W
  | .openWallet => Option String
  | .saveWallet => Option String

/-- The store, every request the rails have received, the wallet that the running
pass has opened and the wallet file. -/
structure World (W : Type) where
  store : Store
  requests : List RailRequest := []
  wallet : W
  walletFile : W

variable {W : Type}

def World.push (w : World W) (l : Log) (entry : l.Entry) : World W :=
  { w with store := w.store.set l (w.store.get l++[entry]) }

def handle : (op : Op) → op.Ans W → World W → op.Resp × World W
  | .read l,none,w => (.ok (w.store.get l),w)
  | .read _,some e,w => (.error e,w)
  | .append l entry,none,w => (.ok (),w.push l entry)
  | .append _ _,some e,w => (.error e,w)
  | .replace l entries,none,w => (.ok (),{ w with store := w.store.set l entries })
  | .replace _ _,some e,w => (.error e,w)
  | .ask _,answer,w => (answer,w)
  | .submit (.pay orderId params),(answer,wallet),w =>
      (answer,{ w with requests := w.requests++[.pay orderId params],wallet := wallet })
  | .submit r,(answer,_),w => (answer,{ w with requests := w.requests++[r] })
  | .openWallet,none,w => (.ok (),{ w with wallet := w.walletFile })
  | .openWallet,some e,w => (.error e,w)
  | .saveWallet,none,w => (.ok (),{ w with walletFile := w.wallet })
  | .saveWallet,some e,w => (.error e,w)

theorem handle_submit_requests (r a) (w : World W) :
    (handle (.submit r) a w).2.requests=w.requests++[r] := by
  cases r <;> rfl

theorem handle_submit_store (r a) (w : World W) : (handle (.submit r) a w).2.store=w.store := by
  cases r <;> rfl

def Op.log? : Op → Option Log
  | .read l => some l
  | .append l _ => some l
  | .replace l _ => some l
  | _ => none

theorem handle_elsewhere {l op} (h : op.log? ≠ some l) (a : op.Ans W) (w : World W) :
    (handle op a w).2.store.get l=w.store.get l := by
  cases op with
  | read | openWallet | saveWallet => cases a <;> rfl
  | append l' entry | replace l' entries =>
    have hne : l≠l' := fun he => h (by rw [he]; rfl)
    cases a with
    | none => exact Store.get_set_ne _ _ hne
    | some e => rfl
  | ask q => rfl
  | submit r => rw [handle_submit_store]

abbrev Proc (ε α : Type) := Process Op Op.Resp ε α
def readLog (l : Log) : Proc Error (List l.Entry) := .call (.read l) Process.ofExcept

def appendLog (l : Log) (entry : l.Entry) : Proc Error Unit :=
  .call (.append l entry) Process.ofExcept

def replaceLog (l : Log) (entries : List l.Entry) : Proc Error Unit :=
  .call (.replace l entries) Process.ofExcept

def ask {ε : Type} (q : Question) : Proc ε q.Answer := .call (.ask q) .done
def submit {ε : Type} (r : RailRequest) : Proc ε r.Answer := .call (.submit r) .done

def PaymentOrder.transition (order : PaymentOrder) (target : OrderStatus) :
    Proc Error PaymentOrder :=
  if order.status.canTransition target then do
    let now ← ask .now
    return { order with status := target,updatedAt := now }
  else .fail (.invalidTransition order.status.toText target.toText)

def updateOrder (order : PaymentOrder) : Proc Error Unit := appendLog .orders order

def getOrder (id : String) : Proc Error PaymentOrder := do
  let lines ← readLog .orders
  match latest lines id with
  | some order => return order
  | none => .fail (.orderNotFound id)

def latestOrders : Proc Error (List PaymentOrder) := do
  let lines ← readLog .orders
  let shuffled ← ask (.hashOrder (latestOf lines))
  return shuffled.1

def ordersWithStatus (status : OrderStatus) : Proc Error (List PaymentOrder) := do
  let orders ← latestOrders
  return orders.filter fun o => o.status==status

def insertOrder (order : PaymentOrder) : Proc Error (Option PaymentOrder) := do
  let lines ← readLog .orders
  match lines.find? fun o => o.paymentOrderId==order.paymentOrderId with
  | some existing => return some existing
  | none => do
      appendLog .orders order
      return none

def recordReceiptHash (orderId : String) (hash : Bytes) : Proc Error Unit := do
  let now ← ask .now
  appendLog .receipts { orderId := orderId,hash := hash,recordedAt := now }

def isReceiptSettled (hash : Bytes) : Proc Error Bool := do
  let records ← readLog .receipts
  return records.any fun r => r.hash==hash

def notify (orderId event : String) : Proc Error Unit := do
  let id ← ask .uuid
  let now ← ask .now
  appendLog .notifications
    { notificationId := id,paymentOrderId := orderId,event := event,createdAt := now }

def checkpointMmr (leaf : Bytes) : Proc Error Unit := do
  let leaves : List Bytes ← readLog .checkpoints
  replaceLog .checkpoints (leaves++[leaf])

end OriginTools.Payments
