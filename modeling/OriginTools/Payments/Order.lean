import OriginTools.Foundation.Wire

/-!
# Payment orders and events

The statuses of an order with their transition table, the order record (its `to` is
`recipient` here), the event record of a checkout, and
the errors of the payments crate with their texts.
-/

namespace OriginTools.Payments
open List

abbrev Bytes := List UInt8

inductive Error where
  | orderNotFound (paymentOrderId : String)
  | storeCorrupted (details : String)
  | invalidTransition (source target : String)
  | walletError (details : String)
  | invalidAmount (amount : String)
  | journalNotBalanced (details : String)
  | railUnavailable (rail details : String)
  | receiptVerificationFailed (details : String)
  | railNotConfigured (rail details : String)
  | policyRefused (details : String)
  | settlementFileInvalid (path details : String)
  | settlementStampMismatch (path : String)
  | ioError (details : String)
  | cryptoError (details : String)

def Error.toText : Error → String
  | .orderNotFound id => "Order not found: "++id
  | .storeCorrupted details => "Store corrupted: "++details
  | .invalidTransition source target =>
      "Invalid order status transition: "++source ++ " -> "++target
  | .walletError details => "Wallet error: "++details
  | .invalidAmount amount =>
      "Invalid amount: "++amount ++ " (expected a decimal string, e.g. \"3.15\", max 2 decimals)"
  | .journalNotBalanced details => "Journal batch not balanced (sum != 0): "++details
  | .railUnavailable rail details => "Rail unavailable: "++rail ++ " — "++details
  | .receiptVerificationFailed details => "Receipt verification failed: "++details
  | .railNotConfigured rail details =>
      "Rail not enabled/configured: "++rail ++ " — "++details
  | .policyRefused details => "Policy refused: "++details
  | .settlementFileInvalid path details =>
      "Settlement file invalid: "++path ++ " — "++details
  | .settlementStampMismatch path =>
      "Settlement file provenance stamp mismatch: "++path
  | .ioError details => "I/O error: "++details
  | .cryptoError details => "Crypto error: "++details

inductive OrderStatus where
  | notStarted
  | executing
  | success
  | failed
  | requiresAction
  deriving DecidableEq

namespace OrderStatus

def canTransition : OrderStatus → OrderStatus → Bool
  | notStarted,executing => true
  | notStarted,failed => true
  | notStarted,requiresAction => true
  | executing,success => true
  | executing,failed => true
  | executing,requiresAction => true
  | executing,notStarted => true
  | requiresAction,executing => true
  | requiresAction,failed => true
  | requiresAction,notStarted => true
  | failed,executing => true
  | failed,notStarted => true
  | _,_ => false

def toText : OrderStatus → String
  | notStarted => "NOT_STARTED"
  | executing => "EXECUTING"
  | success => "SUCCESS"
  | failed => "FAILED"
  | requiresAction => "REQUIRES_ACTION"

end OrderStatus

inductive RailHint where
  | native
  | http402
  | card
  | ach
  deriving DecidableEq

def RailHint.asStr : RailHint → String
  | .native => "native"
  | .http402 => "http402"
  | .card => "card"
  | .ach => "ach"

inductive RailReceipt where
  | native (ledgerEntry : Bytes)
  | http402 (receipt : Bytes)
  | cardAcp (network last4 : String) (auth : Bytes)
  | ach (settlementRef : String) (auth : Bytes)

/-- One unit of `source` is `rate` units of `target`. -/
structure FxRate where
  source : String
  target : String
  rate : String
  markupBps : ℕ

structure OrderSigner where
  edPk : Bytes
  falconPk : Bytes
  domain : String

inductive OrderDirection where
  | payment
  | payout
  deriving DecidableEq

def OrderDirection.toText : OrderDirection → String
  | .payment => "payment"
  | .payout => "payout"

structure PaymentOrder where
  version : ℕ
  paymentOrderId : String
  checkoutId : String
  recipient : String
  amount : String
  currency : String
  fx : Option FxRate
  cardToken : Option String
  cardNetwork : Option String
  cardLast4 : Option String
  rail : Option RailHint
  direction : OrderDirection
  status : OrderStatus
  ledgerUpdated : Bool
  walletUpdated : Bool
  attempts : ℕ
  nextRetryAt : Option String
  executingSince : Option String
  receipt : Option RailReceipt
  createdAt : String
  updatedAt : String
  signature : Option Bytes
  signer : Option OrderSigner

def PaymentOrder.new (id now checkoutId recipient amount currency : String) : PaymentOrder where
  version := 1
  paymentOrderId := id
  checkoutId := checkoutId
  recipient := recipient
  amount := amount
  currency := currency
  fx := none
  cardToken := none
  cardNetwork := none
  cardLast4 := none
  rail := none
  direction := .payment
  status := .notStarted
  ledgerUpdated := false
  walletUpdated := false
  attempts := 0
  nextRetryAt := none
  executingSince := none
  receipt := none
  createdAt := now
  updatedAt := now
  signature := none
  signer := none

inductive EventStatus where
  | received
  | split
  | allSettled
  | partlySettled
  deriving DecidableEq

def EventStatus.rollup (orders : List PaymentOrder) : EventStatus :=
  if orders.isEmpty then .received
  else if orders.all (fun o => o.status==.success) then .allSettled
  else if orders.any (fun o => o.status==.failed||o.status==.requiresAction) then
    .partlySettled
  else if orders.any (fun o => o.status != .notStarted) then .split
  else .received

structure PaymentEvent where
  version : ℕ
  eventId : String
  checkoutId : String
  buyer : String
  seller : String
  paymentOrders : List PaymentOrder
  status : EventStatus
  createdAt : String
  envelope : Option Bytes
  signature : Option Bytes
  signer : Option OrderSigner

def latest (lines : List PaymentOrder) (id : String) : Option PaymentOrder :=
  lines.reverse.find? fun o => o.paymentOrderId==id

def snapshots (lines : List PaymentOrder) (id : String) : List PaymentOrder :=
  lines.filter fun o => o.paymentOrderId==id

def upsert (order : PaymentOrder) : List PaymentOrder → List PaymentOrder
  | [] => [order]
  | o::rest =>
      if o.paymentOrderId=order.paymentOrderId then order::rest
      else o::upsert order rest

def latestOf (lines : List PaymentOrder) : List PaymentOrder :=
  lines.foldl (fun m o => upsert o m) []

theorem latest_eq_getLast?_snapshots (lines id) :
    latest lines id=(snapshots lines id).getLast? := by
  rw [latest,snapshots,getLast?_eq_head?_reverse,← filter_reverse,head?_filter]

theorem latest_nil (id : String) : latest [] id=none := rfl

theorem latest_append (lines) (o : PaymentOrder) (id) :
    latest (lines++[o]) id=if o.paymentOrderId=id then some o else latest lines id := by
  by_cases h : o.paymentOrderId=id
  · simp [latest,h]
  · simp [latest,h]

theorem latest_append_self (lines) (o : PaymentOrder) :
    latest (lines++[o]) o.paymentOrderId=some o := by
  rw [latest_append,if_pos rfl]

variable {o : PaymentOrder} {id : String}

theorem latest_append_ne (lines) (h : id≠o.paymentOrderId) :
    latest (lines++[o]) id=latest lines id := by
  rw [latest_append,if_neg (fun he => h he.symm)]

theorem latest_id {lines} (h : latest lines id=some o) : o.paymentOrderId=id := by
  have hp:=find?_some h
  simpa using hp

theorem mem_of_latest {lines} (h : latest lines id=some o) : o∈lines :=
  mem_reverse.1 (mem_of_find?_eq_some h)

theorem latest_eq_none_iff (lines id) : latest lines id=none ↔ ∀ o∈lines,o.paymentOrderId≠id := by
  simp [latest]

theorem mem_upsert {order m} (hm : (m.map PaymentOrder.paymentOrderId).Nodup) : o∈upsert order m ↔
      o=order ∨ (o∈m ∧ o.paymentOrderId≠order.paymentOrderId) := by
  induction m with
  | nil => simp [upsert]
  | cons x rest ih =>
    rw [map_cons,nodup_cons] at hm
    obtain ⟨hx,hrest⟩ := hm
    have ih':=ih hrest
    by_cases h : x.paymentOrderId=order.paymentOrderId
    · have hne : ∀ y∈rest,y.paymentOrderId≠order.paymentOrderId := by
        intro y hy he
        apply hx
        rw [h,← he]
        exact mem_map_of_mem hy
      rw [upsert,if_pos h,mem_cons]
      constructor
      · rintro (rfl | hy)
        · exact .inl rfl
        · exact .inr ⟨.tail _ hy,hne o hy⟩
      · rintro (rfl | ⟨hy,hoid⟩)
        · exact .inl rfl
        · rcases mem_cons.1 hy with rfl | hy
          · exact absurd h hoid
          · exact .inr hy
    · rw [upsert,if_neg h,mem_cons,ih',mem_cons]
      constructor
      · rintro (rfl | rfl | ⟨hy,hoid⟩)
        · exact .inr ⟨.inl rfl,h⟩
        · exact .inl rfl
        · exact .inr ⟨.inr hy,hoid⟩
      · rintro (rfl | ⟨rfl | hy,hoid⟩)
        · exact .inr (.inl rfl)
        · exact .inl rfl
        · exact .inr (.inr ⟨hy,hoid⟩)

theorem upsert_ids_nodup (order) {m} (hm : (m.map PaymentOrder.paymentOrderId).Nodup) :
    ((upsert order m).map PaymentOrder.paymentOrderId).Nodup := by
  induction m with
  | nil => simp [upsert]
  | cons x rest ih =>
    rw [map_cons,nodup_cons] at hm
    obtain ⟨hx,hrest⟩ := hm
    by_cases h : x.paymentOrderId=order.paymentOrderId
    · rw [upsert,if_pos h,map_cons,nodup_cons,← h]
      exact ⟨hx,hrest⟩
    rw [upsert,if_neg h,map_cons,nodup_cons]
    refine ⟨?_,ih hrest⟩
    intro hmem
    obtain ⟨y,hy,hyid⟩ := mem_map.1 hmem
    rcases (mem_upsert hrest).1 hy with rfl | ⟨hy,_⟩
    · exact h hyid.symm
    · exact hx (hyid ▸ mem_map_of_mem hy)

theorem latestOf_append (lines o) : latestOf (lines++[o])=upsert o (latestOf lines) := by
  simp [latestOf]

theorem latestOf_ids_nodup (lines) : ((latestOf lines).map PaymentOrder.paymentOrderId).Nodup := by
  induction lines using List.reverseRecOn with
  | nil => simp [latestOf]
  | append_singleton lines o ih =>
    rw [latestOf_append]
    exact upsert_ids_nodup o ih

theorem mem_latestOf (lines) (o : PaymentOrder) :
    o∈latestOf lines ↔ latest lines o.paymentOrderId=some o := by
  induction lines using List.reverseRecOn with
  | nil => simp [latestOf,latest]
  | append_singleton lines x ih =>
    rw [latestOf_append,mem_upsert (latestOf_ids_nodup lines),ih,latest_append]
    split_ifs with h
    · constructor
      · rintro (rfl | ⟨_,hne⟩)
        · rfl
        · exact absurd h.symm hne
      · intro he
        exact .inl (Option.some.inj he).symm
    · constructor
      · rintro (rfl | ⟨hl,_⟩)
        · exact absurd rfl h
        · exact hl
      · intro hl
        exact .inr ⟨hl,fun he => h he.symm⟩

end OriginTools.Payments
