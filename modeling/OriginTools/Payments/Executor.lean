import OriginTools.Payments.Journal

/-!
# The payment executor

One pass over the ready orders: every order is marked `EXECUTING` before any rail is
called, settled over its rail, and then recorded as settled, scheduled for a retry,
parked for an action, or failed with a dead-letter record.
-/

namespace OriginTools.Payments
variable (sdk : PaySdk)

def u64Max : ℕ := 2^64-1
def wrap64 (x : ℤ) : ℤ := Int.bmod x (2^64)

/-- `next_backoff_ms` for the random word it draws; `none` is the panic of `clamp`
when its bounds are out of order. -/
def nextBackoffMs (policy : RetryPolicy) (attempt : ℕ) (retryAfterMs : Option ℕ) (raw : ℕ) :
    Option ℕ :=
  let exp:=min (policy.baseMs*min (policy.factor^(attempt-1)) u64Max) u64Max
  let base:=min (retryAfterMs.getD exp) policy.capMs
  let fraction : ℤ := (raw%51 : ℕ)-25
  let delta:=(wrap64 (wrap64 base*fraction)).tdiv 100
  let jittered:=wrap64 (wrap64 base+delta)
  let cap:=wrap64 policy.capMs
  if cap<1 then none
  else some (max 1 (min jittered cap)).toNat

/-- True when a retry was written, false when the attempts are exhausted. -/
def scheduleRetry (order : PaymentOrder) (reason : String) (policy : RetryPolicy)
    (retryAfterMs : Option ℕ) : Proc Error Bool :=
  if order.attempts≥policy.maxAttempts then return false
  else do
    let raw ← ask .random
    match nextBackoffMs policy order.attempts retryAfterMs raw with
    | none => .panic
    | some backoffMs => do
        let deadline ← ask (.deadline backoffMs)
        match deadline with
        | none => .panic
        | some deadline => do
            let order ← order.transition .failed
            let order:={ order with nextRetryAt := some deadline }
            updateOrder order
            appendLog .retryJobs
              { paymentOrderId := order.paymentOrderId,attempt := order.attempts,
                nextRetryAt := deadline,backoffMs := backoffMs,lastError := reason }
            return true

def splitWhitespace (s : List Char) : List (List Char) :=
  (s.splitOnP Vcs.Store.isSpace).filter fun word => !word.isEmpty

/-- `str::parse::<u64>`: an optional plus sign and digits. -/
def parseU64 (s : List Char) : Option ℕ :=
  let digits:=match s with
    | '+'::rest => rest
    | _ => s
  if !digits.isEmpty&&digits.all isAsciiDigit&&decide (digitsValue digits≤u64Max) then
    some (digitsValue digits)
  else none

def retryAfterMark : List Char := "retry-after=".toList

def extractRetryAfterMs (reason : String) : Option ℕ := do
  let word ← (splitWhitespace reason.toList).find? fun word => retryAfterMark.isPrefixOf word
  let hint:=word.drop retryAfterMark.length
  let digits ← if hint.getLast? = some 's' then some hint.dropLast else none
  let secs ← parseU64 digits
  return secs*1000%2^64

def markFailed (order : PaymentOrder) (reason : String) : Proc Error Unit := do
  let order ← order.transition .failed
  updateOrder order
  let now ← ask .now
  appendLog .dlq
    { paymentOrderId := order.paymentOrderId,reason := reason,
      evidence := [("rail",.text "native"),("status",.text order.status.toText),
        ("attempts",.number order.attempts)]
      createdAt := now }
  notify order.paymentOrderId ("order_failed: "++reason)
  auditRecord sdk atOrderFailed
    [("order",.text order.paymentOrderId),("reason",.text reason)] none

def eventOf (events : List PaymentEvent) (orderId : String) : Option PaymentEvent :=
  events.reverse.find? fun e => e.paymentOrders.any fun o => o.paymentOrderId==orderId

def PaymentEvent.refreshed (event : PaymentEvent) (orders : List PaymentOrder) : PaymentEvent :=
  let current:=event.paymentOrders.filterMap fun o =>
    orders.find? fun x => x.paymentOrderId==o.paymentOrderId
  { event with
    paymentOrders := current,status := EventStatus.rollup current,
    signature := none,signer := none,envelope := none }

def rollupEvent (orderId : String) : Proc Error Unit := do
  let events : List PaymentEvent ← readLog .events
  match eventOf events orderId with
  | none => return ()
  | some event => do
      let orders ← latestOrders
      appendLog .events (event.refreshed orders)

structure Swept where
  requeued : ℕ
  dlqed : ℕ

def requeueOne (config : PaymentsConfig) (order : PaymentOrder) (swept : Swept) :
    Proc Error Swept :=
  match order.executingSince with
  | none => return swept
  | some since => do
      let expired ← ask (.expired since config.executingTtlSecs)
      match expired with
      | none => .panic
      | some false => return swept
      | some true => do
          let order:={ order with attempts := order.attempts+1 }
          if order.attempts≥config.retry.maxAttempts then do
            markFailed sdk order "stuck in EXECUTING past TTL (attempts exhausted)"
            rollupEvent order.paymentOrderId
            return { swept with dlqed := swept.dlqed+1 }
          else do
            let order ← order.transition .notStarted
            let order:={ order with executingSince := none,nextRetryAt := none }
            updateOrder order
            auditRecord sdk atOrderRequeued
              [("order",.text order.paymentOrderId),("reason",.text "executing ttl exceeded")] none
            rollupEvent order.paymentOrderId
            return { swept with requeued := swept.requeued+1 }

def requeueAll (config : PaymentsConfig) : List PaymentOrder → Swept → Proc Error Swept
  | [],swept => return swept
  | order::rest,swept => do
      let swept ← requeueOne sdk config order swept
      requeueAll config rest swept

def requeueStuckExecuting (config : PaymentsConfig) : Proc Error Swept := do
  let stuck ← ordersWithStatus .executing
  requeueAll sdk config stuck { requeued := 0,dlqed := 0 }

inductive SettleOutcome where
  | retryable (reason : String)
  | terminal (reason : String)
  | requiresAction (reason : String)

/-- A settle function: it returns the changed order, or fails with an outcome and
the order as it left it. -/
abbrev Attempt := Proc (SettleOutcome × PaymentOrder)

def orTerminal {α : Type} (order : PaymentOrder) (p : Proc Error α) : Attempt α :=
  p.mapErr fun e => (.terminal e.toText,order)

def railErr : Error → SettleOutcome
  | .railUnavailable rail details => .retryable (Error.railUnavailable rail details).toText
  | e => .terminal e.toText

def orRailErr {α : Type} (order : PaymentOrder) (p : Proc Error α) : Attempt α :=
  p.mapErr fun e => (railErr e,order)

def terminal {α : Type} (order : PaymentOrder) (reason : String) : Attempt α :=
  .fail (.terminal reason,order)

def announceSettled (order : PaymentOrder) (payload : Payload) : Attempt PaymentOrder := do
  orTerminal order
    (notify order.paymentOrderId ("order_settled ("++order.direction.toText ++ ")"))
  orTerminal order (auditRecord sdk atOrderSettled payload none)
  return order

/-- The common end of the settle functions once the rail has paid: the journal
batch, the `SUCCESS` snapshot, the receipt hash where the rail dedupes, the
notification and the audit record. -/
def journalAndSettle (order : PaymentOrder) (signer : Option OrderSigner)
    (receipt : RailReceipt) (receiptHash : Option Bytes) (walletUpdated : Bool)
    (payload : Payload) : Attempt PaymentOrder := do
  let _ ← orTerminal order
    (appendOrderBatch sdk order.paymentOrderId order.amount order.currency order.fx signer)
  let order:={ order with receipt := some receipt }
  let order ← orTerminal order (order.transition .success)
  let order:={ order with ledgerUpdated := true,walletUpdated := walletUpdated }
  orTerminal order (updateOrder order)
  match receiptHash with
  | some hash => do
      orTerminal order (recordReceiptHash order.paymentOrderId hash)
      announceSettled sdk order payload
  | none => announceSettled sdk order payload

def settleWithReceipt (order : PaymentOrder) (signer : Option OrderSigner) (bytes : Bytes)
    (receipt : RailReceipt) (duplicate : String) (payload : Payload) : Attempt PaymentOrder := do
  let receiptHash:=sdk.sha3 bytes
  let settled ← orTerminal order (isReceiptSettled receiptHash)
  if settled then terminal order duplicate
  else journalAndSettle sdk order signer receipt (some receiptHash) false payload

def settleNative (order : PaymentOrder) (amount : ℕ) (signer : Option OrderSigner) :
    Attempt PaymentOrder := do
  let answer ← submit (.pay order.paymentOrderId
    { recipient := order.recipient,amount := amount,memo := order.checkoutId.toUTF8.toList,
      spendCap := some amount,credit := none })
  match answer with
  | .error e => .fail (.retryable e,order)
  | .ok (.error e) => terminal order ("encoding native receipt: "++e)
  | .ok (.ok encoded) =>
      journalAndSettle sdk order signer (.native encoded) none true
        [("order",.text order.paymentOrderId),("amount",.text order.amount),
          ("currency",.text order.currency),("direction",.text order.direction.toText),
          ("to",.text order.recipient)]

inductive X402Status where
  | success
  | pending (transaction : Option String)
  | failed (error : Option String)

structure X402Outcome where
  status : X402Status
  receipt : Bytes

/-- `x402::execute`: ask for the resource, sign the payment it requires, and ask
again with the signed payment. -/
def x402Execute (orderId url : String) (keys : OrderSigner) : Proc Error X402Outcome := do
  let (status,required) ← (ask (.httpGet url)).bind Process.ofExcept
  if status≠402 then
    .fail (.railNotConfigured "http402"
      ("expected 402 Payment Required, got HTTP "++toString status))
  else match required with
  | none =>
      .fail (.railNotConfigured "http402" "402 response missing PAYMENT-REQUIRED header")
  | some raw => do
      let requirements ← (ask (.parseRequirements raw)).bind Process.ofExcept
      if requirements.accepts.isEmpty then
        .fail (.railNotConfigured "http402" "PAYMENT-REQUIRED lists no acceptable payment options")
      else do
        let payload ← (ask (.signPayment keys requirements url)).bind Process.ofExcept
        let (status,response) ← (submit (.x402Pay orderId url payload)).bind Process.ofExcept
        match response with
        | none =>
            return { status := .failed (some ("server rejected the payment (HTTP "++
                        toString status ++ ")")),
                     receipt := [] }
        | some raw => do
            let receipt ← (ask (.decodeReceipt raw)).bind Process.ofExcept
            let response ← (ask (.settlementResponse receipt)).bind Process.ofExcept
            let status :=
              if response.status = "success" then .success
              else if response.status = "settlement_pending" then .pending response.transaction
              else .failed (response.error <|> some response.status)
            return { status := status,receipt := receipt }

def settleHttp402Success (order : PaymentOrder) (signer : Option OrderSigner) (receipt : Bytes) :
    Attempt PaymentOrder :=
  settleWithReceipt sdk order signer receipt (.http402 receipt)
    "duplicate settlement: receipt already settled for another order"
    [("order",.text order.paymentOrderId),("amount",.text order.amount),
      ("currency",.text order.currency),("rail",.text "http402"),
      ("to",.text order.recipient)]

def retryAfterText : Option ℕ → String
  | some r => " retry-after="++toString r ++ "s"
  | none => ""

structure SplitTexts where
  status : String
  verify : String
  refused : String
  pending : String
  rejected : String

/-- The verify/settle split of a facilitator, up to its answer: fetch the
requirements, sign, check the payload, ask `/verify`, then `/settle`. The ACH path
takes other errors of the checks as terminal and of the facilitator as retryable. -/
def facilitatorSplit (order : PaymentOrder) (keys : OrderSigner) (cfg : FacilitatorConfig)
    (texts : SplitTexts) (checkErr facilitatorErr : Error → SettleOutcome) :
    Attempt FacilitatorSettleOutcome := do
  let (status,required) ← orRailErr order ((ask (.httpGet order.recipient)).bind Process.ofExcept)
  if status≠402 then terminal order (texts.status++toString status)
  else match required with
  | none => terminal order "402 response missing PAYMENT-REQUIRED header"
  | some raw => do
      let requirements ← ((ask (.parseRequirements raw)).bind Process.ofExcept).mapErr
        fun e => (checkErr e,order)
      let payload ←
        ((ask (.signPayment keys requirements order.recipient)).bind Process.ofExcept).mapErr
          fun e => (checkErr e,order)
      let verdict ← ask (.verifySignedPayload payload order.recipient order.amount)
      match verdict with
      | .reject reason => terminal order (texts.verify++reason)
      | .accept => do
          let verified ← ((ask (.facilitatorVerify cfg payload requirements order.recipient)).bind
              Process.ofExcept).mapErr fun e => (facilitatorErr e,order)
          if !verified then terminal order texts.refused
          else
            ((submit (.facilitatorSettle order.paymentOrderId cfg payload requirements
              order.recipient)).bind Process.ofExcept).mapErr fun e => (facilitatorErr e,order)

def splitRefusal (order : PaymentOrder) (texts : SplitTexts) :
    FacilitatorSettleOutcome → (Bytes → Attempt PaymentOrder) → Attempt PaymentOrder
  | .settled receipt,settled => settled receipt
  | .pending transaction retryAfter,_ =>
      .fail (.requiresAction (texts.pending++transaction.getD ""++retryAfterText retryAfter),order)
  | .rejected error (some secs),_ =>
      .fail (.retryable (texts.rejected++error ++ " (retry-after="++toString secs ++ "s)"),order)
  | .rejected error none,_ => terminal order (texts.rejected++error)

def http402Texts : SplitTexts where
  status := "expected 402 Payment Required, got HTTP "
  verify := "verify rejected: "
  refused := "facilitator /verify rejected the payment"
  pending := "settlement_pending tx="
  rejected := "facilitator /settle rejected: "

def settleHttp402WithFacilitator (order : PaymentOrder) (signer : Option OrderSigner)
    (keys : OrderSigner) (cfg : FacilitatorConfig) : Attempt PaymentOrder := do
  let outcome ← facilitatorSplit order keys cfg http402Texts railErr railErr
  splitRefusal order http402Texts outcome (settleHttp402Success sdk order signer)

def isHttpUrl (url : String) : Bool :=
  "http://".toList.isPrefixOf url.toList || "https://".toList.isPrefixOf url.toList

def settleHttp402 (order : PaymentOrder) (signer : Option OrderSigner) : Attempt PaymentOrder :=
  if !isHttpUrl order.recipient then
    terminal order ("http402 rail: order.to must be an x402 endpoint URL, got "++order.recipient)
  else match signer with
  | none =>
      terminal order "http402 rail requires the operator identity (run origin-identity keygen) — refusing to send an unsigned payment"
  | some keys => do
      let cfg ← orRailErr order ((ask (.facilitatorConfig "http402")).bind Process.ofExcept)
      match cfg with
      | some cfg => settleHttp402WithFacilitator sdk order signer keys cfg
      | none => do
          let outcome ← orRailErr order (x402Execute order.paymentOrderId order.recipient keys)
          match outcome.status with
          | .success => settleHttp402Success sdk order signer outcome.receipt
          | .pending transaction =>
              .fail (.requiresAction ("settlement_pending tx="++transaction.getD ""),order)
          | .failed error => terminal order (error.getD "x402 payment rejected")

def settleCardSuccess (order : PaymentOrder) (signer : Option OrderSigner)
    (network last4 : String) (auth : Bytes) : Attempt PaymentOrder :=
  settleWithReceipt sdk order signer auth (.cardAcp network last4 auth)
    "duplicate settlement: card receipt already settled for another order"
    [("order",.text order.paymentOrderId),("amount",.text order.amount),
      ("currency",.text order.currency),("rail",.text "card"),
      ("card_network",.text network),("card_last4",.text last4)]

def settleCard (order : PaymentOrder) (signer : Option OrderSigner) : Attempt PaymentOrder :=
  match order.cardToken,order.cardNetwork,order.cardLast4 with
  | some token,some network,some last4 => do
      let cfg ← orRailErr order ((ask (.facilitatorConfig "card")).bind Process.ofExcept)
      match cfg with
      | none =>
          terminal order "card rail not configured: run `psp-configure card --secret-file <KEY> --facilitator-url <URL> --totp <code>` first"
      | some cfg => do
          let outcome ← orRailErr order ((submit (.authorize cfg
            { token := token,network := network,last4 := last4,amount := order.amount,
              currency := order.currency,paymentOrderId := order.paymentOrderId,
              checkoutId := order.checkoutId })).bind Process.ofExcept)
          match outcome with
          | .settled auth => settleCardSuccess sdk order signer network last4 auth
          | .pending transaction =>
              .fail (.requiresAction ("settlement_pending tx="++transaction.getD ""),order)
          | .declined error => terminal order ("card authorization declined: "++error)
  | _,_,_ =>
      terminal order "card rail requires the order's card tokenization (order-create --card-token --card-network --card-last4); PCI out of scope — a token reference, never the PAN"

def achTexts : SplitTexts where
  status := "expected 402 Payment Required from ACH facilitator, got HTTP "
  verify := "ach verify rejected: "
  refused := "ACH facilitator /verify rejected the payment"
  pending := "ACH settlement_pending tx="
  rejected := "ACH facilitator /settle rejected: "

def settleAchSuccess (order : PaymentOrder) (signer : Option OrderSigner) (receipt : Bytes) :
    Attempt PaymentOrder := do
  let settlementRef ← ask (.settlementRef receipt)
  settleWithReceipt sdk order signer receipt (.ach settlementRef receipt)
    "duplicate settlement: ACH receipt already settled for another order"
    [("order",.text order.paymentOrderId),("amount",.text order.amount),
      ("currency",.text order.currency),("rail",.text "ach")]

def settleAch (order : PaymentOrder) (signer : Option OrderSigner) : Attempt PaymentOrder := do
  let cfg ← orTerminal order ((ask (.facilitatorConfig "ach")).bind Process.ofExcept)
  match cfg with
  | none =>
      terminal order "ach rail not configured: run `psp-configure ach --secret-file <KEY> --facilitator-url <URL> --totp <code>` first"
  | some cfg =>
      if !isHttpUrl order.recipient then
        terminal order ("ach rail: order.to must be an ACH facilitator URL, got "++order.recipient)
      else match signer with
      | none =>
          terminal order "ach rail requires the operator identity (run origin-identity keygen) — refusing to send an unsigned payment"
      | some keys => do
          let outcome ← facilitatorSplit order keys cfg achTexts
            (fun e => .terminal e.toText) (fun e => .retryable e.toText)
          splitRefusal order achTexts outcome (settleAchSuccess sdk order signer)

/-- The checks of `settle` before any rail is chosen: the rail is enabled, the
amount is a non-negative decimal within the per-transaction cap. -/
def settleGate (config : PaymentsConfig) (order : PaymentOrder) : Except String ℤ :=
  let hint:=(order.rail.getD .native).asStr
  if !config.enabledRails.any (fun r => r==hint) then
    .error ("rail "++hint ++ " is not enabled (enabled: "++
      ", ".intercalate config.enabledRails ++ ")")
  else match parseAmount order.amount with
  | .error _ => .error ("invalid amount: "++order.amount)
  | .ok amountMinor =>
      if amountMinor<0 then .error ("negative amount: "++order.amount)
      else match config.perTxCap with
      | none => .ok amountMinor
      | some capStr =>
          match parseAmount capStr with
          | .error _ => .error ("bad per_tx_cap in config: "++capStr)
          | .ok cap =>
              if amountMinor>cap then
                .error ("amount "++order.amount ++ " exceeds per-tx cap "++capStr++
                  " (policy refusal — nothing sent)")
              else .ok amountMinor

theorem settleGate_amount {config order m} (h : settleGate config order=.ok m) :
    parseAmount order.amount=.ok m ∧ 0 ≤ m := by
  unfold settleGate at h
  dsimp only at h
  split at h
  · cases h
  · split at h
    · cases h
    · rename_i minor hminor
      split at h
      · cases h
      · rename_i hneg
        have hm : minor=m := by
          split at h
          · exact Except.ok.inj h
          · split at h
            · cases h
            · split at h
              · cases h
              · exact Except.ok.inj h
        subst hm
        exact ⟨hminor,not_lt.1 hneg⟩

def screen (order : PaymentOrder) : Attempt Unit := do
  let verdict ← orTerminal order ((ask (.score order)).bind Process.ofExcept)
  match verdict with
  | .accept => return ()
  | .flag reason =>
      orTerminal order (auditRecord sdk atOrderFlagged
        [("order",.text order.paymentOrderId),("flag",.text reason)] none)
  | .reject reason => terminal order ("compliance rejected: "++reason)

def settleOnRail (signer : Option OrderSigner) (order : PaymentOrder) (amountMinor : ℤ) :
    Attempt PaymentOrder :=
  match order.rail.getD .native with
  | .native => settleNative sdk order (amountMinor.toNat%2^64) signer
  | .http402 => settleHttp402 sdk order signer
  | .card => settleCard sdk order signer
  | .ach => settleAch sdk order signer

/-- `screened` says whether the pass has a compliance scorer. -/
def settle (config : PaymentsConfig) (screened : Bool) (signer : Option OrderSigner)
    (order : PaymentOrder) : Attempt PaymentOrder :=
  match settleGate config order with
  | .error reason => terminal order reason
  | .ok amountMinor => do
      if screened then screen sdk order else pure ()
      settleOnRail sdk signer order amountMinor

def insertPayout (order : PaymentOrder) (amount : String) (payload : String → Payload) :
    Proc Error Unit := do
  let now ← ask .now
  let id ← ask .uuid
  let payout:={ PaymentOrder.new id now order.checkoutId order.recipient amount order.currency
    with direction := .payout }
  let _ ← insertOrder payout
  auditRecord sdk atOrderCreated (payload id) none

def PaymentsConfig.offRampPct (config : PaymentsConfig) : ℤ := 100-(min config.splitPct 100 : ℕ)

def PaymentOrder.payoutMinor (order : PaymentOrder) (config : PaymentsConfig) : ℤ :=
  let amountMinor:=match parseAmount order.amount with
    | .ok minor => minor
    | .error _ => 0
  (wrap128 (amountMinor*config.offRampPct)).tdiv 100

def applySettlementPreference (order : PaymentOrder) (config : PaymentsConfig) : Proc Error Unit :=
  match config.settlementPreference with
  | .hold => return ()
  | .offRamp =>
      insertPayout sdk order order.amount fun id =>
        [("order",.text id),("reason",.text "settlement_preference off_ramp"),
          ("source_order",.text order.paymentOrderId)]
  | .split =>
      if config.offRampPct≤0 then return ()
      else if order.payoutMinor config≤0 then return ()
      else do
        let amount ← ask (.cents (order.payoutMinor config))
        insertPayout sdk order amount fun id =>
          [("order",.text id),("reason",.text "settlement_preference split"),
            ("source_order",.text order.paymentOrderId),
            ("split_pct",.number config.splitPct),("off_ramp_pct",.number config.offRampPct)]

structure Tally where
  executed : ℕ
  retried : ℕ
  failures : List String

def concludeOrder (config : PaymentsConfig) (tally : Tally) :
    Except (SettleOutcome × PaymentOrder) PaymentOrder → Proc Error Tally
  | .ok order => do
      if order.direction=.payment then applySettlementPreference sdk order config
      else pure ()
      return { tally with executed := tally.executed+1 }
  | .error (.retryable reason,order) => do
      let scheduled ←
        scheduleRetry order reason config.retry (extractRetryAfterMs reason)
      if scheduled then
        return { tally with
          retried := tally.retried+1
          failures := tally.failures++
            [order.paymentOrderId ++ ": "++reason ++ " (retry scheduled)"] }
      else do
        markFailed sdk order reason
        return { tally with
          failures := tally.failures++[order.paymentOrderId ++ ": "++reason] }
  | .error (.requiresAction reason,order) => do
      let order ← order.transition .requiresAction
      updateOrder order
      notify order.paymentOrderId ("requires_action: "++reason)
      auditRecord sdk atOrderFailed
        [("order",.text order.paymentOrderId),("requires_action",.text reason)] none
      return { tally with
        failures := tally.failures++
          [order.paymentOrderId ++ ": "++reason ++ " (awaiting action)"] }
  | .error (.terminal reason,order) => do
      markFailed sdk order reason
      return { tally with
        failures := tally.failures++[order.paymentOrderId ++ ": "++reason] }

def startOrder (order : PaymentOrder) : Proc Error PaymentOrder := do
  let order ← order.transition .executing
  let since ← ask .now
  let order:={ order with executingSince := some since,attempts := order.attempts+1 }
  updateOrder order
  return order

def runOrder (config : PaymentsConfig) (screened : Bool) (signer : Option OrderSigner)
    (order : PaymentOrder) (tally : Tally) : Proc Error Tally := do
  let order ← startOrder order
  let result ← (settle sdk config screened signer order).attempt
  let tally ← concludeOrder sdk config tally result
  rollupEvent order.paymentOrderId
  return tally

def runReady (config : PaymentsConfig) (screened : Bool) (signer : Option OrderSigner) :
    List PaymentOrder → Tally → Proc Error Tally
  | [],tally => return tally
  | order::rest,tally => do
      let tally ← runOrder sdk config screened signer order tally
      runReady config screened signer rest tally

/-- A retry is due when its deadline, compared as a string, is not after now. -/
def isDue (now : String) (order : PaymentOrder) : Bool :=
  match order.nextRetryAt with
  | some deadline => decide (deadline≤now)
  | none => false

def readyOrders (now : String) : Proc Error (List PaymentOrder) := do
  let waiting ← ordersWithStatus .notStarted
  let failed ← ordersWithStatus .failed
  return waiting++failed.filter (isDue now)

structure ExecutorSummary where
  ready : ℕ
  executed : ℕ
  retried : ℕ
  recovered : ℕ
  deferredBatches : ℕ
  note : String

def summaryNote (ready : ℕ) (tally : Tally) (swept : Swept) (deferredBatches : ℕ) : String :=
  let note :=
    if tally.failures.isEmpty then
      if tally.executed=0 then "no orders were ready"
      else "settled "++toString tally.executed ++ " order(s)"
    else
      "settled "++toString tally.executed ++ " of "++toString ready ++ " (retried "++
        toString tally.retried ++ "); " ++ "; ".intercalate tally.failures
  let note:=if deferredBatches>0 then note ++ " (deferred batch committed)" else note
  if swept.dlqed>0 then
    note ++ " (TTL sweep DLQ'd "++toString swept.dlqed ++ " stuck order(s))"
  else note

/-- The deferred settlement of a pass: the number of batches committed. -/
def commitDeferred (config : PaymentsConfig) : Proc Error ℕ :=
  if config.deferredSettlementEnabled then do
    let pending : List DeferredItem ← readLog .deferred
    if pending.isEmpty then return 0
    else do
      let date ← ask .today
      let _ ← commitDeferredBatch sdk date
      return 1
  else return 0

def openWallet (path : String) : Proc Error Unit :=
  (.call .openWallet Process.ofExcept : Proc String Unit).mapErr fun e =>
    .walletError ("opening "++path ++ ": "++e)

def saveWallet : Proc Error Unit :=
  (.call .saveWallet Process.ofExcept : Proc String Unit).mapErr fun e =>
    .walletError ("saving wallet after pass: "++e)

def runPass (config : PaymentsConfig) (screened : Bool) : Proc Error ExecutorSummary := do
  let now ← ask .now
  let swept ← requeueStuckExecuting sdk config
  let deferredBatches ← commitDeferred sdk config
  let signer ← ask .operatorKeys
  let ready ← readyOrders now
  let tally ← runReady sdk config screened signer ready
    { executed := 0,retried := 0,failures := [] }
  saveWallet
  return { ready := ready.length,executed := tally.executed,retried := tally.retried,
           recovered := swept.requeued,deferredBatches := deferredBatches,
           note := summaryNote ready.length tally swept deferredBatches }

def runOnce (path : String) (screened : Bool) : Proc Error ExecutorSummary := do
  openWallet path
  let config ← (ask .config).bind Process.ofExcept
  runPass sdk config screened

/-- A rail that answered `settlement_pending` reports the end of the payment by a callback
(`webhook.rs`). -/
structure SettlementCallback where
  orderId : String
  status : String
  settlementRef : Option String
  timestamp : String

def processCallback (callback : SettlementCallback) : Proc Error Unit := do
  let order ← getOrder callback.orderId
  if order.status≠.requiresAction then
    .fail (.invalidAmount ("order "++callback.orderId++
      " is not in REQUIRES_ACTION (current: "++order.status.toText ++ ")"))
  else if callback.status = "settled" then do
    let order ← order.transition .notStarted
    let order:={ order with executingSince := none,nextRetryAt := none }
    updateOrder order
    notify order.paymentOrderId
      ("webhook settled (ref: "++callback.settlementRef.getD "none" ++ ")")
    auditRecord sdk atOrderRequeued
      [("order",.text order.paymentOrderId),("reason",.text "webhook settled"),
        ("settlement_ref",.ofOption callback.settlementRef)] none
  else if callback.status = "failed" then do
    let order ← order.transition .failed
    updateOrder order
    let now ← ask .now
    appendLog .dlq
      { paymentOrderId := order.paymentOrderId,
        reason := "webhook failed: "++callback.settlementRef.getD "no ref",
        evidence := [("settlement_ref",.ofOption callback.settlementRef),
          ("timestamp",.text callback.timestamp)],
        createdAt := now }
  else .fail (.invalidAmount ("unknown callback status: "++callback.status))

end OriginTools.Payments
