import OriginTools.Foundation.HashChain
import OriginTools.Payments.Store

/-!
# The double-entry journal and the audit stream

Postings and audit records are chained by hashes: a writer reads the head of its
log, then appends records that each name the hash of the one before.
-/

namespace OriginTools.Payments

structure PaySdk where
  sha3 : Bytes → Bytes
  postingJson : PostingBody → Bytes
  payloadJson : Payload → Bytes
  itemsJson : String → List DeferredItem → Bytes

variable (sdk : PaySdk)

def genesisHash : Bytes := List.replicate 32 0
def postingHash (p : LedgerPosting) : Bytes := sdk.sha3 (sdk.postingJson p.toPostingBody)

def journalHead : Proc Error Bytes := do
  let postings : List LedgerPosting ← readLog .postings
  return match postings.getLast? with
    | some p => postingHash sdk p
    | none => genesisHash

def signPosting (body : PostingBody) : Option OrderSigner → Proc Error LedgerPosting
  | none => return { body with signature := none,signer := none }
  | some keys => do
      let signature ← (ask (.sign keys (sdk.postingJson body))).bind Process.ofExcept
      return { body with signature := some signature,signer := some keys }

structure CurrencyLeg where
  account : Account
  amount : String
  currency : String

def appendLegs (batchId paymentOrderId ts : String) (fxRate : Option FxRate)
    (signer : Option OrderSigner) : List CurrencyLeg → Bytes → Proc Error Unit
  | [],_ => return ()
  | leg::legs,prev => do
      let postingId ← ask .uuid
      let posting ← signPosting sdk
        { postingId := postingId,batchId := batchId,paymentOrderId := paymentOrderId,
          account := leg.account,amount := leg.amount,currency := leg.currency,ts := ts,
          prevHash := prev,fxRate := fxRate } signer
      appendLog .postings posting
      appendLegs batchId paymentOrderId ts fxRate signer legs (postingHash sdk posting)

def writeBatch (paymentOrderId : String) (fxRate : Option FxRate) (signer : Option OrderSigner)
    (legs : List CurrencyLeg) : Proc Error String := do
  let batchId ← ask .uuid
  let ts ← ask .now
  let prev ← journalHead sdk
  appendLegs sdk batchId paymentOrderId ts fxRate signer legs prev
  return batchId

def Account.signed (account : Account) (minor : ℤ) : ℤ :=
  match account with
  | .debit => minor
  | .credit => wrap128 (-minor)

def signedSum : List (Account × String) → ℤ → Except Error ℤ
  | [],sum => .ok sum
  | (account,amount)::legs,sum => do
      let minor ← parseAmount amount
      signedSum legs (wrap128 (sum+account.signed minor))

def checkBatch (legs : List (Account × String)) : Except Error Unit := do
  if legs.length<2 then .error (.journalNotBalanced "a batch must have at least 2 legs")
  else do
    let sum ← signedSum legs 0
    if sum≠0 then .error (.journalNotBalanced ("sum = "++fmtAmount sum))
    else .ok ()

def appendBatch (paymentOrderId currency : String) (legs : List (Account × String))
    (signer : Option OrderSigner) : Proc Error String := do
  Process.ofExcept (checkBatch legs)
  writeBatch sdk paymentOrderId none signer
    (legs.map fun leg => { account := leg.1,amount := leg.2,currency := currency })

def currencyNets (rate : FxRate) : List CurrencyLeg → ℤ → ℤ → Except Error (ℤ × ℤ)
  | [],fromNet,toNet => .ok (fromNet,toNet)
  | leg::legs,fromNet,toNet => do
      let minor ← parseAmount leg.amount
      let signed:=leg.account.signed minor
      if leg.currency=rate.source then
        currencyNets rate legs (wrap128 (fromNet+signed)) toNet
      else if leg.currency=rate.target then
        currencyNets rate legs fromNet (wrap128 (toNet+signed))
      else
        .error (.journalNotBalanced ("leg in unexpected currency "++leg.currency++
          " (batch is "++rate.source ++ " -> "++rate.target ++ ")"))

def checkFxBatch (rate : FxRate) (legs : List CurrencyLeg) : Except Error Unit := do
  if legs.length<2 then .error (.journalNotBalanced "an FX batch must have at least 2 legs")
  else do
    let (fromNet,toNet) ← currencyNets rate legs 0 0
    if fromNet=0 ∨ toNet=0 then
      .error (.journalNotBalanced "FX batch must move money in both currencies")
    else if decide (fromNet>0)=decide (toNet>0) then
      .error (.journalNotBalanced "FX legs must move in opposite directions (from -> to)")
    else do
      let rateMinor ← parseRate rate.rate
      if rateMinor≤0 then .error (.journalNotBalanced "FX rate must be positive")
      else
        let converted:=(wrap128 (wrap128 fromNet.natAbs*rateMinor)).tdiv (10^rateScale)
        let expected:=wrap128 toNet.natAbs
        if (converted-expected).natAbs>1 then
          .error (.journalNotBalanced ("FX rate "++rate.source ++ "/"++rate.target++
            " does not balance the batch (converted "++toString converted ++ " vs "++
            toString expected ++ ")"))
        else .ok ()

def appendFxBatch (paymentOrderId : String) (legs : List CurrencyLeg) (rate : FxRate)
    (signer : Option OrderSigner) : Proc Error String := do
  Process.ofExcept (checkFxBatch rate legs)
  writeBatch sdk paymentOrderId (some rate) signer legs

def convertedAmount (amount : String) (rate : FxRate) : Except Error String := do
  let fromMinor ← parseAmount amount
  let rateMinor ← parseRate rate.rate
  return fmtAmount ((wrap128 (fromMinor*rateMinor)).tdiv (10^rateScale))

def appendOrderBatch (paymentOrderId amount currency : String) (fx : Option FxRate)
    (signer : Option OrderSigner) : Proc Error String :=
  match fx with
  | some rate => do
      let toAmount ← Process.ofExcept (convertedAmount amount rate)
      appendFxBatch sdk paymentOrderId
        [{ account := .debit,amount := amount,currency := rate.source },
          { account := .credit,amount := toAmount,currency := rate.target }] rate signer
  | none => appendBatch sdk paymentOrderId currency [(.debit,amount),(.credit,amount)] signer

def atOrderCreated : ℕ := 1
def atOrderSettled : ℕ := 2
def atOrderFailed : ℕ := 3
def atOrderRequeued : ℕ := 6
def atOrderFlagged : ℕ := 7

def entryHash (r : AuditRecord) : Bytes :=
  sdk.sha3 (r.prevHash++beBytes 4 r.seq++beBytes 1 r.entryType++r.payloadHash++
    beBytes 8 r.timestamp)

/-- `audit::record`: the signature is over the hash of the entry without it. The executor
and the webhook pass no keys. -/
def auditRecord (entryType : ℕ) (payload : Payload) (keys : Option OrderSigner) :
    Proc Error Unit := do
  let records : List AuditRecord ← readLog .audit
  let timestamp ← ask .nanos
  let entry : AuditRecord :=
    { prevHash := headFrom (entryHash sdk) genesisHash records
      seq := match records.getLast? with
        | some r => (r.seq+1)%2^32
        | none => 0
      entryType := entryType
      payloadHash := sdk.sha3 (sdk.payloadJson payload)
      payload := payload
      timestamp := timestamp
      signature := none }
  match keys with
  | none => appendLog .audit entry
  | some keys => do
      let signature ← (ask (.sign keys (entryHash sdk entry))).bind Process.ofExcept
      appendLog .audit { entry with signature := some signature }

def DeferredBatch.new (date : String) : Proc Error DeferredBatch :=
  if Vcs.Store.trim date = "" then .fail (.storeCorrupted "deferred batch date is empty")
  else do
    let batchId ← ask .uuid
    let now ← ask .now
    return { batchId := batchId,date := date,createdAt := now,items := [],
             contentHash := sdk.sha3 (sdk.itemsJson date []),totalMinor := 0 }

/-- The check that `commit_deferred_batch` and `DeferredBatch::push` both make. -/
def verifyItem (item : DeferredItem) : Proc Error Unit := do
  let ok ← ((ask (.verifyPaymentPayload item.signedPayload item.resourceUrl)).bind
    Process.ofExcept).mapErr fun e =>
      Error.storeCorrupted ("verifying deferred commitment: "++Error.toText e)
  if ok then return ()
  else .fail (.receiptVerificationFailed
    ("deferred commitment for "++item.paymentOrderId ++ " did not verify — refused"))

def DeferredBatch.push (batch : DeferredBatch) (item : DeferredItem) :
    Proc Error DeferredBatch := do
  verifyItem item
  let minor ← Process.ofExcept (parseAmount item.amount)
  return { batch with
    items := batch.items++[item]
    totalMinor := wrap128 (batch.totalMinor+minor)
    contentHash := sdk.sha3 (sdk.itemsJson batch.date (batch.items++[item])) }

def admitItems : List DeferredItem → DeferredBatch → Proc Error DeferredBatch
  | [],batch => return batch
  | item::rest,batch => do
      verifyItem item
      let batch ← batch.push sdk item
      admitItems rest batch

def commitDeferredBatch (date : String) : Proc Error DeferredBatch := do
  let batch ← DeferredBatch.new sdk date
  let items : List DeferredItem ← readLog .deferred
  let batch ← admitItems sdk items batch
  appendLog .batches batch
  checkpointMmr batch.contentHash
  replaceLog .deferred []
  return batch

end OriginTools.Payments
