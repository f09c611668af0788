import OriginTools.Foundation.RollingWindow
import OriginTools.Proof.Mmr

/-!
# The offline native rail

`LocalNativeRail::pay_sync` (`origin-wallet/src/native_rail.rs`) over the parts of a
wallet it reads and writes (`wallet.rs`): the accounts, the history, the spend policy
and the spend windows.
-/

namespace OriginTools.NativeRail
open OriginTools.Proof

inductive AddressType where
  | bech32
  | bech32m
  | base58Check
  deriving DecidableEq

inductive Network where
  | mainnet
  | testnet
  deriving DecidableEq

structure Address where
  pubkeyHash : List.Vector UInt8 20
  addressType : AddressType
  network : Network
  deriving DecidableEq

structure Transaction where
  id : Digest
  fromAddr : Address
  toAddr : Address
  amount : UInt64
  fee : UInt64
  nonce : ℕ
  signature : Bytes
  timestamp : ℕ
  encryptedMemo : Option Bytes

/-- The calls into other crates. `monthOf` is `year * 12 + month0` of a Unix time. -/
structure Sdk where
  sha256 : Bytes → Digest
  mmrHash : Bytes → Digest
  bech32 : (hrp : String) → List.Vector UInt8 20 → Except String String
  serialize : Transaction → Except String Bytes
  monthOf : ℕ → ℕ

def Address.hrp (a : Address) : String :=
  match a.network with
  | .mainnet => "origin"
  | .testnet => "torigin"

def Address.bech32Bytes (sdk : Sdk) (a : Address) : Bytes :=
  match sdk.bech32 a.hrp a.pubkeyHash with
  | .error _ => []
  | .ok text => Vcs.utf8 text

def leBytes8 (n : ℕ) : Bytes := (beBytes 8 n).reverse

def Transaction.new (sdk : Sdk) (source target : Address) (amount fee : UInt64) (nonce now : ℕ) :
    Transaction :=
  { id := sdk.sha256 (source.bech32Bytes sdk++target.bech32Bytes sdk++
      leBytes8 amount.toNat++leBytes8 fee.toNat++leBytes8 nonce)
    fromAddr := source
    toAddr := target
    amount := amount
    fee := fee
    nonce := nonce
    signature := []
    timestamp := now
    encryptedMemo := none }

def recipientAddress (sdk : Sdk) (toId : String) : Address :=
  let digest:=sdk.sha256 (Vcs.utf8 toId)
  { pubkeyHash := ⟨digest.toList.take 20,by simp⟩
    addressType := .bech32
    network := .mainnet }

inductive WalletError where
  | transaction (msg : String)
  | accountNotFound (msg : String)
  | serialization (msg : String)
  deriving DecidableEq

structure Account where
  index : UInt32
  address : Address
  balance : UInt64

structure SpendPolicy where
  perTx : Option UInt64
  perDay : Option UInt64
  perMonth : Option UInt64

structure SpendBuckets where
  day : RollingWindow
  month : RollingWindow

structure Wallet where
  accounts : List Account
  history : MmrState
  spendPolicy : SpendPolicy
  spendBuckets : SpendBuckets

def u64Max : ℕ := 2^64-1
def dayOf (now : ℕ) : ℕ := now/86400

namespace Wallet

def transactionCount (w : Wallet) : ℕ := w.history.leafCount

def rollSpendWindows (sdk : Sdk) (now : ℕ) (w : Wallet) : Wallet :=
  { w with
    spendBuckets :=
      { day := w.spendBuckets.day.roll (dayOf now)
        month := w.spendBuckets.month.roll (sdk.monthOf now) } }

def projected (window : RollingWindow) (amount : UInt64) : ℕ :=
  (window.add u64Max amount.toNat).spent

def exceeds (cap : Option UInt64) (total : ℕ) : Option ℕ :=
  match cap with
  | none => none
  | some cap => if total>cap.toNat then some cap.toNat else none

def policyRefusal (w : Wallet) (amount : UInt64) : Option WalletError :=
  match exceeds w.spendPolicy.perTx amount.toNat with
  | some cap => some (.transaction
      s!"amount {amount.toNat} exceeds the per-transaction spend cap {cap} (SPEC §10.2)")
  | none =>
    let day:=projected w.spendBuckets.day amount
    match exceeds w.spendPolicy.perDay day with
    | some cap => some (.transaction
        s!"day spend would reach {day}, exceeding the per-day cap {cap} (SPEC §10.2)")
    | none =>
      let month:=projected w.spendBuckets.month amount
      match exceeds w.spendPolicy.perMonth month with
      | some cap => some (.transaction
          s!"month spend would reach {month}, exceeding the per-month cap {cap} (SPEC §10.2)")
      | none => none

def checkSpend (sdk : Sdk) (now : ℕ) (w : Wallet) (amount : UInt64) :
    Except WalletError Unit × Wallet :=
  let w:=w.rollSpendWindows sdk now
  match w.policyRefusal amount with
  | some e => (.error e,w)
  | none => (.ok (),w)

def recordSpend (sdk : Sdk) (now : ℕ) (w : Wallet) (amount : UInt64) : Wallet :=
  let w:=w.rollSpendWindows sdk now
  { w with
    spendBuckets :=
      { day := w.spendBuckets.day.add u64Max amount.toNat
        month := w.spendBuckets.month.add u64Max amount.toNat } }

def accountNotFound (index : UInt32) : WalletError := .accountNotFound s!"Account {index.toNat}"

def getBalance (w : Wallet) (index : UInt32) : Except WalletError UInt64 :=
  match w.accounts.find? (fun a => a.index=index) with
  | none => .error (accountNotFound index)
  | some account => .ok account.balance

def setBalance (index : UInt32) (balance : UInt64) : List Account → List Account
  | [] => []
  | a::rest =>
    if a.index=index then { a with balance := balance }::rest
    else a::setBalance index balance rest

def updateBalance (w : Wallet) (index : UInt32) (balance : UInt64) : Except WalletError Wallet :=
  match w.accounts.find? (fun a => a.index=index) with
  | none => .error (accountNotFound index)
  | some _ => .ok { w with accounts := setBalance index balance w.accounts }

def addTransaction (sdk : Sdk) (w : Wallet) (tx : Transaction) :
    Option (Except WalletError Wallet) :=
  match sdk.serialize tx with
  | .error e => some (.error (.serialization e))
  | .ok txBytes =>
    match w.history.appendHash sdk.mmrHash (sdk.sha256 txBytes) with
    | none => none
    | some history => some (.ok { w with history := history })

end Wallet

structure NativePayParams where
  toId : String
  amount : UInt64
  memo : Bytes
  spendCap : Option UInt64

structure NativeReceipt where
  toId : String
  amount : UInt64
  memoHex : String
  txId : String
  timestamp : String

/-- The clock as one payment reads it: at the policy check, for the transaction, at the
record of the spend, and as text for the receipt. -/
structure Readings where
  check : ℕ
  transaction : ℕ
  record : ℕ
  stamp : String

structure Payment where
  params : NativePayParams
  readings : Readings

abbrev Outcome : Type := Except WalletError NativeReceipt

def settle (sdk : Sdk) (w : Wallet) (params : NativePayParams) (readings : Readings) :
    Option (Outcome × Wallet) :=
  match w.accounts[0]? with
  | none => some (.error (.accountNotFound "account 0 for native rail"),w)
  | some payer =>
    let tx:=Transaction.new sdk payer.address (recipientAddress sdk params.toId) params.amount 0
      w.transactionCount readings.transaction
    match w.addTransaction sdk tx with
    | none => none
    | some (.error e) => some (.error e,w)
    | some (.ok w) =>
      let w:=w.recordSpend sdk readings.record params.amount
      match sdk.serialize tx with
      | .error e => some (.error (.transaction e),w)
      | .ok bytes =>
        some (.ok
          { toId := params.toId
            amount := params.amount
            memoHex := hexEncode params.memo
            txId := hexDigest (sdk.sha256 bytes)
            timestamp := readings.stamp },w)

def paySync (sdk : Sdk) (w : Wallet) (payment : Payment) : Option (Outcome × Wallet) :=
  let amount:=payment.params.amount
  match Wallet.exceeds payment.params.spendCap amount.toNat with
  | some cap =>
    some (.error (.transaction
      s!"amount {amount.toNat} exceeds spend cap {cap} (policy refusal)"),w)
  | none =>
    let checked:=w.checkSpend sdk payment.readings.check amount
    let w:=checked.2
    match checked.1 with
    | .error e => some (.error e,w)
    | .ok () =>
      match w.getBalance 0 with
      | .error e => some (.error e,w)
      | .ok bal =>
        if bal<amount then
          some (.error (.transaction
            s!"insufficient funds: account 0 has {bal.toNat}, need {amount.toNat}"),w)
        else
          match w.updateBalance 0 (bal-amount) with
          | .error e => some (.error e,w)
          | .ok w => settle sdk w payment.params payment.readings

def payAll (sdk : Sdk) : Wallet → List Payment → Option (List Outcome × Wallet)
  | w,[] => some ([],w)
  | w,payment::payments =>
    match paySync sdk w payment with
    | none => none
    | some (outcome,w) =>
      match payAll sdk w payments with
      | none => none
      | some (outcomes,w) => some (outcome::outcomes,w)

def Sdk.Serializes (sdk : Sdk) : Prop := ∀ tx,∃ bytes,sdk.serialize tx=.ok bytes

theorem exceeds_none {cap total} (h : Wallet.exceeds cap total=none) {c} (hc : cap=some c) :
    total≤c.toNat := by
  subst hc
  unfold Wallet.exceeds at h
  simp only at h
  split at h
  · cases h
  · omega

variable {index : UInt32}

theorem find_setBalance {balance accounts account}
    (h : accounts.find? (fun a => a.index=index)=some account) :
    (Wallet.setBalance index balance accounts).find? (fun a => a.index=index)=
      some { account with balance := balance } := by
  induction accounts with
  | nil => cases h
  | cons a rest ih =>
    unfold Wallet.setBalance
    split_ifs with ha
    · rw [List.find?_cons_of_pos (by simpa using ha)] at h
      rw [List.find?_cons_of_pos (by simpa using ha)]
      cases h
      rfl
    · rw [List.find?_cons_of_neg (by simpa using ha)] at h
      rw [List.find?_cons_of_neg (by simpa using ha)]
      exact ih h

variable {w : Wallet} {bal : UInt64}

theorem getBalance_ok (h : w.getBalance index=.ok bal) :
    ∃ account,w.accounts.find? (fun a => a.index=index)=some account ∧ account.balance=bal := by
  unfold Wallet.getBalance at h
  split at h
  · cases h
  case h_2 account haccount =>
    cases h
    exact ⟨account,haccount,rfl⟩

theorem updateBalance_ok {account balance}
    (h : w.accounts.find? (fun a => a.index=index)=some account) :
    w.updateBalance index balance=
      .ok { w with accounts := Wallet.setBalance index balance w.accounts } := by
  unfold Wallet.updateBalance
  rw [h]

theorem getBalance_setBalance {w' : Wallet} {balance} (h : w.getBalance index=.ok bal)
    (haccounts : w'.accounts=Wallet.setBalance index balance w.accounts) :
    w'.getBalance index=.ok balance := by
  obtain ⟨account,haccount,_⟩ := getBalance_ok h
  unfold Wallet.getBalance
  rw [haccounts,find_setBalance haccount]

theorem setBalance_ne_nil (index balance) {accounts} (h : accounts≠[]) :
    ∃ first rest,Wallet.setBalance index balance accounts=first::rest := by
  rcases accounts with _ | ⟨a,rest⟩
  · exact absurd rfl h
  unfold Wallet.setBalance
  split
  · exact ⟨_,_,rfl⟩
  · exact ⟨_,_,rfl⟩

def paidWallet (sdk : Sdk) (w : Wallet) (payment : Payment) (bal : UInt64) (history : MmrState) :
    Wallet :=
  { accounts := Wallet.setBalance 0 (bal-payment.params.amount) w.accounts
    history := history
    spendPolicy := w.spendPolicy
    spendBuckets :=
      ((w.rollSpendWindows sdk payment.readings.check).recordSpend sdk payment.readings.record
        payment.params.amount).spendBuckets }

/-- A payment that returns is refused, having at most rolled the windows, or paid. -/
inductive Effect (sdk : Sdk) (w : Wallet) (payment : Payment) : Outcome × Wallet → Prop where
  | refusedAtOnce (e : WalletError) : Effect sdk w payment (.error e,w)
  | refused (e : WalletError) :
    Effect sdk w payment (.error e,w.rollSpendWindows sdk payment.readings.check)
  | paid (bal : UInt64) (receipt : NativeReceipt) (leaf : Digest) (history : MmrState)
    (balance : w.getBalance 0=.ok bal) (covered : payment.params.amount≤bal)
    (allowed : (w.rollSpendWindows sdk payment.readings.check).policyRefusal
      payment.params.amount=none)
    (amount : receipt.amount=payment.params.amount)
    (appended : w.history.appendHash sdk.mmrHash leaf=some history) :
    Effect sdk w payment (.ok receipt,paidWallet sdk w payment bal history)

theorem settle_debited {sdk} (hserialize : sdk.Serializes) (hbalance : w.getBalance 0=.ok bal)
    (payment : Payment) (debited : Wallet) (haccounts : debited.accounts=
      Wallet.setBalance 0 (bal-payment.params.amount) w.accounts) :
    ∃ leaf receipt,receipt.amount=payment.params.amount ∧
      settle sdk debited payment.params payment.readings=
        (debited.history.appendHash sdk.mmrHash leaf).map fun history =>
          (.ok receipt,Wallet.recordSpend sdk payment.readings.record
            { debited with history := history } payment.params.amount) := by
  obtain ⟨account,haccount,_⟩ := getBalance_ok hbalance
  have hne : w.accounts≠[] := by
    intro hnil
    rw [hnil] at haccount
    cases haccount
  obtain ⟨first,rest,hfirst⟩ := setBalance_ne_nil 0 (bal-payment.params.amount) hne
  have hget : debited.accounts[0]? = some first := by
    rw [haccounts,hfirst]
    rfl
  obtain ⟨bytes,hbytes⟩ := hserialize (Transaction.new sdk first.address
    (recipientAddress sdk payment.params.toId) payment.params.amount 0 debited.transactionCount
    payment.readings.transaction)
  refine ⟨sdk.sha256 bytes,
    { toId := payment.params.toId
      amount := payment.params.amount
      memoHex := hexEncode payment.params.memo
      txId := hexDigest (sdk.sha256 bytes)
      timestamp := payment.readings.stamp },rfl,?_⟩
  unfold settle
  rw [hget]
  simp only [Wallet.addTransaction,hbytes]
  cases happend : debited.history.appendHash sdk.mmrHash (sdk.sha256 bytes) with
  | none => rfl
  | some history => simp only [Option.map_some]

theorem paySync_cases {sdk} (hserialize : sdk.Serializes) (w : Wallet) (payment : Payment) :
    (∃ e,paySync sdk w payment=some (.error e,w)) ∨ (∃ e,paySync sdk w payment=
        some (.error e,w.rollSpendWindows sdk payment.readings.check)) ∨
      ∃ bal leaf receipt,w.getBalance 0=.ok bal ∧ payment.params.amount≤bal ∧
        (w.rollSpendWindows sdk payment.readings.check).policyRefusal payment.params.amount=none ∧
        receipt.amount=payment.params.amount ∧
        paySync sdk w payment=(w.history.appendHash sdk.mmrHash leaf).map fun history =>
          (.ok receipt,paidWallet sdk w payment bal history) := by
  unfold paySync
  simp only
  split
  · exact .inl ⟨_,rfl⟩
  · simp only [Wallet.checkSpend]
    cases hpolicy : (w.rollSpendWindows sdk payment.readings.check).policyRefusal
        payment.params.amount with
    | some e => exact .inr (.inl ⟨e,rfl⟩)
    | none =>
      simp only
      have hsame : (w.rollSpendWindows sdk payment.readings.check).getBalance 0=
          w.getBalance 0 := rfl
      rw [hsame]
      rcases hbalance : w.getBalance 0 with e | bal
      · exact .inr (.inl ⟨e,rfl⟩)
      simp only
      split_ifs with hlt
      · exact .inr (.inl ⟨_,rfl⟩)
      obtain ⟨account,haccount,_⟩ := getBalance_ok (hsame.trans hbalance)
      rw [updateBalance_ok haccount]
      obtain ⟨leaf,receipt,hamount,hsettle⟩ := settle_debited hserialize hbalance payment
        { w.rollSpendWindows sdk payment.readings.check with
          accounts := Wallet.setBalance 0 (bal-payment.params.amount) w.accounts } rfl
      exact .inr (.inr ⟨bal,leaf,receipt,rfl,UInt64.not_lt.1 hlt,trivial,hamount,
        hsettle⟩)

theorem paySync_effect {sdk} (hserialize : sdk.Serializes) {payment out}
    (h : paySync sdk w payment=some out) : Effect sdk w payment out := by
  rcases paySync_cases hserialize w payment with ⟨e,he⟩ | ⟨e,he⟩ | hpaid
  · rw [he] at h
    cases h
    exact .refusedAtOnce e
  · rw [he] at h
    cases h
    exact .refused e
  · obtain ⟨bal,leaf,receipt,hbalance,hcovered,hallowed,hamount,hpay⟩ := hpaid
    rw [hpay,Option.map_eq_some_iff] at h
    obtain ⟨history,happended,hout⟩ := h
    cases hout
    exact .paid bal receipt leaf history hbalance hcovered hallowed hamount happended

theorem appendHash_leafCount {hash} {s s' : MmrState} {leaf} (h : s.appendHash hash leaf=some s') :
    s'.leafCount=s.leafCount+1 := by
  unfold MmrState.appendHash at h
  rw [Option.bind_eq_bind,Option.bind_eq_some_iff] at h
  obtain ⟨stack,_,h⟩ := h
  cases h
  rfl

def taken : List Payment → List Outcome → List (Payment × NativeReceipt)
  | payment::payments,.ok receipt::outcomes => (payment,receipt)::taken payments outcomes
  | _::payments,.error _::outcomes => taken payments outcomes
  | _,_ => []

def total (paid : List (Payment × NativeReceipt)) : ℕ := (paid.map fun p => p.2.amount.toNat).sum

inductive Span where
  | day
  | month

namespace Span

def keyOf (sdk : Sdk) : Span → ℕ → ℕ
  | day => dayOf
  | month => sdk.monthOf

def cap : Span → SpendPolicy → Option UInt64
  | day => (·.perDay)
  | month => (·.perMonth)

def bucket : Span → SpendBuckets → RollingWindow
  | day => (·.day)
  | month => (·.month)

def use (sdk : Sdk) (span : Span) (p : Payment × NativeReceipt) : WindowUse :=
  ⟨span.keyOf sdk p.1.readings.check,span.keyOf sdk p.1.readings.record,p.2.amount.toNat⟩

end Span

def NonDecreasing : ℕ → List Payment → Prop
  | _,[] => True
  | last,payment::payments =>
    last≤payment.readings.check ∧ payment.readings.check≤payment.readings.record ∧
      NonDecreasing payment.readings.record payments

theorem payAll_cons {sdk payment payments outcomes w'}
    (h : payAll sdk w (payment::payments)=some (outcomes,w')) :
    ∃ outcome next rest,paySync sdk w payment=some (outcome,next) ∧
      payAll sdk next payments=some (rest,w') ∧ outcomes=outcome::rest := by
  unfold payAll at h
  split at h
  · cases h
  case h_2 outcome next hpay =>
    split at h
    · cases h
    case h_2 rest final hrest =>
      cases h
      exact ⟨outcome,next,rest,hpay,hrest,rfl⟩

section Run
variable {sdk : Sdk}
variable {w : Wallet} {payments : List Payment} {outcomes : List Outcome}

theorem payAll_balance (hserialize : sdk.Serializes) {w'}
    (h : payAll sdk w payments=some (outcomes,w')) {bal} (hbal : w.getBalance 0=.ok bal) :
    ∃ bal',w'.getBalance 0=.ok bal' ∧ bal'.toNat+total (taken payments outcomes)=bal.toNat := by
  induction payments generalizing w bal outcomes with
  | nil =>
    cases h
    exact ⟨bal,hbal,rfl⟩
  | cons payment payments ih =>
    obtain ⟨outcome,next,rest,hpay,hrest,houtcomes⟩ := payAll_cons h
    subst houtcomes
    cases paySync_effect hserialize hpay with
    | refusedAtOnce | refused => exact ih hrest hbal
    | paid bal₀ receipt leaf history balance covered allowed amount appended =>
      have hsame : bal₀=bal := by
        rw [hbal] at balance
        exact (Except.ok.inj balance).symm
      subst hsame
      have hnext : (paidWallet sdk w payment bal₀ history).getBalance 0=
          .ok (bal₀-payment.params.amount) := getBalance_setBalance balance rfl
      obtain ⟨bal',hbal',hsum⟩ := ih hrest hnext
      refine ⟨bal',hbal',?_⟩
      have hsub:=UInt64.toNat_sub_of_le _ _ covered
      have hle : payment.params.amount.toNat≤bal₀.toNat := UInt64.le_iff_toNat_le.1 covered
      simp only [taken,total,List.map_cons,List.sum_cons,amount]
      unfold total at hsum
      omega

theorem payAll_history (hserialize : sdk.Serializes) {w' : Wallet}
    (h : payAll sdk w payments=some (outcomes,w')) :
    w'.history.leafCount=w.history.leafCount+(taken payments outcomes).length := by
  induction payments generalizing w outcomes with
  | nil =>
    cases h
    rfl
  | cons payment payments ih =>
    obtain ⟨outcome,next,rest,hpay,hrest,houtcomes⟩ := payAll_cons h
    subst houtcomes
    have hih:=ih hrest
    cases paySync_effect hserialize hpay with
    | refusedAtOnce | refused => exact hih
    | paid bal receipt leaf history balance covered allowed amount appended =>
      have hcount:=appendHash_leafCount appended
      simp only [paidWallet] at hih
      simp only [taken,List.length_cons]
      omega

theorem paidWallet_bucket (w : Wallet) (payment : Payment) (bal : UInt64) (history : MmrState)
    (span : Span) :
    span.bucket (paidWallet sdk w payment bal history).spendBuckets=
      (((span.bucket w.spendBuckets).roll (span.keyOf sdk payment.readings.check)).roll
        (span.keyOf sdk payment.readings.record)).add u64Max payment.params.amount.toNat := by
  cases span with
  | day | month => rfl

theorem rollSpendWindows_bucket (w : Wallet) (now : ℕ) (span : Span) :
    span.bucket (w.rollSpendWindows sdk now).spendBuckets=
      (span.bucket w.spendBuckets).roll (span.keyOf sdk now) := by
  cases span with
  | day | month => rfl

theorem projected_le {amount} (h : w.policyRefusal amount=none) {span : Span} {cap : UInt64}
    (hcap : span.cap w.spendPolicy=some cap) :
    Wallet.projected (span.bucket w.spendBuckets) amount≤cap.toNat := by
  unfold Wallet.policyRefusal at h
  split at h
  · cases h
  · simp only at h
    split at h
    · cases h
    case h_2 hday =>
      split at h
      · cases h
      case h_2 hmonth =>
        cases span with
        | day => exact exceeds_none hday hcap
        | month => exact exceeds_none hmonth hcap

theorem payAll_within (hserialize : sdk.Serializes) {span : Span}
    (hmono : Monotone (span.keyOf sdk)) {cap : UInt64} (hsmall : cap.toNat<u64Max) {w'}
    (h : payAll sdk w payments=some (outcomes,w')) (hcap : span.cap w.spendPolicy=some cap)
    {last} (hclock : NonDecreasing last payments) {before}
    (haccounts : RollingWindow.Accounts u64Max (span.bucket w.spendBuckets)
      (span.keyOf sdk last) before) (hbefore : ∀ k,RollingWindow.within k before≤cap.toNat) :
    ∀ k,RollingWindow.within k (before++(taken payments outcomes).map (span.use sdk))≤
      cap.toNat := by
  induction payments generalizing w outcomes last before with
  | nil =>
    cases h
    simpa [taken] using hbefore
  | cons payment payments ih =>
    obtain ⟨outcome,next,rest,hpay,hrest,houtcomes⟩ := payAll_cons h
    subst houtcomes
    obtain ⟨hcheck,hrecord,hclock⟩ := hclock
    have hchecked:=haccounts.roll (hmono hcheck)
    have hrecorded:=hchecked.roll (hmono hrecord)
    cases paySync_effect hserialize hpay with
    | refusedAtOnce e =>
      -- the windows were not even rolled, so they still account up to `last`
      have hlast : NonDecreasing last payments := by
        cases payments with
        | nil => trivial
        | cons p ps => exact ⟨by have := hclock.1; omega,hclock.2⟩
      exact ih hrest hcap hlast haccounts hbefore
    | refused e =>
      have hnext : NonDecreasing payment.readings.check payments := by
        cases payments with
        | nil => trivial
        | cons p ps => exact ⟨by have := hclock.1; omega,hclock.2⟩
      refine ih hrest hcap hnext ?_ hbefore
      rw [rollSpendWindows_bucket]
      exact hchecked
    | paid bal receipt leaf history balance covered allowed amount appended =>
      have hfits:=projected_le allowed hcap
      rw [rollSpendWindows_bucket] at hfits
      have hwithin:=RollingWindow.within_le_of_check hsmall hchecked
        (RollingWindow.roll_key _ _) hfits hbefore (span.keyOf sdk payment.readings.record)
      have hadded:=hrecorded.add (RollingWindow.roll_key _ _)
        (span.keyOf sdk payment.readings.check) payment.params.amount.toNat
      rw [← paidWallet_bucket w payment bal history] at hadded
      have hrun:=ih hrest hcap hclock hadded hwithin
      intro k
      have hk:=hrun k
      simp only [List.append_assoc,List.singleton_append] at hk
      simpa only [taken,List.map_cons,Span.use,amount] using hk

theorem within_le_total (span : Span) (paid : List (Payment × NativeReceipt)) (k : ℕ) :
    RollingWindow.within k (paid.map (span.use sdk))≤total paid := by
  induction paid with
  | nil => exact Nat.le_refl _
  | cons p paid ih =>
    unfold RollingWindow.within total at ih ⊢
    simp only [List.map_cons,List.sum_cons]
    by_cases h : (span.use sdk p).checked=k ∧ (span.use sdk p).recorded=k
    · rw [List.filter_cons_of_pos (by simpa using h),List.map_cons,List.sum_cons]
      simp only [Span.use] at ih ⊢
      omega
    · rw [List.filter_cons_of_neg (by simpa using h)]
      omega

theorem total_eq_zero_of_no_account (hserialize : sdk.Serializes) {w'}
    (h : payAll sdk w payments=some (outcomes,w')) {e} (herror : w.getBalance 0=.error e) :
    total (taken payments outcomes)=0 := by
  induction payments generalizing w outcomes with
  | nil =>
    cases h
    rfl
  | cons payment payments ih =>
    obtain ⟨outcome,next,rest,hpay,hrest,houtcomes⟩ := payAll_cons h
    subst houtcomes
    cases paySync_effect hserialize hpay with
    | refusedAtOnce | refused => exact ih hrest herror
    | paid bal receipt leaf history balance covered allowed amount appended =>
      rw [herror] at balance
      cases balance

theorem total_le_u64Max (hserialize : sdk.Serializes) {w'}
    (h : payAll sdk w payments=some (outcomes,w')) :
    total (taken payments outcomes)≤u64Max := by
  cases hbal : w.getBalance 0 with
  | error e =>
    rw [total_eq_zero_of_no_account hserialize h hbal]
    exact Nat.zero_le _
  | ok bal =>
    obtain ⟨bal',_,hsum⟩ := payAll_balance hserialize h hbal
    have hlt:=bal.toNat_lt
    unfold u64Max
    omega

theorem payAll_capped (hserialize : sdk.Serializes) (span : Span)
    (hmono : Monotone (span.keyOf sdk)) {w'} (h : payAll sdk w payments=some (outcomes,w'))
    (hclock : NonDecreasing 0 payments) {cap : UInt64} (hcap : span.cap w.spendPolicy=some cap)
    (k : ℕ) :
    RollingWindow.within k ((taken payments outcomes).map (span.use sdk))≤cap.toNat := by
  by_cases hsmall : cap.toNat<u64Max
  · exact payAll_within hserialize hmono hsmall h hcap hclock
      (RollingWindow.accounts_nil _ _ _) (fun _ => Nat.zero_le _) k
  have htotal:=total_le_u64Max hserialize h
  have hle : RollingWindow.within k ((taken payments outcomes).map (span.use sdk))≤
      total (taken payments outcomes) := within_le_total span (taken payments outcomes) k
  omega

def Grown (sdk : Sdk) (history : MmrState) : Prop :=
  ∃ version leaves,history=stateOf sdk.mmrHash version id leaves

theorem Grown.append {history} (h : Grown sdk history) (leaf : Digest) :
    ∃ history',history.appendHash sdk.mmrHash leaf=some history' ∧ Grown sdk history' := by
  obtain ⟨version,leaves,hstate⟩ := h
  have happend:=appendHash_stateOf sdk.mmrHash version id leaves leaf
  rw [← hstate] at happend
  exact ⟨_,happend,version,leaves++[leaf],rfl⟩

theorem payAll_returns (hserialize : sdk.Serializes) (hgrown : Grown sdk w.history) (payments) :
    ∃ out,payAll sdk w payments=some out := by
  induction payments generalizing w with
  | nil => exact ⟨_,rfl⟩
  | cons payment payments ih =>
    have hpay : ∃ outcome next,paySync sdk w payment=some (outcome,next) ∧
        Grown sdk next.history := by
      rcases paySync_cases hserialize w payment with ⟨e,he⟩ | ⟨e,he⟩ | hpaid
      · exact ⟨_,_,he,hgrown⟩
      · exact ⟨_,_,he,hgrown⟩
      · obtain ⟨bal,leaf,receipt,_,_,_,_,hpay⟩ := hpaid
        obtain ⟨history,happended,hnext⟩ := hgrown.append leaf
        rw [happended,Option.map_some] at hpay
        exact ⟨_,_,hpay,hnext⟩
    obtain ⟨outcome,next,hnext,hgrown'⟩ := hpay
    obtain ⟨out,hout⟩ := ih hgrown'
    refine ⟨(outcome::out.1,out.2),?_⟩
    unfold payAll
    rw [hnext]
    simp only [hout]

end Run

structure Conserved (sdk : Sdk) (w w' : Wallet) (paid : List (Payment × NativeReceipt)) : Prop where
  balance : ∀ bal,w.getBalance 0=.ok bal →
    ∃ bal',w'.getBalance 0=.ok bal' ∧ bal'.toNat+total paid=bal.toNat
  history : w'.history.leafCount=w.history.leafCount+paid.length
  day : ∀ cap,w.spendPolicy.perDay=some cap →
    ∀ day,RollingWindow.within day (paid.map (Span.day.use sdk))≤cap.toNat
  month : ∀ cap,w.spendPolicy.perMonth=some cap →
    ∀ month,RollingWindow.within month (paid.map (Span.month.use sdk))≤cap.toNat

theorem monotone_dayOf : Monotone dayOf := fun _ _ h => Nat.div_le_div_right h

/-- After payments under a clock that does not run back, balance, history and windows are
as the receipts say; a refused payment changes neither an account nor the history. -/
theorem native_payments_conserve (sdk : Sdk) (hserialize : sdk.Serializes)
    (hmonth : Monotone sdk.monthOf) (w : Wallet) (payments : List Payment)
    (hclock : NonDecreasing 0 payments) :
    (Grown sdk w.history → ∃ out,payAll sdk w payments=some out) ∧
      (∀ outcomes w',payAll sdk w payments=some (outcomes,w') →
        Conserved sdk w w' (taken payments outcomes)) ∧
      (∀ before payment e after,paySync sdk before payment=some (.error e,after) →
        after.accounts=before.accounts ∧ after.history=before.history) := by
  refine ⟨fun hgrown => payAll_returns hserialize hgrown payments,?_,?_⟩
  · intro outcomes w' h
    exact
      { balance := fun bal hbal => payAll_balance hserialize h hbal
        history := payAll_history hserialize h
        day := fun cap hcap day => payAll_capped hserialize .day monotone_dayOf h hclock hcap day
        month := fun cap hcap month => payAll_capped hserialize .month hmonth h hclock hcap month }
  · intro before payment e after h
    cases paySync_effect hserialize h with
    | refusedAtOnce | refused => exact ⟨rfl,rfl⟩

def Wallet.deriveAccount (addressOf : UInt32 → Except WalletError Address) (w : Wallet)
    (index : UInt32) : Except WalletError Account × Wallet :=
  match w.accounts.find? (fun a => a.index=index) with
  | some account => (.ok account,w)
  | none =>
    match addressOf index with
    | .error e => (.error e,w)
    | .ok address =>
      (.ok ⟨index,address,0⟩,{ w with accounts := w.accounts++[⟨index,address,0⟩] })

def Wallet.Derived (addressOf : UInt32 → Except WalletError Address) (w : Wallet) : Prop :=
  ∀ account∈w.accounts,addressOf account.index=.ok account.address

theorem Wallet.Derived.deriveAccount {addressOf} (h : w.Derived addressOf) (index) :
    (w.deriveAccount addressOf index).2.Derived addressOf := by
  unfold Wallet.deriveAccount
  split
  · exact h
  split
  · exact h
  rename_i address haddress
  intro account hmem
  rcases List.mem_append.mp hmem with hmem | hmem
  · exact h account hmem
  · rw [List.mem_singleton.mp hmem]
    exact haddress

/-- The payment put a transaction from `source`, the address of the account listed first, on
record. -/
structure Recorded (sdk : Sdk) (w : Wallet) (payment : Payment) (receipt : NativeReceipt)
    (w' : Wallet) (source : Address) : Prop where
  first : w.accounts[0]?.map Account.address=some source
  recorded : ∃ bytes,sdk.serialize (Transaction.new sdk source
      (recipientAddress sdk payment.params.toId) payment.params.amount 0 w.transactionCount
      payment.readings.transaction)=.ok bytes ∧
    w.history.appendHash sdk.mmrHash (sdk.sha256 bytes)=some w'.history ∧
    receipt.txId=hexDigest (sdk.sha256 bytes)

theorem checkSpend_wallet {sdk now amount} :
    (w.checkSpend sdk now amount).2=w.rollSpendWindows sdk now := by
  unfold Wallet.checkSpend
  dsimp only
  split
  · rfl
  · rfl

theorem settle_recorded {sdk} {payment : Payment} {receipt w'}
    (h : settle sdk w payment.params payment.readings=some (.ok receipt,w')) :
    w'.accounts=w.accounts ∧ ∃ source,Recorded sdk w payment receipt w' source := by
  unfold settle at h
  split at h
  · cases h
  rename_i payer hpayer
  simp only [Wallet.addTransaction] at h
  split at h
  · cases h
  · cases h
  rename_i hadded
  split at hadded
  · cases hadded
  rename_i bytes hbytes
  split at hadded
  · cases hadded
  rename_i history happended
  cases hadded
  rw [hbytes] at h
  cases h
  exact ⟨rfl,payer.address,by rw [hpayer]; rfl,bytes,hbytes,happended,rfl⟩

theorem setBalance_first (index balance accounts) :
    (Wallet.setBalance index balance accounts)[0]?.map Account.address=
      accounts[0]?.map Account.address := by
  cases accounts with
  | nil => rfl
  | cons a rest =>
    unfold Wallet.setBalance
    split_ifs
    · rfl
    · rfl

theorem paySync_recorded {sdk payment receipt w'}
    (h : paySync sdk w payment=some (.ok receipt,w')) :
    ∃ account,w.accounts.find? (fun a => a.index=0)=some account ∧
      w'.accounts=Wallet.setBalance 0 (account.balance-payment.params.amount) w.accounts ∧
      ∃ source,Recorded sdk w payment receipt w' source := by
  unfold paySync at h
  simp only [checkSpend_wallet] at h
  split at h
  · cases h
  split at h
  · cases h
  split at h
  · cases h
  rename_i bal hbal
  split at h
  · cases h
  obtain ⟨account,haccount,rfl⟩ := getBalance_ok hbal
  rw [updateBalance_ok haccount] at h
  obtain ⟨haccounts,source,hfirst,hrecorded⟩ := settle_recorded h
  rw [setBalance_first] at hfirst
  exact ⟨account,haccount,haccounts,source,hfirst,hrecorded⟩

theorem recorded_sender_is_debited_iff {sdk : Sdk}
    {addressOf : UInt32 → Except WalletError Address} {w w' : Wallet} {payment : Payment}
    {receipt : NativeReceipt}
    (hinj : ∀ i j address,addressOf i=.ok address → addressOf j=.ok address → i=j)
    (hderived : w.Derived addressOf) (h : paySync sdk w payment=some (.ok receipt,w')) :
    ∃ account source,w.accounts.find? (fun a => a.index=0)=some account ∧
      w'.accounts=Wallet.setBalance 0 (account.balance-payment.params.amount) w.accounts ∧
      Recorded sdk w payment receipt w' source ∧
      (source=account.address ↔ w.accounts[0]?.map Account.index=some 0) := by
  obtain ⟨account,hfind,hdebit,source,hrecorded⟩ := paySync_recorded h
  refine ⟨account,source,hfind,hdebit,hrecorded,?_⟩
  obtain ⟨payer,hpayer,rfl⟩ := Option.map_eq_some_iff.mp hrecorded.first
  have hindex : account.index=0 := by simpa using List.find?_some hfind
  have hdebited:=hderived account (List.mem_of_find?_eq_some hfind)
  have hfirst:=hderived payer (List.mem_of_getElem? hpayer)
  rw [hpayer,Option.map_some,Option.some.injEq]
  constructor
  · intro hsame
    rw [hsame] at hfirst
    rw [hinj _ _ _ hfirst hdebited,hindex]
  · intro hzero
    rw [hzero] at hfirst
    rw [hindex,hfirst] at hdebited
    exact Except.ok.inj hdebited

/-! Two payments of one day from a balance of 100, under a day cap of 60. -/

def sampleSdk : Sdk where
  sha256 := fun _ => zeroDigest
  mmrHash := fun _ => zeroDigest
  bech32 := fun _ _ => .error "not encoded"
  serialize := fun _ => .ok []
  monthOf := fun now => now/2592000

def sampleWallet : Wallet where
  accounts := [⟨0,⟨List.Vector.replicate 20 1,.bech32,.mainnet⟩,100⟩]
  history := MmrState.new
  spendPolicy := ⟨none,some 60,none⟩
  spendBuckets := ⟨⟨0,0⟩,⟨0,0⟩⟩

def samplePayment (amount : UInt64) (now : ℕ) : Payment :=
  ⟨⟨"node",amount,[],none⟩,⟨now,now,now,"now"⟩⟩

theorem sample_payments_conserve :
    ∃ outcomes w',payAll sampleSdk sampleWallet [samplePayment 50 10,samplePayment 20 20]=
        some (outcomes,w') ∧
      Conserved sampleSdk sampleWallet w'
        (taken [samplePayment 50 10,samplePayment 20 20] outcomes) := by
  have hmonth : Monotone sampleSdk.monthOf := fun _ _ h => Nat.div_le_div_right h
  have hclock : NonDecreasing 0 [samplePayment 50 10,samplePayment 20 20] := by
    simp [NonDecreasing,samplePayment]
  obtain ⟨hreturns,hconserved,_⟩ := native_payments_conserve sampleSdk (fun _ => ⟨[],rfl⟩)
    hmonth sampleWallet [samplePayment 50 10,samplePayment 20 20] hclock
  obtain ⟨⟨outcomes,w'⟩,hout⟩ := hreturns ⟨3,[],rfl⟩
  exact ⟨outcomes,w',hout,hconserved outcomes w' hout⟩

theorem sample_pays {w} (h : ((paySync sampleSdk w (samplePayment 50 10)).map
    fun out => out.1.isOk)=some true) :
    ∃ receipt w',paySync sampleSdk w (samplePayment 50 10)=some (.ok receipt,w') := by
  obtain ⟨⟨outcome,w'⟩,hpay,hok⟩ := Option.map_eq_some_iff.mp h
  cases outcome with
  | error e => cases hok
  | ok receipt => exact ⟨receipt,w',hpay⟩

theorem sampleWallet_records_payer : ∃ receipt w' account,
    paySync sampleSdk sampleWallet (samplePayment 50 10)=some (.ok receipt,w') ∧
      sampleWallet.accounts.find? (fun a => a.index=0)=some account ∧
      w'.accounts=Wallet.setBalance 0 (account.balance-50) sampleWallet.accounts ∧
      Recorded sampleSdk sampleWallet (samplePayment 50 10) receipt w' account.address := by
  let addressOf : UInt32 → Except WalletError Address := fun index =>
    if index=0 then .ok ⟨List.Vector.replicate 20 1,.bech32,.mainnet⟩
    else .error (Wallet.accountNotFound index)
  have hinj : ∀ i j address,addressOf i=.ok address → addressOf j=.ok address → i=j := by
    intro i j address hi hj
    dsimp only [addressOf] at hi hj
    split_ifs at hi hj with hi₀ hj₀
    rw [hi₀,hj₀]
  have hderived : sampleWallet.Derived addressOf := by
    intro account hmem
    rw [List.mem_singleton.mp hmem]
    rfl
  obtain ⟨receipt,w',hpay⟩ := sample_pays (w := sampleWallet) (by decide +kernel)
  obtain ⟨account,source,hfind,hdebit,hrecorded,hiff⟩ :=
    recorded_sender_is_debited_iff hinj hderived hpay
  obtain rfl := hiff.mpr rfl
  exact ⟨receipt,w',account,hpay,hfind,hdebit,hrecorded⟩

/-- Account 1 was derived before account 0. -/
def sampleReordered : Wallet :=
  { sampleWallet with
    accounts := ⟨1,⟨List.Vector.replicate 20 2,.bech32,.mainnet⟩,0⟩::sampleWallet.accounts }

theorem sampleReordered_records_other : ∃ receipt w' account source,
    paySync sampleSdk sampleReordered (samplePayment 50 10)=some (.ok receipt,w') ∧
      sampleReordered.accounts.find? (fun a => a.index=0)=some account ∧
      w'.accounts=Wallet.setBalance 0 (account.balance-50) sampleReordered.accounts ∧
      Recorded sampleSdk sampleReordered (samplePayment 50 10) receipt w' source ∧
      source≠account.address := by
  obtain ⟨receipt,w',hpay⟩ := sample_pays (w := sampleReordered) (by decide +kernel)
  obtain ⟨account,hfind,hdebit,source,hrecorded⟩ := paySync_recorded hpay
  refine ⟨receipt,w',account,source,hpay,hfind,hdebit,hrecorded,?_⟩
  cases hfind
  have hsource:=Option.some.inj hrecorded.first
  rw [← hsource]
  decide

end OriginTools.NativeRail
