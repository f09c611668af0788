import OriginTools.Payments.Footprint
import OriginTools.Payments.Ledger

/-!
# How the settling of an order ends

With a store that works, an order whose rail reports no payment is left as it is.
-/

namespace OriginTools.Payments
open Process
variable {W : Type} (sdk : PaySdk)

/-- A payment that a rail has reported as done; the rails that dedupe give a receipt. -/
inductive Payment where
  | native
  | receipt (bytes : Bytes)
  deriving DecidableEq

/-- The payment that an answer reports. On the x402 rail without a facilitator it is
the settlement response that says so. -/
def Op.paid : (op : Op) → op.Ans W → Option Payment
  | .submit (.pay _ _),(.ok _,_) => some .native
  | .submit (.facilitatorSettle _ _ _ _ _),(.ok (.settled receipt),_) => some (.receipt receipt)
  | .submit (.authorize _ _),(.ok (.settled auth),_) => some (.receipt auth)
  | .ask (.settlementResponse receipt),.ok response =>
      if response.status = "success" then some (.receipt receipt) else none
  | _,_ => none

def payments (l : List (Sigma (Op.Ans W))) : List Payment := l.filterMap fun e => e.1.paid e.2

def Op.encodes : (op : Op) → op.Ans W → Bool
  | .submit (.pay _ _),(.ok (.error _),_) => false
  | _,_ => true

def Op.steady (op : Op) (a : op.Ans W) : Bool := op.works a && !op.cuts a&&op.encodes a
abbrev Told (W : Type) := World W × List (Sigma (Op.Ans W))
def SteadyWorld (_ : World W) (op : Op) (a : op.Ans W) : Prop := op.steady a=true
def Steady (_ : Told W) (op : Op) (a : op.Ans W) : Prop := op.steady a=true

def kept (s : Told W) :
    (List PaymentOrder × List ReceiptRecord) × List LedgerPosting × List Payment :=
  ((s.1.store.orders,s.1.store.receipts),s.1.store.postings,payments s.2)

theorem payments_append (l) (e : Sigma (Op.Ans W)) :
    payments (l++[e])=payments l++(e.1.paid e.2).toList := by
  rw [payments,List.filterMap_append]
  cases h : e.1.paid e.2 with
  | none | some => simp [payments,h]

variable {op : Op}

theorem paid_side (h : op.side=true) (a : op.Ans W) : op.paid a=none := by
  cases op with
  | ask q =>
    cases q with
    | settlementResponse receipt => cases h
    | _ => rfl
  | submit r => cases h
  | _ => rfl

theorem store_side (h : op.side=true) (a : op.Ans W) (w : World W) :
    (handle op a w).2.store.orders=w.store.orders ∧
      (handle op a w).2.store.receipts=w.store.receipts ∧
      (handle op a w).2.store.postings=w.store.postings := by
  cases op with
  | read l => cases a <;> exact ⟨rfl,rfl,rfl⟩
  | append l entry =>
    cases a with
    | some e => exact ⟨rfl,rfl,rfl⟩
    | none =>
      cases l with
      | orders | postings | receipts => cases h
      | _ => exact ⟨rfl,rfl,rfl⟩
  | ask q => exact ⟨rfl,rfl,rfl⟩
  | _ => cases h

theorem kept_side (a : op.Ans W) (s : Told W) (h : op.side=true) :
    kept (traced handle op a s).2=kept s := by
  obtain ⟨h1,h2,h3⟩ := store_side h a s.1
  simp only [kept,traced,h1,h2,h3,payments_append,paid_side h,Option.toList_none,List.append_nil]

theorem side_leaves {ε α : Type} {p : Proc ε α} (h : Side p) :
    Leaves (traced (handle (W := W))) Steady kept (fun _ => True) p :=
  (h.leaves fun _ a s hop _ => kept_side a s hop).mono fun _ _ => trivial

def SettledAs (order : PaymentOrder) (signer : Option OrderSigner) (w₀ : World W)
    (o : Outcome (SettleOutcome × PaymentOrder) PaymentOrder) (w : World W) : Prop :=
  ∃ now receipt walletUpdated batchId plan ps,o=.done (order.settled now receipt walletUpdated) ∧
    w.store.orders=w₀.store.orders++[order.settled now receipt walletUpdated] ∧
    (batchCall order signer).plan=.ok plan ∧ plan.Written batchId ps ∧
    w.store.postings=w₀.store.postings++ps

structure NotSettled (w₀ : World W) (o : Outcome (SettleOutcome × PaymentOrder) PaymentOrder)
    (w : World W) : Prop where
  failed : ∀ o',o≠.done o'
  orders : w.store.orders=w₀.store.orders
  postings : w.store.postings=w₀.store.postings

def Acceptable (order : PaymentOrder) (signer : Option OrderSigner) (w₀ : World W)
    (pay : Payment) : Prop :=
  (∃ plan,(batchCall order signer).plan=.ok plan) ∧
    ∀ bytes,pay=.receipt bytes → ∀ r∈w₀.store.receipts,r.hash≠sdk.sha3 bytes

def PaidEnd (order : PaymentOrder) (signer : Option OrderSigner) (s₀ : Told W)
    (o : Outcome (SettleOutcome × PaymentOrder) PaymentOrder) (s : Told W) : Prop :=
  (payments s.2=payments s₀.2 ∧ NotSettled s₀.1 o s.1) ∨ ∃ pay,payments s.2=payments s₀.2++[pay] ∧
      (Acceptable sdk order signer s₀.1 pay ∧ SettledAs order signer s₀.1 o s.1 ∨
        ¬ Acceptable sdk order signer s₀.1 pay ∧ NotSettled s₀.1 o s.1)

structure Pays (order : PaymentOrder) (signer : Option OrderSigner) (s₀ : Told W)
    (p : Attempt PaymentOrder) (s : Told W) : Prop where
  safe : Safe (traced handle) Steady (fun _ => True) (PaidEnd sdk order signer s₀) p s

theorem SettledAs.not_notSettled {order : PaymentOrder} {signer : Option OrderSigner}
    {w₀ w : World W} {o : Outcome (SettleOutcome × PaymentOrder) PaymentOrder}
    (h : SettledAs order signer w₀ o w) : ¬ NotSettled w₀ o w := by
  obtain ⟨now,receipt,walletUpdated,batchId,plan,ps,ho,_⟩ := h
  intro hn
  exact hn.failed _ ho

section
variable {order : PaymentOrder} {signer : Option OrderSigner} {s₀ s : Told W} {α : Type}

def Unpaid (s₀ s : Told W) : Prop := kept s=kept s₀

def Reported (s₀ : Told W) (pay : Payment) (s : Told W) : Prop :=
  kept s=((kept s₀).1,(kept s₀).2.1,payments s₀.2++[pay])

theorem notSettled_of_kept {k} (h : kept s=((kept s₀).1,(kept s₀).2.1,k)) {o}
    (ho : ∀ o',o≠.done o') : NotSettled s₀.1 o s.1 := by
  obtain ⟨hlogs,hrest⟩ := Prod.mk.inj h
  exact ⟨ho,(Prod.mk.inj hlogs).1,(Prod.mk.inj hrest).1⟩

theorem Unpaid.payments_eq (h : Unpaid s₀ s) : payments s.2=payments s₀.2 :=
  congrArg (fun k => k.2.2) h

theorem Unpaid.end_ (h : Unpaid s₀ s) {o} (ho : ∀ o',o≠.done o') :
    PaidEnd sdk order signer s₀ o s :=
  .inl ⟨h.payments_eq,notSettled_of_kept h ho⟩

theorem pays_unpaid_fail (h : Unpaid s₀ s) (x) : Pays sdk order signer s₀ (.fail x) s :=
  ⟨trivial,h.end_ sdk (Outcome.fail_ne_done x)⟩

theorem pays_reported_fail {pay} (h : Reported s₀ pay s)
    (hno : ¬ Acceptable sdk order signer s₀.1 pay) (x) : Pays sdk order signer s₀ (.fail x) s :=
  ⟨trivial,.inr ⟨pay,(Prod.mk.inj (Prod.mk.inj h).2).2,
    .inr ⟨hno,notSettled_of_kept h (Outcome.fail_ne_done x)⟩⟩⟩

theorem Unpaid.side_bind (h : Unpaid s₀ s) {p : Attempt α} {g} (hp : Side p)
    (hg : ∀ a s',Unpaid s₀ s' → Pays sdk order signer s₀ (g a) s') :
    Pays sdk order signer s₀ (p.bind g) s := by
  constructor
  apply (side_leaves hp).safe_bind (fun _ _ => trivial)
  · intro a s' _ hs'
    exact (hg a s' (hs'.trans h)).safe
  · intro e s' _ hs'
    exact Unpaid.end_ sdk (hs'.trans h) (Outcome.fail_ne_done e)
  · intro s' _ hs'
    exact Unpaid.end_ sdk (hs'.trans h) Outcome.panic_ne_done

end

theorem posts_kept (a : op.Ans W) (s : Told W) (h : op.posts=true) :
    ((kept (traced handle op a s).2).1,(kept (traced handle op a s).2).2.2)=
      ((kept s).1,(kept s).2.2) := by
  cases op with
  | read l =>
    have hpaid : payments (s.2++[⟨.read l,a⟩])=payments s.2 := by
      rw [payments_append]
      exact List.append_nil _
    cases a <;> simp only [kept,traced,handle,hpaid]
  | append l entry =>
    have hpaid : payments (s.2++[⟨.append l entry,a⟩])=payments s.2 := by
      rw [payments_append]
      exact List.append_nil _
    cases l with
    | postings => cases a <;> simp only [kept,traced,handle,hpaid,World.push,Store.set]
    | orders | receipts | deferred | batches | checkpoints => cases h
    | _ => rw [kept_side _ _ rfl]
  | ask q =>
    have hq : (Op.ask q).side=true := h
    rw [kept_side a s hq]
  | _ => cases h

theorem write_returns (plan : BatchPlan) (s : Told W) : Safe (traced handle) Steady (fun _ => True)
      (fun o s' => ∃ batchId ps,o=.done batchId ∧ plan.Written batchId ps ∧
        s'.1.store.postings=s.1.store.postings++ps ∧ (kept s').1=(kept s).1 ∧
        payments s'.2=payments s.2)
      (plan.write sdk) s := by
  have hrel : Reliable (W := W) SteadyWorld := by
    intro w op a ha
    simp only [SteadyWorld,Op.steady,Bool.and_eq_true,Bool.not_eq_true'] at ha
    exact ha.1
  have hsafe : Safe handle SteadyWorld (fun _ => True) (WriteEnd sdk SteadyWorld plan s.1)
      (plan.write sdk) s.1 := writeBatch_safe sdk plan s.1
  have hwrite : Safe (traced handle) Steady (fun _ => True)
      (fun o s' => WriteEnd sdk SteadyWorld plan s.1 o s'.1) (plan.write sdk) s :=
    Safe.traced (fun _ _ _ ha => ha) hsafe
  have hleaves : Leaves (traced (handle (W := W))) Steady
      (fun s => ((kept s).1,(kept s).2.2)) (fun _ => True) (plan.write sdk) :=
    ((posts_writeBatch sdk _ _ _ _).leaves fun _ a s hop _ => posts_kept a s hop).mono
      fun _ _ => trivial
  apply (hwrite.and (hleaves s)).mono
  · exact fun _ _ => trivial
  · intro o s' _ hend
    obtain ⟨⟨ps,hext,hwritten,hdone⟩,_,hkept⟩ := hend
    obtain ⟨batchId,ho⟩ := hdone hrel
    obtain ⟨hlogs,hpay⟩ := Prod.mk.inj hkept
    exact ⟨batchId,ps,ho,hwritten batchId ho,hext.postings,hlogs,hpay⟩

theorem side_returns {ε α : Type} {p : Proc ε α} (h : Side p)
    (hdone : ∀ s : Told W,Safe (traced handle) Steady (fun _ => True)
      (fun o _ => ∃ a,o=.done a) p s) :
    Leaves (traced (handle (W := W))) Steady kept (fun o => ∃ a,o=.done a) p := by
  intro s
  apply ((side_leaves h s).and (hdone s)).mono
  · exact fun _ hs => hs.1
  · exact fun o s' _ hend => ⟨hend.2,hend.1.2⟩

theorem not_steady_append {l : Log} {entry : l.Entry} {e : Error} {s : Told W}
    (h : Steady s (.append l entry) (some e)) : False := by
  simp [Steady,Op.steady,Op.works] at h

theorem not_steady_read {l : Log} {e : Error} {s : Told W} (h : Steady s (.read l) (some e)) :
    False := by
  simp [Steady,Op.steady,Op.works] at h

theorem notify_returns (orderId event : String) :
    Leaves (traced (handle (W := W))) Steady kept (fun o => ∃ a,o=.done a)
      (notify orderId event) := by
  apply side_returns (side_notify orderId event)
  intro s
  refine ⟨trivial,fun id _ => ⟨trivial,fun now _ => ⟨trivial,fun failure hf => ?_⟩⟩⟩
  cases failure with
  | some e => exact (not_steady_append hf).elim
  | none => exact ⟨trivial,(),rfl⟩

theorem auditRecord_returns (entryType : ℕ) (payload : Payload) :
    Leaves (traced (handle (W := W))) Steady kept (fun o => ∃ a,o=.done a)
      (auditRecord sdk entryType payload none) := by
  apply side_returns (side_auditRecord sdk entryType payload)
  intro s
  refine ⟨trivial,fun failure hf => ?_⟩
  cases failure with
  | some e => exact (not_steady_read hf).elim
  | none =>
    refine ⟨trivial,fun nanos _ => ⟨trivial,fun failure hf => ?_⟩⟩
    cases failure with
    | some e => exact (not_steady_append hf).elim
    | none => exact ⟨trivial,(),rfl⟩

section
variable {order : PaymentOrder} {signer : Option OrderSigner} {s₀ s : Told W}

structure Posted (order : PaymentOrder) (signer : Option OrderSigner) (s₀ : Told W)
    (pay : Payment) (s : Told W) : Prop where
  posted : ∃ batchId plan ps,(batchCall order signer).plan=.ok plan ∧
    plan.Written batchId ps ∧ s.1.store.postings=s₀.1.store.postings++ps
  orders : s.1.store.orders=s₀.1.store.orders
  paid : payments s.2=payments s₀.2++[pay]

structure Recorded (order : PaymentOrder) (signer : Option OrderSigner) (s₀ : Told W)
    (pay : Payment) (o' : PaymentOrder) (s : Told W) : Prop where
  posted : ∃ batchId plan ps,(batchCall order signer).plan=.ok plan ∧
    plan.Written batchId ps ∧ s.1.store.postings=s₀.1.store.postings++ps
  orders : s.1.store.orders=s₀.1.store.orders++[o']
  paid : payments s.2=payments s₀.2++[pay]

variable {pay : Payment}

theorem Posted.congr (h : Posted order signer s₀ pay s) {s'} (hs : kept s'=kept s) :
    Posted order signer s₀ pay s' := by
  obtain ⟨hlogs,hrest⟩ := Prod.mk.inj hs
  obtain ⟨hpostings,hpay⟩ := Prod.mk.inj hrest
  exact ⟨hpostings ▸ h.posted,(Prod.mk.inj hlogs).1.trans h.orders,hpay ▸ h.paid⟩

theorem Recorded.congr {o'} (h : Recorded order signer s₀ pay o' s) {s'} (hs : kept s'=kept s) :
    Recorded order signer s₀ pay o' s' := by
  obtain ⟨hlogs,hrest⟩ := Prod.mk.inj hs
  obtain ⟨hpostings,hpay⟩ := Prod.mk.inj hrest
  exact ⟨hpostings ▸ h.posted,(Prod.mk.inj hlogs).1.trans h.orders,hpay ▸ h.paid⟩

theorem Posted.logged (h : Posted order signer s₀ pay s) (o') :
    Recorded order signer s₀ pay o' (traced handle (.append .orders o') none s).2 where
  posted := h.posted
  orders := by
    rw [← h.orders]
    rfl
  paid := by
    rw [← h.paid]
    exact (payments_append _ _).trans (List.append_nil _)

theorem Recorded.receipt {o'} (h : Recorded order signer s₀ pay o' s) (r) :
    Recorded order signer s₀ pay o' (traced handle (.append .receipts r) none s).2 where
  posted := h.posted
  orders := h.orders
  paid := by
    rw [← h.paid]
    exact (payments_append _ _).trans (List.append_nil _)

theorem Recorded.end_ {now receipt wu}
    (h : Recorded order signer s₀ pay (order.settled now receipt wu) s)
    (hok : Acceptable sdk order signer s₀.1 pay) :
    PaidEnd sdk order signer s₀ (.done (order.settled now receipt wu)) s := by
  obtain ⟨batchId,plan,ps,hplan,hwritten,hps⟩ := h.posted
  exact .inr ⟨pay,h.paid,.inl ⟨hok,now,receipt,wu,batchId,plan,ps,rfl,h.orders,hplan,hwritten,hps⟩⟩

theorem pays_returns_bind {p : Proc Error Unit} {f g}
    (hp : Leaves (traced (handle (W := W))) Steady kept (fun o => ∃ a,o=.done a) p)
    (hg : ∀ s',kept s'=kept s → Pays sdk order signer s₀ (g ()) s') :
    Pays sdk order signer s₀ ((p.mapErr f).bind g) s := by
  constructor
  apply Safe.bind
  apply Safe.mapErr
  apply hp.safe (fun _ _ => trivial)
  rintro o s' ⟨a,rfl⟩ hs'
  exact (hg s' hs').safe

theorem pays_append_bind {l : Log} {entry : l.Entry} {f : Error → SettleOutcome × PaymentOrder}
    {g : Unit → Attempt PaymentOrder}
    (hg : Pays sdk order signer s₀ (g ()) (traced handle (.append l entry) none s).2) :
    Pays sdk order signer s₀ (((appendLog l entry).mapErr f).bind g) s := by
  refine ⟨trivial,fun failure hf => ?_⟩
  cases failure with
  | some e => exact (not_steady_append hf).elim
  | none => exact hg.safe

theorem announceSettled_pays {now : String} {receipt : RailReceipt} {wu : Bool}
    (h : Recorded order signer s₀ pay (order.settled now receipt wu) s)
    (hok : Acceptable sdk order signer s₀.1 pay) (payload : Payload) :
    Pays sdk order signer s₀ (announceSettled sdk (order.settled now receipt wu) payload) s := by
  apply pays_returns_bind sdk (notify_returns _ _)
  intro s' hs'
  apply pays_returns_bind sdk (auditRecord_returns sdk _ _)
  intro s'' hs''
  exact ⟨trivial,(h.congr (hs''.trans hs')).end_ sdk hok⟩

theorem transition_success {o : PaymentOrder} (h : o.status=.executing) :
    o.transition .success=(ask .now).bind fun now =>
      .done { o with status := .success,updatedAt := now } := by
  unfold PaymentOrder.transition
  rw [if_pos (by rw [h]; rfl)]
  rfl

theorem recordSuccess_pays (h : Posted order signer s₀ pay s)
    (hok : Acceptable sdk order signer s₀.1 pay) (hexec : order.status=.executing)
    (receipt : RailReceipt) (receiptHash : Option Bytes) (walletUpdated : Bool) (payload : Payload)
    :
    Pays sdk order signer s₀ (do
        let order:={ order with receipt := some receipt }
        let order ← orTerminal order (order.transition .success)
        let order:={ order with ledgerUpdated := true,walletUpdated := walletUpdated }
        orTerminal order (updateOrder order)
        match receiptHash with
        | some hash => do
            orTerminal order (recordReceiptHash order.paymentOrderId hash)
            announceSettled sdk order payload
        | none => announceSettled sdk order payload) s := by
  have htrans : PaymentOrder.transition { order with receipt := some receipt } .success=
      (ask .now).bind fun now => .done
        { order with receipt := some receipt,status := .success,updatedAt := now } :=
    transition_success hexec
  dsimp only
  rw [htrans]
  refine ⟨trivial,fun now _ => ?_⟩
  have hnow:=h.congr (kept_side (now : Op.Ans W (.ask .now)) s rfl)
  have hrec:=hnow.logged (order.settled now receipt walletUpdated)
  refine (pays_append_bind sdk ?_).safe
  rcases receiptHash with _ | hash
  · exact announceSettled_pays sdk hrec hok payload
  refine ⟨trivial,fun recordedAt _ => ?_⟩
  have hasked:=hrec.congr (kept_side (recordedAt : Op.Ans W (.ask .now)) _ rfl)
  refine (pays_append_bind sdk ?_).safe
  exact announceSettled_pays sdk (hasked.receipt _) hok payload

theorem journalAndSettle_pays (h : Reported s₀ pay s) (hexec : order.status=.executing)
    (hfresh : ∀ bytes,pay=.receipt bytes → ∀ r∈s₀.1.store.receipts,r.hash≠sdk.sha3 bytes)
    (receipt receiptHash walletUpdated payload) :
    Pays sdk order signer s₀
      (journalAndSettle sdk order signer receipt receiptHash walletUpdated payload) s := by
  have hproc:=(batchCall order signer).process_eq sdk
  rw [batchCall,JournalCall.process] at hproc
  unfold journalAndSettle
  rw [hproc]
  cases hplan : (batchCall order signer).plan with
  | error e =>
    rw [batchCall] at hplan
    rw [hplan]
    apply pays_reported_fail sdk h
    rintro ⟨⟨plan,hok⟩,_⟩
    rw [batchCall,hplan] at hok
    cases hok
  | ok plan =>
    have hok : Acceptable sdk order signer s₀.1 pay := ⟨⟨plan,hplan⟩,hfresh⟩
    have hplan':=hplan
    rw [batchCall] at hplan'
    rw [hplan']
    constructor
    apply Safe.bind
    apply Safe.mapErr
    apply (write_returns sdk plan s).post
    rintro o s₁ - ⟨batchId,ps,rfl,hwritten,hpostings,hlogs,hpay⟩
    have hpost : Posted order signer s₀ pay s₁ := by
      obtain ⟨hlogs₀,hrest⟩ := Prod.mk.inj h
      obtain ⟨hps₀,hpay₀⟩ := Prod.mk.inj hrest
      refine ⟨⟨batchId,plan,ps,hplan,hwritten,?_⟩,?_,hpay.trans hpay₀⟩
      · rw [hpostings,hps₀]
        rfl
      · exact (Prod.mk.inj hlogs).1.trans (Prod.mk.inj hlogs₀).1
    exact (recordSuccess_pays sdk hpost hok hexec receipt receiptHash walletUpdated payload).safe

theorem settleWithReceipt_pays {bytes} (h : Reported s₀ (.receipt bytes) s)
    (hexec : order.status=.executing) (receipt : RailReceipt) (duplicate) (payload : Payload) :
    Pays sdk order signer s₀
      (settleWithReceipt sdk order signer bytes receipt duplicate payload) s := by
  have hreceipts : s.1.store.receipts=s₀.1.store.receipts := (Prod.mk.inj (Prod.mk.inj h).1).2
  refine ⟨trivial,fun failure hf => ?_⟩
  cases failure with
  | some e => exact (not_steady_read hf).elim
  | none =>
    have hread : Reported s₀ (.receipt bytes) (traced handle (.read .receipts) none s).2 := by
      have hpay : payments (s.2++[⟨.read .receipts,none⟩])=payments s.2 :=
        (payments_append _ _).trans (List.append_nil _)
      have hkept : kept (traced handle (.read .receipts) none s).2=kept s := by
        simp only [kept,traced,handle,hpay]
      exact hkept.trans h
    refine (?_ : Pays sdk order signer s₀ (if s.1.store.receipts.any fun r => r.hash==sdk.sha3 bytes
      then terminal order duplicate
      else journalAndSettle sdk order signer receipt (some (sdk.sha3 bytes)) false payload) _).safe
    split
    · rename_i hdup
      apply pays_reported_fail sdk hread
      intro hsettle
      obtain ⟨r,hr,heq⟩ := List.any_eq_true.1 hdup
      rw [hreceipts] at hr
      exact hsettle.2 bytes rfl r hr (eq_of_beq heq)
    · rename_i hnew
      apply journalAndSettle_pays sdk hread hexec
      intro bytes' hbytes r hr heq
      cases hbytes
      apply hnew
      rw [hreceipts]
      exact List.any_eq_true.2 ⟨r,hr,beq_iff_eq.2 heq⟩

variable {op : Op}

theorem kept_answer {a} {s : Told W} (hstore : (handle op a s.1).2.store=s.1.store) :
    kept (traced handle op a s).2=((kept s).1,(kept s).2.1,payments s.2++(op.paid a).toList) := by
  simp only [kept,traced,hstore,payments_append]

theorem Unpaid.unreported (h : Unpaid s₀ s) {a} (hstore : (handle op a s.1).2.store=s.1.store)
    (hpaid : op.paid a=none) : Unpaid s₀ (traced handle op a s).2 := by
  rw [Unpaid,kept_answer hstore,hpaid,Option.toList_none,List.append_nil]
  exact h

theorem Unpaid.reported (h : Unpaid s₀ s) {a} (hstore : (handle op a s.1).2.store=s.1.store)
    (hpaid : op.paid a=some pay) : Reported s₀ pay (traced handle op a s).2 := by
  rw [Reported,kept_answer hstore,hpaid,Option.toList_some,h.payments_eq,show kept s=kept s₀ from h]

theorem Unpaid.refused (h : Unpaid s₀ s) {r a} (hpaid : (Op.submit r).paid a=none) :
    Unpaid s₀ (traced handle (.submit r) a s).2 :=
  h.unreported (handle_submit_store r a s.1) hpaid

theorem Unpaid.paid (h : Unpaid s₀ s) {r a} (hpaid : (Op.submit r).paid a=some pay) :
    Reported s₀ pay (traced handle (.submit r) a s).2 :=
  h.reported (handle_submit_store r a s.1) hpaid

theorem settleNative_pays (h : Unpaid s₀ s) (hexec : order.status=.executing) (amount : ℕ) :
    Pays sdk order signer s₀ (settleNative sdk order amount signer) s := by
  refine ⟨trivial,fun answer hsteady => ?_⟩
  obtain ⟨answer,wallet⟩ := answer
  rcases answer with e | encoded
  · exact (pays_unpaid_fail sdk (h.refused rfl) _).safe
  rcases encoded with e | bytes
  · simp [Steady,Op.steady,Op.encodes] at hsteady
  refine (journalAndSettle_pays sdk (h.paid rfl) hexec ?_ _ none true _).safe
  intro bytes hbytes
  cases hbytes

def Due (s₀ : Told W) (due : Option Bytes) (s : Told W) : Prop :=
  kept s=((kept s₀).1,(kept s₀).2.1,payments s₀.2++(due.map Payment.receipt).toList)

theorem due_none : Due s₀ none s ↔ Unpaid s₀ s := by
  simp only [Due,Option.map_none,Option.toList_none,List.append_nil]
  rfl

theorem Due.answer {due brought} (h : Due s₀ due s) {a}
    (hstore : (handle op a s.1).2.store=s.1.store)
    (hpaid : op.paid a=brought.map Payment.receipt) (hone : due=none ∨ brought=none) :
    Due s₀ (due.or brought) (traced handle op a s).2 := by
  obtain ⟨hlogs,hrest⟩ := Prod.mk.inj h
  obtain ⟨hpostings,hpayments⟩ := Prod.mk.inj hrest
  rw [Due,kept_answer hstore,hpaid]
  refine Prod.ext hlogs (Prod.ext hpostings ?_)
  rw [show payments s.2=_ from hpayments]
  rcases hone with rfl | rfl <;> simp

theorem paid_ask (q : Question) (a : q.Answer) :
    Op.paid (W := W) (.ask q) a=((Op.ask q).brings a).map Payment.receipt := by
  cases q with
  | settlementResponse receipt =>
    cases a with
    | error e => rfl
    | ok response =>
      simp only [Op.paid,Op.brings]
      split_ifs <;> rfl
  | _ => rfl

theorem paid_external {r} (h : r.external=true) (a : r.Answer) (wallet : W) :
    (Op.submit r).paid (a,wallet)=((Op.submit r).brings a).map Payment.receipt := by
  cases r with
  | pay orderId params => cases h
  | x402Pay orderId url payload => rfl
  | facilitatorSettle orderId cfg payload requirements url =>
    match a with
    | .error e => rfl
    | .ok (.settled receipt) => rfl
    | .ok (.pending _ _) => rfl
    | .ok (.rejected _ _) => rfl
  | authorize cfg req =>
    match a with
    | .error e => rfl
    | .ok (.settled auth) => rfl
    | .ok (.pending _) => rfl
    | .ok (.declined _) => rfl

theorem course_pays {sent due p} (hcourse : RailCourse sdk order signer sent due p)
    (h : Due s₀ due s) (hexec : order.status=.executing) : Pays sdk order signer s₀ p s := by
  induction hcourse generalizing s with
  | refuse => exact pays_unpaid_fail sdk (due_none.1 h) _
  | settle => exact settleWithReceipt_pays sdk h hexec _ _ _
  | @ask sent due q next hdue _ ih =>
    refine ⟨trivial,fun answer _ => ?_⟩
    have hstore : (handle (.ask q) answer s.1).2.store=s.1.store := rfl
    have hanswer:=h.answer hstore (paid_ask q answer) (hdue.imp_right fun hnone => hnone answer)
    exact (ih answer hanswer).safe
  | @submit r next hext _ _ ih =>
    refine ⟨trivial,fun answer _ => ?_⟩
    have hanswer:=h.answer (handle_submit_store r answer s.1)
      (paid_external hext answer.1 answer.2) (.inl rfl)
    have hresp : (traced handle (.submit r) answer s).1=answer.1 := by cases r <;> rfl
    rw [hresp]
    exact (ih answer.1 hanswer).safe

theorem settleOnRail_pays (h : Unpaid s₀ s) (hexec : order.status=.executing) (amountMinor : ℤ) :
    Pays sdk order signer s₀ (settleOnRail sdk signer order amountMinor) s := by
  unfold settleOnRail
  cases order.rail.getD .native with
  | native => exact settleNative_pays sdk h hexec _
  | http402 => exact course_pays sdk course_settleHttp402 (due_none.2 h) hexec
  | card => exact course_pays sdk course_settleCard (due_none.2 h) hexec
  | ach => exact course_pays sdk course_settleAch (due_none.2 h) hexec

theorem settle_pays (h : Unpaid s₀ s) (hexec : order.status=.executing) (config : PaymentsConfig)
    (screened : Bool) :
    Pays sdk order signer s₀ (settle sdk config screened signer order) s := by
  unfold settle
  generalize settleGate config order=gate
  rcases gate with reason | amountMinor
  · exact pays_unpaid_fail sdk h _
  cases screened with
  | false => exact settleOnRail_pays sdk h hexec amountMinor
  | true =>
    apply h.side_bind sdk (side_screen sdk order)
    intro _ s' h'
    exact settleOnRail_pays sdk h' hexec amountMinor

end

theorem settle_ends {order} (hexec : order.status=.executing) (config : PaymentsConfig)
    (screened : Bool) (signer : Option OrderSigner) {source}
    (hsteady : ∀ (t : ℕ) (op : Op),op.steady (source t op)=true) (t : ℕ) (w : World W) :
    PaidEnd sdk order signer (w,[])
      (exec handle source t (settle sdk config screened signer order) w).1
      ((exec handle source t (settle sdk config screened signer order) w).2,
        trace handle source t (settle sdk config screened signer order) w) := by
  have hun : Unpaid (w,[]) (w,[]) := rfl
  have hpays : Pays sdk order signer (w,[]) (settle sdk config screened signer order) (w,[]) :=
    settle_pays sdk hun hexec config screened
  have hend:=hpays.safe.exec t _
    (obeyed_of_forall (traced handle) source Steady (fun t _ op => hsteady t op) t _ _)
  rw [exec_traced,List.nil_append] at hend
  exact hend

end OriginTools.Payments
