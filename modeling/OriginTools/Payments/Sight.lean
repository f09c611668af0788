import OriginTools.Foundation.Watch
import OriginTools.Payments.Footprint
import OriginTools.Payments.Ledger

/-!
# What a process of the payments crate knows

The observer of a process remembers the order log as the process first read it, with the
snapshots it has appended since, and the orders on which a later read disagrees.
-/

namespace OriginTools.Payments
open Process
variable (sdk : PaySdk)

structure Work where
  order : Option PaymentOrder := none
  posted : List LedgerPosting := []
  receipts : Option (List ReceiptRecord) := none
  owed : Option Bytes := none

structure Sight where
  view : Option (List PaymentOrder) := none
  torn : String → Prop := fun _ => False
  work : Work := {}

def PaymentOrder.receiptBytes (o : PaymentOrder) : Option Bytes := o.receipt.bind RailReceipt.bytes

namespace Sight

def learn (g : Sight) (lines : List PaymentOrder) : Sight :=
  match g.view with
  | none => { g with view := some lines }
  | some v => { g with torn := fun id => g.torn id ∨ latest lines id≠latest v id }

def wrote (g : Sight) (o : PaymentOrder) : Sight :=
  { g with
    view := g.view.map fun v => v++[o]
    work := { g.work with
      order := some o
      posted := []
      owed := if o.status=.success then o.receiptBytes.map sdk.sha3 else g.work.owed } }

def posted (g : Sight) (p : LedgerPosting) : Sight :=
  { g with work := { g.work with posted := g.work.posted++[p] } }

def readReceipts (g : Sight) (rs : List ReceiptRecord) : Sight :=
  { g with work := { g.work with receipts := some rs } }

def recorded (g : Sight) (r : ReceiptRecord) : Sight :=
  { g with work := { g.work with
    receipts := g.work.receipts.map fun rs => rs++[r]
    owed := if g.work.owed=some r.hash then none else g.work.owed } }

def note (g : Sight) : (op : Op) → op.Resp → Sight
  | .read .orders,.ok lines => g.learn lines
  | .read .receipts,.ok rs => g.readReceipts rs
  | .append .orders o,.ok _ => g.wrote sdk o
  | .append .postings p,.ok _ => g.posted p
  | .append .receipts r,.ok _ => g.recorded r
  | _,_ => g

/-- The snapshot that the process knows of the order has the order's status, or the
log has changed under the process. -/
def Holds (g : Sight) (o : PaymentOrder) : Prop :=
  g.torn o.paymentOrderId ∨
    ∃ v o',g.view=some v ∧ latest v o.paymentOrderId=some o' ∧ o'.status=o.status

end Sight

def OrderStatus.leadsTo (a b : OrderStatus) : Bool := a==b||a.canTransition b

def Sight.Legal (g : Sight) (o : PaymentOrder) : Prop :=
  g.torn o.paymentOrderId ∨ ∃ v,g.view=some v ∧
      ∀ o',latest v o.paymentOrderId=some o' → o'.status.leadsTo o.status=true

/-- The `SUCCESS` snapshot `o` of the order at hand: its journal batch is complete and its
receipt is a new one. -/
structure Work.Earned (w : Work) (order o : PaymentOrder) : Prop where
  atHand : w.order=some order
  executing : order.status=.executing
  settled : ∃ now receipt walletUpdated,o=order.settled now receipt walletUpdated
  journaled : ∃ signer plan batchId,
    (batchCall order signer).plan=.ok plan ∧ plan.Written batchId w.posted
  fresh : ∀ bytes,o.receiptBytes=some bytes → ∃ rs,w.receipts=some rs ∧ ∀ r∈rs,r.hash≠sdk.sha3 bytes
  owed : w.owed=none

def Sight.Fair (g : Sight) : Op → Prop
  | .append .orders o =>
      g.Legal o ∧ (o.status=.success → ∃ order,g.work.Earned sdk order o)
  | .append .postings p => ∃ order,g.work.order=some order ∧ order.status=.executing ∧
      p.paymentOrderId=order.paymentOrderId
  | .replace .orders _ => False
  | .replace .postings _ => False
  | .replace .receipts _ => False
  | _ => True

abbrev Sighted {ε α : Type} (Q : Outcome ε α → Sight → Prop) (p : Proc ε α) (g : Sight) : Prop :=
  Watched (Sight.note sdk) (Sight.Fair sdk) Q p g

structure Sight.Calmer (g g' : Sight) : Prop where
  work : g'.work=g.work
  view : ∀ v,g.view=some v → g'.view=some v
  torn : ∀ id,g.torn id → g'.torn id

namespace Sight
variable {g g' g'' : Sight} {o : PaymentOrder}

theorem Calmer.refl (g : Sight) : g.Calmer g := ⟨rfl,fun _ h => h,fun _ h => h⟩

theorem Calmer.trans (h : g.Calmer g') (h' : g'.Calmer g'') : g.Calmer g'' where
  work := h'.work.trans h.work
  view v hv := h'.view v (h.view v hv)
  torn id ht := h'.torn id (h.torn id ht)

theorem Calmer.holds (h : g.Calmer g') (ho : g.Holds o) : g'.Holds o := by
  rcases ho with ht | ⟨v,o',hv,hl,hs⟩
  · exact .inl (h.torn _ ht)
  · exact .inr ⟨v,o',h.view v hv,hl,hs⟩

theorem learn_calmer (g : Sight) (lines) : g.Calmer (g.learn lines) := by
  unfold learn
  split
  · rename_i hnone
    refine ⟨rfl,fun v hv => ?_,fun _ h => h⟩
    rw [hnone] at hv
    cases hv
  · exact ⟨rfl,fun v hv => hv,fun _ h => .inl h⟩

theorem learn_holds (g : Sight) {lines} (h : latest lines o.paymentOrderId=some o) :
    (g.learn lines).Holds o := by
  unfold learn
  split
  · exact .inr ⟨lines,o,rfl,h,rfl⟩
  · rename_i v hv
    by_cases heq : latest lines o.paymentOrderId=latest v o.paymentOrderId
    · exact .inr ⟨v,o,hv,heq ▸ h,rfl⟩
    · exact .inl (.inr heq)

theorem learn_legal_fresh (g : Sight) {lines} (h : latest lines o.paymentOrderId=none) :
    (g.learn lines).Legal o := by
  unfold learn
  split
  · refine .inr ⟨lines,rfl,fun o' ho' => ?_⟩
    rw [h] at ho'
    cases ho'
  · rename_i v hv
    by_cases heq : latest lines o.paymentOrderId=latest v o.paymentOrderId
    · refine .inr ⟨v,hv,fun o' ho' => ?_⟩
      rw [← heq,h] at ho'
      cases ho'
    · exact .inl (.inr heq)

theorem Holds.legal {x} (h : g.Holds o) (hid : x.paymentOrderId=o.paymentOrderId)
    (hlead : o.status.leadsTo x.status=true) : g.Legal x := by
  unfold Legal
  rw [hid]
  rcases h with ht | ⟨v,o',hv,hl,hs⟩
  · exact .inl ht
  refine .inr ⟨v,hv,fun o'' ho'' => ?_⟩
  rw [hl,Option.some.injEq] at ho''
  rw [← ho'',hs]
  exact hlead

end Sight

def Log.booked : Log → Bool
  | .orders => true
  | .postings => true
  | .receipts => true
  | _ => false

/-- The operation adds nothing to the three books and asks for no receipt. -/
def Op.calm : Op → Bool
  | .read .receipts => false
  | .append l _ => !l.booked
  | .replace l _ => !l.booked
  | _ => true

variable {op : Op}

theorem fair_calm (h : op.calm=true) (g : Sight) : g.Fair sdk op := by
  cases op with
  | append l entry | replace l entries => cases l <;> trivial
  | _ => trivial

theorem note_calm (h : op.calm=true) (g : Sight) (r : op.Resp) : g.Calmer (g.note sdk op r) := by
  cases op with
  | read l =>
    cases l with
    | orders =>
      cases r with
      | ok lines => exact g.learn_calmer lines
      | error e => exact .refl g
    | receipts => cases h
    | _ => exact .refl g
  | append l entry =>
    cases l with
    | orders | postings | receipts => cases h
    | _ => exact .refl g
  | _ => exact .refl g

abbrev Mild {ε α : Type} (p : Proc ε α) : Prop :=
  Emits (fun op : Op => op.calm=true) (fun _ => True) p

theorem calm_of_side (h : op.side=true) : op.calm=true := by
  cases op with
  | read l | append l entry => cases l <;> first | rfl | cases h
  | replace => cases h
  | _ => rfl

theorem SideTo.mild {ε α : Type} {R : α → Prop} {p : Proc ε α} (h : SideTo R p) : Mild p :=
  h.mono (fun _ hop => calm_of_side hop) fun _ _ => trivial

theorem Mild.sighted {ε α : Type} {p : Proc ε α} (h : Mild p) (g : Sight) :
    Sighted sdk (fun _ g' => g.Calmer g') p g := by
  have hwatched:=h.watched (fun g' _ _ hop => fair_calm sdk hop g')
    (fun _ _ r hg hop => Sight.Calmer.trans hg (note_calm sdk hop _ r)) (Sight.Calmer.refl g)
  exact hwatched.post fun _ _ hend => hend.1

/-- What holds when the process returns a value. -/
def OnDone {ε α : Type} (R : α → Sight → Prop) : Outcome ε α → Sight → Prop
  | .done a,g => R a g
  | _,_ => True

section
variable {ε α β : Type} {p : Proc ε α} {f : α → Proc ε β} {g : Sight}
variable {R : α → Sight → Prop} {R' : β → Sight → Prop}

theorem sighted_bind (h : Sighted sdk (OnDone R) p g)
    (hf : ∀ a g',R a g' → Sighted sdk (OnDone R') (f a) g') :
    Sighted sdk (OnDone R') (p.bind f) g :=
  h.bind hf (fun _ _ _ => trivial) fun _ _ => trivial

theorem OnDone.imp {R R' : α → Sight → Prop} (himp : ∀ a g,R a g → R' a g) (out : Outcome ε α) (g)
    (h : OnDone R out g) : OnDone R' out g := by
  cases out with
  | done a => exact himp a g h
  | fail | panic => trivial

theorem Mild.onDone (hp : Mild p) (g) : Sighted sdk (OnDone fun _ g' => g.Calmer g') p g := by
  refine (hp.sighted sdk g).post fun out g' hg => ?_
  cases out with
  | done a => exact hg
  | fail | panic => trivial

theorem Mild.sighted_bind (hp : Mild p) (hf : ∀ a g',g.Calmer g' → Sighted sdk (OnDone R') (f a) g') :
    Sighted sdk (OnDone R') (p.bind f) g :=
  Payments.sighted_bind sdk (hp.onDone sdk g) hf

end

theorem mild_readLog {l} (h : (Op.read l).calm=true) : Mild (readLog l) := emits_readLog h

theorem mild_appendLog {l entry} (h : (Op.append l entry).calm=true) : Mild (appendLog l entry) :=
  emits_appendLog h

theorem mild_rollupEvent (orderId : String) : Mild (rollupEvent orderId) := by
  apply (mild_readLog rfl).bind
  intro events _
  cases eventOf events orderId with
  | none => exact .done trivial
  | some event =>
    have hlatest : Mild latestOrders :=
      (mild_readLog rfl).bind fun _ _ => .call rfl fun _ => .done trivial
    exact hlatest.bind fun orders _ => mild_appendLog rfl

end OriginTools.Payments
