import OriginTools.Payments.ExactlyOnce
import OriginTools.Payments.OneOrder

/-!
# Orders that a callback reports as settled

A callback that reports a pending order as settled puts the order back into the ready
queue and drops the receipt it brings.
-/

namespace OriginTools.Payments
open Process
section
variable {W : Type} (sdk : PaySdk) {R : Rules} {w : World W}

theorem getOrder_returns {id o} (h : w.book.current id=some o) :
    Returns handle (Allowed R) (fun _ => True) (fun o' w' => o'=o ∧ w'=w) (getOrder id) w := by
  refine ⟨trivial,fun ans ha => ?_⟩
  cases ans with
  | some e => cases ha.1
  | none =>
    have hlatest : latest (w.store.get .orders) id=some o := h
    dsimp only [handle,Process.ofExcept,done_bind]
    split
    next o' ho' => exact ⟨trivial,o',rfl,Option.some.inj (ho'.symm.trans hlatest),rfl⟩
    next hnone => cases hnone.symm.trans hlatest

theorem updateOrder_returns (o) :
    Returns handle (Allowed R) (fun _ => True) (fun _ w' => w'.book=w.book.logged o)
      (updateOrder o) w := by
  refine ⟨trivial,fun ans ha => ?_⟩
  cases ans with
  | some e => cases ha.1
  | none => exact ⟨trivial,(),rfl,rfl⟩

theorem processCallback_settled {message o} (hcur : w.book.current message.orderId=some o)
    (hs : o.status=.requiresAction) (hsettled : message.status = "settled") :
    Returns handle (Allowed R) (fun _ => True)
      (fun _ w' => ∃ now,w'.book=w.book.logged (o.requeued now))
      (processCallback sdk message) w := by
  refine (getOrder_returns hcur).safe_bind ?_
  rintro o w₀ ⟨rfl,rfl⟩
  rw [if_neg (not_not.2 hs),if_pos hsettled]
  have hlegal : o.status.canTransition .notStarted=true := by
    rw [hs]
    rfl
  have htrans:=quiet_transition (W := W) (R := R) o .notStarted hlegal
  refine (htrans.returns fun _ _ => trivial).safe_bind ?_
  rintro _ w₁ ⟨⟨now,rfl⟩,h₁⟩
  refine (updateOrder_returns _).safe_bind fun _ w₂ h₂ => ?_
  refine ((quiet_notify _ _).returns fun _ _ => trivial).safe_bind ?_
  rintro _ w₃ ⟨_,h₃⟩
  apply (quiet_auditRecord sdk _ _).safe (fun _ _ => trivial)
  rintro out w₄ ⟨u,rfl,_⟩ h₄
  refine ⟨u,rfl,now,?_⟩
  rw [h₄,h₃,h₂,h₁]
  rfl

end

/-- Passes and callbacks without crashes; no signature fails within a batch. -/
def callbackRules : Rules where
  start := fun _ _ => True
  cut := Book.Closed
  bury := fun _ _ => True
  crash := fun _ => False
  callbacks := True

/-- Such runs in which every pass that finds the order in the ready queue refuses it
before a rail is chosen. -/
def confirmedRules (x : String) : Rules :=
  { callbackRules with
    start := fun b config =>
      ∀ o∈b.current x,o.status=.notStarted → (settleGate config o).isOk=false }

/-- The order waits to be refused, is being refused, or has been refused; the rails
have received `n` requests for it. -/
inductive Confirmed (n : ℕ) : View → Prop
  | queued {pass : Option PaymentsConfig} {o : PaymentOrder} {d : Bool}
      (hs : o.status=.notStarted) (hd : o.nextRetryAt=none)
      (hg : ∀ config∈pass,(settleGate config o).isOk=false) :
      Confirmed n ⟨.idle pass,some o,n,d⟩
  | refusing {config : PaymentsConfig} {o : PaymentOrder} {d : Bool}
      (hd : o.nextRetryAt=none) (hg : (settleGate config o).isOk=false) :
      Confirmed n ⟨.attempt config o false,some o,n,d⟩
  | failing {pass : Option PaymentsConfig} {o : PaymentOrder} {d : Bool}
      (hs : o.status=.failed) (hd : o.nextRetryAt=none) :
      Confirmed n ⟨.failing pass o,some o,n,d⟩
  | spent {v : View} (h : Spent n v) : Confirmed n v

theorem Confirmed.charges_eq {n v} (h : Confirmed n v) : v.charges=n := by
  cases h with
  | queued | refusing | failing => rfl
  | spent h => exact h.charges_eq

theorem settleGate_started (config) (o : PaymentOrder) (now since) :
    settleGate config (o.started now since)=settleGate config o := by
  have hamount : (o.started now since).amount=o.amount := rfl
  have hrail : (o.started now since).rail=o.rail := rfl
  unfold settleGate
  rw [hamount,hrail]

theorem confirmed_queued_turn {x n pass o d v'} (hs : o.status=.notStarted)
    (hd : o.nextRetryAt=none) (hg : ∀ config∈pass,(settleGate config o).isOk=false)
    (ht : Turn (confirmedRules x) x ⟨.idle pass,some o,n,d⟩ v') : Confirmed n v' := by
  cases ht with
  | start hstart =>
    obtain ⟨b,hb,hrule⟩ := hstart
    refine Confirmed.queued hs hd fun config hc => ?_
    cases hc
    exact hrule o hb hs
  | finish => exact Confirmed.queued hs hd fun config hc => (by cases hc)
  | crash hcrash => exact hcrash.elim fun _ hb => hb.elim
  | requeue hs' _ | expire hs' | confirm _ hs' | reject _ hs' =>
    rw [hs] at hs'
    cases hs'
  | pick _ =>
    refine Confirmed.refusing hd ?_
    rw [settleGate_started]
    exact hg _ rfl

theorem confirmed_turn {x n} (v v' : View) (h : Confirmed n v) (ht : Turn (confirmedRules x) x v v') :
    Confirmed n v' := by
  cases h with
  | queued hs hd hg => exact confirmed_queued_turn hs hd hg ht
  | refusing hd hg =>
    cases ht with
    | crash hcrash => exact hcrash.elim fun _ hb => hb.elim
    | submit hok | postpone hok _ =>
      rw [hg] at hok
      cases hok
    | refuse => exact Confirmed.failing rfl hd
  | failing hs hd =>
    cases ht with
    | crash hcrash => exact hcrash.elim fun _ hb => hb.elim
    | bury _ => exact Confirmed.spent ⟨hs,hd⟩
  | spent h => exact Confirmed.spent (spent_turn v v' h ht)

theorem callbackRules_within : callbackRules.Within onceRules where
  start := fun _ _ _ => trivial
  cut := fun _ h => h
  bury := fun _ _ _ => trivial
  crash := fun _ h => h.elim
  callbacks := fun _ => trivial

theorem confirmedRules_within (x : String) : (confirmedRules x).Within onceRules where
  start := fun _ _ _ => trivial
  cut := fun _ h => h
  bury := fun _ _ _ => trivial
  crash := fun _ h => h.elim
  callbacks := fun _ => trivial

section
variable {W : Type} (sdk : PaySdk)

theorem callback_confirmed {e : Event W} {message : SettlementCallback} {u : World W}
    (hjob : e.job=.callback message) (hsettled : message.status = "settled")
    (hpending : u.book.status message.orderId=some .requiresAction)
    (he : e.Meets sdk callbackRules u) :
    Confirmed (u.book.charges message.orderId)
      (view message.orderId (.off,(e.after sdk u).book)) := by
  obtain ⟨o,hcur,hs⟩ := Option.map_eq_some_iff.1 hpending
  have hended : e.Ended sdk u := not_not.1 fun hend => he.crash hend
  have hsafe : Returns handle (Allowed callbackRules) (fun _ => True)
      (fun _ w' => ∃ now,w'.book=u.book.logged (o.requeued now)) (e.job.process sdk) u := by
    rw [hjob]
    exact processCallback_settled sdk hcur hs hsettled
  have hafter : ∃ now,(e.after sdk u).book=u.book.logged (o.requeued now) := by
    have hrun:=Safe.run e.steps 0 _ u hsafe he.answers
    rcases hrun.ended hended with ⟨_,_,_,h⟩ | ⟨_,_,h,_⟩
    · exact h
    · cases h
  obtain ⟨now,hbook⟩ := hafter
  have hid : o.paymentOrderId=message.orderId := Book.current_id hcur
  rw [hbook,view_logged_self (o := o.requeued now) hid rfl]
  exact Confirmed.queued rfl rfl fun config hc => (by cases hc)

theorem confirmed_order_not_charged_again (before after : List (Event W)) (e : Event W)
    (message : SettlementCallback) (w : World W) (hw : w.book.ExactlyOnce)
    (hclosed : w.book.Closed) (hbefore : MeetsAll sdk callbackRules before w)
    (hpending : (runAll sdk before w).book.status message.orderId=some .requiresAction)
    (hjob : e.job=.callback message) (hsettled : message.status = "settled")
    (he : e.Meets sdk callbackRules (runAll sdk before w))
    (hafter : MeetsAll sdk (confirmedRules message.orderId) after
      (e.after sdk (runAll sdk before w))) :
    (∀ v,Passes sdk after (e.after sdk (runAll sdk before w)) v →
      v.book.charges message.orderId=(runAll sdk before w).book.charges message.orderId) ∧
    ∀ v,Passes sdk (before++e::after) w v → v.book.ExactlyOnce := by
  constructor
  · intro v hv
    have hconfirmed:=callback_confirmed sdk hjob hsettled hpending he
    obtain ⟨ph,hph⟩ := run_view sdk confirmed_turn hafter hconfirmed hv
    exact hph.charges_eq
  · intro v hv
    have hall : MeetsAll sdk onceRules (before++e::after) w := by
      refine (meetsAll_append sdk before (e::after) w).2 ⟨?_,?_,?_⟩
      · exact meetsAll_within sdk callbackRules_within w hbefore
      · exact meets_within sdk callbackRules_within he
      · exact meetsAll_within sdk (confirmedRules_within _) _ hafter
    obtain ⟨ph,hph⟩ := run_invariant sdk once_step hall (once_off hw hclosed) hv
    exact hph.exactlyOnce

end

instance decidesCallback : callbackRules.Decides :=
  ⟨fun _ _ => isTrue trivial,Book.decidableClosed,fun _ _ => isTrue trivial,
    fun _ => isFalse not_false,isTrue trivial⟩

instance decidesConfirmed (x : String) : (confirmedRules x).Decides :=
  ⟨fun b config => inferInstanceAs (Decidable (∀ o∈b.current x,o.status=.notStarted →
      (settleGate config o).isOk=false)),
    Book.decidableClosed,fun _ _ => isTrue trivial,fun _ => isFalse not_false,isTrue trivial⟩

namespace Sample

def pending : (r : RailRequest) → r.Answer
  | .pay _ _ => .ok (.ok [])
  | .x402Pay _ _ _ => .ok (200,none)
  | .facilitatorSettle _ _ _ _ _ => .ok (.pending none none)
  | .authorize _ _ => .ok (.pending none)

def cardConfig : PaymentsConfig := { PaymentsConfig.default with enabledRails := ["card"] }

def cardOrder : PaymentOrder :=
  { order with
    rail := some .card,cardToken := some "tok",cardNetwork := some "visa",
    cardLast4 := some "4242" }

def settledMessage : SettlementCallback where
  orderId := "o1"
  status := "settled"
  settlementRef := some "ref"
  timestamp := "2026"

def callback : Event Unit where
  job := .callback settledMessage
  source := source cardConfig "b" accepting
  steps := 20

end Sample
open Sample

/-- The card rail answers `pending`, the callback reports the payment as settled, and
the next pass authorizes the card once more. -/
theorem confirmed_order_charged_again : let before := [Sample.pass cardConfig "a" Sample.pending 60]
    let after:=[Sample.pass cardConfig "c" accepting 60]
    let w:=world cardOrder
    MeetsAll paySdk callbackRules (before++Sample.callback::after) w ∧
      (runAll paySdk before w).book.status "o1"=some .requiresAction ∧
      (runAll paySdk before w).book.charges "o1"=1 ∧
      (runAll paySdk (before++Sample.callback::after) w).book.charges "o1"=2 := by
  intro before after w
  refine ⟨by decide +kernel,by decide +kernel,by decide +kernel,by decide +kernel⟩

/-- The card rail is switched off before the next pass. -/
theorem confirmed_order_not_charged_again_card_off :
    let before:=[Sample.pass cardConfig "a" Sample.pending 60]
    let after:=[Sample.pass .default "c" accepting 60]
    let u:=runAll paySdk before (world cardOrder)
    u.book.charges "o1"=1 ∧ u.book.status "o1"=some .requiresAction ∧
      ∀ v,Passes paySdk after (Sample.callback.after paySdk u) v →
        v.book.charges "o1"=u.book.charges "o1" := by
  intro before after u
  have hpending : u.book.status "o1"=some .requiresAction := by decide +kernel
  refine ⟨by decide +kernel,hpending,?_⟩
  exact (confirmed_order_not_charged_again paySdk before after Sample.callback
    settledMessage (world cardOrder) (world_exactlyOnce nofun)
    (world_closed _) (by decide +kernel) hpending rfl rfl (by decide +kernel)
    (by decide +kernel)).1

end OriginTools.Payments
