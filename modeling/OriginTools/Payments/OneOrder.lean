import OriginTools.Payments.Run

/-!
# The life of one order

What a run does to one order: its latest snapshot, the requests the rails have received
for it, whether a dead letter names it, and how far a pass has got with it.
-/

namespace OriginTools.Payments
namespace Book

def charges (b : Book) (x : String) : ℕ := b.requests.countP fun r => r.orderId==x
def deadLettered (b : Book) (x : String) : Bool := b.dead.any fun r => r.paymentOrderId==x

theorem charges_requested (b : Book) (r : RailRequest) (x : String) :
    (b.requested r).charges x=if r.orderId=x then b.charges x+1 else b.charges x := by
  rw [charges,requested_requests,List.countP_append,List.countP_singleton]
  by_cases h : r.orderId=x
  · rw [if_pos h,if_pos (beq_iff_eq.2 h)]
    rfl
  · rw [if_neg h,if_neg (fun h' => h (beq_iff_eq.1 h'))]
    rfl

theorem deadLettered_buried (b : Book) (r : DlqRecord) (x : String) :
    (b.buried r).deadLettered x=(b.deadLettered x||r.paymentOrderId==x) := by
  simp only [deadLettered,buried_dead,List.any_append,List.any_cons,List.any_nil,Bool.or_false]

end Book

inductive Stage where
  | idle (pass : Option PaymentsConfig)
  | attempt (config : PaymentsConfig) (o : PaymentOrder) (sent : Bool)
  | posting (config : PaymentsConfig) (o : PaymentOrder)
  | failing (pass : Option PaymentsConfig) (o : PaymentOrder)

def Phase.stage (x : String) : Phase → Stage
  | .off => .idle none
  | .pass config => .idle (some config)
  | .attempt config o sent =>
      if o.paymentOrderId=x then .attempt config o sent else .idle (some config)
  | .posting config o _ =>
      if o.paymentOrderId=x then .posting config o else .idle (some config)
  | .failing back o => if o.paymentOrderId=x then .failing back o else .idle back

@[simp] theorem Phase.stage_back (x pass) : (Phase.back pass).stage x=.idle pass := by
  cases pass <;> rfl

structure View where
  stage : Stage
  current : Option PaymentOrder
  charges : ℕ
  dead : Bool

def view (x : String) (a : Phase × Book) : View where
  stage := a.1.stage x
  current := a.2.current x
  charges := a.2.charges x
  dead := a.2.deadLettered x

inductive Turn (R : Rules) (x : String) : View → View → Prop
  | start {c : Option PaymentOrder} {n : ℕ} {d : Bool} {config : PaymentsConfig}
      (h : ∃ b : Book,b.current x=c ∧ R.start b config) :
      Turn R x ⟨.idle none,c,n,d⟩ ⟨.idle (some config),c,n,d⟩
  | finish {c : Option PaymentOrder} {n : ℕ} {d : Bool} {pass : Option PaymentsConfig} :
      Turn R x ⟨.idle pass,c,n,d⟩ ⟨.idle none,c,n,d⟩
  | crash {c : Option PaymentOrder} {n : ℕ} {d : Bool} {stage : Stage} (h : ∃ b : Book,R.crash b) :
      Turn R x ⟨stage,c,n,d⟩ ⟨.idle none,c,n,d⟩
  | requeue {o : PaymentOrder} {n : ℕ} {d : Bool} {config : PaymentsConfig} {now : String}
      (hs : o.status=.executing) (ha : o.attempts+1<config.retry.maxAttempts) :
      Turn R x ⟨.idle (some config),some o,n,d⟩
        ⟨.idle (some config),some (o.counted.requeued now),n,d⟩
  | expire {o : PaymentOrder} {n : ℕ} {d : Bool} {config : PaymentsConfig} {now : String}
      (hs : o.status=.executing) :
      Turn R x ⟨.idle (some config),some o,n,d⟩
        ⟨.failing (some config) (o.counted.refused now),some (o.counted.refused now),n,d⟩
  | pick {o : PaymentOrder} {n : ℕ} {d : Bool} {config : PaymentsConfig} {now since : String}
      (hr : o.Ready) :
      Turn R x ⟨.idle (some config),some o,n,d⟩
        ⟨.attempt config (o.started now since) false,some (o.started now since),n,d⟩
  | submit {o : PaymentOrder} {c : Option PaymentOrder} {n : ℕ} {d : Bool}
      {config : PaymentsConfig} (hg : (settleGate config o).isOk) :
      Turn R x ⟨.attempt config o false,c,n,d⟩ ⟨.attempt config o true,c,n+1,d⟩
  | post {o : PaymentOrder} {c : Option PaymentOrder} {n : ℕ} {d : Bool} {config : PaymentsConfig} :
      Turn R x ⟨.attempt config o true,c,n,d⟩ ⟨.posting config o,c,n,d⟩
  | settle {o : PaymentOrder} {c : Option PaymentOrder} {n : ℕ} {d : Bool}
      {config : PaymentsConfig} {now : String} {receipt : RailReceipt} {walletUpdated : Bool} :
      Turn R x ⟨.posting config o,c,n,d⟩
        ⟨.idle (some config),some (o.settled now receipt walletUpdated),n,d⟩
  | postpone {o : PaymentOrder} {c : Option PaymentOrder} {n : ℕ} {d sent : Bool}
      {config : PaymentsConfig} {now deadline : String} (hg : (settleGate config o).isOk)
      (ha : o.attempts<config.retry.maxAttempts) :
      Turn R x ⟨.attempt config o sent,c,n,d⟩
        ⟨.idle (some config),some (o.postponed now deadline),n,d⟩
  | park {o : PaymentOrder} {c : Option PaymentOrder} {n : ℕ} {d : Bool}
      {config : PaymentsConfig} {now : String} :
      Turn R x ⟨.attempt config o true,c,n,d⟩ ⟨.idle (some config),some (o.parked now),n,d⟩
  | refuse {o : PaymentOrder} {c : Option PaymentOrder} {n : ℕ} {d sent : Bool}
      {config : PaymentsConfig} {now : String} :
      Turn R x ⟨.attempt config o sent,c,n,d⟩
        ⟨.failing (some config) (o.refused now),some (o.refused now),n,d⟩
  | cut {o : PaymentOrder} {c : Option PaymentOrder} {n : ℕ} {d : Bool} {config : PaymentsConfig} :
      Turn R x ⟨.posting config o,c,n,d⟩ ⟨.attempt config o true,c,n,d⟩
  | bury {o : PaymentOrder} {c : Option PaymentOrder} {n : ℕ} {d : Bool}
      {pass : Option PaymentsConfig} (h : ∃ b : Book,b.current x=c ∧ R.bury b x) :
      Turn R x ⟨.failing pass o,c,n,d⟩ ⟨.idle pass,c,n,true⟩
  | payout {o : PaymentOrder} {n : ℕ} {d : Bool} {config : PaymentsConfig} (hnew : o.IsNew) :
      Turn R x ⟨.idle (some config),none,n,d⟩ ⟨.idle (some config),some o,n,d⟩
  | confirm {o : PaymentOrder} {n : ℕ} {d : Bool} {now : String} (hc : R.callbacks)
      (hs : o.status=.requiresAction) :
      Turn R x ⟨.idle none,some o,n,d⟩ ⟨.idle none,some (o.requeued now),n,d⟩
  | reject {o : PaymentOrder} {n : ℕ} {d : Bool} {now : String} (hc : R.callbacks)
      (hs : o.status=.requiresAction) :
      Turn R x ⟨.idle none,some o,n,d⟩ ⟨.failing none (o.refused now),some (o.refused now),n,d⟩

section
variable {R : Rules} {x : String} {b : Book}

theorem view_eq {ph stage c} (hstage : ph.stage x=stage) (hc : b.current x=c) :
    view x (ph,b)=⟨stage,c,b.charges x,b.deadLettered x⟩ := by
  rw [← hstage,← hc]
  rfl

theorem view_logged_self {ph stage o} (ho : o.paymentOrderId=x) (hstage : ph.stage x=stage) :
    view x (ph,b.logged o)=⟨stage,some o,b.charges x,b.deadLettered x⟩ := by
  apply view_eq hstage
  rw [Book.current_logged,if_pos ho]

theorem view_logged_ne {ph ph' o} (ho : o.paymentOrderId≠x) (hstage : ph'.stage x=ph.stage x) :
    view x (ph',b.logged o)=view x (ph,b) := by
  have hcur : (b.logged o).current x=b.current x := by
    rw [Book.current_logged,if_neg ho]
  rw [view_eq hstage hcur]
  rfl

theorem view_same {a a' v} (ha : view x a=v) (ha' : view x a'=v) :
    view x a'=view x a ∨ Turn R x (view x a) (view x a') :=
  .inl (ha'.trans ha.symm)

theorem view_turn {a a' v v'} (ht : Turn R x v v') (ha : view x a=v) (ha' : view x a'=v') :
    view x a'=view x a ∨ Turn R x (view x a) (view x a') := by
  rw [ha,ha']
  exact .inr ht

end

theorem step_turn {R} (x : String) {a a'} (h : Step R a a') :
    view x a'=view x a ∨ Turn R x (view x a) (view x a') := by
  cases h with
  | start h => exact .inr (Turn.start ⟨_,rfl,h⟩)
  | finish => exact .inr Turn.finish
  | crash h => exact .inr (Turn.crash ⟨_,h⟩)
  | @requeue b config o now hcur hs ha =>
    by_cases hx : o.paymentOrderId=x
    · rw [hx] at hcur
      exact view_turn (Turn.requeue hs ha) (view_eq rfl hcur) (view_logged_self hx rfl)
    · exact .inl (view_logged_ne hx rfl)
  | @expire b config o now hcur hs =>
    by_cases hx : o.paymentOrderId=x
    · rw [hx] at hcur
      exact view_turn (Turn.expire hs) (view_eq rfl hcur) (view_logged_self hx (if_pos hx))
    · exact .inl (view_logged_ne hx (if_neg hx))
  | @pick b config o now since hcur hr =>
    by_cases hx : o.paymentOrderId=x
    · rw [hx] at hcur
      exact view_turn (Turn.pick hr) (view_eq rfl hcur) (view_logged_self hx (if_pos hx))
    · exact .inl (view_logged_ne hx (if_neg hx))
  | @submit b config o r hg hid =>
    by_cases hx : o.paymentOrderId=x
    · refine view_turn (Turn.submit hg) (view_eq (if_pos hx) rfl) ?_
      have hcharges : (b.requested r).charges x=b.charges x+1 := by
        rw [Book.charges_requested,if_pos (hid.trans hx)]
      rw [← hcharges]
      exact view_eq (if_pos hx) rfl
    · refine view_same (view_eq (if_neg hx) rfl) ?_
      have hcharges : (b.requested r).charges x=b.charges x := by
        rw [Book.charges_requested,if_neg (fun h => hx (hid.symm.trans h))]
      rw [← hcharges]
      exact view_eq (if_neg hx) rfl
  | @post b config o p hid =>
    by_cases hx : o.paymentOrderId=x
    · exact view_turn Turn.post (view_eq (if_pos hx) rfl) (view_eq (if_pos hx) rfl)
    · exact view_same (view_eq (if_neg hx) rfl) (view_eq (if_neg hx) rfl)
  | postMore _ => exact .inl rfl
  | @settle b config o batch now receipt walletUpdated =>
    by_cases hx : o.paymentOrderId=x
    · exact view_turn Turn.settle (view_eq (if_pos hx) rfl) (view_logged_self hx rfl)
    · exact .inl (view_logged_ne hx (if_neg hx).symm)
  | @postpone b config o sent now deadline hg ha =>
    by_cases hx : o.paymentOrderId=x
    · exact view_turn (Turn.postpone hg ha) (view_eq (if_pos hx) rfl) (view_logged_self hx rfl)
    · exact .inl (view_logged_ne hx (if_neg hx).symm)
  | @park b config o now =>
    by_cases hx : o.paymentOrderId=x
    · exact view_turn Turn.park (view_eq (if_pos hx) rfl) (view_logged_self hx rfl)
    · exact .inl (view_logged_ne hx (if_neg hx).symm)
  | @refuse b config o sent now =>
    by_cases hx : o.paymentOrderId=x
    · exact view_turn Turn.refuse (view_eq (if_pos hx) rfl) (view_logged_self hx (if_pos hx))
    · exact .inl (view_logged_ne hx ((if_neg hx).trans (if_neg hx).symm))
  | @cut b config o batch _ =>
    by_cases hx : o.paymentOrderId=x
    · exact view_turn Turn.cut (view_eq (if_pos hx) rfl) (view_eq (if_pos hx) rfl)
    · exact view_same (view_eq (if_neg hx) rfl) (view_eq (if_neg hx) rfl)
  | @bury b back o r hid h =>
    by_cases hx : o.paymentOrderId=x
    · have hbury : R.bury b x := by
        rw [← hid.trans hx]
        exact h
      refine view_turn (Turn.bury ⟨b,rfl,hbury⟩) (view_eq (if_pos hx) rfl) ?_
      have hdead : (b.buried r).deadLettered x=true := by
        rw [Book.deadLettered_buried,beq_iff_eq.2 (hid.trans hx),Bool.or_true]
      rw [← hdead]
      exact view_eq (Phase.stage_back x back) rfl
    · refine view_same (view_eq (if_neg hx) rfl) ?_
      have hdead : (b.buried r).deadLettered x=b.deadLettered x := by
        rw [Book.deadLettered_buried,beq_eq_false_iff_ne.2 (fun h => hx (hid.symm.trans h)),
          Bool.or_false]
      rw [← hdead]
      exact view_eq (Phase.stage_back x back) rfl
  | @payout b config o hfresh hnew =>
    by_cases hx : o.paymentOrderId=x
    · rw [hx] at hfresh
      exact view_turn (Turn.payout hnew) (view_eq rfl hfresh) (view_logged_self hx rfl)
    · exact .inl (view_logged_ne hx rfl)
  | @confirm b o now hc hcur hs =>
    by_cases hx : o.paymentOrderId=x
    · rw [hx] at hcur
      exact view_turn (Turn.confirm hc hs) (view_eq rfl hcur) (view_logged_self hx rfl)
    · exact .inl (view_logged_ne hx rfl)
  | @reject b o now hc hcur hs =>
    by_cases hx : o.paymentOrderId=x
    · rw [hx] at hcur
      exact view_turn (Turn.reject hc hs) (view_eq rfl hcur) (view_logged_self hx (if_pos hx))
    · exact .inl (view_logged_ne hx (if_neg hx))

section
variable {W : Type} (sdk : PaySdk) {R : Rules} {x : String} {I : View → Prop}

theorem view_step (hturn : ∀ v v',I v → Turn R x v v' → I v') (a a') (ha : I (view x a))
    (h : Step R a a') : I (view x a') := by
  rcases step_turn x h with hsame | ht
  · rw [hsame]
    exact ha
  · exact hturn _ _ ha ht

theorem run_view (hturn : ∀ v v',I v → Turn R x v v' → I v') {es} {w : World W}
    (hm : MeetsAll sdk R es w) (hw : I (view x (.off,w.book))) {v : World W}
    (hv : Passes sdk es w v) : ∃ ph,I (view x (ph,v.book)) :=
  run_invariant sdk (view_step hturn) hm hw hv

theorem runAll_view (hturn : ∀ v v',I v → Turn R x v v' → I v') {es} {w : World W}
    (hm : MeetsAll sdk R es w) (hw : I (view x (.off,w.book))) :
    I (view x (.off,(runAll sdk es w).book)) :=
  Steps.invariant (I := fun a => I (view x a)) (view_step hturn)
    (run_steps sdk hm (Steps.refl _)) hw

end

/-- The order has failed for good, and the rails have received `n` requests for it. -/
inductive Spent (n : ℕ) : View → Prop
  | mk {pass : Option PaymentsConfig} {o : PaymentOrder} {d : Bool} (hs : o.status=.failed)
      (hd : o.nextRetryAt=none) : Spent n ⟨.idle pass,some o,n,d⟩

theorem Spent.charges_eq {n v} (h : Spent n v) : v.charges=n := by
  cases h
  rfl

theorem spent_turn {R x n} (v v' : View) (h : Spent n v) (ht : Turn R x v v') : Spent n v' := by
  obtain ⟨hs,hd⟩ := h
  cases ht with
  | start | finish | crash => exact ⟨hs,hd⟩
  | requeue hs' _ | expire hs' | confirm _ hs' | reject _ hs' =>
    rw [hs] at hs'
    cases hs'
  | pick hr =>
    rcases hr with hr | ⟨_,hr⟩
    · rw [hs] at hr
      cases hr
    · exact absurd hd hr

end OriginTools.Payments
