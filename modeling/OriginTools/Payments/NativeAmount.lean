import OriginTools.Payments.Paid

/-!
# The amount that the native rail pays

The executor parses the amount of an order to an `i128`, casts it to a `u64` for the
native rail, and leaves the journal to parse the string again.
-/

namespace OriginTools.Payments
open Process
variable {W : Type} (sdk : PaySdk)

def Op.still : Op → Bool
  | .append .postings _ => false
  | .replace .postings _ => false
  | .submit _ => false
  | _ => true

abbrev Still {ε α : Type} (p : Proc ε α) : Prop :=
  Emits (fun op : Op => op.still=true) (fun _ => True) p

def World.moved (w : World W) : List RailRequest × List LedgerPosting :=
  (w.requests,w.store.postings)

def AnyAnswer (_ : World W) (op : Op) (_ : op.Ans W) : Prop := True

theorem still_of_side {op : Op} (h : op.side=true) : op.still=true := by
  cases op with
  | append l entry =>
    cases l with
    | postings => cases h
    | _ => rfl
  | replace | submit => cases h
  | _ => rfl

theorem moved_still {op} (h : op.still=true) (a : op.Ans W) (w : World W) :
    (handle op a w).2.moved=w.moved := by
  cases op with
  | read | openWallet | saveWallet => cases a <;> rfl
  | append l entry | replace l entries =>
    cases a with
    | some e => rfl
    | none =>
      cases l with
      | postings => cases h
      | _ => rfl
  | ask q => rfl
  | submit r => cases h

theorem Still.leaves {ε α : Type} {p : Proc ε α} (h : Still p) :
    Leaves (handle (W := W)) AnyAnswer World.moved (fun _ => True) p :=
  (Emits.leaves h fun _ a w hop _ => moved_still hop a w).mono fun _ _ => trivial

theorem Side.still {ε α : Type} {p : Proc ε α} (h : Side p) : Still p :=
  h.mono (fun _ hop => still_of_side hop) fun _ _ => trivial

theorem still_appendLog {l} (hl : l≠.postings) (entry : l.Entry) : Still (appendLog l entry) := by
  refine .call ?_ fun r => .ofExcept r fun _ => trivial
  cases l with
  | postings => exact absurd rfl hl
  | _ => rfl

theorem still_transition (order : PaymentOrder) (target) : Still (order.transition target) := by
  unfold PaymentOrder.transition
  split
  · exact .call rfl fun _ => .done trivial
  · exact .fail _

theorem still_announceSettled (order payload) : Still (announceSettled sdk order payload) := by
  have hnotify : Still (orTerminal order
      (notify order.paymentOrderId ("order_settled ("++order.direction.toText ++ ")"))) :=
    (Side.still (side_notify _ _)).mapErr
  have haudit : Still (orTerminal order (auditRecord sdk atOrderSettled payload none)) :=
    (Side.still (side_auditRecord sdk _ _)).mapErr
  exact hnotify.bind fun _ _ => haudit.bind fun _ _ => .done trivial

def PaymentOrder.payParams (order : PaymentOrder) (amount : ℕ) : NativePayParams where
  recipient := order.recipient
  amount := amount
  memo := order.checkoutId.toUTF8.toList
  spendCap := some amount
  credit := none

def RailRequest.amount? : RailRequest → Option ℕ
  | .pay _ params => some params.amount
  | _ => none

structure NativelySettled (order : PaymentOrder) (signer : Option OrderSigner) (amount : ℕ)
    (w w' : World W) : Prop where
  requests : w'.requests=w.requests++[.pay order.paymentOrderId (order.payParams amount)]
  posted : ∃ batchId plan ps,(batchCall order signer).plan=.ok plan ∧
    plan.Written batchId ps ∧ w'.store.postings=w.store.postings++ps

def EndsSettled (order : PaymentOrder) (signer : Option OrderSigner) (amount : ℕ) (w : World W)
    (o : Outcome (SettleOutcome × PaymentOrder) PaymentOrder) (w' : World W) : Prop :=
  ∀ o',o=.done o' → NativelySettled order signer amount w w'

section
variable {order : PaymentOrder} {signer : Option OrderSigner} {amount : ℕ} {w w' : World W}

theorem NativelySettled.congr (h : NativelySettled order signer amount w w') {w''}
    (hw : w''.moved=w'.moved) : NativelySettled order signer amount w w'' := by
  obtain ⟨hrequests,hpostings⟩ := Prod.mk.inj hw
  exact ⟨hrequests.trans h.requests,hpostings ▸ h.posted⟩

theorem still_ends {p} (hp : Still p) (h : NativelySettled order signer amount w w') :
    Safe handle AnyAnswer (fun _ => True) (EndsSettled order signer amount w) p w' := by
  apply (Still.leaves hp).safe (fun _ _ => trivial)
  intro o w'' _ hw o' _
  exact h.congr hw

theorem still_journaled (receipt walletUpdated payload) : Still (ε := SettleOutcome × PaymentOrder)
      (do
        let order:={ order with receipt := some receipt }
        let order ← orTerminal order (order.transition .success)
        let order:={ order with ledgerUpdated := true,walletUpdated := walletUpdated }
        orTerminal order (updateOrder order)
        announceSettled sdk order payload) := by
  apply Emits.bind (R := fun _ => True)
  · exact (still_transition _ _).mapErr
  · intro o _
    apply Emits.bind (R := fun _ => True)
    · exact (still_appendLog (l := .orders) (by decide) _).mapErr
    · exact fun _ _ => still_announceSettled sdk _ _

theorem journalAndSettle_ends (receipt walletUpdated payload) (hpaid : w'.requests=w.requests++
      [.pay order.paymentOrderId (order.payParams amount)])
    (hposts : w'.store.postings=w.store.postings) :
    Safe handle AnyAnswer (fun _ => True) (EndsSettled order signer amount w)
      (journalAndSettle sdk order signer receipt none walletUpdated payload) w' := by
  have hcall : appendOrderBatch sdk order.paymentOrderId order.amount order.currency order.fx
      signer=(ofExcept (batchCall order signer).plan).bind (BatchPlan.write sdk) :=
    (batchCall order signer).process_eq sdk
  unfold journalAndSettle
  rw [hcall]
  cases hplan : (batchCall order signer).plan with
  | error e => exact ⟨trivial,fun o' ho => by cases ho⟩
  | ok plan =>
    apply Safe.bind
    apply Safe.mapErr
    have hwrite:=(@writeBatch_safe _ sdk AnyAnswer plan w').and
      (((posts_writeBatch sdk plan.paymentOrderId plan.fxRate plan.signer plan.legs).leaves
        (f := World.requests) fun op a v hop _ => ?_) w')
    · apply hwrite.mono (fun _ _ => trivial)
      intro o w'' _ hend
      obtain ⟨⟨ps,hext,hwritten,_⟩,_,hrequests⟩ := hend
      cases o with
      | fail | panic => exact fun o' ho => by cases ho
      | done batchId =>
        apply still_ends (still_journaled sdk receipt walletUpdated payload)
        refine ⟨hrequests.trans hpaid,batchId,plan,ps,hplan,hwritten batchId rfl,?_⟩
        rw [hext.postings,hposts]
    · cases op with
      | read | append => cases a <;> rfl
      | ask q => rfl
      | _ => cases hop

theorem settleNative_ends :
    Safe handle AnyAnswer (fun _ => True) (EndsSettled order signer amount w)
      (settleNative sdk order amount signer) w := by
  refine ⟨trivial,fun answer _ => ?_⟩
  obtain ⟨answer,wallet⟩ := answer
  cases answer with
  | error e => exact ⟨trivial,fun o' ho => by cases ho⟩
  | ok encoded =>
    cases encoded with
    | error e => exact ⟨trivial,fun o' ho => by cases ho⟩
    | ok bytes => exact journalAndSettle_ends sdk _ true _ rfl rfl

def railAmount (amountMinor : ℤ) : ℕ := amountMinor.toNat%2^64

/-- An order that the native rail settles: its amount parses to a number that is not
negative, and the rail was asked for the `u64` of it. -/
theorem settle_native_settled (hrail : order.rail.getD .native=.native) {config screened}
    {source : ℕ → (op : Op) → op.Ans W} {t o'}
    (h : exec handle source t (settle sdk config screened signer order) w=(.done o',w')) :
    ∃ m,parseAmount order.amount=.ok m ∧ 0 ≤ m ∧
      NativelySettled order signer (railAmount m) w w' := by
  cases hgate : settleGate config order with
  | error reason =>
    unfold settle at h
    rw [hgate] at h
    cases h
  | ok m =>
    obtain ⟨hm,hpos⟩ := settleGate_amount hgate
    refine ⟨m,hm,hpos,?_⟩
    have honRail : ∀ v : World W,v.moved=w.moved →
        Safe handle AnyAnswer (fun _ => True) (EndsSettled order signer (railAmount m) w)
          (settleOnRail sdk signer order m) v := by
      intro v hv
      obtain ⟨hrequests,hpostings⟩ := Prod.mk.inj hv
      unfold settleOnRail
      rw [hrail]
      apply (settleNative_ends sdk).post
      intro o v' _ hend o' ho
      obtain ⟨hreq,hposted⟩ := hend o' ho
      refine ⟨?_,?_⟩
      · rw [hreq,hrequests]
        rfl
      · rw [← hpostings]
        exact hposted
    have hsafe : Safe handle AnyAnswer (fun _ => True) (EndsSettled order signer (railAmount m) w)
        (settle sdk config screened signer order) w := by
      unfold settle
      rw [hgate]
      cases screened with
      | false => exact honRail w rfl
      | true =>
        apply (Still.leaves (Side.still (side_screen sdk order))).safe_bind (fun _ _ => trivial)
        · exact fun _ v _ hv => honRail v hv
        · exact fun _ _ _ _ _ ho => by cases ho
        · exact fun _ _ _ _ ho => by cases ho
    have hend:=hsafe.exec t _
      (obeyed_of_forall handle source AnyAnswer (fun _ _ _ => trivial) t _ _)
    rw [h] at hend
    exact hend o' rfl

end

/-- The one request to the rail asks for the exact amount of the order, and the legs
posted for the order in its currency are of that amount. -/
def PaidAsBooked (order : PaymentOrder) (w w' : World W) : Prop :=
  ∃ params ps,w'.requests=w.requests++[.pay order.paymentOrderId params] ∧
    w'.store.postings=w.store.postings++ps ∧
    exactAmount order.amount=some (params.amount : ℤ) ∧
    ∀ p∈ps,p.currency=order.currency → (exactAmount p.amount).map Int.natAbs=some params.amount

def FitsRail (order : PaymentOrder) : Prop :=
  ∃ x,exactAmount order.amount=some x ∧ 0≤x ∧ x<2^64 ∧
    ∀ rate,order.fx=some rate → rate.target=order.currency →
      ∀ r,parseRate rate.rate=.ok r → ((wrap128 (x*r)).tdiv (10^rateScale)).natAbs=x

theorem railAmount_exact_iff {amount m x} (hm : parseAmount amount=.ok m) (hpos : 0 ≤ m)
    (hx : exactAmount amount=some x) : (railAmount m : ℤ)=x ↔ 0≤x ∧ x<2^64 := by
  obtain ⟨y,hy,hwrap⟩ := parseAmount_exact hm
  rw [hx,Option.some.injEq] at hy
  subst hy
  unfold railAmount
  constructor
  · intro he
    omega
  · rintro ⟨hlo,hhi⟩
    have hrange : InRange x := ⟨by omega,by omega⟩
    rw [wrap128_of_inRange hrange] at hwrap
    omega

theorem exact_legs {order : PaymentOrder} {signer} {plan : BatchPlan} {x}
    (hm : parseAmount order.amount=.ok x) (hplan : (batchCall order signer).plan=.ok plan)
    {n : ℕ} (hx : exactAmount order.amount=some (n : ℤ)) :
    (∀ leg∈plan.legs,leg.currency=order.currency → (exactAmount leg.amount).map Int.natAbs=some n) ↔
      ∀ rate,order.fx=some rate → rate.target=order.currency → ∀ r,parseRate rate.rate=.ok r →
          ((wrap128 (x*r)).tdiv (10^rateScale)).natAbs=n := by
  have hown : (exactAmount order.amount).map Int.natAbs=some n := by
    rw [hx,Option.map_some,Int.natAbs_natCast]
  unfold batchCall at hplan
  cases hfx : order.fx with
  | none =>
    rw [hfx] at hplan
    simp only [JournalCall.plan] at hplan
    obtain ⟨_,_,rfl⟩ := map_eq_ok hplan
    constructor
    · exact fun _ rate hrate => by cases hrate
    · intro _ leg hleg _
      simp only [plainLegs,List.map_cons,List.map_nil,List.mem_cons,List.not_mem_nil,
        or_false] at hleg
      rcases hleg with rfl | rfl
      · exact hown
      · exact hown
  | some rate =>
    rw [hfx] at hplan
    simp only [JournalCall.plan] at hplan
    obtain ⟨toAmount,hto,hplan⟩ := bind_eq_ok hplan
    obtain ⟨_,_,rfl⟩ := map_eq_ok hplan
    obtain ⟨r,hr⟩ : ∃ r,parseRate rate.rate=.ok r := by
      simp only [convertedAmount,hm,Bind.bind,Except.bind] at hto
      cases hr : parseRate rate.rate with
      | error e => simp only [hr,reduceCtorEq] at hto
      | ok r => exact ⟨r,rfl⟩
    rw [convertedAmount_eq hm hr,Except.ok.injEq] at hto
    have hconverted : (exactAmount toAmount).map Int.natAbs=
        some ((wrap128 (x*r)).tdiv (10^rateScale)).natAbs := by
      rw [← hto,exactAmount_fmtAmount,Option.map_some]
    simp only [fxLegs,List.mem_cons,List.not_mem_nil,or_false,forall_eq_or_imp,forall_eq]
    constructor
    · rintro ⟨_,hcredit⟩ rate' hrate htarget r' hr'
      cases hrate
      rw [hr,Except.ok.injEq] at hr'
      subst hr'
      exact Option.some.inj (hconverted.symm.trans (hcredit htarget))
    · intro hcond
      refine ⟨fun _ => hown,fun htarget => ?_⟩
      rw [hconverted,hcond rate rfl htarget r hr]

theorem parseAmount_eq_exact {amount m x} (hm : parseAmount amount=.ok m)
    (hx : exactAmount amount=some x) (hlo : 0≤x) (hhi : x<2^64) : m=x := by
  obtain ⟨y,hy,hwrap⟩ := parseAmount_exact hm
  rw [hx,Option.some.injEq] at hy
  rw [hwrap,← hy,wrap128_of_inRange ⟨by omega,by omega⟩]

theorem written_legs {order : PaymentOrder} {plan : BatchPlan} {batchId ps}
    (h : plan.Written batchId ps) (n : ℕ) :
    (∀ p∈ps,p.currency=order.currency → (exactAmount p.amount).map Int.natAbs=some n) ↔
      ∀ leg∈plan.legs,leg.currency=order.currency →
        (exactAmount leg.amount).map Int.natAbs=some n := by
  rw [← h.legs]
  simp only [List.forall_mem_map,LedgerPosting.leg]

section
variable {order : PaymentOrder} {signer : Option OrderSigner} {w w' : World W} {m : ℤ}

theorem fitsRail_of_paidAsBooked (hm : parseAmount order.amount=.ok m) (hpos : 0 ≤ m)
    (hsettled : NativelySettled order signer (railAmount m) w w')
    (hpaid : PaidAsBooked order w w') : FitsRail order := by
  obtain ⟨hrequests,batchId,plan,ps,hplan,hwritten,hpostings⟩ := hsettled
  obtain ⟨params,ps',hreq,hpost,hexact,hbooked⟩ := hpaid
  rw [hrequests,List.append_cancel_left_eq,List.cons.injEq] at hreq
  obtain ⟨_,hparams⟩ := RailRequest.pay.inj hreq.1
  have hamount : params.amount=railAmount m := by
    rw [← hparams]
    rfl
  rw [hpostings,List.append_cancel_left_eq] at hpost
  subst hpost
  rw [hamount] at hexact hbooked
  obtain ⟨hlo,hhi⟩ := (railAmount_exact_iff hm hpos hexact).1 rfl
  have hmx:=parseAmount_eq_exact hm hexact hlo hhi
  refine ⟨railAmount m,hexact,hlo,hhi,?_⟩
  have hcond:=(exact_legs hm hplan hexact).1 ((written_legs hwritten _).1 hbooked)
  intro rate hrate htarget r hr
  rw [← hmx,hcond rate hrate htarget r hr]
  exact hmx.symm

theorem paidAsBooked_of_fitsRail (hm : parseAmount order.amount=.ok m) (hpos : 0 ≤ m)
    (hsettled : NativelySettled order signer (railAmount m) w w')
    (hfits : FitsRail order) : PaidAsBooked order w w' := by
  obtain ⟨hrequests,batchId,plan,ps,hplan,hwritten,hpostings⟩ := hsettled
  obtain ⟨x,hx,hlo,hhi,hcond⟩ := hfits
  have hexact:=(railAmount_exact_iff hm hpos hx).2 ⟨hlo,hhi⟩
  have hmx:=parseAmount_eq_exact hm hx hlo hhi
  subst hmx
  have hn : exactAmount order.amount=some ((railAmount m : ℕ) : ℤ) := by rw [hx,hexact]
  refine ⟨order.payParams (railAmount m),ps,hrequests,hpostings,hn,?_⟩
  rw [show (order.payParams (railAmount m)).amount=railAmount m from rfl]
  apply (written_legs hwritten _).2
  apply (exact_legs hm hplan hn).2
  intro rate hrate htarget r hr
  have hsame:=hcond rate hrate htarget r hr
  omega

end

theorem native_paid_as_booked_iff {order : PaymentOrder} (hrail : order.rail.getD .native=.native)
    {config : PaymentsConfig} {screened : Bool} {signer : Option OrderSigner}
    {source : ℕ → (op : Op) → op.Ans W} {t : ℕ} {w w' : World W} {o' : PaymentOrder}
    (h : exec handle source t (settle sdk config screened signer order) w=(.done o',w')) :
    PaidAsBooked order w w' ↔ FitsRail order := by
  obtain ⟨m,hm,hpos,hsettled⟩ := settle_native_settled sdk hrail h
  exact ⟨fitsRail_of_paidAsBooked hm hpos hsettled,paidAsBooked_of_fitsRail hm hpos hsettled⟩

namespace Sample

def executingFor (amount : String) : PaymentOrder :=
  { order with amount := amount,status := .executing }

def settlesFor (amount : String) :
    Outcome (SettleOutcome × PaymentOrder) PaymentOrder × World Unit :=
  exec handle (source .default "b1" accepting) 0
    (settle paySdk .default false none (executingFor amount)) (world order)

end Sample
open Sample

theorem native_paid_as_booked_one : (settlesFor "1.00").1.value?.isSome=true ∧
      PaidAsBooked (executingFor "1.00") (world Sample.order) (settlesFor "1.00").2 := by
  have hdone : (settlesFor "1.00").1.value?.isSome=true := by decide +kernel
  obtain ⟨o',ho'⟩ := Outcome.eq_done_of_value? hdone
  refine ⟨hdone,?_⟩
  refine (@native_paid_as_booked_iff _ paySdk (executingFor "1.00") rfl _ _ _ _ _ _ _ _
    (Prod.ext ho' rfl)).2 ⟨100,by decide +kernel,by decide,by decide,?_⟩
  exact fun rate hrate => by cases hrate

/-- The rail is asked for nothing, and the journal books the whole amount. -/
theorem native_paid_less_than_booked : (settlesFor "184467440737095516.16").1.value?.isSome=true ∧
      exactAmount "184467440737095516.16"=some (2^64) ∧
      (settlesFor "184467440737095516.16").2.requests.map RailRequest.amount? = [some 0] ∧
      (settlesFor "184467440737095516.16").2.store.postings.map
          (fun p => exactAmount p.amount)=[some (2^64),some (2^64)] ∧
      ¬ PaidAsBooked (executingFor "184467440737095516.16") (world Sample.order)
        (settlesFor "184467440737095516.16").2 := by
  have hexact : exactAmount "184467440737095516.16"=some (2^64) := by decide +kernel
  have hasked : (settlesFor "184467440737095516.16").2.requests.map
      RailRequest.amount? = [some 0] := by decide +kernel
  refine ⟨by decide +kernel,hexact,hasked,by decide +kernel,?_⟩
  rintro ⟨params,ps,hrequests,_,hamount,_⟩
  rw [hrequests] at hasked
  have hzero : params.amount=0 := by simpa [world,RailRequest.amount?] using hasked
  rw [hzero,show (executingFor "184467440737095516.16").amount=
    "184467440737095516.16" from rfl,hexact] at hamount
  cases hamount

end OriginTools.Payments
