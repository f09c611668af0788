import OriginTools.Payments.Run

/-!
# The integrity of the journal

A sequence of calls of the three functions that write to the journal.
-/

namespace OriginTools.Payments
open Process List
variable {W : Type} (sdk : PaySdk)

inductive JournalCall where
  | batch (paymentOrderId currency : String) (legs : List (Account × String))
      (signer : Option OrderSigner)
  | fxBatch (paymentOrderId : String) (legs : List CurrencyLeg) (rate : FxRate)
      (signer : Option OrderSigner)
  | orderBatch (paymentOrderId amount currency : String) (fx : Option FxRate)
      (signer : Option OrderSigner)

def JournalCall.process : JournalCall → Proc Error String
  | .batch id currency legs signer => appendBatch sdk id currency legs signer
  | .fxBatch id legs rate signer => appendFxBatch sdk id legs rate signer
  | .orderBatch id amount currency fx signer => appendOrderBatch sdk id amount currency fx signer

def batchCall (order : PaymentOrder) (signer : Option OrderSigner) : JournalCall :=
  .orderBatch order.paymentOrderId order.amount order.currency order.fx signer

structure BatchPlan where
  paymentOrderId : String
  fxRate : Option FxRate
  signer : Option OrderSigner
  legs : List CurrencyLeg

def BatchPlan.write (plan : BatchPlan) : Proc Error String :=
  writeBatch sdk plan.paymentOrderId plan.fxRate plan.signer plan.legs

def plainLegs (currency : String) (legs : List (Account × String)) : List CurrencyLeg :=
  legs.map fun leg => { account := leg.1,amount := leg.2,currency := currency }

def fxLegs (amount toAmount : String) (rate : FxRate) : List CurrencyLeg :=
  [{ account := .debit,amount := amount,currency := rate.source },
    { account := .credit,amount := toAmount,currency := rate.target }]

def JournalCall.plan : JournalCall → Except Error BatchPlan
  | .batch id currency legs signer =>
      (checkBatch legs).map fun _ => ⟨id,none,signer,plainLegs currency legs⟩
  | .fxBatch id legs rate signer =>
      (checkFxBatch rate legs).map fun _ => ⟨id,some rate,signer,legs⟩
  | .orderBatch id amount currency none signer =>
      (checkBatch [(.debit,amount),(.credit,amount)]).map fun _ =>
        ⟨id,none,signer,plainLegs currency [(.debit,amount),(.credit,amount)]⟩
  | .orderBatch id amount _ (some rate) signer =>
      (convertedAmount amount rate).bind fun toAmount =>
        (checkFxBatch rate (fxLegs amount toAmount rate)).map fun _ =>
          ⟨id,some rate,signer,fxLegs amount toAmount rate⟩

theorem ofExcept_map_bind {ε α β γ : Type} (r : Except ε α) (f : α → β) (g : β → Proc ε γ) :
    (ofExcept (r.map f)).bind g=(ofExcept r).bind fun a => g (f a) := by
  cases r <;> rfl

theorem ofExcept_bind_congr {ε α β : Type} (r) {f g : α → Proc ε β} (h : ∀ a,f a=g a) :
    (ofExcept r).bind f=(ofExcept r).bind g := by
  cases r with
  | error e => rfl
  | ok a => exact h a

theorem ofExcept_bind_bind {ε α β γ : Type} (r : Except ε α) (f : α → Except ε β)
    (g : β → Proc ε γ) :
    (ofExcept (r.bind f)).bind g=(ofExcept r).bind fun a => (ofExcept (f a)).bind g := by
  cases r <;> rfl

theorem appendBatch_eq (id currency legs signer) :
    appendBatch sdk id currency legs signer=(ofExcept (checkBatch legs)).bind fun _ =>
      BatchPlan.write sdk ⟨id,none,signer,plainLegs currency legs⟩ := rfl

theorem appendFxBatch_eq (id legs rate signer) :
    appendFxBatch sdk id legs rate signer=(ofExcept (checkFxBatch rate legs)).bind fun _ =>
      BatchPlan.write sdk ⟨id,some rate,signer,legs⟩ := rfl

theorem appendOrderBatch_none (id amount currency signer) :
    appendOrderBatch sdk id amount currency none signer=
      appendBatch sdk id currency [(.debit,amount),(.credit,amount)] signer := rfl

theorem appendOrderBatch_some (id amount currency rate signer) :
    appendOrderBatch sdk id amount currency (some rate) signer=
      (ofExcept (convertedAmount amount rate)).bind fun toAmount =>
        appendFxBatch sdk id (fxLegs amount toAmount rate) rate signer := rfl

theorem JournalCall.process_eq (call : JournalCall) :
    call.process sdk=(ofExcept call.plan).bind (BatchPlan.write sdk) := by
  cases call with
  | batch id currency legs signer =>
    rw [JournalCall.process,JournalCall.plan,ofExcept_map_bind,appendBatch_eq]
  | fxBatch id legs rate signer =>
    rw [JournalCall.process,JournalCall.plan,ofExcept_map_bind,appendFxBatch_eq]
  | orderBatch id amount currency fx signer =>
    cases fx with
    | none =>
      rw [JournalCall.process,JournalCall.plan,appendOrderBatch_none]
      generalize [(Account.debit,amount),(Account.credit,amount)]=legs
      rw [ofExcept_map_bind,appendBatch_eq]
    | some rate =>
      rw [JournalCall.process,JournalCall.plan,ofExcept_bind_bind,appendOrderBatch_some]
      apply ofExcept_bind_congr
      intro toAmount
      rw [ofExcept_map_bind,appendFxBatch_eq]

def CurrencyLeg.value (leg : CurrencyLeg) : ℤ :=
  let minor:=(exactAmount leg.amount).getD 0
  match leg.account with
  | .debit => minor
  | .credit => -minor

def netIn (currency : String) (legs : List CurrencyLeg) : ℤ :=
  ((legs.filter fun leg => leg.currency==currency).map CurrencyLeg.value).sum

@[simp] theorem netIn_nil (currency : String) : netIn currency []=0 := rfl

theorem netIn_cons_self (leg : CurrencyLeg) (legs) :
    netIn leg.currency (leg::legs)=leg.value+netIn leg.currency legs := by
  simp [netIn]

theorem netIn_cons_ne {currency leg} (legs) (h : leg.currency≠currency) :
    netIn currency (leg::legs)=netIn currency legs := by
  simp [netIn,h]

theorem signed_eq_wrap {leg : CurrencyLeg} {m : ℤ} (h : parseAmount leg.amount=.ok m) :
    leg.account.signed m=wrap128 leg.value := by
  obtain ⟨x,hx,rfl⟩ := parseAmount_exact h
  unfold CurrencyLeg.value
  rw [hx]
  cases leg.account with
  | debit => rfl
  | credit => exact wrap128_neg x

theorem signedSum_net (currency : String) {legs : List (Account × String)} (a s : ℤ)
    (h : signedSum legs (wrap128 a)=.ok s) :
    s=wrap128 (a+netIn currency (plainLegs currency legs)) ∧
      ∀ leg∈plainLegs currency legs,(exactAmount leg.amount).isSome := by
  induction legs generalizing a with
  | nil =>
    have hs : wrap128 a=s := Except.ok.inj h
    simp [plainLegs,hs.symm]
  | cons leg legs ih =>
    obtain ⟨account,amount⟩ := leg
    rcases hm : parseAmount amount with e | m
    · simp only [signedSum,hm,Bind.bind,Except.bind,reduceCtorEq] at h
    simp only [signedSum,hm,Bind.bind,Except.bind] at h
    have hsigned : account.signed m=wrap128 (⟨account,amount,currency⟩ : CurrencyLeg).value :=
      @signed_eq_wrap ⟨account,amount,currency⟩ m hm
    rw [hsigned,wrap128_add_left,wrap128_add_right] at h
    obtain ⟨hs,hsome⟩ := ih _ h
    have hcons : plainLegs currency ((account,amount)::legs)=
        ⟨account,amount,currency⟩::plainLegs currency legs := rfl
    have hnet:=netIn_cons_self ⟨account,amount,currency⟩ (plainLegs currency legs)
    dsimp only at hnet
    rw [hcons]
    constructor
    · rw [hs,hnet,add_assoc]
    · intro leg hleg
      rcases mem_cons.1 hleg with rfl | hleg
      · obtain ⟨x,hx,_⟩ := parseAmount_exact hm
        exact Option.isSome_iff_exists.2 ⟨x,hx⟩
      · exact hsome leg hleg

variable {rate : FxRate}

theorem currencyNets_net {legs} (a b) {nets : ℤ × ℤ}
    (h : currencyNets rate legs (wrap128 a) (wrap128 b)=.ok nets) :
    nets.1=wrap128 (a+netIn rate.source legs) ∧
      (rate.source≠rate.target → nets.2=wrap128 (b+netIn rate.target legs)) ∧
      (rate.source=rate.target → nets.2=wrap128 b) ∧
      ∀ leg∈legs,(exactAmount leg.amount).isSome ∧
        (leg.currency=rate.source ∨ leg.currency=rate.target) := by
  induction legs generalizing a b with
  | nil =>
    have hn : (wrap128 a,wrap128 b)=nets := Except.ok.inj h
    simp [← hn]
  | cons leg legs ih =>
    rcases hm : parseAmount leg.amount with e | m
    · simp only [currencyNets,hm,Bind.bind,Except.bind,reduceCtorEq] at h
    obtain ⟨x,hx,_⟩ := parseAmount_exact hm
    have hsome : (exactAmount leg.amount).isSome := Option.isSome_iff_exists.2 ⟨x,hx⟩
    simp only [currencyNets,hm,Bind.bind,Except.bind,signed_eq_wrap hm] at h
    by_cases hsrc : leg.currency=rate.source
    · rw [if_pos hsrc,wrap128_add_left,wrap128_add_right] at h
      obtain ⟨h1,h2,h3,h4⟩ := ih _ _ h
      refine ⟨?_,?_,h3,?_⟩
      · rw [h1,← hsrc,netIn_cons_self,add_assoc]
      · intro hne
        rw [h2 hne,netIn_cons_ne legs (fun he => hne (hsrc.symm.trans he))]
      · intro leg' hleg'
        rcases mem_cons.1 hleg' with rfl | hleg'
        · exact ⟨hsome,.inl hsrc⟩
        · exact h4 leg' hleg'
    · rw [if_neg hsrc] at h
      by_cases htgt : leg.currency=rate.target
      · rw [if_pos htgt,wrap128_add_left,wrap128_add_right] at h
        obtain ⟨h1,h2,_,h4⟩ := ih _ _ h
        refine ⟨?_,?_,?_,?_⟩
        · rw [h1,netIn_cons_ne legs hsrc]
        · intro hne
          rw [h2 hne,← htgt,netIn_cons_self,add_assoc]
        · intro he
          exact absurd (htgt.trans he.symm) hsrc
        · intro leg' hleg'
          rcases mem_cons.1 hleg' with rfl | hleg'
          · exact ⟨hsome,.inr htgt⟩
          · exact h4 leg' hleg'
      · rw [if_neg htgt] at h
        cases h

theorem checkBatch_net {currency legs u} (h : checkBatch legs=.ok u)
    (hfits : InRange (netIn currency (plainLegs currency legs))) :
    netIn currency (plainLegs currency legs)=0 ∧
      ∀ leg∈plainLegs currency legs,(exactAmount leg.amount).isSome := by
  unfold checkBatch at h
  split at h
  · cases h
  · rcases hs : signedSum legs 0 with e | sum
    · simp only [hs,Bind.bind,Except.bind,reduceCtorEq] at h
    simp only [hs,Bind.bind,Except.bind] at h
    split at h
    · cases h
    · rename_i hsum
      have hzero : sum=0 := not_not.1 hsum
      obtain ⟨hnet,hsome⟩ := signedSum_net currency 0 sum hs
      rw [zero_add,wrap128_of_inRange hfits] at hnet
      exact ⟨hnet.symm.trans hzero,hsome⟩

structure FxBalanced (rate : FxRate) (legs : List CurrencyLeg) : Prop where
  currencies : ∀ leg∈legs,leg.currency=rate.source ∨ leg.currency=rate.target
  opposite : netIn rate.source legs*netIn rate.target legs<0
  converted : ∃ r,exactRate rate.rate=some r ∧
    abs (|netIn rate.source legs| * r/10^rateScale - |netIn rate.target legs|)≤1

def FxFits (rate : FxRate) (legs : List CurrencyLeg) : Prop :=
  rate.source≠rate.target → ∀ r,exactRate rate.rate=some r →
    InRange |netIn rate.source legs| ∧ InRange |netIn rate.target legs| ∧ InRange r ∧
      InRange (|netIn rate.source legs| * r)

theorem inRange_of_abs {x : ℤ} (h : InRange |x|) : InRange x := by
  obtain ⟨_,hhi⟩ := h
  have hx:=abs_lt.1 hhi
  exact ⟨hx.1.le,hx.2⟩

theorem mul_neg_of_ne_sign {a b : ℤ} (ha : a≠0) (hb : b≠0)
    (h : ¬ decide (a>0)=decide (b>0)) : a*b<0 := by
  rcases lt_or_gt_of_ne ha with ha | ha
  · rcases lt_or_gt_of_ne hb with hb | hb
    · rw [decide_eq_false (by omega),decide_eq_false (by omega)] at h
      exact absurd rfl h
    · exact mul_neg_of_neg_of_pos ha hb
  · rcases lt_or_gt_of_ne hb with hb | hb
    · exact mul_neg_of_pos_of_neg ha hb
    · rw [decide_eq_true ha,decide_eq_true hb] at h
      exact absurd rfl h

theorem converted_near {a b r} (hr : 0<r) (ha : InRange |a|) (hb : InRange |b|)
    (hab : InRange (|a| * r)) (h : ¬ ((wrap128 (wrap128 a.natAbs*r)).tdiv (10^rateScale)-
      wrap128 b.natAbs).natAbs>1) : abs (|a| * r/10^rateScale - |b|)≤1 := by
  have hprod : 0 ≤ |a| * r := mul_nonneg (abs_nonneg a) hr.le
  rw [Int.natCast_natAbs,Int.natCast_natAbs,wrap128_of_inRange ha,wrap128_of_inRange hb,
    wrap128_of_inRange hab,Int.tdiv_eq_ediv_of_nonneg hprod] at h
  rw [← Int.natCast_natAbs]
  omega

theorem checkFxBatch_balanced {legs u} (h : checkFxBatch rate legs=.ok u)
    (hfits : FxFits rate legs) :
    FxBalanced rate legs ∧ ∀ leg∈legs,(exactAmount leg.amount).isSome := by
  unfold checkFxBatch at h
  split at h
  · cases h
  · rcases hn : currencyNets rate legs 0 0 with e | nets
    · simp only [hn,Bind.bind,Except.bind,reduceCtorEq] at h
    obtain ⟨fromNet,toNet⟩ := nets
    simp only [hn,Bind.bind,Except.bind] at h
    split at h
    · cases h
    · rename_i hzero
      split at h
      · cases h
      · rename_i hsign
        rcases hr : parseRate rate.rate with e | r
        · simp only [hr,reduceCtorEq] at h
        simp only [hr] at h
        split at h
        · cases h
        · rename_i hpos
          split at h
          · cases h
          · rename_i hnear
            obtain ⟨h1,h2,h3,h4⟩ := currencyNets_net 0 0 hn
            dsimp only at h1 h2 h3
            rw [not_or] at hzero
            have hne : rate.source≠rate.target := fun he => hzero.2 (h3 he)
            obtain ⟨x,hx,hrx⟩ := parseRate_exact hr
            obtain ⟨hsrc,htgt,hx',hprod⟩ := hfits hne x hx
            rw [wrap128_of_inRange hx'] at hrx
            subst hrx
            rw [zero_add,wrap128_of_inRange (inRange_of_abs hsrc)] at h1
            have h2:=h2 hne
            rw [zero_add,wrap128_of_inRange (inRange_of_abs htgt)] at h2
            rw [h1,h2] at hzero hsign hnear
            refine ⟨⟨fun leg hleg => (h4 leg hleg).2,?_,r,hx,?_⟩,fun leg hleg => (h4 leg hleg).1⟩
            · exact mul_neg_of_ne_sign hzero.1 hzero.2 hsign
            · exact converted_near (not_le.1 hpos) hsrc htgt hprod hnear

def JournalCall.Fits : JournalCall → Prop
  | .batch _ currency legs _ => InRange (netIn currency (plainLegs currency legs))
  | .fxBatch _ legs rate _ => FxFits rate legs
  | .orderBatch _ _ _ none _ => True
  | .orderBatch _ amount _ (some rate) _ =>
      ∀ x r,exactAmount amount=some x → exactRate rate.rate=some r →
        InRange |x| ∧ InRange r ∧ InRange (|x| * |r|)

def BalancedLegs (fxRate : Option FxRate) (legs : List CurrencyLeg) : Prop :=
  match fxRate with
  | none => ∃ currency,(∀ leg∈legs,leg.currency=currency) ∧ netIn currency legs=0
  | some rate => FxBalanced rate legs

theorem plainLegs_currency (currency legs) :
    ∀ leg∈plainLegs currency legs,leg.currency=currency := by
  intro leg hleg
  obtain ⟨x,_,rfl⟩ := mem_map.1 hleg
  rfl

theorem netIn_debit_credit (currency amount : String) :
    netIn currency (plainLegs currency [(.debit,amount),(.credit,amount)])=0 := by
  simp [netIn,plainLegs,CurrencyLeg.value]

theorem fxLegs_fits {amount toAmount : String} (hto : convertedAmount amount rate=.ok toAmount)
    (hfits : ∀ x r,exactAmount amount=some x → exactRate rate.rate=some r →
      InRange |x| ∧ InRange r ∧ InRange (|x| * |r|)) :
    FxFits rate (fxLegs amount toAmount rate) := by
  unfold convertedAmount at hto
  rcases hm : parseAmount amount with e | m
  · simp only [hm,Bind.bind,Except.bind,reduceCtorEq] at hto
  rcases hr : parseRate rate.rate with e | r
  · simp only [hm,hr,Bind.bind,Except.bind,reduceCtorEq] at hto
  simp only [hm,hr,Bind.bind,Except.bind,pure,Except.pure,Except.ok.injEq] at hto
  intro hne r' hr'
  obtain ⟨x,hx,hmx⟩ := parseAmount_exact hm
  obtain ⟨hxr,hrange,hprod⟩ := hfits x r' hx hr'
  obtain ⟨y,hy,hry⟩ := parseRate_exact hr
  rw [hr',Option.some.injEq] at hy
  rw [← hy,wrap128_of_inRange hrange] at hry
  rw [wrap128_of_inRange (inRange_of_abs hxr)] at hmx
  rw [hmx,hry,wrap128_of_inRange (inRange_of_abs (abs_mul x r' ▸ hprod))] at hto
  have hsrc : netIn rate.source (fxLegs amount toAmount rate)=x := by
    simp [netIn,fxLegs,CurrencyLeg.value,hx,Ne.symm hne]
  have htgt : netIn rate.target (fxLegs amount toAmount rate)= -(x*r').tdiv (10^rateScale) := by
    simp [netIn,fxLegs,CurrencyLeg.value,hne,← hto,exactAmount_fmtAmount]
  rw [hsrc,htgt,abs_neg]
  refine ⟨hxr,?_,hrange,?_⟩
  · have hle : |(x*r').tdiv (10^rateScale)| ≤ |x| * |r'| := by
      rw [← abs_mul,← Int.natCast_natAbs,← Int.natCast_natAbs,Int.natAbs_tdiv]
      exact Int.ofNat_le.2 (Nat.div_le_self _ _)
    exact ⟨le_trans (by norm_num) (abs_nonneg _),lt_of_le_of_lt hle hprod.2⟩
  · have hle : |(|x| * r')| ≤ |x| * |r'| := by rw [abs_mul,abs_abs]
    exact inRange_of_abs ⟨le_trans (by norm_num) (abs_nonneg _),lt_of_le_of_lt hle hprod.2⟩

theorem plan_balanced {call : JournalCall} {plan : BatchPlan} (h : call.plan=.ok plan)
    (hfits : call.Fits) :
    BalancedLegs plan.fxRate plan.legs ∧ ∀ leg∈plan.legs,(exactAmount leg.amount).isSome := by
  cases call with
  | batch id currency legs signer =>
    simp only [JournalCall.plan] at h
    obtain ⟨u,hcheck,rfl⟩ := map_eq_ok h
    obtain ⟨hnet,hsome⟩ := checkBatch_net hcheck hfits
    exact ⟨⟨currency,plainLegs_currency currency legs,hnet⟩,hsome⟩
  | fxBatch id legs rate signer =>
    simp only [JournalCall.plan] at h
    obtain ⟨u,hcheck,rfl⟩ := map_eq_ok h
    exact checkFxBatch_balanced hcheck hfits
  | orderBatch id amount currency fx signer =>
    cases fx with
    | none =>
      simp only [JournalCall.plan] at h
      obtain ⟨u,hcheck,rfl⟩ := map_eq_ok h
      have hzero:=netIn_debit_credit currency amount
      have hrange : InRange (netIn currency (plainLegs currency
          [(.debit,amount),(.credit,amount)])) := by
        rw [hzero]
        decide
      obtain ⟨_,hsome⟩ := checkBatch_net hcheck hrange
      exact ⟨⟨currency,plainLegs_currency currency _,hzero⟩,hsome⟩
    | some rate =>
      simp only [JournalCall.plan] at h
      obtain ⟨toAmount,hto,hmap⟩ := bind_eq_ok h
      obtain ⟨u,hcheck,rfl⟩ := map_eq_ok hmap
      exact checkFxBatch_balanced hcheck (fxLegs_fits hto hfits)

def LedgerPosting.leg (p : LedgerPosting) : CurrencyLeg where
  account := p.account
  amount := p.amount
  currency := p.currency

structure BatchPlan.Written (plan : BatchPlan) (batchId : String) (ps : List LedgerPosting) :
    Prop where
  legs : ps.map LedgerPosting.leg=plan.legs
  fields : ∀ p∈ps,p.batchId=batchId ∧ p.paymentOrderId=plan.paymentOrderId ∧ p.fxRate=plan.fxRate

theorem BatchPlan.Written.cons {plan : BatchPlan} {leg legs batchId} {p : LedgerPosting} {ps}
    (hleg : p.leg=leg) (hfields : p.batchId=batchId ∧ p.paymentOrderId=plan.paymentOrderId ∧
      p.fxRate=plan.fxRate) (h : BatchPlan.Written { plan with legs := legs } batchId ps) :
    BatchPlan.Written { plan with legs := leg::legs } batchId (p::ps) := by
  refine ⟨?_,?_⟩
  · rw [map_cons,hleg,h.legs]
  · intro q hq
    rcases mem_cons.1 hq with rfl | hq
    · exact hfields
    · exact h.fields q hq

abbrev Chained (prev : Bytes) (ps : List LedgerPosting) : Prop :=
  Linked (fun p : LedgerPosting => p.prevHash) (postingHash sdk) prev ps

section
variable (allowed : World W → (op : Op) → op.Ans W → Prop)

def Reliable : Prop := ∀ w op a,allowed w op a → op.works a=true ∧ op.cuts a=false

structure Extends (prev : Bytes) (w w' : World W) (ps : List LedgerPosting) : Prop where
  postings : w'.store.postings=w.store.postings++ps
  chained : Chained sdk prev ps

variable {allowed}

theorem signPosting_leaves (body signer) : Leaves handle allowed (fun w : World W => w)
      (fun o => (∀ p,o=.done p → p.toPostingBody=body) ∧ (Reliable allowed → ∃ p,o=.done p))
      (signPosting sdk body signer) := by
  cases signer with
  | none =>
    apply Leaves.of_done
    exact ⟨fun p hp => by cases hp; rfl,fun _ => ⟨_,rfl⟩⟩
  | some keys =>
    intro w
    refine ⟨rfl,fun answer hanswer => ?_⟩
    cases answer with
    | error e =>
      refine ⟨rfl,⟨nofun,fun hrel => ?_⟩,rfl⟩
      exact absurd (hrel _ _ _ hanswer).2 (by simp [Op.cuts])
    | ok signature => exact ⟨rfl,⟨fun p hp => by cases hp; rfl,fun _ => ⟨_,rfl⟩⟩,rfl⟩

def LegsEnd (allowed : World W → (op : Op) → op.Ans W → Prop) (plan : BatchPlan)
    (batchId : String) (prev : Bytes) (w : World W) (o : Outcome Error Unit) (w' : World W) :
    Prop :=
  ∃ ps,Extends sdk prev w w' ps ∧ (o=.done () → plan.Written batchId ps) ∧
    (Reliable allowed → o=.done ())

theorem legsEnd_nil (plan : BatchPlan) (batchId prev w) (h : plan.legs=[]) :
    LegsEnd sdk allowed plan batchId prev w (.done ()) w :=
  ⟨[],⟨(append_nil _).symm,trivial⟩,fun _ => ⟨h.symm,by simp⟩,fun _ => rfl⟩

theorem legsEnd_stopped (plan batchId prev w) {o} (ho : o≠.done ()) (h : ¬ Reliable allowed) :
    LegsEnd sdk allowed plan batchId prev w o w :=
  ⟨[],⟨(append_nil _).symm,trivial⟩,fun hd => absurd hd ho,fun hrel => absurd hrel h⟩

theorem legsEnd_cons {plan : BatchPlan} {leg legs batchId prev} {w w' : World W} {p : LedgerPosting}
    {o} (hleg : p.leg=leg) (hprev : p.prevHash=prev)
    (hfields : p.batchId=batchId ∧ p.paymentOrderId=plan.paymentOrderId ∧ p.fxRate=plan.fxRate)
    (h : LegsEnd sdk allowed { plan with legs := legs } batchId (postingHash sdk p)
      (w.push .postings p) o w') :
    LegsEnd sdk allowed { plan with legs := leg::legs } batchId prev w o w' := by
  obtain ⟨ps,hext,hwritten,hrel⟩ := h
  refine ⟨p::ps,⟨?_,hprev,hext.chained⟩,?_,hrel⟩
  · have hpush : (w.push .postings p).store.postings=w.store.postings++[p] := rfl
    rw [hext.postings,hpush,append_assoc]
    rfl
  · exact fun ho => (hwritten ho).cons hleg hfields

theorem appendLegs_safe (plan : BatchPlan) (batchId ts) (legs : List CurrencyLeg) (prev)
    (w : World W) :
    Safe handle allowed (fun _ => True)
      (LegsEnd sdk allowed { plan with legs := legs } batchId prev w)
      (appendLegs sdk batchId plan.paymentOrderId ts plan.fxRate plan.signer legs prev) w := by
  induction legs generalizing prev w with
  | nil => exact ⟨trivial,legsEnd_nil sdk _ _ _ _ rfl⟩
  | cons leg legs ih =>
    unfold appendLegs
    refine ⟨trivial,fun postingId _ => ?_⟩
    apply Leaves.safe_bind (signPosting_leaves sdk _ plan.signer) (fun _ _ => trivial)
    · intro p w' hp hw
      have hbody:=hp.1 p rfl
      have hw : w'=w := hw
      subst hw
      refine ⟨trivial,fun failure hallowed => ?_⟩
      cases failure with
      | some e =>
        refine ⟨trivial,legsEnd_stopped sdk _ _ _ _ nofun fun hrel => ?_⟩
        exact absurd (hrel _ _ _ hallowed).1 (by simp [Op.works])
      | none =>
        apply (ih (postingHash sdk p) (w'.push .postings p)).post
        intro o w'' _ hend
        refine legsEnd_cons sdk ?_ ?_ ?_ hend
        · rw [LedgerPosting.leg,hbody]
        · rw [hbody]
        · rw [hbody]
          exact ⟨rfl,rfl,rfl⟩
    · intro e w' he hw
      have hw : w'=w := hw
      subst hw
      refine legsEnd_stopped sdk _ _ _ _ nofun fun hrel => ?_
      obtain ⟨p,hp⟩ := he.2 hrel
      cases hp
    · intro w' hpanic hw
      have hw : w'=w := hw
      subst hw
      refine legsEnd_stopped sdk _ _ _ _ nofun fun hrel => ?_
      obtain ⟨p,hp⟩ := hpanic.2 hrel
      cases hp

/-- How the writing of a batch ends: the journal is extended by chained postings,
all the legs of the plan if the batch id is returned. -/
def WriteEnd (allowed : World W → (op : Op) → op.Ans W → Prop) (plan : BatchPlan) (w : World W)
    (o : Outcome Error String) (w' : World W) : Prop :=
  ∃ ps,Extends sdk (headFrom (postingHash sdk) genesisHash w.store.postings) w w' ps ∧
    (∀ batchId,o=.done batchId → plan.Written batchId ps) ∧
    (Reliable allowed → ∃ batchId,o=.done batchId)

theorem journalHead_safe (w : World W) : Safe handle allowed (fun _ => True) (fun o w' => w'=w ∧
        (o=.done (headFrom (postingHash sdk) genesisHash w.store.postings) ∨
          ¬ Reliable allowed ∧ ∃ e,o=.fail e))
      (journalHead sdk) w := by
  unfold journalHead
  refine ⟨trivial,fun failure hallowed => ?_⟩
  cases failure with
  | some e =>
    refine ⟨trivial,rfl,.inr ⟨fun hrel => ?_,e,rfl⟩⟩
    exact absurd (hrel _ _ _ hallowed).1 (by simp [Op.works])
  | none =>
    have hget : w.store.get .postings=w.store.postings := rfl
    refine ⟨trivial,rfl,.inl (congrArg Outcome.done ?_)⟩
    rw [hget,headFrom]
    cases w.store.postings.getLast? with
    | none | some => rfl

theorem writeBatch_safe (plan : BatchPlan) (w : World W) :
    Safe handle allowed (fun _ => True) (WriteEnd sdk allowed plan w) (plan.write sdk) w := by
  unfold BatchPlan.write writeBatch
  refine ⟨trivial,fun batchId _ => ⟨trivial,fun ts _ => ?_⟩⟩
  show Safe handle allowed _ _ ((journalHead sdk).bind _) w
  apply Safe.bind
  apply (journalHead_safe sdk w).post
  intro o w' _ hhead
  obtain ⟨rfl,rfl | ⟨hrel,e,rfl⟩⟩ := hhead
  · apply Safe.bind
    apply (appendLegs_safe sdk plan batchId ts plan.legs _ w').post
    intro o w'' _ hend
    obtain ⟨ps,hext,hwritten,hrel⟩ := hend
    cases o with
    | done u =>
      refine ⟨trivial,ps,hext,?_,fun _ => ⟨batchId,rfl⟩⟩
      intro id hid
      cases hid
      exact hwritten rfl
    | fail | panic => exact ⟨ps,hext,nofun,fun h => by cases hrel h⟩
  · exact ⟨[],⟨(append_nil _).symm,trivial⟩,nofun,fun h => absurd h hrel⟩

end

structure Made (W : Type) where
  call : JournalCall
  source : ℕ → (op : Op) → op.Ans W
  outcome : Outcome Error String
  before : World W
  after : World W

def makeCall (call : JournalCall) (source : ℕ → (op : Op) → op.Ans W) (w : World W) : Made W where
  call := call
  source := source
  outcome := (exec handle source 0 (call.process sdk) w).1
  before := w
  after := (exec handle source 0 (call.process sdk) w).2

def makeCalls : List (JournalCall × (ℕ → (op : Op) → op.Ans W)) → World W → List (Made W)
  | [],_ => []
  | (c,source)::rest,w =>
      makeCall sdk c source w::makeCalls rest (makeCall sdk c source w).after

def Made.Works (m : Made W) : Prop :=
  ∀ (t : ℕ) (op : Op),op.works (m.source t op)=true ∧ op.cuts (m.source t op)=false

structure Made.Adds (m : Made W) (ps : List LedgerPosting) : Prop where
  extended : Extends sdk (headFrom (postingHash sdk) genesisHash m.before.store.postings)
    m.before m.after ps
  /-- A returned batch is complete, and balanced when its numbers are in range. -/
  returned : ∀ batchId,m.outcome=.done batchId →
    ∃ plan,m.call.plan=.ok plan ∧ plan.Written batchId ps ∧
      (m.call.Fits → BalancedLegs plan.fxRate (ps.map LedgerPosting.leg) ∧
        ∀ p∈ps,(exactAmount p.amount).isSome)
  refused : m.Works → ∀ e,m.outcome=.fail e → ps=[]
  noPanic : m.Works → m.outcome≠.panic

theorem makeCall_adds (call : JournalCall) (source : ℕ → (op : Op) → op.Ans W) (w : World W) :
    ∃ ps,(makeCall sdk call source w).Adds sdk ps := by
  have hproc:=call.process_eq sdk
  cases hplan : call.plan with
  | error e =>
    have hexec : exec handle source 0 (call.process sdk) w=(.fail e,w) := by
      rw [hproc,hplan]
      rfl
    refine ⟨[],⟨⟨?_,trivial⟩,?_,fun _ _ _ => rfl,?_⟩⟩
    · simp only [makeCall,hexec,append_nil]
    · intro batchId ho
      simp only [makeCall,hexec,reduceCtorEq] at ho
    · intro _ ho
      simp only [makeCall,hexec,reduceCtorEq] at ho
  | ok plan =>
    have hwrite : call.process sdk=plan.write sdk := by
      rw [hproc,hplan]
      rfl
    -- The same execution, read once with any answers and once with answers that work.
    have hany:=(writeBatch_safe sdk plan w).exec 0 _
      (obeyed_of_forall handle source (fun _ _ _ => True) (fun _ _ _ => trivial) 0 _ _)
    obtain ⟨ps,hext,hwritten,_⟩ := hany
    have hreturns : (makeCall sdk call source w).Works →
        ∃ batchId,(makeCall sdk call source w).outcome=.done batchId := by
      intro hworks
      have hsafe:=(writeBatch_safe sdk plan w).exec 0 _ (obeyed_of_forall handle source
          (fun _ op a => op.works a=true ∧ op.cuts a=false) (fun t _ op => hworks t op) 0 _ _)
      obtain ⟨_,_,_,hrel⟩ := hsafe
      obtain ⟨batchId,ho⟩ := hrel fun _ _ _ ha => ha
      refine ⟨batchId,?_⟩
      rw [makeCall,hwrite]
      exact ho
    refine ⟨ps,⟨?_,?_,?_,?_⟩⟩
    · rw [makeCall,hwrite]
      exact hext
    · intro batchId ho
      rw [makeCall,hwrite] at ho
      have hps:=hwritten batchId ho
      refine ⟨plan,hplan,hps,fun hfits => ?_⟩
      obtain ⟨hbalanced,hsome⟩ := plan_balanced hplan hfits
      rw [← hps.legs] at hbalanced hsome
      exact ⟨hbalanced,fun p hp => hsome p.leg (mem_map_of_mem hp)⟩
    · intro hworks e ho
      obtain ⟨batchId,hd⟩ := hreturns hworks
      rw [hd] at ho
      cases ho
    · intro hworks ho
      obtain ⟨batchId,hd⟩ := hreturns hworks
      rw [hd] at ho
      cases ho

theorem Made.Adds.chained {m : Made W} {ps} (h : m.Adds sdk ps)
    (hw : Chained sdk genesisHash m.before.store.postings) :
    Chained sdk genesisHash m.after.store.postings := by
  rw [h.extended.postings]
  exact (linked_append _ _ _).2 ⟨hw,h.extended.chained⟩

/-- The journal stays a chain over any sequence of calls, each call that returns a
batch id has added a balanced batch, and a call that fails although neither the
store nor a signature does has added nothing. -/
theorem journal_integrity (calls : List (JournalCall × (ℕ → (op : Op) → op.Ans W))) (w : World W)
    (hw : Chained sdk genesisHash w.store.postings) :
    ∀ m∈makeCalls sdk calls w,Chained sdk genesisHash m.after.store.postings ∧
      ∃ ps,m.Adds sdk ps := by
  induction calls generalizing w with
  | nil => simp [makeCalls]
  | cons c rest ih =>
    obtain ⟨c,source⟩ := c
    obtain ⟨ps,hadds⟩ := makeCall_adds sdk c source w
    have hafter:=hadds.chained sdk hw
    intro m hm
    rcases mem_cons.1 hm with rfl | hm
    · exact ⟨hafter,ps,hadds⟩
    · exact ih _ hafter m hm

namespace Sample

def euros : FxRate where
  source := "USD"
  target := "EUR"
  rate := "0.9"
  markupBps := 0

def journalCalls : List (JournalCall × (ℕ → (op : Op) → op.Ans Unit)) :=
  [(.orderBatch "o1" "1.00" "USD" none none,source .default "b1" accepting),
    (.orderBatch "o2" "1.00" "USD" (some euros) none,source .default "b2" accepting),
    (.batch "o3" "USD" [(.debit,"1.00"),(.credit,"2.00")] none,source .default "b3" accepting)]

end Sample
open Sample

theorem Sample.journalCalls_fit : ∀ c∈journalCalls,c.1.Fits := by
  have h1 : exactAmount "1.00"=some 100 := by decide +kernel
  have h2 : exactRate euros.rate=some 900000 := by decide +kernel
  have h3 : netIn "USD" (plainLegs "USD" [(.debit,"1.00"),(.credit,"2.00")]) = -100 := by
    decide +kernel
  intro c hc
  simp only [journalCalls,mem_cons,not_mem_nil,or_false] at hc
  rcases hc with rfl | rfl | rfl
  · trivial
  · intro x r hx hr
    rw [h1,Option.some.injEq] at hx
    rw [h2,Option.some.injEq] at hr
    subst hx hr
    decide
  · show InRange _
    rw [h3]
    decide

theorem journal_integrity_three_calls : (∀ c∈Sample.journalCalls,c.1.Fits) ∧
    Chained paySdk genesisHash (world Sample.order).store.postings ∧
      ∀ m∈makeCalls paySdk Sample.journalCalls (world Sample.order),
        Chained paySdk genesisHash m.after.store.postings ∧ ∃ ps,m.Adds paySdk ps :=
  ⟨Sample.journalCalls_fit,trivial,journal_integrity paySdk Sample.journalCalls
      (world Sample.order) trivial⟩

end OriginTools.Payments
