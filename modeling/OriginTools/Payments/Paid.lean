import OriginTools.Payments.Commands
import OriginTools.Payments.Settling

/-!
# Money that moved is journaled

An order is settled once its rail reports the payment as done.
-/

namespace OriginTools.Payments
open Process
variable {W : Type} (sdk : PaySdk)

def Journalable (amount : String) (fx : Option FxRate) : Prop :=
  ∀ rate,fx=some rate → ∃ m r,parseAmount amount=.ok m ∧ parseRate rate.rate=.ok r ∧
    0<r ∧ 10^rateScale≤wrap128 (m*r)

theorem tdiv_rate_bounds (x : ℤ) (h : InRange x) :
    InRange (x.tdiv (10^rateScale)) ∧ InRange (-x.tdiv (10^rateScale)) := by
  have habs : |x.tdiv (10^rateScale)| ≤ |x|/10^rateScale := by
    rw [← Int.natCast_natAbs,← Int.natCast_natAbs,Int.natAbs_tdiv]
    exact le_of_eq (by norm_cast)
  have hx : |x|≤2^127 := abs_le.2 ⟨h.1,h.2.le⟩
  have hsmall : |x.tdiv (10^rateScale)|<2^127 := by
    simp only [rateScale] at habs ⊢
    omega
  obtain ⟨hlo,hhi⟩ := abs_lt.1 hsmall
  exact ⟨⟨hlo.le,hhi⟩,⟨by omega,by omega⟩⟩

theorem tdiv_rate_pos (x : ℤ) : 0<x.tdiv (10^rateScale) ↔ 10^rateScale≤x := by
  rcases le_total 0 x with hx | hx
  · rw [Int.tdiv_eq_ediv_of_nonneg hx]
    simp only [rateScale]
    omega
  · have hneg : x.tdiv (10^rateScale) = -((-x)/10^rateScale) := by
      rw [← Int.tdiv_eq_ediv_of_nonneg (by omega : 0 ≤ -x),Int.neg_tdiv,neg_neg]
    rw [hneg]
    simp only [rateScale]
    omega

variable {amount : String} {rate : FxRate}

theorem currencyNets_fxLegs {m t} (hm : parseAmount amount=.ok m) (ht : InRange t)
    (ht' : InRange (-t)) (hne : rate.source≠rate.target) :
    currencyNets rate (fxLegs amount (fmtAmount t) rate) 0 0=.ok (m,-t) := by
  have hfrom : wrap128 (0+m)=m := by
    rw [zero_add]
    exact wrap128_of_inRange (parseDecimal_inRange hm)
  have hto : wrap128 (0+wrap128 (-t)) = -t := by
    rw [wrap128_add_right,zero_add]
    exact wrap128_of_inRange ht'
  simp only [fxLegs,currencyNets,hm,parseAmount_fmtAmount ht,Bind.bind,Except.bind,
    Account.signed,if_pos,if_neg (Ne.symm hne),hfrom,hto]

theorem checkFxBatch_order {m r} (hm : parseAmount amount=.ok m) (hpos : 0 < m)
    (hr : parseRate rate.rate=.ok r) (hne : rate.source≠rate.target) :
    (∃ u,checkFxBatch rate (fxLegs amount
      (fmtAmount ((wrap128 (m*r)).tdiv (10^rateScale))) rate)=.ok u) ↔
      0<r ∧ 0<(wrap128 (m*r)).tdiv (10^rateScale) := by
  have hprod:=wrap128_inRange (m*r)
  obtain ⟨ht,ht'⟩ := tdiv_rate_bounds _ hprod
  have hmr : wrap128 (wrap128 m.natAbs*r)=wrap128 (m*r) := by
    have habs : ((m.natAbs : ℕ) : ℤ)=m := by omega
    rw [habs,wrap128_of_inRange (parseDecimal_inRange hm)]
  unfold checkFxBatch
  rw [if_neg (by simp [fxLegs])]
  simp only [currencyNets_fxLegs hm ht ht' hne,Bind.bind,Except.bind,hr,hmr]
  generalize (wrap128 (m*r)).tdiv (10^rateScale)=t at ht ht' ⊢
  constructor
  · rintro ⟨u,h⟩
    split at h
    · cases h
    · rename_i hzero
      split at h
      · cases h
      · rename_i hsign
        split at h
        · cases h
        · rename_i hrate
          rw [decide_eq_true hpos] at hsign
          have hle : ¬ (-t>0) := fun hgt => hsign (decide_eq_true hgt).symm
          omega
  · rintro ⟨hrate,htpos⟩
    have hexp : wrap128 ((-t).natAbs : ℤ)=t := by
      have habs : (((-t).natAbs : ℕ) : ℤ)=t := by omega
      rw [habs,wrap128_of_inRange ht]
    have hsign : ¬ decide (m>0)=decide (-t>0) := by
      rw [decide_eq_true hpos,decide_eq_false (by omega)]
      simp
    rw [if_neg (by omega),if_neg hsign,if_neg (by omega),hexp,if_neg (by omega)]
    exact ⟨(),rfl⟩

theorem checkBatch_order {m} (hm : parseAmount amount=.ok m) :
    checkBatch [(.debit,amount),(.credit,amount)]=.ok () := by
  have hsum : wrap128 (wrap128 m+wrap128 (-m))=0 := by
    rw [wrap128_add_left,wrap128_add_right,add_neg_cancel]
    rfl
  unfold checkBatch
  rw [if_neg (by simp)]
  simp [signedSum,hm,Bind.bind,Except.bind,Account.signed,hsum]

theorem convertedAmount_eq {m r} (hm : parseAmount amount=.ok m) (hr : parseRate rate.rate=.ok r) :
    convertedAmount amount rate=.ok (fmtAmount ((wrap128 (m*r)).tdiv (10^rateScale))) := by
  simp only [convertedAmount,hm,hr,Bind.bind,Except.bind,pure,Except.pure]

structure ValidTerms (amount : String) (fx : Option FxRate) : Prop where
  positive : ∃ m,parseAmount amount=.ok m ∧ 0 < m
  rate : ∀ rate,fx=some rate → rate.source≠rate.target ∧ ∃ r,parseRate rate.rate=.ok r

theorem plan_order_iff {fx} (h : ValidTerms amount fx) (id currency signer) :
    (∃ plan,(JournalCall.orderBatch id amount currency fx signer).plan=.ok plan) ↔
      Journalable amount fx := by
  obtain ⟨m,hm,hpos⟩ := h.positive
  cases fx with
  | none =>
    have hplan : (JournalCall.orderBatch id amount currency none signer).plan=
        .ok ⟨id,none,signer,plainLegs currency [(.debit,amount),(.credit,amount)]⟩ := by
      rw [JournalCall.plan,checkBatch_order hm]
      rfl
    have hnone : Journalable amount none := fun rate hrate => by cases hrate
    exact ⟨fun _ => hnone,fun _ => ⟨_,hplan⟩⟩
  | some rate =>
    obtain ⟨hne,r,hr⟩ := h.rate rate rfl
    have hcheck:=checkFxBatch_order hm hpos hr hne
    rw [tdiv_rate_pos] at hcheck
    have hplan : (∃ plan,
        (JournalCall.orderBatch id amount currency (some rate) signer).plan=.ok plan) ↔
        ∃ u,checkFxBatch rate (fxLegs amount
          (fmtAmount ((wrap128 (m*r)).tdiv (10^rateScale))) rate)=.ok u := by
      rw [JournalCall.plan,convertedAmount_eq hm hr]
      generalize fmtAmount ((wrap128 (m*r)).tdiv (10^rateScale))=toAmount
      simp only [Except.bind]
      generalize checkFxBatch rate (fxLegs amount toAmount rate)=check
      cases check with
      | error e =>
        constructor
        · intro hplan
          obtain ⟨_,hplan⟩ := hplan
          cases hplan
        · intro hok
          obtain ⟨_,hok⟩ := hok
          cases hok
      | ok u => exact ⟨fun _ => ⟨u,rfl⟩,fun _ => ⟨_,rfl⟩⟩
    rw [hplan,hcheck]
    constructor
    · rintro ⟨h1,h2⟩ rate' hrate'
      cases hrate'
      exact ⟨m,r,hm,hr,h1,h2⟩
    · intro hj
      obtain ⟨m',r',hm',hr',h1,h2⟩ := hj rate rfl
      rw [hm,Except.ok.injEq] at hm'
      rw [hr,Except.ok.injEq] at hr'
      subst hm' hr'
      exact ⟨h1,h2⟩

theorem validTerms_of_created {args : OrderCreateArgs} {id now} {created order : PaymentOrder}
    (hcreated : args.order id now=.ok created) (hamount : order.amount=created.amount)
    (hfx : order.fx=created.fx) : ValidTerms order.amount order.fx := by
  obtain ⟨hpositive,hrate⟩ := OrderCreateArgs.order_terms hcreated
  rw [hamount,hfx]
  exact ⟨hpositive,hrate⟩

def Settleable (order : PaymentOrder) (w₀ : World W) (pay : Payment) : Prop :=
  Journalable order.amount order.fx ∧
    ∀ bytes,pay=.receipt bytes → ∀ r∈w₀.store.receipts,r.hash≠sdk.sha3 bytes

theorem acceptable_iff {order} (h : ValidTerms order.amount order.fx) (signer : Option OrderSigner)
    (w₀ : World W) (pay : Payment) :
    Acceptable sdk order signer w₀ pay ↔ Settleable sdk order w₀ pay := by
  unfold Acceptable Settleable batchCall
  rw [plan_order_iff h]

theorem paid_order_settles_iff {args : OrderCreateArgs} {id now : String}
    {created order : PaymentOrder} (hcreated : args.order id now=.ok created)
    (hamount : order.amount=created.amount) (hfx : order.fx=created.fx)
    (hexec : order.status=.executing) (config : PaymentsConfig) (screened : Bool)
    (signer : Option OrderSigner) (source : ℕ → (op : Op) → op.Ans W)
    (hsteady : ∀ (t : ℕ) (op : Op),op.steady (source t op)=true) (w : World W) (pay : Payment)
    (hpaid : pay∈payments (trace handle source 0 (settle sdk config screened signer order) w)) :
    SettledAs order signer w (exec handle source 0 (settle sdk config screened signer order) w).1
        (exec handle source 0 (settle sdk config screened signer order) w).2 ↔
      Settleable sdk order w pay := by
  have hterms:=validTerms_of_created hcreated hamount hfx
  have hend:=settle_ends sdk hexec config screened signer hsteady 0 w
  rw [← acceptable_iff sdk hterms signer w pay]
  rcases hend with ⟨hnone,_⟩ | ⟨pay',hone,hcases⟩
  · rw [hnone] at hpaid
    cases hpaid
  rw [hone] at hpaid
  rw [List.mem_singleton.1 hpaid]
  rcases hcases with ⟨hok,hsettled⟩ | ⟨hno,hnot⟩
  · exact iff_of_true hsettled hok
  · exact iff_of_false (fun hs => hs.not_notSettled hnot) hno

namespace Sample

def createArgs (rate : Option String) : OrderCreateArgs where
  checkout := "c1"
  recipient := "mesh"
  amount := "1.00"
  currency := "USD"
  rail := none
  fxFrom := rate.map fun _ => "USD"
  fxTo := rate.map fun _ => "BTC"
  fxRate := rate
  fxMarkup := 0
  cardToken := none
  cardNetwork := none
  cardLast4 := none
  payout := false

def created (rate : Option String) : PaymentOrder :=
  { order with
    fx := rate.map fun r => { source := "USD",target := "BTC",rate := r,markupBps := 0 } }

def executing (rate : Option String) : PaymentOrder := { created rate with status := .executing }

def pays (rate : Option String) : Attempt PaymentOrder :=
  settle paySdk .default false none (executing rate)

theorem source_steady (config stamp t) (op : Op) :
    op.steady (source config stamp accepting t op)=true := by
  cases op with
  | ask q => cases q <;> rfl
  | submit r => cases r <;> rfl
  | _ => rfl

end Sample
open Sample

theorem paid_order_settles_plain : SettledAs (executing none) none (world Sample.order)
      (exec handle (Sample.source .default "b1" accepting) 0 (Sample.pays none)
        (world Sample.order)).1
      (exec handle (Sample.source .default "b1" accepting) 0 (Sample.pays none)
        (world Sample.order)).2 := by
  have hcreated : (createArgs none).order "o1" "2026"=.ok (Sample.created none) := rfl
  have hamount : (executing none).amount=(Sample.created none).amount := rfl
  have hfx : (executing none).fx=(Sample.created none).fx := rfl
  refine (paid_order_settles_iff paySdk hcreated hamount hfx rfl .default false none
    (Sample.source .default "b1" accepting) (source_steady .default "b1")
    (world Sample.order) .native (by decide +kernel)).2 ⟨?_,?_⟩
  · intro rate hrate
    cases hrate
  · intro bytes hbytes
    cases hbytes

/-- A conversion that yields less than one minor unit: `order-create` takes the order,
the wallet pays it, and the journal refuses it. -/
theorem paid_order_not_journaled : (createArgs (some "0.001")).order "o1" "2026"=
        .ok (Sample.created (some "0.001")) ∧
      Payment.native∈payments (trace handle (Sample.source .default "b1" accepting) 0
        (Sample.pays (some "0.001")) (world Sample.order)) ∧
      ¬ SettledAs (executing (some "0.001")) none (world Sample.order)
        (exec handle (Sample.source .default "b1" accepting) 0 (Sample.pays (some "0.001"))
          (world Sample.order)).1
        (exec handle (Sample.source .default "b1" accepting) 0 (Sample.pays (some "0.001"))
          (world Sample.order)).2 := by
  refine ⟨rfl,by decide +kernel,?_⟩
  intro hsettled
  obtain ⟨now,receipt,walletUpdated,batchId,plan,ps,_,horders,_⟩ := hsettled
  have hone : (exec handle (Sample.source .default "b1" accepting) 0
      (Sample.pays (some "0.001")) (world Sample.order)).2.store.orders.length=1 := by
    decide +kernel
  rw [horders] at hone
  cases hone

end OriginTools.Payments
