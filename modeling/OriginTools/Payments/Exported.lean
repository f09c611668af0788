import OriginTools.Payments.Reconciled
import OriginTools.Payments.RunConduct

/-!
# The exported files and the journal

`export_per_currency` lists the settled orders by the currency they settle in.
-/

namespace OriginTools.Payments
open Process List
variable {W : Type}

def postingsOf (postings : List LedgerPosting) (id : String) : List LedgerPosting :=
  postings.filter fun p => p.paymentOrderId==id

def CurrencyLeg.creditIn (currency : String) (leg : CurrencyLeg) : Bool :=
  leg.account==.credit&&leg.currency==currency

theorem LedgerPosting.leg_amount (p : LedgerPosting) : p.leg.amount=p.amount := rfl

def creditsOf (postings : List LedgerPosting) (id currency : String) : List LedgerPosting :=
  (postingsOf postings id).filter fun p => p.leg.creditIn currency

def settledCredits (store : Store) (currency : String) : List LedgerPosting :=
  store.postings.filter fun p =>
    decide (p.paymentOrderId∈(successes store.orders).map PaymentOrder.paymentOrderId)&&
      p.leg.creditIn currency

structure SettlementFile.AgreesWith (file : SettlementFile) (store : Store) : Prop where
  rows : ∀ o∈successes store.orders,o.settlementCurrency=file.currency →
    ((file.rows.filter fun row => row.paymentOrderId==o.paymentOrderId).map
        fun row => parseAmount row.amount)=
      (creditsOf store.postings o.paymentOrderId file.currency).map fun p => parseAmount p.amount
  total : (file.rows.map fun row => minorOf row.amount).sum=
    ((settledCredits store file.currency).map fun p => minorOf p.amount).sum

def evenConversion (amount : String) : Option FxRate → Bool
  | none => true
  | some rate =>
      match convertedAmount amount rate with
      | .ok toAmount => amountEq toAmount amount
      | .error _ => true

/-- A conversion, if the order has one, yields the amount of the order itself. -/
def PaymentOrder.convertsEvenly (o : PaymentOrder) : Bool := evenConversion o.amount o.fx

open PaymentOrder

def Booked (postings : List LedgerPosting) (o : PaymentOrder) : Prop :=
  ∃ signer plan batchId,(batchCall o signer).plan=.ok plan ∧
    plan.Written batchId (postingsOf postings o.paymentOrderId)

section
variable {o : PaymentOrder} {signer : Option OrderSigner} {plan : BatchPlan}

theorem parseAmount_of_amountEq {a b} (h : amountEq a b=true) : parseAmount a=parseAmount b := by
  unfold amountEq at h
  split at h
  · rename_i x y ha hb
    rw [ha,hb,beq_iff_eq.1 h]
  · rw [beq_iff_eq.1 h]

theorem plan_legs (hplan : (batchCall o signer).plan=.ok plan) :
    (o.fx=none ∧ plan.legs=plainLegs o.currency [(.debit,o.amount),(.credit,o.amount)]) ∨
      ∃ rate toAmount,o.fx=some rate ∧ convertedAmount o.amount rate=.ok toAmount ∧
        plan.legs=fxLegs o.amount toAmount rate := by
  cases hfx : o.fx with
  | none =>
    simp only [batchCall,hfx,JournalCall.plan] at hplan
    obtain ⟨_,_,hplan⟩ := map_eq_ok hplan
    exact .inl ⟨rfl,by rw [← hplan]⟩
  | some rate =>
    simp only [batchCall,hfx,JournalCall.plan] at hplan
    obtain ⟨toAmount,hto,hplan⟩ := bind_eq_ok hplan
    obtain ⟨_,_,hplan⟩ := map_eq_ok hplan
    exact .inr ⟨rate,toAmount,rfl,hto,by rw [← hplan]⟩

theorem plan_credits (hplan : (batchCall o signer).plan=.ok plan)
    (heven : o.convertsEvenly=true) (currency : String) :
    ((plan.legs.filter fun leg => leg.creditIn currency).map fun leg => parseAmount leg.amount)=
      if o.settlementCurrency=currency then [parseAmount o.amount] else [] := by
  rcases plan_legs hplan with ⟨hfx,hlegs⟩ | ⟨rate,toAmount,hfx,hto,hlegs⟩
  · rw [hlegs,settlementCurrency,hfx]
    by_cases hc : o.currency=currency
    · simp [plainLegs,CurrencyLeg.creditIn,hc]
    · simp [plainLegs,CurrencyLeg.creditIn,hc]
  · simp only [convertsEvenly,evenConversion,hfx,hto] at heven
    have hsame : parseAmount toAmount=parseAmount o.amount := parseAmount_of_amountEq heven
    rw [hlegs,settlementCurrency,hfx]
    by_cases hc : rate.target=currency
    · simp [fxLegs,CurrencyLeg.creditIn,hc,hsame]
    · simp [fxLegs,CurrencyLeg.creditIn,hc]

theorem plan_legs_ne_nil (hplan : (batchCall o signer).plan=.ok plan) : plan.legs≠[] := by
  rcases plan_legs hplan with ⟨_,hlegs⟩ | ⟨rate,toAmount,_,_,hlegs⟩
  · rw [hlegs]
    exact cons_ne_nil _ _
  · rw [hlegs]
    exact cons_ne_nil _ _

theorem Booked.credits {postings} (h : Booked postings o) (heven : o.convertsEvenly=true)
    (currency : String) :
    ((creditsOf postings o.paymentOrderId currency).map fun p => parseAmount p.amount)=
      if o.settlementCurrency=currency then [parseAmount o.amount] else [] := by
  obtain ⟨signer,plan,batchId,hplan,hwritten⟩ := h
  have hlegs : ((creditsOf postings o.paymentOrderId currency).map fun p => parseAmount p.amount)=
      (plan.legs.filter fun leg => leg.creditIn currency).map fun leg => parseAmount leg.amount := by
    rw [← hwritten.legs,filter_map,map_map]
    simp only [creditsOf,Function.comp_def,LedgerPosting.leg_amount]
  rw [hlegs]
  exact plan_credits hplan heven currency

theorem Booked.postings_ne_nil {postings} (h : Booked postings o) :
    postingsOf postings o.paymentOrderId≠[] := by
  obtain ⟨signer,plan,batchId,hplan,hwritten⟩ := h
  intro hnil
  have hlegs:=hwritten.legs
  rw [hnil] at hlegs
  exact plan_legs_ne_nil hplan hlegs.symm

end
section
variable (sdk : ReconcileSdk) (books : Books) (rail date : String)

theorem mem_exportPerCurrency {file} (h : file∈(exportPerCurrency sdk books rail date).1) :
    file.rows=((successes books.store.orders).filter fun o =>
      o.settlementCurrency==file.currency).map settlementRow := by
  obtain ⟨entry,hentry,rfl⟩ := mem_map.1 h
  have hget:=Std.ExtTreeMap.mem_toList_iff_getElem?_eq_some.1 hentry
  have hgroup:=SortedMap.getElem?_group ((successes books.store.orders).map
    fun o => (o.settlementCurrency,o.settlementRow)) entry.1
  rw [hget,Option.getD_some,filter_map,map_map] at hgroup
  exact hgroup

theorem exists_export {o} (ho : o∈successes books.store.orders) :
    ∃ file∈(exportPerCurrency sdk books rail date).1,file.currency=o.settlementCurrency := by
  have hgroup:=SortedMap.getElem?_group ((successes books.store.orders).map
    fun o => (o.settlementCurrency,o.settlementRow)) o.settlementCurrency
  cases hget : (SortedMap.group ((successes books.store.orders).map
      fun o => (o.settlementCurrency,o.settlementRow)))[o.settlementCurrency]? with
  | none =>
    rw [hget,Option.getD_none,eq_comm,map_eq_nil_iff,filter_eq_nil_iff] at hgroup
    exact absurd (beq_self_eq_true _) (hgroup _ (mem_map_of_mem ho))
  | some rows =>
    have hmem:=Std.ExtTreeMap.mem_toList_iff_getElem?_eq_some.2 hget
    exact ⟨_,mem_map_of_mem hmem,rfl⟩

end

theorem sum_filter_or {α : Type} (l : List α) (p q : α → Bool) (v : α → ℤ)
    (h : ∀ a∈l,p a=true → q a=false) :
    ((l.filter fun a => p a||q a).map v).sum=((l.filter p).map v).sum+((l.filter q).map v).sum := by
  induction l with
  | nil => rfl
  | cons a l ih =>
    have hrest:=ih fun b hb => h b (.tail _ hb)
    have ha:=h a (.head _)
    cases hp : p a with
    | true =>
      have hq:=ha hp
      simp only [filter_cons,hp,hq,Bool.true_or,if_true,map_cons,sum_cons,hrest,
        Bool.false_eq_true,if_false]
      omega
    | false =>
      cases hq : q a with
      | true =>
        simp only [filter_cons,hp,hq,Bool.or_true,if_true,map_cons,sum_cons,
          hrest,Bool.false_eq_true,if_false]
        omega
      | false => simp only [filter_cons,hp,hq,Bool.or_false,Bool.false_eq_true,if_false,hrest]

theorem settledCredits_sum (postings : List LedgerPosting) (ids : List String) (hids : ids.Nodup)
    (currency : String) :
    ((postings.filter fun p => decide (p.paymentOrderId∈ids)&&p.leg.creditIn currency).map
        fun p => minorOf p.amount).sum=
      (ids.map fun id => ((creditsOf postings id currency).map fun p => minorOf p.amount).sum).sum := by
  induction ids with
  | nil => simp
  | cons id ids ih =>
    obtain ⟨hid,hrest⟩ := nodup_cons.1 hids
    have hsplit : (fun p : LedgerPosting =>
        decide (p.paymentOrderId∈id::ids)&&p.leg.creditIn currency)=fun p =>
          (p.leg.creditIn currency&&p.paymentOrderId==id)||
            (decide (p.paymentOrderId∈ids)&&p.leg.creditIn currency) := by
      funext p
      by_cases hp : p.paymentOrderId=id <;> by_cases hm : p.paymentOrderId∈ids <;> simp [hp,hm]
    rw [hsplit,sum_filter_or,ih hrest,map_cons,sum_cons,creditsOf,postingsOf,filter_filter]
    intro p _ hp
    simp only [Bool.and_eq_true,beq_iff_eq] at hp
    simp [hp.2,hid]

theorem sum_filter_eq {α : Type} (l : List α) (p : α → Bool) (v : α → ℤ) :
    ((l.filter p).map v).sum=(l.map fun a => if p a then v a else 0).sum := by
  induction l with
  | nil => rfl
  | cons a l ih =>
    by_cases hp : p a=true
    · simp [hp,ih]
    · simp [hp,ih]

theorem filter_id_of_nodup {orders : List PaymentOrder} {o : PaymentOrder}
    (hnodup : (orders.map paymentOrderId).Nodup) (ho : o∈orders) :
    (orders.filter fun x => x.paymentOrderId==o.paymentOrderId)=[o] := by
  induction orders with
  | nil => cases ho
  | cons x orders ih =>
    obtain ⟨hx,hrest⟩ := nodup_cons.1 hnodup
    rcases mem_cons.1 ho with rfl | ho
    · have hnone : (orders.filter fun x => x.paymentOrderId==o.paymentOrderId)=[] := by
        refine filter_eq_nil_iff.2 fun y hy hyo => hx ?_
        rw [← beq_iff_eq.1 hyo]
        exact mem_map_of_mem hy
      simp [hnone]
    · have hne : x.paymentOrderId≠o.paymentOrderId := fun he => hx (he ▸ mem_map_of_mem ho)
      rw [filter_cons_of_neg (by simpa using hne)]
      exact ih hrest ho

structure Store.Tidy (store : Store) : Prop where
  once : ((successes store.orders).map paymentOrderId).Nodup
  booked : ∀ o∈successes store.orders,Booked store.postings o ∧ o.convertsEvenly=true

variable {store : Store}

theorem Store.Tidy.congr {store' : Store} (h : store.Tidy) (horders : store'.orders=store.orders)
    (hpostings : store'.postings=store.postings) : store'.Tidy := by
  refine ⟨?_,?_⟩
  · rw [horders]
    exact h.once
  · rw [horders,hpostings]
    exact h.booked

theorem Store.Tidy.credits_sum (h : store.Tidy) {o} (ho : o∈successes store.orders)
    (currency : String) :
    ((creditsOf store.postings o.paymentOrderId currency).map fun p => minorOf p.amount).sum=
      if o.settlementCurrency==currency then minorOf o.amount else 0 := by
  obtain ⟨hbooked,heven⟩ := h.booked o ho
  have hcredits:=hbooked.credits heven currency
  have hvalue:=congrArg (fun l => (l.map fun r : Except Error ℤ => r.toOption.getD 0).sum) hcredits
  simp only [map_map,Function.comp_def] at hvalue
  simp only [minorOf,hvalue,beq_iff_eq]
  by_cases hc : o.settlementCurrency=currency
  · simp [hc]
  · simp [hc]

theorem Store.Tidy.agrees (h : store.Tidy) {file : SettlementFile}
    (hrows : file.rows=((successes store.orders).filter fun o =>
      o.settlementCurrency==file.currency).map settlementRow) :
    file.AgreesWith store := by
  constructor
  · intro o ho hc
    obtain ⟨hbooked,heven⟩ := h.booked o ho
    have hone : (((successes store.orders).filter fun x =>
        x.settlementCurrency==file.currency).filter fun x =>
          x.paymentOrderId==o.paymentOrderId)=[o] := by
      rw [filter_comm,filter_id_of_nodup h.once ho]
      simp [hc]
    have hrow : (file.rows.filter fun row => row.paymentOrderId==o.paymentOrderId)=
        [o.settlementRow] := by
      rw [hrows,filter_map]
      exact congrArg (List.map settlementRow) hone
    rw [hbooked.credits heven,if_pos hc,hrow]
    rfl
  · have hsum : ((file.rows.map fun row => minorOf row.amount).sum)=
        ((successes store.orders).map fun o =>
          if o.settlementCurrency==file.currency then minorOf o.amount else 0).sum := by
      rw [hrows,map_map,← sum_filter_eq]
      simp only [Function.comp_def,settlementRow]
    rw [hsum,settledCredits,settledCredits_sum _ _ h.once,map_map]
    refine congrArg List.sum (map_congr_left fun o ho => ?_)
    rw [Function.comp_apply,h.credits_sum ho]

def StartsClean (w : World W) : (op : Op) → op.Ans W → Prop
  | .append .orders (o : PaymentOrder),_ => o.status=.executing →
      (∀ p∈w.store.postings,p.paymentOrderId≠o.paymentOrderId) ∧ o.convertsEvenly=true
  | _,_ => True

instance decidableStartsClean (w : World W) (op : Op) (a : op.Ans W) :
    Decidable (StartsClean w op a) := by
  induction op using Op.casesOn with
  | append l _ =>
    induction l using Log.casesOn with
    | orders => exact inferInstanceAs (Decidable (_ → _ ∧ _))
    | _ => exact isTrue trivial
  | _ => exact isTrue trivial

structure Journaled (w : World W) (g : Sight) : Prop where
  tidy : w.store.Tidy
  atHand : ∀ order,g.work.order=some order → order.status=.executing →
    postingsOf w.store.postings order.paymentOrderId=g.work.posted ∧ order.convertsEvenly=true ∧
      ∀ o∈successes w.store.orders,o.paymentOrderId≠order.paymentOrderId

section
variable {sdk : PaySdk} {w w' : World W} {g g' : Sight} {o : PaymentOrder}

theorem Journaled.still (h : Journaled w g) (hw : w.SameBooks w') (hg : g.Still g') :
    Journaled w' g' := by
  refine ⟨h.tidy.congr hw.orders hw.postings,?_⟩
  rw [hg.order,hg.posted,hw.orders,hw.postings]
  exact h.atHand

theorem successes_append (orders) (o : PaymentOrder) :
    successes (orders++[o])=successes orders++if o.status=.success then [o] else [] := by
  unfold successes
  rw [filter_append]
  by_cases hs : o.status=.success
  · simp [hs]
  · simp [hs]

theorem postingsOf_append (postings) (p : LedgerPosting) (id) : postingsOf (postings++[p]) id=
      postingsOf postings id++if p.paymentOrderId=id then [p] else [] := by
  unfold postingsOf
  rw [filter_append]
  by_cases hid : p.paymentOrderId=id
  · simp [hid]
  · simp [hid]

theorem batchCall_settled (order : PaymentOrder) (now receipt walletUpdated signer) :
    batchCall (order.settled now receipt walletUpdated) signer=batchCall order signer := rfl

theorem convertsEvenly_settled (order : PaymentOrder) (now receipt walletUpdated) :
    (order.settled now receipt walletUpdated).convertsEvenly=order.convertsEvenly := rfl

theorem Journaled.settled (h : Journaled w g) {order} (hs : o.status=.success)
    (he : g.work.Earned sdk order o) : Journaled (w.push .orders o) (g.wrote sdk o) := by
  obtain ⟨hposted,heven,hfirst⟩ := h.atHand order he.atHand he.executing
  obtain ⟨now,receipt,walletUpdated,ho⟩ := he.settled
  have hid : o.paymentOrderId=order.paymentOrderId := by rw [ho]; rfl
  have hlog : successes (w.push .orders o).store.orders=successes w.store.orders++[o] := by
    have happend:=successes_append w.store.orders o
    rw [if_pos hs] at happend
    exact happend
  refine ⟨⟨?_,?_⟩,?_⟩
  · rw [hlog,map_append]
    refine nodup_append.2 ⟨h.tidy.once,nodup_singleton _,?_⟩
    intro x hx y hy
    obtain ⟨o',ho',rfl⟩ := mem_map.1 hx
    rw [mem_singleton.1 hy,hid]
    exact hfirst o' ho'
  · intro x hx
    rw [hlog] at hx
    rcases mem_append.1 hx with hx | hx
    · exact h.tidy.booked x hx
    rw [mem_singleton.1 hx]
    obtain ⟨signer,plan,batchId,hplan,hwritten⟩ := he.journaled
    rw [← hposted] at hwritten
    rw [← batchCall_settled order now receipt walletUpdated,← ho] at hplan
    rw [← convertsEvenly_settled order now receipt walletUpdated,← ho] at heven
    refine ⟨⟨signer,plan,batchId,hplan,?_⟩,heven⟩
    rw [hid]
    exact hwritten
  · intro x hx hexec
    cases hx
    rw [hs] at hexec
    cases hexec

theorem Journaled.wrote (h : Journaled w g) (hfair : g.Fair sdk (.append .orders o))
    (hclean : o.status=.executing →
      (∀ p∈w.store.postings,p.paymentOrderId≠o.paymentOrderId) ∧ o.convertsEvenly=true) :
    Journaled (w.push .orders o) (g.wrote sdk o) := by
  by_cases hs : o.status=.success
  · obtain ⟨order,he⟩ := hfair.2 hs
    exact h.settled hs he
  have hlog : successes (w.push .orders o).store.orders=successes w.store.orders := by
    have happend:=successes_append w.store.orders o
    rw [if_neg hs,append_nil] at happend
    exact happend
  refine ⟨⟨by rw [hlog]; exact h.tidy.once,by rw [hlog]; exact h.tidy.booked⟩,?_⟩
  intro x hx hexec
  cases hx
  obtain ⟨hnone,heven⟩ := hclean hexec
  have hnil : postingsOf w.store.postings o.paymentOrderId=[] := by
    refine filter_eq_nil_iff.2 fun p hp hid => hnone p hp ?_
    exact beq_iff_eq.1 hid
  refine ⟨hnil,heven,?_⟩
  rw [hlog]
  intro o' ho' hid
  apply (h.tidy.booked o' ho').1.postings_ne_nil
  rw [hid]
  exact hnil

theorem Journaled.posted {p : LedgerPosting} (h : Journaled w g)
    (hfair : g.Fair sdk (.append .postings p)) :
    Journaled (w.push .postings p) (g.posted p) := by
  obtain ⟨order,hhand,hexec,hp⟩ := hfair
  obtain ⟨hposted,heven,hfirst⟩ := h.atHand order hhand hexec
  refine ⟨⟨h.tidy.once,?_⟩,?_⟩
  · intro o ho
    have hne : p.paymentOrderId≠o.paymentOrderId := by
      rw [hp]
      exact (hfirst o ho).symm
    have hsame : postingsOf (w.store.postings++[p]) o.paymentOrderId=
        postingsOf w.store.postings o.paymentOrderId := by
      rw [postingsOf_append,if_neg hne,append_nil]
    obtain ⟨⟨signer,plan,batchId,hplan,hwritten⟩,heven'⟩ := h.tidy.booked o ho
    exact ⟨⟨signer,plan,batchId,hplan,hsame ▸ hwritten⟩,heven'⟩
  · intro x hx _
    have hxo : order=x := Option.some.inj (hhand.symm.trans hx)
    subst hxo
    refine ⟨?_,heven,hfirst⟩
    have happend:=postingsOf_append w.store.postings p order.paymentOrderId
    rw [if_pos hp,hposted] at happend
    exact happend

end

theorem journaled_step (sdk : PaySdk) (w : World W) (g : Sight) (op : Op) (a : op.Ans W)
    (h : Journaled w g) (hfair : g.Fair sdk op) (hclean : StartsClean w op a) :
    Journaled (handle op a w).2 (g.note sdk op (handle op a w).1) := by
  refine fair_step sdk ?_ ?_ ?_ ?_ ?_ w g op a h hfair hclean
  · exact fun _ _ _ _ h hw hg => h.still hw hg
  · exact fun w g h => ⟨h.tidy,h.atHand⟩
  · exact fun _ _ _ h hfair hclean => h.wrote hfair hclean
  · exact fun _ _ _ h hfair => h.posted hfair
  · exact fun w g r h => ⟨h.tidy.congr rfl rfl,h.atHand⟩

theorem tidy_of_unsettled (h : successes store.orders=[]) : store.Tidy := by
  constructor
  · rw [h]
    exact nodup_nil
  · rw [h]
    exact fun o ho => absurd ho not_mem_nil

theorem run_tidy {sdk es} {w v : World W} (hw : w.store.Tidy)
    (hes : HeedsAll sdk StartsClean (fun _ => True) es w) (hv : Passes sdk es w v) :
    v.store.Tidy := by
  have hstart : ∀ w : World W,w.store.Tidy → Journaled w {} :=
    fun w hw => ⟨hw,fun order ho => by cases ho⟩
  obtain ⟨g,hg⟩ := HeedsAll.passes sdk (fun w => w.store.Tidy) hstart (journaled_step sdk)
    (fun _ _ h _ => h.tidy) (fun _ _ h _ => h.tidy) hes hw hv
  exact hg.tidy

/-- In every state of a run whose orders are started clean, each file that
`export_per_currency` writes agrees with the journal, and every settled order is in the
file of its currency. -/
theorem export_agrees_with_journal (sdk : ReconcileSdk) (es : List (Event W)) (w v : World W)
    (hw : successes w.store.orders=[])
    (hes : HeedsAll sdk.toPaySdk StartsClean (fun _ => True) es w)
    (hv : Passes sdk.toPaySdk es w v) (books : Books) (hbooks : books.store=v.store)
    (rail date : String) :
    (∀ o∈successes v.store.orders,∃ file∈(exportPerCurrency sdk books rail date).1,
        file.currency=o.settlementCurrency) ∧
      ∀ file∈(exportPerCurrency sdk books rail date).1,file.AgreesWith v.store := by
  have htidy : v.store.Tidy := run_tidy (tidy_of_unsettled hw) hes hv
  rw [← hbooks] at htidy ⊢
  refine ⟨fun o ho => exists_export sdk books rail date ho,fun file hfile => ?_⟩
  exact htidy.agrees (mem_exportPerCurrency sdk books rail date hfile)

namespace Sample

def eurosOrder : PaymentOrder := { order with amount := "10.00",fx := some euros }

def settledBooks (o : PaymentOrder) : Books where
  store := (runAll reconcileSdk.toPaySdk [pass .default "a" accepting 60] (world o)).store
  settlement := SettlementDir.empty
  runs := []

end Sample
open Sample

/-- An order of 10.00 USD that converts at 0.9: the row of the EUR file says 10.00, the
journal credits 9.00 EUR. -/
theorem export_converted_row_differs : let store := (settledBooks eurosOrder).store
    successes (world eurosOrder).store.orders=[] ∧
      ((creditsOf store.postings "o1" "EUR").map fun p => p.amount)=["9.00"] ∧
      ∃ file∈(exportPerCurrency reconcileSdk (settledBooks eurosOrder) "native" "2026").1,
        file.currency = "EUR" ∧ file.rows=[⟨"o1","10.00"⟩] ∧ ¬ file.AgreesWith store := by
  intro store
  have hcredits : ((creditsOf store.postings "o1" "EUR").map fun p => p.amount)=["9.00"] := by
    decide +kernel
  have hsettled : ((successes store.orders).map fun o =>
      (o.paymentOrderId,o.amount,o.settlementCurrency))=[("o1","10.00","EUR")] := by
    decide +kernel
  obtain ⟨o,hone⟩ : ∃ o,successes store.orders=[o] :=
    length_eq_one_iff.1 (by rw [← length_map,hsettled]; rfl)
  rw [hone] at hsettled
  simp only [map_cons,map_nil,List.cons.injEq,Prod.mk.injEq,and_true] at hsettled
  obtain ⟨hid,hamount,hcurrency⟩ := hsettled
  have ho : o∈successes store.orders := by rw [hone]; exact mem_singleton_self o
  obtain ⟨file,hfile,hfc⟩ := exists_export reconcileSdk (settledBooks eurosOrder) "native" "2026" ho
  have hrows : file.rows=[⟨"o1","10.00"⟩] := by
    have hrows:=mem_exportPerCurrency reconcileSdk (settledBooks eurosOrder) "native" "2026" hfile
    rw [hrows,hone]
    simp [hfc,settlementRow,hid,hamount]
  refine ⟨by decide +kernel,hcredits,file,hfile,hfc.trans hcurrency,hrows,fun hagrees => ?_⟩
  have hrow:=hagrees.rows o ho hfc.symm
  have hparsed:=congrArg (List.map parseAmount) hcredits
  simp only [map_map,Function.comp_def,map_cons,map_nil] at hparsed
  rw [hrows,hid,hfc.trans hcurrency,hparsed] at hrow
  have hminor:=congrArg (List.map fun r : Except Error ℤ => r.toOption) hrow
  exact absurd hminor (by decide +kernel)

/-- An order without a conversion. -/
theorem export_agrees_plain :
    (successes (settledBooks Sample.order).store.orders).map paymentOrderId=["o1"] ∧
      ∀ file∈(exportPerCurrency reconcileSdk (settledBooks Sample.order)
        "native" "2026").1,file.AgreesWith (settledBooks Sample.order).store := by
  refine ⟨by decide +kernel,?_⟩
  exact (export_agrees_with_journal reconcileSdk
    [pass .default "a" accepting 60] (world Sample.order) _
    (by decide +kernel) (by decide +kernel) (.inr rfl) (settledBooks Sample.order) rfl
    "native" "2026").2

end OriginTools.Payments
