import OriginTools.Payments.Store

/-!
# Commands of the operator

Creating an order from the arguments of `order-create`, and the commands that put
a failed or a waiting order back into the queue.
-/

namespace OriginTools.Payments

structure OrderCreateArgs where
  checkout : String
  recipient : String
  amount : String
  currency : String
  rail : Option String
  fxFrom : Option String
  fxTo : Option String
  fxRate : Option String
  fxMarkup : ℕ
  cardToken : Option String
  cardNetwork : Option String
  cardLast4 : Option String
  payout : Bool

def RailHint.fromStr (s : String) : Except String RailHint :=
  if s = "native" then .ok .native
  else if s = "http402" then .ok .http402
  else if s = "card" then .ok .card
  else if s = "ach" then .ok .ach
  else .error ("unknown rail hint: "++s ++ " (expected native|http402|card|ach)")

namespace OrderCreateArgs
variable (args : OrderCreateArgs)

def checkAmount : Except Error Unit := do
  let amountMinor ← parseAmount args.amount
  if amountMinor≤0 then
    .error (.invalidAmount ("amount must be positive, got "++args.amount))
  else .ok ()

def railHint : Except Error (Option RailHint) :=
  match args.rail with
  | none => .ok none
  | some r =>
      match RailHint.fromStr r with
      | .ok hint => .ok (some hint)
      | .error e => .error (.ioError e)

def fx : Except Error (Option FxRate) :=
  match args.fxFrom,args.fxTo,args.fxRate with
  | some source,some target,some rate =>
      if source=target then .error (.ioError "--fx-from and --fx-to must differ")
      else do
        let _ ← parseRate rate
        return some { source := source,target := target,rate := rate,markupBps := args.fxMarkup }
  | none,none,none => .ok none
  | _,_,_ => .error (.ioError "--fx-from, --fx-to, and --fx-rate must be given together")

/-- The card's token, network and last digits; they imply the card rail. -/
def card (rail : Option RailHint) : Except Error (Option (String × String × String)) :=
  match args.cardToken,args.cardNetwork,args.cardLast4 with
  | some token,some network,some last4 =>
      if rail=none ∨ rail=some .card then .ok (some (token,network,last4))
      else .error (.ioError "--card-* requires --rail card (or omit --rail)")
  | none,none,none => .ok none
  | _,_,_ =>
      .error (.ioError "--card-token, --card-network, and --card-last4 must be given together")

/-- The order that `cmd_order_create` builds from arguments that pass its checks, for
the id and the time it draws; an operator with an identity signs it then. -/
def order (id now : String) : Except Error PaymentOrder := do
  args.checkAmount
  let rail ← args.railHint
  let fx ← args.fx
  let card ← args.card rail
  return { PaymentOrder.new id now args.checkout args.recipient args.amount args.currency with
    fx := fx
    rail := if card.isSome then some .card else rail
    cardToken := card.map fun c => c.1
    cardNetwork := card.map fun c => c.2.1
    cardLast4 := card.map fun c => c.2.2
    direction := if args.payout then .payout else .payment }

end OrderCreateArgs

def cmdOrderRetry (paymentOrderId : String) : Proc Error Unit := do
  let order ← getOrder paymentOrderId
  let order ← order.transition .notStarted
  updateOrder { order with nextRetryAt := none,attempts := order.attempts+1 }

def cmdOrderResume (paymentOrderId : String) : Proc Error Unit := do
  let order ← getOrder paymentOrderId
  let order ← order.transition .notStarted
  updateOrder { order with nextRetryAt := none }

theorem OrderCreateArgs.checkAmount_positive {args : OrderCreateArgs} {u}
    (h : args.checkAmount=.ok u) : ∃ m,parseAmount args.amount=.ok m ∧ 0 < m := by
  unfold OrderCreateArgs.checkAmount at h
  obtain ⟨m,hm,h⟩ := bind_eq_ok h
  split at h
  · cases h
  · rename_i hpos
    exact ⟨m,hm,not_le.1 hpos⟩

theorem OrderCreateArgs.fx_terms {args : OrderCreateArgs} {rate : FxRate}
    (h : args.fx=.ok (some rate)) :
    rate.source≠rate.target ∧ ∃ r,parseRate rate.rate=.ok r := by
  unfold OrderCreateArgs.fx at h
  split at h
  · split at h
    · cases h
    · rename_i hne
      obtain ⟨r,hr,h⟩ := bind_eq_ok h
      cases h
      exact ⟨hne,r,hr⟩
  · cases h
  · cases h

theorem OrderCreateArgs.order_terms {args : OrderCreateArgs} {id now} {o : PaymentOrder}
    (h : args.order id now=.ok o) :
    (∃ m,parseAmount o.amount=.ok m ∧ 0 < m) ∧
      ∀ rate,o.fx=some rate → rate.source≠rate.target ∧ ∃ r,parseRate rate.rate=.ok r := by
  unfold OrderCreateArgs.order at h
  obtain ⟨u,hamount,h⟩ := bind_eq_ok h
  obtain ⟨rail,_,h⟩ := bind_eq_ok h
  obtain ⟨fx,hfx,h⟩ := bind_eq_ok h
  obtain ⟨card,_,h⟩ := bind_eq_ok h
  cases h
  refine ⟨checkAmount_positive hamount,?_⟩
  intro rate hrate
  have hrate : fx=some rate := hrate
  subst hrate
  exact fx_terms hfx

end OriginTools.Payments
