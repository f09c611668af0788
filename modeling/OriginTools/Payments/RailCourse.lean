import OriginTools.Payments.Executor

/-!
# The course of an attempt on an external rail

Between the gate and the journal the settle functions of the x402, card and ACH rails do
nothing but ask questions and send one request for the order.
-/

namespace OriginTools.Payments
open Process
variable (sdk : PaySdk)

def SettleOutcome.IsRefusal : SettleOutcome → Prop
  | .requiresAction _ => False
  | _ => True

theorem railErr_isRefusal (e : Error) : (railErr e).IsRefusal := by
  cases e <;> trivial

def RailReceipt.bytes : RailReceipt → Option Bytes
  | .native _ => none
  | .http402 receipt => some receipt
  | .cardAcp _ _ auth => some auth
  | .ach _ auth => some auth

/-- The receipt that an answer brings. On the x402 rail without a facilitator it is the
settlement response that says so. -/
def Op.brings : (op : Op) → op.Resp → Option Bytes
  | .submit (.facilitatorSettle _ _ _ _ _),.ok (.settled receipt) => some receipt
  | .submit (.authorize _ _),.ok (.settled auth) => some auth
  | .ask (.settlementResponse receipt),.ok response =>
      if response.status = "success" then some receipt else none
  | _,_ => none

def RailRequest.external : RailRequest → Bool
  | .pay _ _ => false
  | _ => true

/-- `sent` says whether the request is out, `due` is the receipt that has come back. An
action is awaited only after the request. -/
inductive RailCourse (order : PaymentOrder) (signer : Option OrderSigner) :
    Bool → Option Bytes → Attempt PaymentOrder → Prop
  | refuse {sent : Bool} {out : SettleOutcome} (h : sent=true ∨ out.IsRefusal) :
      RailCourse order signer sent none (.fail (out,order))
  | settle {bytes : Bytes} {receipt : RailReceipt} (h : receipt.bytes=some bytes)
      (duplicate : String) (payload : Payload) : RailCourse order signer true (some bytes)
        (settleWithReceipt sdk order signer bytes receipt duplicate payload)
  | ask {sent : Bool} {due : Option Bytes} {q : Question} {next : q.Answer → Attempt PaymentOrder}
      (hdue : due=none ∨ ∀ a,(Op.ask q).brings a=none)
      (h : ∀ a,RailCourse order signer sent (due.or ((Op.ask q).brings a)) (next a)) :
      RailCourse order signer sent due (.call (.ask q) next)
  | submit {r : RailRequest} {next : r.Answer → Attempt PaymentOrder}
      (hext : r.external=true) (hid : r.orderId=order.paymentOrderId)
      (h : ∀ a,RailCourse order signer true ((Op.submit r).brings a) (next a)) :
      RailCourse order signer false none (.call (.submit r) next)

section
variable {sdk} {order : PaymentOrder} {signer : Option OrderSigner} {sent : Bool} {α : Type}

theorem RailCourse.terminal (reason : String) :
    RailCourse sdk order signer sent none (terminal order reason) :=
  .refuse (.inr trivial)

theorem RailCourse.asked {due q g} (hq : ∀ a,(Op.ask q).brings a=none)
    (h : ∀ a,RailCourse sdk order signer sent due (g a)) :
    RailCourse sdk order signer sent due ((Payments.ask q).bind g) := by
  refine .ask (.inr hq) fun a => ?_
  rw [hq a,Option.or_none]
  exact h a

theorem RailCourse.checked {q} {r : q.Answer → Except Error α} {f : Error → SettleOutcome}
    {g : α → Attempt PaymentOrder} (hq : ∀ a,(Op.ask q).brings a=none)
    (hf : ∀ e,(f e).IsRefusal) (h : ∀ x,RailCourse sdk order signer sent none (g x)) :
    RailCourse sdk order signer sent none
      ((((Payments.ask q).bind fun a => (ofExcept (r a) : Proc Error α)).mapErr
        fun e => (f e,order)).bind g) := by
  refine RailCourse.asked hq fun a => ?_
  show RailCourse sdk order signer sent none
    (((Process.ofExcept (r a) : Proc Error α).mapErr fun e => (f e,order)).bind g)
  cases r a with
  | error e => exact .refuse (.inr (hf e))
  | ok x => exact h x

theorem course_facilitatorAnswer {cfg payload requirements url texts}
    {facilitatorErr : Error → SettleOutcome} (hfac : ∀ e,(facilitatorErr e).IsRefusal)
    {settled : Bytes → Attempt PaymentOrder}
    (h : ∀ bytes,RailCourse sdk order signer true (some bytes) (settled bytes)) :
    RailCourse sdk order signer false none
      ((((Payments.submit (.facilitatorSettle order.paymentOrderId cfg payload requirements url)).bind
        Process.ofExcept).mapErr fun e => (facilitatorErr e,order)).bind
          fun outcome => splitRefusal order texts outcome settled) := by
  refine .submit rfl rfl fun answer => ?_
  match answer with
  | .error e => exact .refuse (.inr (hfac e))
  | .ok (.settled bytes) => exact h bytes
  | .ok (.pending _ _) => exact .refuse (.inl rfl)
  | .ok (.rejected _ none) => exact .refuse (.inl rfl)
  | .ok (.rejected _ (some _)) => exact .refuse (.inl rfl)

theorem course_facilitatorSplit (keys cfg texts) {checkErr facilitatorErr : Error → SettleOutcome}
    (hcheck : ∀ e,(checkErr e).IsRefusal) (hfac : ∀ e,(facilitatorErr e).IsRefusal)
    {settled : Bytes → Attempt PaymentOrder}
    (h : ∀ bytes,RailCourse sdk order signer true (some bytes) (settled bytes)) :
    RailCourse sdk order signer false none
      ((facilitatorSplit order keys cfg texts checkErr facilitatorErr).bind
        fun outcome => splitRefusal order texts outcome settled) := by
  unfold facilitatorSplit
  rw [bind_eq,bind_assoc]
  refine .checked (fun _ => rfl) railErr_isRefusal ?_
  rintro ⟨status,required⟩
  dsimp only
  split
  · exact .terminal _
  rcases required with _ | raw
  · exact .terminal _
  dsimp only
  rw [bind_eq,bind_assoc]
  refine .checked (fun _ => rfl) hcheck fun requirements => ?_
  rw [bind_eq,bind_assoc]
  refine .checked (fun _ => rfl) hcheck fun payload => ?_
  rw [bind_eq,bind_assoc]
  refine RailCourse.asked (fun _ => rfl) fun verdict => ?_
  cases verdict with
  | reject reason => exact .terminal _
  | accept =>
    dsimp only
    rw [bind_eq,bind_assoc]
    refine .checked (fun _ => rfl) hfac fun verified => ?_
    cases verified with
    | false => exact .terminal _
    | true => exact course_facilitatorAnswer hfac h

def afterX402 (sdk : PaySdk) (order : PaymentOrder) (signer : Option OrderSigner)
    (outcome : X402Outcome) : Attempt PaymentOrder :=
  match outcome.status with
  | .success => settleHttp402Success sdk order signer outcome.receipt
  | .pending transaction =>
      .fail (.requiresAction ("settlement_pending tx="++transaction.getD ""),order)
  | .failed error => terminal order (error.getD "x402 payment rejected")

theorem course_x402Answer (raw : String) : RailCourse sdk order signer true none (((do
        let receipt ← (Payments.ask (.decodeReceipt raw)).bind Process.ofExcept
        let response ← (Payments.ask (.settlementResponse receipt)).bind Process.ofExcept
        let status :=
          if response.status = "success" then .success
          else if response.status = "settlement_pending" then .pending response.transaction
          else .failed (response.error <|> some response.status)
        return { status := status,receipt := receipt } : Proc Error X402Outcome).mapErr
        fun e => (railErr e,order)).bind (afterX402 sdk order signer)) := by
  rw [bind_eq,mapErr_bind,bind_assoc]
  refine .checked (fun _ => rfl) railErr_isRefusal fun receipt => ?_
  refine .ask (.inl rfl) fun answer => ?_
  rcases answer with e | response
  · exact .refuse (.inl rfl)
  show RailCourse sdk order signer true
    (if response.status = "success" then some receipt else none) (afterX402 sdk order signer
      ⟨if response.status = "success" then .success
        else if response.status = "settlement_pending" then .pending response.transaction
        else .failed (response.error <|> some response.status),receipt⟩)
  by_cases hsuccess : response.status = "success"
  · rw [if_pos hsuccess,if_pos hsuccess]
    exact .settle rfl _ _
  rw [if_neg hsuccess,if_neg hsuccess]
  split_ifs with hpending
  · exact .refuse (.inl rfl)
  · exact .refuse (.inl rfl)

theorem course_x402Execute (url keys) : RailCourse sdk order signer false none
      ((orRailErr order (x402Execute order.paymentOrderId url keys)).bind
        (afterX402 sdk order signer)) := by
  unfold orRailErr x402Execute
  rw [bind_eq,mapErr_bind,bind_assoc]
  refine .checked (fun _ => rfl) railErr_isRefusal ?_
  rintro ⟨status,required⟩
  dsimp only
  split
  · exact .refuse (.inr (railErr_isRefusal _))
  rcases required with _ | raw
  · exact .refuse (.inr (railErr_isRefusal _))
  dsimp only
  rw [bind_eq,mapErr_bind,bind_assoc]
  refine .checked (fun _ => rfl) railErr_isRefusal fun requirements => ?_
  split
  · exact .refuse (.inr (railErr_isRefusal _))
  rw [bind_eq,mapErr_bind,bind_assoc]
  refine .checked (fun _ => rfl) railErr_isRefusal fun payload => ?_
  refine .submit rfl rfl fun answer => ?_
  match answer with
  | .error e => exact .refuse (.inl rfl)
  | .ok (code,none) => exact .refuse (.inl rfl)
  | .ok (code,some encoded) => exact course_x402Answer encoded

theorem course_settleHttp402 : RailCourse sdk order signer false none
    (settleHttp402 sdk order signer) := by
  unfold settleHttp402
  split
  · exact .terminal _
  rcases signer with _ | keys
  · exact .terminal _
  refine .checked (fun _ => rfl) railErr_isRefusal fun cfg => ?_
  cases cfg with
  | some cfg =>
    exact course_facilitatorSplit keys cfg http402Texts railErr_isRefusal railErr_isRefusal
      fun bytes => .settle rfl _ _
  | none => exact course_x402Execute order.recipient keys

theorem course_settleCard : RailCourse sdk order signer false none
    (settleCard sdk order signer) := by
  unfold settleCard
  split
  · refine .checked (fun _ => rfl) railErr_isRefusal fun cfg => ?_
    rcases cfg with _ | cfg
    · exact .terminal _
    refine .submit rfl rfl fun answer => ?_
    match answer with
    | .error e => exact .refuse (.inl rfl)
    | .ok (.settled auth) => exact .settle rfl _ _
    | .ok (.pending transaction) => exact .refuse (.inl rfl)
    | .ok (.declined error) => exact .refuse (.inl rfl)
  · exact .terminal _

theorem course_settleAch : RailCourse sdk order signer false none (settleAch sdk order signer) := by
  refine RailCourse.checked (f := fun e => .terminal e.toText) (fun _ => rfl) (fun _ => trivial)
    fun cfg => ?_
  rcases cfg with _ | cfg
  · exact .terminal _
  dsimp only
  split
  · exact .terminal _
  rcases signer with _ | keys
  · exact .terminal _
  have hcheck : ∀ e : Error,(SettleOutcome.terminal e.toText).IsRefusal := fun _ => trivial
  have hfac : ∀ e : Error,(SettleOutcome.retryable e.toText).IsRefusal := fun _ => trivial
  refine course_facilitatorSplit keys cfg achTexts hcheck hfac fun bytes => ?_
  exact RailCourse.asked (fun _ => rfl) fun settlementRef => .settle rfl _ _

end
end OriginTools.Payments
