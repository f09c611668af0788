import OriginTools.Payments.Commands
import OriginTools.Payments.Sight

/-!
# How the processes of the payments crate conduct themselves

Every process of the crate is fair, whatever the responses to its operations are.
-/

namespace OriginTools.Payments
open Process
variable (sdk : PaySdk)
namespace Sight

/-- No receipt is left to be recorded. -/
def Rest (g : Sight) : Prop := g.work.owed=none

structure Keeps (id : String) (g g' : Sight) : Prop where
  holds : ∀ o : PaymentOrder,o.paymentOrderId≠id → g.Holds o → g'.Holds o
  torn : ∀ x,g.torn x → g'.torn x

structure Turned (id : String) (g g' : Sight) : Prop where
  rest : g'.Rest
  keeps : g.Keeps id g'

variable {g g' g'' : Sight} {id : String} {o : PaymentOrder}

theorem Calmer.rest (h : g.Calmer g') (hr : g.Rest) : g'.Rest := by
  rw [Rest,h.work]
  exact hr

theorem Calmer.keeps (h : g.Calmer g') : g.Keeps id g' := ⟨fun _ _ ho => h.holds ho,h.torn⟩

theorem Calmer.turned (h : g.Calmer g') (hr : g.Rest) : g.Turned id g' := ⟨h.rest hr,h.keeps⟩

theorem Keeps.trans (h : g.Keeps id g') (h' : g'.Keeps id g'') : g.Keeps id g'' :=
  ⟨fun o hne ho => h'.holds o hne (h.holds o hne ho),fun x hx => h'.torn x (h.torn x hx)⟩

theorem Keeps.turned (h : g.Keeps id g') (h' : g'.Turned id g'') : g.Turned id g'' :=
  ⟨h'.rest,h.trans h'.keeps⟩

theorem wrote_keeps (g : Sight) (o : PaymentOrder) : g.Keeps o.paymentOrderId (g.wrote sdk o) := by
  constructor
  · intro x hne hx
    rcases hx with ht | ⟨v,x',hv,hl,hs⟩
    · exact .inl ht
    refine .inr ⟨v++[o],x',?_,?_,hs⟩
    · simp only [wrote,hv,Option.map_some]
    · rw [latest_append_ne _ hne]
      exact hl
  · exact fun _ hx => hx

theorem wrote_rest (hr : g.Rest) (hs : o.status≠.success) : (g.wrote sdk o).Rest := by
  simp only [Rest,wrote,if_neg hs]
  exact hr

theorem wrote_turned (hr : g.Rest) (hid : o.paymentOrderId=id) (hs : o.status≠.success) :
    g.Turned id (g.wrote sdk o) :=
  ⟨wrote_rest sdk hr hs,hid ▸ wrote_keeps sdk g o⟩

theorem wrote_holds (o) {v} (hv : g.view=some v) : (g.wrote sdk o).Holds o := by
  refine .inr ⟨v++[o],o,?_,latest_append_self v o,rfl⟩
  simp only [wrote,hv,Option.map_some]

theorem Holds.wrote {x} (h : g.Holds o) (hid : x.paymentOrderId=o.paymentOrderId) :
    (g.wrote sdk x).Holds x := by
  rcases h with ht | ⟨v,_,hv,_,_⟩
  · exact .inl (hid ▸ ht)
  · exact wrote_holds sdk x hv

end Sight

def PaymentOrder.moved (o : PaymentOrder) (target : OrderStatus) (now : String) : PaymentOrder :=
  { o with status := target,updatedAt := now }

abbrev TurnEnds {ε α : Type} (id : String) (g : Sight) : Outcome ε α → Sight → Prop :=
  OnDone fun _ g' => g.Turned id g'

section
variable {α β : Type} {g : Sight} {id : String} {order o : PaymentOrder}
variable {g₀ : Sight} {R : β → Sight → Prop}

theorem Mild.turn {p : Proc Error α} (hp : Mild p) (h : g₀.Turned id g) :
    Sighted sdk (TurnEnds id g₀) p g :=
  (hp.onDone sdk g).post (OnDone.imp fun _ _ hg => h.keeps.turned (hg.turned h.rest))

theorem ask_sighted {ε : Type} {q} {f : q.Answer → Proc ε β} {Q : Outcome ε β → Sight → Prop}
    (hf : ∀ r g',g.Calmer g' → Sighted sdk Q (f r) g') : Sighted sdk Q ((ask q).bind f) g :=
  ⟨trivial,fun r => hf r _ (note_calm sdk rfl g r)⟩

variable {target : OrderStatus}

theorem transition_sighted {f : PaymentOrder → Proc Error β} {Q : Outcome Error β → Sight → Prop}
    (ht : order.status.canTransition target=true)
    (hf : ∀ now g',g.Calmer g' → Sighted sdk Q (f (order.moved target now)) g') :
    Sighted sdk Q ((order.transition target).bind f) g := by
  unfold PaymentOrder.transition
  rw [if_pos ht]
  refine ⟨trivial,fun now => ?_⟩
  exact hf now _ (note_calm sdk rfl g now)

theorem updateOrder_sighted {f : Unit → Proc Error β} (hfair : g.Fair sdk (.append .orders o))
    (hf : Sighted sdk (OnDone R) (f ()) (g.wrote sdk o)) :
    Sighted sdk (OnDone R) ((updateOrder o).bind f) g := by
  refine ⟨hfair,fun r => ?_⟩
  cases r with
  | ok u => exact hf
  | error e => trivial

theorem fair_snapshot (hh : g.Holds order) (hid : o.paymentOrderId=order.paymentOrderId)
    (ht : order.status.canTransition o.status=true) (hs : o.status≠.success) :
    g.Fair sdk (.append .orders o) := by
  have hlead : order.status.leadsTo o.status=true := by
    rw [OrderStatus.leadsTo,ht,Bool.or_true]
  exact ⟨hh.legal hid hlead,fun h => absurd h hs⟩

theorem turnOrder_sighted {f : PaymentOrder → Proc Error β} (change : PaymentOrder → PaymentOrder)
    (hid : ∀ x,(change x).paymentOrderId=x.paymentOrderId)
    (hst : ∀ x,(change x).status=x.status) (hr : g.Rest) (hh : g.Holds order)
    (ht : order.status.canTransition target=true) (hs : target≠.success)
    (hf : ∀ x g',g.Turned order.paymentOrderId g' → Sighted sdk (OnDone R) (f x) g') :
    Sighted sdk (OnDone R) ((order.transition target).bind fun x =>
      (updateOrder (change x)).bind fun _ => f x) g := by
  apply transition_sighted sdk ht
  intro now g' hg
  have hnew : (change (order.moved target now)).status=target := hst _
  have hsame : (change (order.moved target now)).paymentOrderId=order.paymentOrderId := hid _
  apply updateOrder_sighted sdk
  · apply fair_snapshot sdk (hg.holds hh) hsame
    · rw [hnew]
      exact ht
    · rw [hnew]
      exact hs
  · refine hf _ _ (hg.keeps.turned (Sight.wrote_turned sdk (hg.rest hr) hsame ?_))
    rw [hnew]
    exact hs

theorem turnOrder_turned {f : PaymentOrder → Proc Error β} (change : PaymentOrder → PaymentOrder)
    (hid : ∀ x,(change x).paymentOrderId=x.paymentOrderId)
    (hst : ∀ x,(change x).status=x.status) (hr : g.Rest) (hh : g.Holds order)
    (ht : order.status.canTransition target=true) (hs : target≠.success)
    (hf : ∀ x,Mild (f x)) :
    Sighted sdk (TurnEnds order.paymentOrderId g) ((order.transition target).bind fun x =>
      (updateOrder (change x)).bind fun _ => f x) g :=
  turnOrder_sighted sdk change hid hst hr hh ht hs fun x _ hturn => (hf x).turn sdk hturn

theorem markFailed_sighted (hr : g.Rest) (hh : g.Holds order)
    (ht : order.status.canTransition .failed=true) (reason : String) :
    Sighted sdk (TurnEnds order.paymentOrderId g) (markFailed sdk order reason) g := by
  apply turnOrder_turned sdk (fun x => x) (fun _ => rfl) (fun _ => rfl) hr hh ht nofun
  intro x
  exact .call rfl fun _ => (mild_appendLog rfl).bind fun _ _ =>
    (side_notify _ _).mild.bind fun _ _ => (side_auditRecord sdk _ _).mild

theorem markFailed_refused (ht : order.status.canTransition .failed=false) (reason : String) :
    ∃ e,markFailed sdk order reason=.fail e := by
  refine ⟨.invalidTransition order.status.toText OrderStatus.failed.toText,?_⟩
  unfold markFailed PaymentOrder.transition
  rw [ht]
  rfl

theorem scheduleRetry_sighted (hr : g.Rest) (hh : g.Holds order)
    (ht : order.status.canTransition .failed=true) (reason policy retryAfterMs) :
    Sighted sdk (OnDone fun scheduled g' => g.Turned order.paymentOrderId g' ∧
        (scheduled=false → g.Calmer g'))
      (scheduleRetry order reason policy retryAfterMs) g := by
  unfold scheduleRetry
  split
  · exact ⟨(Sight.Calmer.refl g).turned hr,fun _ => Sight.Calmer.refl g⟩
  · refine ask_sighted sdk fun raw g₁ h₁ => ?_
    split
    · trivial
    · refine ask_sighted sdk fun deadline g₂ h₂ => ?_
      match deadline with
      | none => trivial
      | some deadline =>
        have hcalm:=h₁.trans h₂
        dsimp only
        apply turnOrder_sighted sdk (fun x => { x with nextRetryAt := some deadline })
          (fun _ => rfl) (fun _ => rfl) (hcalm.rest hr) (hcalm.holds hh) ht nofun
        intro x g₃ hturn
        apply (mild_appendLog rfl).sighted_bind
        exact fun _ g₄ h₄ =>
          ⟨(hcalm.keeps.turned hturn).keeps.turned (h₄.turned hturn.rest),nofun⟩

theorem learn_wrote_keeps (g : Sight) {lines} (h : latest lines o.paymentOrderId=none) :
    g.Keeps id ((g.learn lines).wrote sdk o) := by
  have hlearn:=g.learn_calmer lines
  constructor
  · intro x _ hx
    by_cases hid : x.paymentOrderId=o.paymentOrderId
    · -- The process knows an order that the log has lost: it is torn.
      left
      show (g.learn lines).torn x.paymentOrderId
      rcases hx with ht | ⟨v,x',hv,hl,_⟩
      · exact hlearn.torn _ ht
      unfold Sight.learn
      rw [hv]
      right
      rw [hl,hid,h]
      exact nofun
    · exact (Sight.wrote_keeps sdk _ o).holds x hid (hlearn.holds hx)
  · exact fun x hx => hlearn.torn x hx

theorem insertOrder_sighted (hr : g.Rest) (hs : o.status≠.success) :
    Sighted sdk (TurnEnds id g) (insertOrder o) g := by
  refine ⟨trivial,fun r => ?_⟩
  rcases r with e | lines
  · trivial
  have hlearn:=g.learn_calmer lines
  dsimp only [Process.ofExcept,Process.bind]
  split
  · exact hlearn.turned hr
  · rename_i hnone
    have hfresh : latest lines o.paymentOrderId=none := by
      refine (latest_eq_none_iff lines o.paymentOrderId).2 fun x hx => ?_
      have hne:=List.find?_eq_none.1 hnone x hx
      simpa using hne
    refine ⟨⟨g.learn_legal_fresh hfresh,fun hs' => absurd hs' hs⟩,fun r => ?_⟩
    rcases r with e | u
    · trivial
    exact ⟨Sight.wrote_rest sdk (hlearn.rest hr) hs,learn_wrote_keeps sdk g hfresh⟩

theorem insertPayout_sighted (hr : g.Rest) (order : PaymentOrder) (amount : String)
    (payload : String → Payload) :
    Sighted sdk (TurnEnds id g) (insertPayout sdk order amount payload) g := by
  refine ask_sighted sdk fun now g₁ h₁ => ask_sighted sdk fun uuid g₂ h₂ => ?_
  have hcalm:=h₁.trans h₂
  apply sighted_bind sdk (insertOrder_sighted sdk (hcalm.rest hr) ?_)
  · exact fun _ g₃ h₃ => (side_auditRecord sdk _ _).mild.turn sdk (hcalm.keeps.turned h₃)
  · exact nofun

theorem applySettlementPreference_sighted (hr : g.Rest) (order config) :
    Sighted sdk (TurnEnds id g) (applySettlementPreference sdk order config) g := by
  have hdone : Sighted sdk (TurnEnds id g) (.done () : Proc Error Unit) g :=
    (Sight.Calmer.refl g).turned hr
  unfold applySettlementPreference
  cases config.settlementPreference with
  | hold => exact hdone
  | offRamp => exact insertPayout_sighted sdk hr order _ _
  | split =>
    dsimp only
    by_cases hpct : config.offRampPct≤0
    · rw [if_pos hpct]
      exact hdone
    rw [if_neg hpct]
    generalize order.payoutMinor config=minor
    split_ifs with hminor
    · exact hdone
    refine ask_sighted sdk fun amount g₁ h₁ => ?_
    exact (insertPayout_sighted sdk (h₁.rest hr) order amount _).post
      (OnDone.imp fun _ _ hend => h₁.keeps.turned hend)

theorem requeueOne_sighted (hr : g.Rest) (hh : g.Holds order) (hs : order.status=.executing)
    (config swept) :
    Sighted sdk (TurnEnds order.paymentOrderId g) (requeueOne sdk config order swept) g := by
  unfold requeueOne
  split
  · exact (Sight.Calmer.refl g).turned hr
  · refine ask_sighted sdk fun expired g₁ h₁ => ?_
    match expired with
    | none => trivial
    | some false => exact h₁.turned hr
    | some true =>
      refine Watched.post (?_ : Sighted sdk (TurnEnds order.paymentOrderId g₁) _ g₁)
        (OnDone.imp fun _ _ hend => h₁.keeps.turned hend)
      have hh₁ : g₁.Holds { order with attempts := order.attempts+1 } := h₁.holds hh
      dsimp only
      split
      · have hfailed : order.status.canTransition .failed=true := by rw [hs]; rfl
        apply sighted_bind sdk (markFailed_sighted sdk (h₁.rest hr) hh₁ hfailed _)
        intro _ g₂ h₂
        exact Mild.turn sdk ((mild_rollupEvent _).bind fun _ _ => .done trivial) h₂
      · have hwaiting : order.status.canTransition .notStarted=true := by rw [hs]; rfl
        exact turnOrder_turned sdk
          (fun x => { x with executingSince := none,nextRetryAt := none }) (fun _ => rfl)
          (fun _ => rfl) (h₁.rest hr) hh₁ hwaiting nofun
          fun x => (side_auditRecord sdk atOrderRequeued
            [("order",.text x.paymentOrderId),("reason",.text "executing ttl exceeded")]).mild.bind
              fun _ _ => (mild_rollupEvent x.paymentOrderId).bind fun _ _ => .done trivial

theorem startOrder_sighted (hh : g.Holds order)
    (ht : order.status.canTransition .executing=true) :
    Sighted sdk (OnDone fun o g' => o.paymentOrderId=order.paymentOrderId ∧ o.status=.executing ∧
      ∃ g₁,g.Calmer g₁ ∧ g'=g₁.wrote sdk o) (startOrder order) g := by
  apply transition_sighted sdk ht
  intro now g₁ h₁
  refine ask_sighted sdk fun since g₂ h₂ => ?_
  have hcalm:=h₁.trans h₂
  apply updateOrder_sighted sdk
  · exact fair_snapshot sdk (hcalm.holds hh) rfl ht nofun
  · exact ⟨rfl,rfl,g₂,hcalm,rfl⟩

end
end OriginTools.Payments
