import OriginTools.Payments.SettleConduct

/-!
# Whole processes are fair

The loops of a pass go over orders that the process has read: what it knows of an order
it has yet to come to stays true while it works on the others.
-/

namespace OriginTools.Payments
open Process
variable (sdk : PaySdk)

section
variable {g g' : Sight} {order : PaymentOrder} {signer : Option OrderSigner} {id : String}
variable {α β : Type} {g₀ : Sight}

theorem turn_bind_done {p : Proc Error α} (hk : g₀.Keeps id g) (h : Sighted sdk (TurnEnds id g) p g)
    (b : β) : Sighted sdk (TurnEnds id g₀) (p.bind fun _ => .done b) g :=
  sighted_bind sdk h fun _ _ hturn => hk.turned hturn

theorem concludeOrder_sighted {out : Outcome (SettleOutcome × PaymentOrder) PaymentOrder} {result}
    (hout : (out.attempt : Outcome Error _)=.done result) (hexec : order.status=.executing)
    (h : AttemptEnds order g₀ out g) (config tally) :
    Sighted sdk (TurnEnds order.paymentOrderId g₀) (concludeOrder sdk config tally result) g := by
  cases out with
  | panic => cases hout
  | done o =>
    cases hout
    obtain ⟨hr,hk⟩ : g₀.Turned order.paymentOrderId g := h
    unfold concludeOrder
    dsimp only
    split
    · exact turn_bind_done sdk hk (applySettlementPreference_sighted sdk hr o config) _
    · exact ⟨hr,hk⟩
  | fail e =>
    cases hout
    obtain ⟨out,o⟩ := e
    have hfailed : order.status.canTransition .failed=true := by rw [hexec]; rfl
    have hparked : order.status.canTransition .requiresAction=true := by rw [hexec]; rfl
    rcases h with ⟨ho,⟨hr,hk⟩,hh⟩ | ⟨hs,reason,hreason⟩
    · have ho : o=order := ho
      subst ho
      cases out with
      | retryable reason =>
        apply sighted_bind sdk (scheduleRetry_sighted sdk hr hh hfailed reason config.retry _)
        intro scheduled g₁ h₁
        cases scheduled with
        | true => exact hk.turned h₁.1
        | false =>
          have hcalm:=h₁.2 rfl
          exact turn_bind_done sdk (hk.trans hcalm.keeps)
            (markFailed_sighted sdk (hcalm.rest hr) (hcalm.holds hh) hfailed reason) _
      | terminal reason =>
        exact turn_bind_done sdk hk (markFailed_sighted sdk hr hh hfailed reason) _
      | requiresAction reason =>
        have hturn:=turnOrder_turned sdk (fun x => x) (fun _ => rfl) (fun _ => rfl) hr hh hparked
          nofun fun x => (side_notify x.paymentOrderId ("requires_action: "++reason)).mild.bind
            fun _ _ => (side_auditRecord sdk atOrderFailed
              [("order",.text x.paymentOrderId),("requires_action",.text reason)]).mild.bind
              fun _ _ => Emits.done (a := { tally with
                failures := tally.failures++
                  [x.paymentOrderId ++ ": "++reason ++ " (awaiting action)"] }) trivial
        exact Watched.post hturn (OnDone.imp fun _ _ hend => hk.turned hend)
    · -- A settled order cannot be marked as failed.
      have hreason : out=.terminal reason := hreason
      have hs : o.status=.success := hs
      subst hreason
      obtain ⟨e,he⟩ := markFailed_refused sdk (by rw [hs]; rfl) reason
      unfold concludeOrder
      dsimp only
      rw [he]
      trivial

theorem runOrder_sighted (hr : g.Rest) (hh : g.Holds order)
    (ht : order.status.canTransition .executing=true) (config screened tally) :
    Sighted sdk (TurnEnds order.paymentOrderId g)
      (runOrder sdk config screened signer order tally) g := by
  apply sighted_bind sdk (startOrder_sighted sdk hh ht)
  rintro o _ ⟨hid,hexec,g₁,hcalm,rfl⟩
  have hne : o.status≠.success := by rw [hexec]; exact nofun
  have hbegun : (g₁.wrote sdk o).Begun o :=
    ⟨rfl,hexec,rfl,Sight.wrote_rest sdk (hcalm.rest hr) hne,(hcalm.holds hh).wrote sdk hid⟩
  have hkeeps : g.Keeps order.paymentOrderId (g₁.wrote sdk o) :=
    hcalm.keeps.trans (hid ▸ Sight.wrote_keeps sdk g₁ o)
  have hsettle : Sighted sdk (OnDone fun result g' => ∃ out : Outcome _ _,
      (out.attempt : Outcome Error _)=.done result ∧ AttemptEnds o (g₁.wrote sdk o) out g')
      ((settle sdk config screened signer o).attempt : Proc Error _) (g₁.wrote sdk o) := by
    apply Watched.attempt
    apply (settle_sighted sdk hbegun config screened).post
    intro out g' hend
    cases out with
    | done a => exact ⟨.done a,rfl,hend⟩
    | fail e => exact ⟨.fail e,rfl,hend⟩
    | panic => trivial
  apply sighted_bind sdk hsettle
  rintro result g₂ ⟨out,hout,hend⟩
  apply sighted_bind sdk (concludeOrder_sighted sdk hout hexec hend config tally)
  intro tally' g₃ h₃
  apply (mild_rollupEvent o.paymentOrderId).sighted_bind
  exact fun _ g₄ h₄ => hkeeps.turned (hid ▸ h₃.keeps.turned (h₄.turned h₃.rest))

end

structure Sight.Queue (g : Sight) (P : PaymentOrder → Prop) (orders : List PaymentOrder) : Prop where
  known : ∀ o∈orders,P o ∧ g.Holds o
  apart : orders.Pairwise fun a b => a.paymentOrderId≠b.paymentOrderId ∨ g.torn b.paymentOrderId

section
variable {g g' : Sight} {P P' : PaymentOrder → Prop} {o : PaymentOrder}
variable {orders orders' : List PaymentOrder}

theorem Sight.Queue.calm (h : g.Queue P orders) (hg : g.Calmer g') : g'.Queue P orders := by
  refine ⟨fun o ho => ⟨(h.known o ho).1,hg.holds (h.known o ho).2⟩,h.apart.imp ?_⟩
  exact fun hab => hab.imp_right (hg.torn _)

theorem Sight.Queue.tail (h : g.Queue P (o::orders)) (hk : g.Keeps o.paymentOrderId g') :
    g'.Queue P orders := by
  obtain ⟨hfirst,hrest⟩ := List.pairwise_cons.1 h.apart
  refine ⟨fun x hx => ⟨(h.known x (.tail _ hx)).1,?_⟩,hrest.imp ?_⟩
  · have hholds:=(h.known x (.tail _ hx)).2
    rcases hfirst x hx with hne | ht
    · exact hk.holds x hne.symm hholds
    · exact .inl (hk.torn _ ht)
  · exact fun hab => hab.imp_right (hk.torn _)

theorem Sight.Queue.mono (h : g.Queue P orders) (hP : ∀ o,P o → P' o)
    (hsub : orders'.Sublist orders) : g.Queue P' orders' :=
  ⟨fun o ho => ⟨hP o (h.known o (hsub.subset ho)).1,(h.known o (hsub.subset ho)).2⟩,
    h.apart.sublist hsub⟩

theorem Sight.Holds.torn_of_ne {a b} (ha : g.Holds a) (hb : g.Holds b)
    (hid : a.paymentOrderId=b.paymentOrderId) (hne : a.status≠b.status) :
    g.torn b.paymentOrderId := by
  rcases hb with ht | ⟨v,o,hv,hl,hs⟩
  · exact ht
  rcases ha with ht | ⟨v',o',hv',hl',hs'⟩
  · exact hid ▸ ht
  rw [hv,Option.some.injEq] at hv'
  subst hv'
  rw [hid,hl,Option.some.injEq] at hl'
  subst hl'
  exact absurd (hs'.symm.trans hs) hne

theorem Sight.Queue.append (h : g.Queue P orders) (h' : g.Queue P' orders')
    (hne : ∀ a b,P a → P' b → a.status≠b.status) :
    g.Queue (fun o => P o ∨ P' o) (orders++orders') := by
  constructor
  · intro o ho
    rcases List.mem_append.1 ho with ho | ho
    · exact ⟨.inl (h.known o ho).1,(h.known o ho).2⟩
    · exact ⟨.inr (h'.known o ho).1,(h'.known o ho).2⟩
  · refine List.pairwise_append.2 ⟨h.apart,h'.apart,fun a ha b hb => ?_⟩
    by_cases hid : a.paymentOrderId=b.paymentOrderId
    · have hst:=hne a b (h.known a ha).1 (h'.known b hb).1
      exact .inr ((h.known a ha).2.torn_of_ne (h'.known b hb).2 hid hst)
    · exact .inl hid

theorem learn_queue (g : Sight) {lines shuffled : List PaymentOrder}
    (hperm : shuffled.Perm (latestOf lines)) (status) :
    (g.learn lines).Queue (fun o => o.status=status)
      (shuffled.filter fun o => o.status==status) := by
  constructor
  · intro o ho
    obtain ⟨hmem,hst⟩ := List.mem_filter.1 ho
    have hlatest:=(mem_latestOf lines o).1 (hperm.mem_iff.1 hmem)
    exact ⟨by simpa using hst,g.learn_holds hlatest⟩
  · have hnodup : (shuffled.map PaymentOrder.paymentOrderId).Nodup :=
      (hperm.map _).nodup_iff.2 (latestOf_ids_nodup lines)
    have hne : shuffled.Pairwise fun a b => a.paymentOrderId≠b.paymentOrderId :=
      List.pairwise_map.1 hnodup
    exact (hne.filter _).imp fun h => .inl h

variable {β : Type} {R : β → Sight → Prop}

theorem ordersWithStatus_sighted (status : OrderStatus) {f : List PaymentOrder → Proc Error β}
    (hf : ∀ orders g',g.Calmer g' → g'.Queue (fun o => o.status=status) orders →
      Sighted sdk (OnDone R) (f orders) g') :
    Sighted sdk (OnDone R) ((ordersWithStatus status).bind f) g := by
  refine ⟨trivial,fun r => ?_⟩
  rcases r with e | lines
  · trivial
  refine ⟨trivial,fun ⟨_,hperm⟩ => ?_⟩
  exact hf _ _ (g.learn_calmer lines) (learn_queue g hperm status)

theorem readyOrders_sighted (now) {f : List PaymentOrder → Proc Error β}
    (hf : ∀ orders g',g.Calmer g' →
      g'.Queue (fun o => o.status.canTransition .executing=true) orders →
      Sighted sdk (OnDone R) (f orders) g') :
    Sighted sdk (OnDone R) ((readyOrders now).bind f) g := by
  have hassoc : (readyOrders now).bind f=(ordersWithStatus .notStarted).bind fun waiting =>
      (ordersWithStatus .failed).bind fun failed =>
        f (waiting++failed.filter (isDue now)) := by
    unfold readyOrders
    rw [bind_eq,bind_assoc]
    congr 1
    funext waiting
    rw [bind_eq,bind_assoc]
    rfl
  rw [hassoc]
  apply ordersWithStatus_sighted sdk
  intro waiting g₁ h₁ hwaiting
  apply ordersWithStatus_sighted sdk
  intro failed g₂ h₂ hfailed
  have hdue:=hfailed.mono (fun _ h => h) (List.filter_sublist (p := isDue now))
  have hboth:=(hwaiting.calm h₂).append hdue fun a b ha hb => by rw [ha,hb]; exact nofun
  apply hf _ _ (h₁.trans h₂) (hboth.mono _ (List.Sublist.refl _))
  rintro o (hs | hs)
  · rw [hs]
    rfl
  · rw [hs]
    rfl

/-- A whole process that returns a value has recorded every receipt it owes. -/
abbrev JobEnds {α : Type} : Outcome Error α → Sight → Prop := OnDone fun _ g' => g'.Rest

theorem runReady_sighted (hr : g.Rest)
    (hq : g.Queue (fun o => o.status.canTransition .executing=true) orders)
    (config screened signer tally) :
    Sighted sdk JobEnds (runReady sdk config screened signer orders tally) g := by
  induction orders generalizing g tally with
  | nil => exact hr
  | cons o rest ih =>
    obtain ⟨ht,hh⟩ := hq.known o (.head _)
    apply sighted_bind sdk (runOrder_sighted sdk hr hh ht config screened tally)
    exact fun tally' g' hend => ih hend.rest (hq.tail hend.keeps) tally'

theorem requeueAll_sighted (hr : g.Rest) (hq : g.Queue (fun o => o.status=.executing) orders)
    (config swept) : Sighted sdk JobEnds (requeueAll sdk config orders swept) g := by
  induction orders generalizing g swept with
  | nil => exact hr
  | cons o rest ih =>
    obtain ⟨hs,hh⟩ := hq.known o (.head _)
    apply sighted_bind sdk (requeueOne_sighted sdk hr hh hs config swept)
    exact fun swept' g' hend => ih hend.rest (hq.tail hend.keeps) swept'

theorem requeueStuckExecuting_sighted (hr : g.Rest) (config) :
    Sighted sdk JobEnds (requeueStuckExecuting sdk config) g := by
  apply ordersWithStatus_sighted sdk
  exact fun orders g₁ h₁ hq => requeueAll_sighted sdk (h₁.rest hr) hq config _

theorem mild_verifyItem (item) : Mild (verifyItem item) := by
  have hask : Mild ((ask (.verifyPaymentPayload item.signedPayload
      item.resourceUrl)).bind Process.ofExcept) :=
    .call rfl fun r => .ofExcept r fun _ => trivial
  apply hask.mapErr.bind
  intro ok _
  cases ok with
  | true => exact .done trivial
  | false => exact .fail _

theorem mild_admitItems (items batch) : Mild (admitItems sdk items batch) := by
  induction items generalizing batch with
  | nil => exact .done trivial
  | cons item rest ih =>
    apply (mild_verifyItem item).bind
    intro _ _
    apply Emits.bind (R := fun _ => True)
    · apply (mild_verifyItem item).bind
      exact fun _ _ => (Emits.ofExcept _ fun _ => trivial).bind (R := fun _ => True)
        fun _ _ => .done trivial
    · exact fun batch _ => ih batch

theorem mild_replaceLog {l entries} (h : (Op.replace l entries).calm=true) :
    Mild (replaceLog l entries) :=
  .call h fun r => .ofExcept r fun _ => trivial

theorem mild_newBatch (date : String) : Mild (DeferredBatch.new sdk date) := by
  unfold DeferredBatch.new
  split
  · exact .fail _
  · exact .call rfl fun _ => .call rfl fun _ => .done trivial

theorem mild_commitDeferredBatch (date : String) :
    Mild (commitDeferredBatch sdk date) := by
  apply (mild_newBatch sdk date).bind
  intro batch _
  apply (mild_readLog rfl).bind
  intro items _
  apply (mild_admitItems sdk items batch).bind
  intro batch _
  apply (mild_appendLog rfl).bind
  intro _ _
  have hcheckpoint : Mild (checkpointMmr batch.contentHash) :=
    (mild_readLog rfl).bind fun leaves _ => mild_replaceLog rfl
  apply hcheckpoint.bind
  intro _ _
  exact (mild_replaceLog rfl).bind fun _ _ => .done trivial

theorem mild_commitDeferred (config) : Mild (commitDeferred sdk config) := by
  unfold commitDeferred
  split
  · apply (mild_readLog rfl).bind
    intro pending _
    split
    · exact .done trivial
    · apply (side_ask rfl).mild.bind
      intro date _
      exact (mild_commitDeferredBatch sdk date).bind fun _ _ => .done trivial
  · exact .done trivial

theorem runPass_sighted (hr : g.Rest) (config screened) :
    Sighted sdk JobEnds (runPass sdk config screened) g := by
  refine ask_sighted sdk fun now g₁ h₁ => ?_
  apply sighted_bind sdk (requeueStuckExecuting_sighted sdk (h₁.rest hr) config)
  intro swept g₂ hr₂
  apply (mild_commitDeferred sdk config).sighted_bind
  intro batches g₃ h₃
  refine ask_sighted sdk fun signer g₄ h₄ => ?_
  apply readyOrders_sighted sdk
  intro ready g₅ h₅ hq
  have hr₅:=(h₃.trans (h₄.trans h₅)).rest hr₂
  apply sighted_bind sdk (runReady_sighted sdk hr₅ hq config screened signer _)
  intro tally g₆ hr₆
  refine ⟨trivial,fun r => ?_⟩
  cases r with
  | ok u => exact hr₆
  | error e => trivial

theorem start_rest : Sight.Rest {} := rfl

theorem runOnce_sighted (path screened) : Sighted sdk JobEnds (runOnce sdk path screened) {} := by
  refine ⟨trivial,fun r => ?_⟩
  rcases r with e | u
  · trivial
  refine ⟨trivial,fun config => ?_⟩
  cases config with
  | error e => trivial
  | ok config => exact runPass_sighted sdk start_rest config screened

theorem getOrder_sighted (id : String) {f : PaymentOrder → Proc Error β}
    (hf : ∀ o g',g.Calmer g' → g'.Holds o → Sighted sdk (OnDone R) (f o) g') :
    Sighted sdk (OnDone R) ((getOrder id).bind f) g := by
  refine ⟨trivial,fun r => ?_⟩
  rcases r with e | lines
  · trivial
  have hlearn:=g.learn_calmer lines
  dsimp only [Process.ofExcept,Process.bind]
  split
  · rename_i o ho
    have hid : latest lines o.paymentOrderId=some o := by
      rw [latest_id ho]
      exact ho
    exact hf o _ hlearn (g.learn_holds hid)
  · trivial

theorem turnOrder_ends {f : PaymentOrder → Proc Error β} (change : PaymentOrder → PaymentOrder)
    (hid : ∀ x,(change x).paymentOrderId=x.paymentOrderId)
    (hst : ∀ x,(change x).status=x.status) (hr : g.Rest) (hh : g.Holds o) {target}
    (ht : o.status.canTransition target=true) (hs : target≠.success) (hf : ∀ x,Mild (f x)) :
    Sighted sdk JobEnds ((o.transition target).bind fun x =>
      (updateOrder (change x)).bind fun _ => f x) g :=
  (turnOrder_turned sdk change hid hst hr hh ht hs hf).post (OnDone.imp fun _ _ hend => hend.rest)

theorem requeue_sighted (change : PaymentOrder → PaymentOrder)
    (hid : ∀ x,(change x).paymentOrderId=x.paymentOrderId)
    (hst : ∀ x,(change x).status=x.status) (id : String) :
    Sighted sdk JobEnds ((getOrder id).bind fun order =>
      (order.transition .notStarted).bind fun x => updateOrder (change x)) {} := by
  refine getOrder_sighted sdk id fun o g₁ h₁ hh => ?_
  by_cases ht : o.status.canTransition .notStarted=true
  · have hturn:=turnOrder_ends sdk change hid hst (h₁.rest start_rest) hh ht nofun
      fun _ => Emits.done (a := ()) trivial
    have hlast : ∀ x,((updateOrder x).bind fun _ => .done ())=updateOrder x :=
      fun x => bind_done (updateOrder x)
    simp only [hlast] at hturn
    exact hturn
  · unfold PaymentOrder.transition
    rw [if_neg ht]
    trivial

theorem cmdOrderRetry_sighted (id : String) : Sighted sdk JobEnds (cmdOrderRetry id) {} :=
  requeue_sighted sdk (fun x => { x with nextRetryAt := none,attempts := x.attempts+1 })
    (fun _ => rfl) (fun _ => rfl) id

theorem cmdOrderResume_sighted (id : String) : Sighted sdk JobEnds (cmdOrderResume id) {} :=
  requeue_sighted sdk (fun x => { x with nextRetryAt := none }) (fun _ => rfl) (fun _ => rfl) id

theorem processCallback_sighted (callback : SettlementCallback) :
    Sighted sdk JobEnds (processCallback sdk callback) {} := by
  refine getOrder_sighted sdk callback.orderId fun o g₁ h₁ hh => ?_
  have hrest:=h₁.rest start_rest
  split
  · trivial
  · rename_i hs
    have hs : o.status=.requiresAction := not_not.1 hs
    split
    · have ht : o.status.canTransition .notStarted=true := by rw [hs]; rfl
      exact turnOrder_ends sdk
        (fun x => { x with executingSince := none,nextRetryAt := none }) (fun _ => rfl)
        (fun _ => rfl) hrest hh ht nofun
        fun x => (side_notify x.paymentOrderId ("webhook settled (ref: "++
            callback.settlementRef.getD "none" ++ ")")).mild.bind fun _ _ =>
          (side_auditRecord sdk atOrderRequeued [("order",.text x.paymentOrderId),
            ("reason",.text "webhook settled"),
            ("settlement_ref",.ofOption callback.settlementRef)]).mild
    · split
      · have ht : o.status.canTransition .failed=true := by rw [hs]; rfl
        exact turnOrder_ends sdk (fun x => x) (fun _ => rfl) (fun _ => rfl) hrest hh ht nofun
          fun x => .call rfl fun now => mild_appendLog rfl
      · trivial

end
end OriginTools.Payments
