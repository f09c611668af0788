import OriginTools.Payments.Commands
import OriginTools.Payments.Deferred
import OriginTools.Payments.EventRollup

/-!
# The status of an event along a run

A pass and a sweep call `rollup_event` at the end of every order's turn, so they leave
the events in step where the store works.
-/

namespace OriginTools.Payments
open Process
variable {W : Type} (sdk : PaySdk)

def Coordinates {ε α : Type} (W : Type) (p : Proc ε α) : Prop :=
  ∀ w : World W,w.store.Coordinated →
    Safe handle Attended (fun _ => True) (fun _ w' => w'.store.Coordinated) p w

section
variable {ε α β : Type}

theorem Coordinates.of_done (a : α) : Coordinates W (.done a : Proc ε α) :=
  fun _ hw => ⟨trivial,hw⟩

theorem Coordinates.of_fail (e : ε) : Coordinates W (.fail e : Proc ε α) :=
  fun _ hw => ⟨trivial,hw⟩

variable {p : Proc ε α}

theorem Coordinates.bind {g : α → Proc ε β} (h : Coordinates W p) (hg : ∀ a,Coordinates W (g a)) :
    Coordinates W (p.bind g) := by
  intro w hw
  apply Safe.bind
  apply (h w hw).post
  intro o w' _ hw'
  cases o with
  | done a => exact hg a w' hw'
  | fail | panic => exact hw'

theorem Coordinates.ask {q : Question} {g : q.Answer → Proc ε α}
    (hg : ∀ a,Op.timely (W := W) (.ask q) a=true → Coordinates W (g a)) :
    Coordinates W ((Payments.ask q).bind g) :=
  fun w hw => ⟨trivial,fun a ha => hg a ha.2 w hw⟩

/-- A process that starts with all events in step but those of the order `x`, and ends
with all of them in step. -/
def Closes (W : Type) (x : String) (p : Proc ε α) : Prop :=
  ∀ w : World W,w.store.Registered → w.store.RolledUpBut x →
    Safe handle Attended (fun _ => True) (fun _ w' => w'.store.Coordinated) p w

theorem Closes.coordinates {x} (h : Closes W x p) : Coordinates W p :=
  fun w hw => h w hw.registered fun id e he _ => hw.rolledUp id e he

theorem OwnTurn.closes {x : String} {P : α → Prop} {g : α → Proc ε β} (h : OwnTurn W x P p)
    (hg : ∀ a,P a → Closes W x (g a)) : Closes W x (p.bind g) := by
  intro w hreg hbut
  apply Safe.bind
  apply (h w).mono (fun _ _ => trivial)
  rintro o w₁ _ ⟨⟨a,rfl,ha⟩,htouched⟩
  exact hg a ha w₁ (hreg.touched htouched) (hbut.touched hreg htouched)

theorem closes_rollupEvent (x b) :
    Closes W x ((rollupEvent x).bind fun _ => (.done b : Proc Error β)) := by
  intro w hreg hbut
  apply Safe.bind
  apply safe_readLog trivial
  split
  next hnone =>
    refine ⟨trivial,trivial,hreg,fun id e he => ?_⟩
    exact hbut id e he (eventOf_none hnone (mem_of_latestEvent he))
  next e he =>
    apply Safe.bind
    apply safe_readLog trivial
    refine ⟨trivial,fun shuffled _ => ⟨trivial,trivial,fun a ha => ?_⟩⟩
    cases a with
    | none => exact ⟨trivial,trivial,hreg.rollup hbut shuffled.2 he⟩
    | some e => cases ha.1

def Op.spares (op : Op) : Prop := ∀ x,op.concerns x

theorem spares_leaves {op} (h : op.spares) (a : op.Ans W) (w : World W) :
    ((handle op a w).2.store.orders,(handle op a w).2.store.events)=
      (w.store.orders,w.store.events) := by
  have hevents:=(concerns_touched (h "") a w).events
  -- a snapshot would have to be of every order
  have horders : (handle op a w).2.store.orders=w.store.orders := by
    cases op with
    | append l entry =>
      by_cases hl : l=.orders
      · subst hl
        exact absurd ((h "a").symm.trans (h "b")) (by decide)
      · exact handle_elsewhere (by simpa [Op.log?] using hl) a w
    | replace l entries =>
      by_cases hl : l=.orders
      · subst hl
        cases h ""
      · exact handle_elsewhere (by simpa [Op.log?] using hl) a w
    | read l => cases a <;> rfl
    | ask q => rfl
    | submit r => exact handle_elsewhere (l := .orders) (by simp [Op.log?]) a w
    | openWallet | saveWallet => exact handle_elsewhere (l := .orders) (by simp [Op.log?]) a w
  rw [hevents,horders]

abbrev Spares {ε α : Type} (p : Proc ε α) : Prop := Emits Op.spares (fun _ => True) p

theorem Spares.leaves (h : Spares p) {allowed} :
    Leaves handle allowed (fun w : World W => (w.store.orders,w.store.events)) (fun _ => True) p :=
  (Emits.leaves h fun _ a w hop _ => spares_leaves hop a w).mono fun _ _ => trivial

theorem Store.Coordinated.congr {s s' : Store} (h : s.Coordinated)
    (heq : (s'.orders,s'.events)=(s.orders,s.events)) : s'.Coordinated := by
  obtain ⟨horders,hevents⟩ := Prod.mk.inj heq
  refine ⟨⟨?_,?_,?_⟩,?_⟩
  · rw [horders,hevents]
    exact h.registered.known
  · rw [hevents]
    exact h.registered.stable
  · rw [hevents]
    exact h.registered.exclusive
  · unfold Store.RolledUp
    rw [horders,hevents]
    exact h.rolledUp

theorem Spares.coordinates (h : Spares p) : Coordinates W p :=
  fun _ hw => h.leaves.safe (fun _ _ => trivial) fun _ _ _ heq => hw.congr heq

theorem spares_commitDeferred (config) : Spares (commitDeferred sdk config) := by
  have hasks : ∀ {α : Type} {R : α → Prop} {p : Proc Error α},Asks R p → Spares p := by
    intro α R p h
    apply h.mono _ fun _ _ => trivial
    rintro op ⟨q,rfl⟩ x
    trivial
  have hdate : ∀ date,Spares (commitDeferredBatch sdk date) := by
    intro date
    rw [commitDeferredBatch_eq]
    have hnew:=newBatch_starts sdk date
    generalize DeferredBatch.new sdk date=new at hnew ⊢
    have hcollect : Spares (collectFrom sdk new) := by
      cases hnew with
      | refused e => exact .fail e
      | started batch hitems htotal =>
        refine .call (fun _ => trivial) fun id => .call (fun _ => trivial) fun now => ?_
        refine (emits_readLog fun _ => trivial).bind fun items _ => ?_
        exact hasks (asks_admitItems sdk items (batch id now))
    refine hcollect.bind fun batch _ => ?_
    refine Emits.bind (R := fun _ => True) (emits_appendLog fun _ => trivial) fun _ _ => ?_
    have hcheckpoint : Spares (checkpointMmr batch.contentHash) :=
      (emits_readLog fun _ => trivial).bind fun _ _ =>
        .call (fun _ => trivial) fun r => .ofExcept r fun _ => trivial
    refine hcheckpoint.bind fun _ _ => ?_
    refine .call (fun _ => trivial) fun r => ?_
    exact (Emits.ofExcept (R := fun _ => True) r fun _ => trivial).bind fun _ _ => .done trivial
  unfold commitDeferred
  split
  · refine (emits_readLog fun _ => trivial).bind fun pending _ => ?_
    split
    · exact .done trivial
    · refine .call (fun _ => trivial) fun date => ?_
      exact (hdate date).bind fun _ _ => .done trivial
  · exact .done trivial

theorem spares_ordersWithStatus (status) : Spares (ordersWithStatus status) := by
  have hlatest : Spares latestOrders :=
    (emits_readLog fun _ => trivial).bind fun _ _ => .call (fun _ => trivial) fun _ => .done trivial
  exact hlatest.bind fun _ _ => .done trivial

theorem spares_saveWallet : Spares saveWallet :=
  Emits.mapErr (.call (fun _ => trivial) fun r => .ofExcept r fun _ => trivial)

theorem spares_openWallet (path : String) : Spares (openWallet path) :=
  Emits.mapErr (.call (fun _ => trivial) fun r => .ofExcept r fun _ => trivial)

variable {config : PaymentsConfig}

theorem transition_illegal {o : PaymentOrder} {target : OrderStatus}
    (h : ¬ o.status.canTransition target=true) :
    o.transition target=.fail (.invalidTransition o.status.toText target.toText) :=
  if_neg h

theorem runOrder_coordinates (hcap : 0<wrap64 config.retry.capMs) (screened : Bool)
    (signer : Option OrderSigner) (o : PaymentOrder) (tally : Tally) :
    Coordinates W (runOrder sdk config screened signer o tally) := by
  by_cases hs : o.status.canTransition .executing=true
  · have hclosed : Closes W o.paymentOrderId (runOrder sdk config screened signer o tally) := by
      refine (turn_startOrder hs).closes fun o' ho' => ?_
      refine (turn_settle sdk ho'.1 ho'.2 config screened signer).closes fun result hr => ?_
      refine (turn_concludeOrder sdk ho'.1 ho'.2 hcap hr tally).closes fun tally _ => ?_
      rw [ho'.1]
      exact closes_rollupEvent _ tally
    exact hclosed.coordinates
  · unfold runOrder startOrder
    rw [transition_illegal hs]
    exact Coordinates.of_fail _

theorem requeueOne_coordinates (o : PaymentOrder) (swept : Swept) :
    Coordinates W (requeueOne sdk config o swept) := by
  unfold requeueOne
  split
  · exact Coordinates.of_done swept
  refine Coordinates.ask fun expired hexpired => ?_
  match expired with
  | none => cases hexpired
  | some false => exact Coordinates.of_done swept
  | some true =>
    dsimp only
    split
    · by_cases hs : o.counted.status.canTransition .failed=true
      · have hfailed:=turn_markFailed (W := W) (o := o.counted) sdk rfl hs
          "stuck in EXECUTING past TTL (attempts exhausted)"
        exact (hfailed.closes fun _ _ => closes_rollupEvent _ _).coordinates
      · unfold markFailed
        rw [show ({ o with attempts := o.attempts+1 } : PaymentOrder).transition .failed=_ from
          transition_illegal hs]
        exact Coordinates.of_fail _
    · by_cases hs : o.counted.status.canTransition .notStarted=true
      · have hclosed : Closes W o.paymentOrderId ((o.counted.transition .notStarted).bind
            fun order => (updateOrder { order with executingSince := none,nextRetryAt := none }).bind
              fun _ => (auditRecord sdk atOrderRequeued [("order",.text order.paymentOrderId),
                ("reason",.text "executing ttl exceeded")] none).bind fun _ =>
                  (rollupEvent order.paymentOrderId).bind fun _ =>
                    (.done { swept with requeued := swept.requeued+1 } : Proc Error Swept)) := by
          refine (turn_transition hs).closes ?_
          rintro _ ⟨now,rfl⟩
          refine (turn_updateOrder (o := o.counted.requeued now) rfl).closes fun _ _ => ?_
          refine (turn_auditRecord sdk _ _).closes fun _ _ => ?_
          exact closes_rollupEvent o.paymentOrderId _
        exact hclosed.coordinates
      · rw [show ({ o with attempts := o.attempts+1 } : PaymentOrder).transition .notStarted=_
          from transition_illegal hs]
        exact Coordinates.of_fail _

theorem requeueStuckExecuting_coordinates (config) :
    Coordinates W (requeueStuckExecuting sdk config) := by
  have hall : ∀ orders swept,Coordinates W (requeueAll sdk config orders swept) := by
    intro orders
    induction orders with
    | nil => exact Coordinates.of_done
    | cons o rest ih => exact fun swept => (requeueOne_coordinates sdk o swept).bind ih
  exact (spares_ordersWithStatus .executing).coordinates.bind fun stuck => hall stuck _

theorem runReady_coordinates (hcap : 0<wrap64 config.retry.capMs) (screened signer orders tally) :
    Coordinates W (runReady sdk config screened signer orders tally) := by
  induction orders generalizing tally with
  | nil => exact Coordinates.of_done tally
  | cons o rest ih => exact (runOrder_coordinates sdk hcap screened signer o tally).bind ih

theorem runPass_coordinates (hcap : 0<wrap64 config.retry.capMs) (screened : Bool) :
    Coordinates W (runPass sdk config screened) := by
  refine Coordinates.ask fun now _ => ?_
  refine (requeueStuckExecuting_coordinates sdk config).bind fun swept => ?_
  refine (spares_commitDeferred sdk config).coordinates.bind fun deferredBatches => ?_
  refine Coordinates.ask fun signer _ => ?_
  have hready : Spares (readyOrders now) :=
    (spares_ordersWithStatus .notStarted).bind fun _ _ =>
      (spares_ordersWithStatus .failed).bind fun _ _ => .done trivial
  refine hready.coordinates.bind fun ready => ?_
  refine (runReady_coordinates sdk hcap screened signer ready _).bind fun tally => ?_
  exact spares_saveWallet.coordinates.bind fun _ => Coordinates.of_done _

theorem runOnce_coordinates (path screened) : Coordinates W (runOnce sdk path screened) := by
  refine (spares_openWallet path).coordinates.bind fun _ => ?_
  intro w hw
  refine ⟨trivial,fun (answer : Except Error PaymentsConfig) ha => ?_⟩
  cases answer with
  | error e => exact ⟨trivial,hw⟩
  | ok config =>
    have hcap : decide (0<wrap64 config.retry.capMs)=true := ha.2
    exact runPass_coordinates sdk (of_decide_eq_true hcap) screened w hw

end

structure Amended (id : String) (P : OrderStatus → OrderStatus → Prop) (w w' : World W) : Prop where
  events : w'.store.events=w.store.events
  orders : w'.store.orders=w.store.orders ∨ ∃ o o',latest w.store.orders id=some o ∧
    o'.paymentOrderId=id ∧ P o.status o'.status ∧ w'.store.orders=w.store.orders++[o']

section
variable {id : String} {P : OrderStatus → OrderStatus → Prop} {w : World W}

/-- Whatever the answers are, at most one snapshot of the order is written. -/
abbrev Amends (id : String) (P : OrderStatus → OrderStatus → Prop) (p : Proc Error Unit)
    (w : World W) : Prop :=
  Safe handle (fun _ _ _ => True) (fun _ => True) (fun _ w' => Amended id P w w') p w

theorem amended_refl : Amended id P w w := ⟨rfl,.inl rfl⟩

theorem amends_transition {target} {o : PaymentOrder} {g}
    (h : o.status.canTransition target=true → ∀ now,
      Amends id P (g { o with status := target,updatedAt := now }) w) :
    Amends id P ((o.transition target).bind g) w := by
  by_cases hs : o.status.canTransition target=true
  · unfold PaymentOrder.transition
    rw [if_pos hs]
    exact ⟨trivial,fun now _ => h hs now⟩
  · rw [transition_illegal hs]
    exact ⟨trivial,amended_refl⟩

theorem amends_updateOrder {o o' g} (ho : latest w.store.orders id=some o)
    (hid : o'.paymentOrderId=o.paymentOrderId) (hP : P o.status o'.status) (hg : Spares (g ())) :
    Amends id P ((updateOrder o').bind g) w := by
  refine ⟨trivial,fun a _ => ?_⟩
  cases a with
  | some e => exact ⟨trivial,amended_refl⟩
  | none =>
    apply hg.leaves.safe (fun _ _ => trivial)
    intro _ w' _ heq
    obtain ⟨horders,hevents⟩ := Prod.mk.inj heq
    exact ⟨hevents,.inr ⟨o,o',ho,hid.trans (latest_id ho),hP,horders⟩⟩

theorem amends_getOrder {g} (h : ∀ o,latest w.store.orders id=some o → Amends id P (g o) w) :
    Amends id P ((getOrder id).bind g) w := by
  refine ⟨trivial,fun a _ => ?_⟩
  cases a with
  | some e => exact ⟨trivial,amended_refl⟩
  | none =>
    apply Safe.bind
    apply Safe.bind
    refine ⟨trivial,?_⟩
    unfold Then
    dsimp only
    split
    next o ho => exact ⟨trivial,h o ho⟩
    next ho => exact ⟨trivial,amended_refl⟩

def Requeues (a b : OrderStatus) : Prop := a.canTransition .notStarted=true ∧ b=.notStarted

theorem cmdOrderRetry_amends (w : World W) : Amends id Requeues (cmdOrderRetry id) w := by
  apply amends_getOrder
  intro o ho
  apply amends_transition
  intro hs now
  rw [← bind_done (updateOrder _)]
  exact amends_updateOrder ho rfl ⟨hs,rfl⟩ (.done trivial)

theorem cmdOrderResume_amends (w : World W) : Amends id Requeues (cmdOrderResume id) w := by
  apply amends_getOrder
  intro o ho
  apply amends_transition
  intro hs now
  rw [← bind_done (updateOrder _)]
  exact amends_updateOrder ho rfl ⟨hs,rfl⟩ (.done trivial)

def Resolves (status : String) (a b : OrderStatus) : Prop :=
  a=.requiresAction ∧ (status = "settled" ∧ b=.notStarted ∨ b=.failed)

theorem processCallback_amends (callback : SettlementCallback) (w : World W) :
    Amends callback.orderId (Resolves callback.status) (processCallback sdk callback) w := by
  apply amends_getOrder
  intro o ho
  split
  · exact ⟨trivial,amended_refl⟩
  next hs =>
    have hs : o.status=.requiresAction := not_not.1 hs
    split
    next hsettled =>
      apply amends_transition
      intro _ now
      refine amends_updateOrder ho rfl ⟨hs,.inl ⟨hsettled,rfl⟩⟩ ?_
      have hnotify : ∀ orderId event,Spares (notify orderId event) := fun _ _ =>
        emits_notify (fun _ _ _ => trivial) (fun _ _ => trivial) _ _
      refine (hnotify _ _).bind fun _ _ => ?_
      exact emits_auditRecord sdk (fun _ _ _ => trivial) (fun _ => trivial) (fun _ _ => trivial) _ _
    · split
      · apply amends_transition
        intro _ now
        refine amends_updateOrder ho rfl ⟨hs,.inr rfl⟩ ?_
        exact .call (fun _ => trivial) fun now => emits_appendLog fun _ => trivial
      · exact ⟨trivial,amended_refl⟩

end

theorem Store.Coordinated.amended {id P} {w w' : World W} (hw : w.store.Coordinated)
    (h : Amended id P w w')
    (hP : ∀ o o₁ e,latest w.store.orders id=some o → o₁.paymentOrderId=id →
      P o.status o₁.status → (∃ eventId,latestEvent w.store.events eventId=some e) →
      id∈e.orderIds → EventStatus.rollup (e.current (w.store.orders++[o₁]))=
        EventStatus.rollup (e.current w.store.orders)) : w'.store.Coordinated := by
  rcases h.orders with hsame | ⟨o,o₁,ho,hid,hp,horders⟩
  · exact hw.congr (by rw [hsame,h.events])
  have htouched : Touched id w w' := by
    refine ⟨h.events,[o₁],horders,fun o' ho' => .inl ?_⟩
    rw [List.mem_singleton.1 ho']
    exact hid
  have hbut : w'.store.RolledUpBut id :=
    Store.RolledUpBut.touched (fun id e he _ => hw.rolledUp id e he) hw.registered htouched
  refine ⟨hw.registered.touched htouched,fun eventId e he => ?_⟩
  by_cases hin : id∈e.orderIds
  · rw [h.events] at he
    unfold PaymentEvent.RolledUp
    rw [horders,hP o o₁ e ho hid hp ⟨eventId,he⟩ hin]
    exact hw.rolledUp eventId e he
  · exact hbut eventId e he hin

inductive Task where
  | pass (path : String) (screened : Bool)
  | sweep (config : PaymentsConfig)
  | callback (message : SettlementCallback)
  | retry (paymentOrderId : String)
  | resume (paymentOrderId : String)

def Task.process : Task → Proc Error Unit
  | .pass path screened => (runOnce sdk path screened).bind fun _ => .done ()
  | .sweep config => (requeueStuckExecuting sdk config).bind fun _ => .done ()
  | .callback message => processCallback sdk message
  | .retry paymentOrderId => cmdOrderRetry paymentOrderId
  | .resume paymentOrderId => cmdOrderResume paymentOrderId

structure Act (W : Type) where
  task : Task
  source : ℕ → (op : Op) → op.Ans W

namespace Act

def after (act : Act W) (w : World W) : World W :=
  (exec handle act.source 0 (act.task.process sdk) w).2

/-- The store works during a pass and a sweep; an order that a callback or the operator
puts back into the queue is not the one that decides the status of its event. -/
def InStep (act : Act W) (w : World W) : Prop :=
  match act.task with
  | .pass path screened =>
      Obeyed handle act.source Attended 0 ((Task.pass path screened).process sdk) w
  | .sweep config => Obeyed handle act.source Attended 0 ((Task.sweep config).process sdk) w
  | .callback message => message.status = "settled" → w.store.SteadyFor message.orderId
  | .retry paymentOrderId => w.store.SteadyFor paymentOrderId
  | .resume paymentOrderId => w.store.SteadyFor paymentOrderId

def runAll : List (Act W) → World W → World W
  | [],w => w
  | act::acts,w => runAll acts (act.after sdk w)

def AllInStep : List (Act W) → World W → Prop
  | [],_ => True
  | act::acts,w => act.InStep sdk w ∧ AllInStep acts (act.after sdk w)

end Act

instance decidableHalted (status : OrderStatus) : Decidable status.halted :=
  inferInstanceAs (Decidable (_ ∨ _))

instance decidableSteady (e : PaymentEvent) (lines : List PaymentOrder) (o : PaymentOrder) :
    Decidable (e.Steady lines o) :=
  inferInstanceAs (Decidable (∃ o'∈e.current lines,_))

instance decidableSteadyFor (s : Store) (id : String) : Decidable (s.SteadyFor id) :=
  inferInstanceAs (Decidable (∀ o∈latest s.orders id,_ → ∀ e∈eventOf s.events id,_))

instance decidableInStep (act : Act W) (w : World W) : Decidable (act.InStep sdk w) := by
  unfold Act.InStep
  split <;> infer_instance

instance decidableAllInStep : (acts : List (Act W)) → (w : World W) →
    Decidable (Act.AllInStep sdk acts w)
  | [],_ => isTrue trivial
  | act::acts,w =>
      haveI := decidableAllInStep acts (act.after sdk w)
      inferInstanceAs (Decidable (act.InStep sdk w ∧ Act.AllInStep sdk acts (act.after sdk w)))

theorem requeued_coordinated {id} {w w' : World W} (hw : w.store.Coordinated)
    (h : Amended id Requeues w w') (hsteady : w.store.SteadyFor id) : w'.store.Coordinated := by
  apply hw.amended h
  intro o o₁ e ho hid hp ⟨eventId,he⟩ hin
  exact rollup_requeued ho hin hid hp.2 (hsteady.steady hw.registered ho hp.1 he hin)

theorem resolved_coordinated {message : SettlementCallback} {w w' : World W}
    (hw : w.store.Coordinated) (h : Amended message.orderId (Resolves message.status) w w')
    (hsteady : message.status = "settled" → w.store.SteadyFor message.orderId) :
    w'.store.Coordinated := by
  apply hw.amended h
  intro o o₁ e ho hid hp ⟨eventId,he⟩ hin
  obtain ⟨hs,⟨hsettled,h₁⟩ | h₁⟩ := hp
  · have hlegal : o.status.canTransition .notStarted=true := by
      rw [hs]
      rfl
    exact rollup_requeued ho hin hid h₁ ((hsteady hsettled).steady hw.registered ho hlegal he hin)
  · exact rollup_rejected ho hin hid hs h₁

theorem act_coordinated {act : Act W} {w : World W} (hw : w.store.Coordinated)
    (h : act.InStep sdk w) : (act.after sdk w).store.Coordinated := by
  have hany : ∀ (p : Proc Error Unit),
      Obeyed handle act.source (fun (_ : World W) _ _ => True) 0 p w := fun p =>
    obeyed_of_forall _ _ _ (fun _ _ _ => trivial) 0 p w
  unfold Act.InStep at h
  unfold Act.after
  cases htask : act.task with
  | pass path screened =>
    rw [htask] at h
    have hpass : Coordinates W ((Task.pass path screened).process sdk) :=
      (runOnce_coordinates sdk path screened).bind fun _ => Coordinates.of_done ()
    exact Safe.exec 0 w (hpass w hw) h
  | sweep config =>
    rw [htask] at h
    have hsweep : Coordinates W ((Task.sweep config).process sdk) :=
      (requeueStuckExecuting_coordinates sdk config).bind fun _ => Coordinates.of_done ()
    exact Safe.exec 0 w (hsweep w hw) h
  | callback message =>
    rw [htask] at h
    exact resolved_coordinated hw (Safe.exec 0 w (processCallback_amends sdk message w) (hany _)) h
  | retry id =>
    rw [htask] at h
    exact requeued_coordinated hw (Safe.exec 0 w (cmdOrderRetry_amends w) (hany _)) h
  | resume id =>
    rw [htask] at h
    exact requeued_coordinated hw (Safe.exec 0 w (cmdOrderResume_amends w) (hany _)) h

theorem event_status_follows_orders (acts : List (Act W)) (w : World W)
    (hw : w.store.Coordinated) (hacts : Act.AllInStep sdk acts w) (n : ℕ) :
    (Act.runAll sdk (acts.take n) w).store.RolledUp := by
  induction acts generalizing w n with
  | nil =>
    rw [List.take_nil]
    exact hw.rolledUp
  | cons act acts ih =>
    cases n with
    | zero => exact hw.rolledUp
    | succ n => exact ih _ (act_coordinated sdk hw hacts.1) hacts.2 n

theorem not_rolledUp {s : Store} (id stored rolled)
    (h : (latestEvent s.events id).map (fun e => (e.status,EventStatus.rollup (e.current s.orders)))=
      some (stored,rolled)) (hne : stored≠rolled) : ¬ s.RolledUp := by
  intro hrolled
  cases hlatest : latestEvent s.events id with
  | none =>
    rw [hlatest] at h
    cases h
  | some e =>
    rw [hlatest] at h
    have he:=hrolled id e hlatest
    cases h
    exact hne he

namespace Sample

def eventOrder (id : String) : PaymentOrder :=
  { PaymentOrder.new id "2026" "c1" "mesh" "1.00" "USD" with
    rail := some .card,cardToken := some "tok",cardNetwork := some "visa",
    cardLast4 := some "4242" }

def cardEvent (ids : List String) : PaymentEvent :=
  PaymentEvent.new "e1" "2026" "c1" "buyer" "merchant" (ids.map eventOrder)

def openedWorld (event : PaymentEvent) : World Unit where
  store := { orders := event.paymentOrders,events := [event] }
  wallet := ()
  walletFile := ()

def pendingCard : (r : RailRequest) → r.Answer
  | .authorize _ _ => .ok (.pending none)
  | r => accepting r

def act (config : PaymentsConfig) (task : Task) : Act Unit where
  task := task
  source := source config "a" pendingCard

def failedActs : List (Act Unit) :=
  [act .default (.pass "wallet" false),act .default (.retry "o1"),act .default (.sweep .default),
    act .default (.callback ⟨"o2","failed",none,"2026"⟩)]

def confirmedActs : List (Act Unit) :=
  [act { PaymentsConfig.default with enabledRails := ["card"] } (.pass "wallet" false),
    act .default (.callback ⟨"o1","settled",none,"2026"⟩)]

theorem openedWorld_coordinated (ids) : (openedWorld (cardEvent ids)).store.Coordinated := by
  have hnew : ∀ o∈(cardEvent ids).paymentOrders,o.status=.notStarted := by
    intro o ho
    obtain ⟨id,_,rfl⟩ := List.mem_map.1 ho
    rfl
  exact coordinated_opened rfl hnew

end Sample
open Sample

theorem event_status_follows_failed_orders : Act.AllInStep paySdk failedActs
        (openedWorld (cardEvent ["o1","o2"])) ∧
      ∀ n,(Act.runAll paySdk (failedActs.take n)
        (openedWorld (cardEvent ["o1","o2"]))).store.RolledUp := by
  have hacts : Act.AllInStep paySdk failedActs
      (openedWorld (cardEvent ["o1","o2"])) := by decide +kernel
  exact ⟨hacts,event_status_follows_orders paySdk failedActs _ (openedWorld_coordinated _) hacts⟩

/-- The callback puts the order back into the queue, and its event stays `Partial`. -/
theorem event_status_behind_callback : (openedWorld (cardEvent ["o1"])).store.Coordinated ∧
      ¬ (Act.runAll paySdk confirmedActs (openedWorld (cardEvent ["o1"]))).store.RolledUp := by
  refine ⟨openedWorld_coordinated _,?_⟩
  apply not_rolledUp "e1" .partlySettled .received
  · decide +kernel
  · decide

end OriginTools.Payments
