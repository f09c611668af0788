import OriginTools.Payments.SettleRefinement

/-!
# Passes, sweeps and callbacks follow the life of an order

A pass reads the ready orders once and then works through them.
-/

namespace OriginTools.Payments
open Process
variable {W : Type}
section
variable {ε α β : Type} {R : Rules} {a : Phase × Book} {id : String} {b₀ : Book}
variable {ph : Phase} {w : World W} {config : PaymentsConfig} {o : PaymentOrder}

def PassEnds (R : Rules) (a : Phase × Book) (id : String) (b₀ : Book)
    (config : PaymentsConfig) : Outcome ε α → World W → Prop
  | .panic,_ => True
  | _,w => Reached R a id b₀ (.pass config) w

theorem passEnds_bind {p} {g : α → Proc ε β} (h : Follows R a (PassEnds R a id b₀ config) p w)
    (hg : ∀ x (w' : World W),Reached R a id b₀ (.pass config) w' →
      Follows R a (PassEnds R a id b₀ config) (g x) w') :
    Follows R a (PassEnds R a id b₀ config) (p.bind g) w :=
  h.bind hg (fun _ _ h' => h') fun _ _ => trivial

theorem Reached.quiet_passEnds {p : Proc ε α} {P : α → Prop}
    (h : Reached R a id b₀ (.pass config) w) (hp : QuietReturns W R P p) :
    Follows R a (PassEnds R a id b₀ config) p w := by
  constructor
  apply Leaves.safe hp (fun _ hb => (h.congr hb).onCourse)
  rintro out w' ⟨x,rfl,_⟩ hb
  exact h.congr hb

variable (sdk : PaySdk)

theorem markFailed_follows {back} (h : Reached R a id b₀ ph w) (hid : o.paymentOrderId=id)
    (hs : o.status.canTransition .failed=true) (hstep : ∀ now,Step R (ph,w.book)
      (.failing back (o.refused now),w.book.logged (o.refused now))) (reason : String) :
    FollowsTo R a (fun _ w' => Reached R a id b₀ (Phase.back back) w')
      (markFailed sdk o reason) w := by
  refine h.quiet_bind_book (quiet_transition o .failed hs) ?_
  rintro _ w₁ ⟨now,rfl⟩ hb h₁
  have hstep₁ : Step R (ph,w₁.book)
      (.failing back (o.refused now),w₁.book.logged (o.refused now)) := by
    rw [hb]
    exact hstep now
  refine (followsTo_updateOrder h₁ hstep₁ hid).bind fun _ w₂ h₂ => ?_
  refine h₂.quiet_bind (quiet_ask .now) fun _ w₃ _ h₃ => ?_
  refine (followsTo_appendDlq h₃ rfl).bind fun _ w₄ h₄ => ?_
  refine h₄.quiet_bind (quiet_notify _ _) fun _ w₅ _ h₅ => ?_
  constructor
  apply Leaves.safe (quiet_auditRecord sdk _ _) (fun _ hb => (h₅.congr hb).onCourse)
  rintro out w₆ ⟨x,rfl,_⟩ hb
  exact ⟨x,rfl,h₅.congr hb⟩

theorem scheduleRetry_follows {sent} (h : Reached R a id b₀ (.attempt config o sent) w)
    (hid : o.paymentOrderId=id) (hs : o.status=.executing) (hg : (settleGate config o).isOk)
    (reason retryAfterMs) :
    Follows R a (fun out w' => match out with
        | .done true => Reached R a id b₀ (.pass config) w'
        | .done false => Reached R a id b₀ (.attempt config o sent) w'
        | .fail _ => False
        | .panic => True) (scheduleRetry o reason config.retry retryAfterMs) w := by
  unfold scheduleRetry
  split
  · exact h.done h
  next hattempts =>
    refine h.quiet_bind (quiet_ask .random) fun raw w₁ _ h₁ => ?_
    split
    · exact h₁.panic trivial
    next backoffMs _ =>
      refine h₁.quiet_bind (quiet_ask _) fun deadline w₂ _ h₂ => ?_
      match deadline with
      | none => exact h₂.panic trivial
      | some deadline =>
        have hlegal : o.status.canTransition .failed=true := by
          rw [hs]
          rfl
        refine h₂.quiet_bind (quiet_transition o .failed hlegal) ?_
        rintro _ w₃ ⟨now,rfl⟩ h₃
        have hstep : Step R (.attempt config o sent,w₃.book)
            (.pass config,w₃.book.logged (o.postponed now deadline)) :=
          Step.postpone hg (by omega)
        refine (followsTo_updateOrder h₃ hstep hid).bind fun _ w₄ h₄ => ?_
        refine h₄.quiet_bind (quiet_appendLog .retryJobs _ rfl) fun _ w₅ _ h₅ => ?_
        exact h₅.done h₅

theorem insertOrder_follows (h : Reached R a id b₀ (.pass config) w) (hnew : o.IsNew) :
    FollowsTo R a (fun _ w' => Reached R a id b₀ (.pass config) w') (insertOrder o) w := by
  apply follows_readLog h.onCourse
  split
  next existing _ => exact h.done ⟨_,rfl,h⟩
  next hfind =>
    have hfresh : w.book.current o.paymentOrderId=none := by
      apply (latest_eq_none_iff _ _).2
      intro x hx
      have hne:=List.find?_eq_none.1 hfind x hx
      simpa using hne
    refine (followsTo_insert h (Step.payout hfresh hnew) hfresh).bind fun _ w' h' => ?_
    exact h'.done ⟨_,rfl,h'⟩

theorem insertPayout_follows (h : Reached R a id b₀ (.pass config) w) (o' : PaymentOrder)
    (amount : String) (payload : String → Payload) :
    Follows R a (PassEnds R a id b₀ config) (insertPayout sdk o' amount payload) w := by
  refine h.quiet_bind (quiet_ask .now) fun now w₁ _ h₁ => ?_
  refine h₁.quiet_bind (quiet_ask .uuid) fun payoutId w₂ _ h₂ => ?_
  refine (insertOrder_follows h₂ ⟨rfl,rfl,rfl⟩).bind fun _ w₃ h₃ => ?_
  exact h₃.quiet_passEnds (quiet_auditRecord sdk _ _)

theorem applySettlementPreference_follows (h : Reached R a id b₀ (.pass config) w) (o' config') :
    Follows R a (PassEnds R a id b₀ config) (applySettlementPreference sdk o' config') w := by
  unfold applySettlementPreference
  split
  · exact h.done h
  · exact insertPayout_follows sdk h o' _ _
  · split
    · exact h.done h
    split
    · exact h.done h
    · refine h.quiet_bind (quiet_ask _) fun amount w₁ _ h₁ => ?_
      exact insertPayout_follows sdk h₁ o' _ _

theorem startOrder_follows (h : Reached R a o.paymentOrderId b₀ (.pass config) w)
    (hcur : w.book.current o.paymentOrderId=some o) (hr : o.Ready) :
    FollowsTo R a (fun o' w' => ∃ now since,o'=o.started now since ∧
      Reached R a o.paymentOrderId b₀ (.attempt config o' false) w') (startOrder o) w := by
  have hlegal : o.status.canTransition .executing=true := by
    rcases hr with hs | ⟨hs,_⟩
    · rw [hs]
      rfl
    · rw [hs]
      rfl
  refine h.quiet_bind_book (quiet_transition o .executing hlegal) ?_
  rintro _ w₁ ⟨now,rfl⟩ hb₁ h₁
  refine h₁.quiet_bind_book (quiet_ask .now) fun since w₂ _ hb₂ h₂ => ?_
  have hstep : Step R (.pass config,w₂.book)
      (.attempt config (o.started now since) false,w₂.book.logged (o.started now since)) := by
    apply Step.pick _ hr
    rw [hb₂,hb₁]
    exact hcur
  refine (followsTo_updateOrder h₂ hstep rfl).bind fun _ w₃ h₃ => ?_
  exact h₃.done ⟨_,rfl,now,since,rfl,h₃⟩

theorem concludeOrder_follows {result out} (hout : (out.attempt : Outcome Error _)=.done result)
    (h : SettleEnds R a id b₀ config o out w) (hid : o.paymentOrderId=id)
    (hs : o.status=.executing) (tally) :
    Follows R a (PassEnds R a id b₀ config) (concludeOrder sdk config tally result) w := by
  have hlegal : o.status.canTransition .failed=true := by
    rw [hs]
    rfl
  have hfailed : ∀ (sent : Bool) (w' : World W) (reason : String) (g : Unit → Proc Error Tally),
      Reached R a id b₀ (.attempt config o sent) w' →
      (∀ x (w'' : World W),Reached R a id b₀ (.pass config) w'' →
        Follows R a (PassEnds R a id b₀ config) (g x) w'') →
      Follows R a (PassEnds R a id b₀ config) ((markFailed sdk o reason).bind g) w' := by
    intro sent w' reason g h' hg
    exact (markFailed_follows sdk h' hid hlegal (fun now => Step.refuse) reason).bind hg
  cases out with
  | panic => cases hout
  | done settled =>
    cases hout
    have h' : Reached R a id b₀ (.pass config) w := h
    unfold concludeOrder
    dsimp only
    split
    · exact passEnds_bind (applySettlementPreference_follows sdk h' settled config)
        fun _ w'' h'' => h''.done h''
    · exact h'.done h'
  | fail e =>
    cases hout
    match e with
    | (.retryable reason,o') =>
      obtain ⟨rfl,hg,sent,h'⟩ := h
      apply (scheduleRetry_follows h' hid hs hg reason _).bind
      · intro scheduled w₁ h₁
        cases scheduled with
        | true => exact Reached.done h₁ h₁
        | false => exact hfailed sent w₁ reason _ h₁ fun _ w'' h'' => h''.done h''
      · exact fun e w₁ h₁ => h₁.elim
      · exact fun _ _ => trivial
    | (.terminal reason,o') =>
      obtain ⟨rfl,sent,h'⟩ := h
      exact hfailed sent w reason _ h' fun _ w'' h'' => h''.done h''
    | (.requiresAction reason,o') =>
      obtain ⟨rfl,h'⟩ := h
      have hpark : o'.status.canTransition .requiresAction=true := by
        rw [hs]
        rfl
      refine h'.quiet_bind (quiet_transition o' .requiresAction hpark) ?_
      rintro _ w₁ ⟨now,rfl⟩ h₁
      have hstep : Step R (.attempt config o' true,w₁.book)
          (.pass config,w₁.book.logged (o'.parked now)) := Step.park
      refine (followsTo_updateOrder h₁ hstep hid).bind fun _ w₂ h₂ => ?_
      refine h₂.quiet_bind (quiet_notify _ _) fun _ w₃ _ h₃ => ?_
      refine h₃.quiet_bind (quiet_auditRecord sdk _ _) fun _ w₄ _ h₄ => ?_
      exact h₄.done h₄

theorem runOrder_follows (h : Reached R a o.paymentOrderId b₀ (.pass config) w)
    (hcur : w.book.current o.paymentOrderId=some o) (hr : o.Ready) (screened signer tally) :
    Follows R a (PassEnds R a o.paymentOrderId b₀ config)
      (runOrder sdk config screened signer o tally) w := by
  refine (startOrder_follows h hcur hr).bind ?_
  rintro _ w₁ ⟨now,since,rfl,h₁⟩
  have hsettle:=settle_follows sdk h₁ rfl rfl screened signer
  constructor
  apply Safe.bind
  apply Safe.attempt
  apply Safe.post hsettle.safe
  intro out w₂ _ hout
  have hrest : ∀ result,(out.attempt : Outcome Error _)=.done result →
      Follows R a (PassEnds R a o.paymentOrderId b₀ config)
        ((concludeOrder sdk config tally result).bind fun tally =>
          (rollupEvent o.paymentOrderId).bind fun _ => .done tally) w₂ := by
    intro result hresult
    apply passEnds_bind (concludeOrder_follows sdk hresult hout rfl rfl tally)
    intro tally w₃ h₃
    refine h₃.quiet_bind (quiet_rollupEvent _) fun _ w₄ _ h₄ => ?_
    exact h₄.done h₄
  cases out with
  | done | fail => exact (hrest _ rfl).safe
  | panic => exact hout.elim

theorem requeueOne_follows (h : Reached R a o.paymentOrderId b₀ (.pass config) w)
    (hcur : w.book.current o.paymentOrderId=some o) (hs : o.status=.executing)
    (swept : Swept) :
    Follows R a (PassEnds R a o.paymentOrderId b₀ config) (requeueOne sdk config o swept) w := by
  unfold requeueOne
  split
  · exact h.done h
  next since _ =>
    refine h.quiet_bind_book (quiet_ask _) fun expired w₁ _ hb₁ h₁ => ?_
    have hcur₁ : w₁.book.current o.paymentOrderId=some o := by
      rw [hb₁]
      exact hcur
    match expired with
    | none => exact h₁.panic trivial
    | some false => exact h₁.done h₁
    | some true =>
      dsimp only
      split
      · have hlegal : o.counted.status.canTransition .failed=true := by
          show o.status.canTransition .failed=true
          rw [hs]
          rfl
        have hfailed:=markFailed_follows sdk (o := o.counted) h₁ rfl hlegal
          (fun now => Step.expire hcur₁ hs) "stuck in EXECUTING past TTL (attempts exhausted)"
        refine hfailed.bind fun _ w₂ h₂ => ?_
        refine Reached.quiet_bind h₂ (quiet_rollupEvent _) fun _ w₃ _ h₃ => ?_
        exact h₃.done h₃
      next hattempts =>
        have hlegal : o.counted.status.canTransition .notStarted=true := by
          show o.status.canTransition .notStarted=true
          rw [hs]
          rfl
        refine h₁.quiet_bind_book (quiet_transition o.counted .notStarted hlegal) ?_
        rintro _ w₂ ⟨now,rfl⟩ hb₂ h₂
        have hstep : Step R (.pass config,w₂.book)
            (.pass config,w₂.book.logged (o.counted.requeued now)) := by
          apply Step.requeue _ hs (by omega)
          rw [hb₂]
          exact hcur₁
        refine (followsTo_updateOrder h₂ hstep rfl).bind fun _ w₃ h₃ => ?_
        refine h₃.quiet_bind (quiet_auditRecord sdk _ _) fun _ w₄ _ h₄ => ?_
        refine h₄.quiet_bind (quiet_rollupEvent _) fun _ w₅ _ h₅ => ?_
        exact h₅.done h₅

structure Pending (b : Book) (P : PaymentOrder → Prop) (orders : List PaymentOrder) : Prop where
  current : ∀ o∈orders,b.current o.paymentOrderId=some o ∧ P o
  nodup : (orders.map PaymentOrder.paymentOrderId).Nodup

theorem Pending.tail {b b' P o rest} (h : Pending b P (o::rest))
    (hk : Keeps o.paymentOrderId b b') : Pending b' P rest := by
  have hnodup:=List.nodup_cons.1 h.nodup
  refine ⟨fun x hx => ?_,hnodup.2⟩
  have hx':=h.current x (.tail _ hx)
  have hne : x.paymentOrderId≠o.paymentOrderId := by
    intro he
    exact hnodup.1 (he ▸ List.mem_map_of_mem hx)
  exact ⟨hk _ hne x hx'.1,hx'.2⟩

def LoopEnds (R : Rules) (a : Phase × Book) (ph : Phase) : Outcome ε α → World W → Prop
  | .panic,_ => True
  | _,w => Steps R a (ph,w.book)

variable {orders : List PaymentOrder}

theorem loop_follows {τ : Type} {P : PaymentOrder → Prop} {body : PaymentOrder → τ → Proc Error τ}
    {loop : List PaymentOrder → τ → Proc Error τ} (hnil : ∀ acc,loop [] acc=.done acc)
    (hcons : ∀ o rest acc,loop (o::rest) acc=(body o acc).bind (loop rest))
    (hbody : ∀ (o : PaymentOrder) (acc : τ) (w : World W),
      Reached R a o.paymentOrderId w.book (.pass config) w →
      w.book.current o.paymentOrderId=some o → P o →
      Follows R a (PassEnds R a o.paymentOrderId w.book config) (body o acc) w) (acc : τ)
    (w : World W) (hw : Steps R a (.pass config,w.book)) (hp : Pending w.book P orders) :
    Follows R a (LoopEnds R a (.pass config)) (loop orders acc) w := by
  induction orders generalizing acc w with
  | nil =>
    rw [hnil]
    exact ⟨⟨_,hw⟩,hw⟩
  | cons o rest ih =>
    rw [hcons]
    have ho:=hp.current o (.head _)
    apply (hbody o acc w ⟨hw,Keeps.refl _ _⟩ ho.1 ho.2).bind
    · intro acc' w' h'
      exact ih acc' w' h'.steps (hp.tail h'.keeps)
    · intro e w' h'
      exact h'.steps
    · exact fun _ _ => trivial

theorem latestOrders_follows (hw : OnCourse R a w) :
    FollowsTo R a (fun orders w' => w'=w ∧ orders.Perm (latestOf w.store.orders))
      latestOrders w := by
  apply follows_readLog hw
  exact ⟨hw,fun shuffled _ => ⟨hw,_,rfl,rfl,shuffled.2⟩⟩

theorem ordersWithStatus_follows (hw : OnCourse R a w) (status) :
    FollowsTo R a (fun orders w' => w'=w ∧ Pending w.book (fun o => o.status=status) orders)
      (ordersWithStatus status) w := by
  refine (latestOrders_follows hw).bind ?_
  rintro orders w' ⟨rfl,hperm⟩
  refine ⟨hw,_,rfl,rfl,?_,?_⟩
  · intro o ho
    have ho':=List.mem_filter.1 ho
    have hmem : o∈latestOf w'.store.orders := hperm.mem_iff.1 ho'.1
    exact ⟨(mem_latestOf _ o).1 hmem,by simpa using ho'.2⟩
  · have hids:=hperm.map PaymentOrder.paymentOrderId
    have hnodup:=hids.nodup_iff.2 (latestOf_ids_nodup w'.store.orders)
    exact hnodup.sublist (List.filter_sublist.map _)

theorem Pending.append {b P P' orders'} (h : Pending b P orders) (h' : Pending b P' orders')
    (hdiff : ∀ o,P o → ¬ P' o) : Pending b (fun o => P o ∨ P' o) (orders++orders') := by
  constructor
  · intro o ho
    rcases List.mem_append.1 ho with ho | ho
    · exact ⟨(h.current o ho).1,.inl (h.current o ho).2⟩
    · exact ⟨(h'.current o ho).1,.inr (h'.current o ho).2⟩
  · rw [List.map_append]
    refine h.nodup.append h'.nodup ?_
    intro id' hid hid'
    obtain ⟨o,ho,rfl⟩ := List.mem_map.1 hid
    obtain ⟨o',ho',he⟩ := List.mem_map.1 hid'
    have hcur:=(h.current o ho).1
    have hcur':=(h'.current o' ho').1
    rw [he,hcur] at hcur'
    cases hcur'
    exact hdiff o (h.current o ho).2 (h'.current o ho').2

theorem Pending.filter {b P P'} (h : Pending b P orders) (keep : PaymentOrder → Bool)
    (hP : ∀ o,P o → keep o=true → P' o) : Pending b P' (orders.filter keep) := by
  constructor
  · intro o ho
    have ho':=List.mem_filter.1 ho
    exact ⟨(h.current o ho'.1).1,hP o (h.current o ho'.1).2 ho'.2⟩
  · exact h.nodup.sublist (List.filter_sublist.map _)

theorem readyOrders_follows (hw : OnCourse R a w) (now : String) :
    FollowsTo R a (fun orders w' => w'=w ∧ Pending w.book PaymentOrder.Ready orders)
      (readyOrders now) w := by
  refine (ordersWithStatus_follows hw .notStarted).bind ?_
  rintro waiting _ ⟨rfl,hwaiting⟩
  refine (ordersWithStatus_follows hw .failed).bind ?_
  rintro failed w' ⟨rfl,hfailed⟩
  refine ⟨hw,_,rfl,rfl,?_⟩
  have hdue : Pending w'.book (fun o => o.status=.failed ∧ o.nextRetryAt≠none)
      (failed.filter (isDue now)) := by
    apply hfailed.filter
    intro o ho hd
    refine ⟨ho,fun hnone => ?_⟩
    rw [isDue,hnone] at hd
    cases hd
  apply hwaiting.append hdue
  intro o ho hf
  rw [ho] at hf
  cases hf.1

theorem requeueStuckExecuting_follows (hw : Steps R a (.pass config,w.book)) :
    Follows R a (LoopEnds R a (.pass config)) (requeueStuckExecuting sdk config) w := by
  refine (ordersWithStatus_follows ⟨_,hw⟩ .executing).bind ?_
  rintro stuck _ ⟨rfl,hstuck⟩
  exact loop_follows (fun _ => rfl) (fun _ _ _ => rfl)
    (fun o swept w' h' hcur hs => requeueOne_follows sdk h' hcur hs swept) _ _ hw hstuck

theorem runReady_follows (screened signer tally) (hw : Steps R a (.pass config,w.book))
    (hp : Pending w.book PaymentOrder.Ready orders) :
    Follows R a (LoopEnds R a (.pass config))
      (runReady sdk config screened signer orders tally) w :=
  loop_follows (fun _ => rfl) (fun _ _ _ => rfl)
    (fun _ tally _ h' hcur hr => runOrder_follows sdk h' hcur hr screened signer tally)
    tally w hw hp

theorem Reached.of_steps (h : Steps R a (ph,w.book)) : Reached R a "" ⟨[],[],[],[]⟩ ph w :=
  ⟨h,fun _ _ _ hcur => by cases hcur⟩

theorem loopEnds_finish {x : Outcome ε α} (h : LoopEnds R a (.pass config) x w) :
    LoopEnds R a .off x w := by
  cases x with
  | done | fail => exact Steps.step h Step.finish
  | panic => trivial

theorem config_follows {Q : Outcome Error β → World W → Prop}
    {g : PaymentsConfig → Proc Error β} (h : Steps R a (.off,w.book))
    (hg : ∀ config,Steps R a (.pass config,w.book) → Follows R a Q (g config) w)
    (hfail : ∀ e,Q (.fail e) w) :
    Follows R a Q (((ask .config).bind ofExcept).bind g) w := by
  refine ⟨⟨_,h⟩,fun answer ha => ?_⟩
  cases answer with
  | ok config => exact (hg config (h.step (Step.start (ha.2.2.1 config rfl)))).safe
  | error e => exact ⟨⟨_,h⟩,hfail e⟩

theorem runPass_follows (screened : Bool) (h : Steps R a (.pass config,w.book)) :
    Follows R a (LoopEnds R a (.pass config)) (runPass sdk config screened) w := by
  refine (Reached.of_steps h).quiet_bind (quiet_ask .now) fun now w₁ _ h₁ => ?_
  refine (requeueStuckExecuting_follows sdk h₁.steps).bind ?_ (fun _ _ h' => h') fun _ _ => trivial
  intro swept w₂ h₂
  refine (Reached.of_steps h₂).quietEnds_bind (quiet_commitDeferred sdk config) ?_
    fun _ _ h' => h'.steps
  intro deferredBatches w₃ h₃
  refine h₃.quiet_bind (quiet_ask .operatorKeys) fun signer w₄ _ h₄ => ?_
  refine (readyOrders_follows h₄.onCourse now).bind ?_
  rintro ready _ ⟨rfl,hready⟩
  refine (runReady_follows sdk screened signer _ h₄.steps hready).bind ?_
    (fun _ _ h' => h') fun _ _ => trivial
  intro tally w₅ h₅
  refine (Reached.of_steps h₅).quietEnds_bind quiet_saveWallet ?_ fun _ _ h' => h'.steps
  intro _ w₆ h₆
  exact h₆.done h₆.steps

theorem runOnce_follows (path : String) (screened : Bool) (h : Steps R a (.off,w.book)) :
    Follows R a (LoopEnds R a .off) (runOnce sdk path screened) w := by
  refine (Reached.of_steps h).quietEnds_bind (quiet_openWallet path) ?_ fun _ _ h' => h'.steps
  intro _ w₁ h₁
  refine config_follows h₁.steps ?_ fun _ => h₁.steps
  intro config h₂
  exact (runPass_follows sdk screened h₂).post fun _ _ hout => loopEnds_finish hout

theorem getOrder_follows (hw : OnCourse R a w) (id : String) :
    Follows R a (fun out w' => w'=w ∧ match out with
        | .done o => w.book.current id=some o
        | .fail _ => True
        | .panic => False) (getOrder id) w := by
  apply follows_readLog hw
  split
  next o hcur => exact ⟨hw,rfl,hcur⟩
  next => exact ⟨hw,rfl,trivial⟩

theorem processCallback_follows (hc : R.callbacks) (callback) (h : Steps R a (.off,w.book)) :
    Follows R a (LoopEnds R a .off) (processCallback sdk callback) w := by
  refine (getOrder_follows ⟨_,h⟩ callback.orderId).bind ?_ (fun _ _ h' => h'.1 ▸ h)
    fun _ h' => h'.2.elim
  rintro o w₀ ⟨rfl,hcur⟩
  have hid:=Book.current_id hcur
  have hr : Reached R a callback.orderId w₀.book .off w₀ := ⟨h,Keeps.refl _ _⟩
  have hcur' : w₀.book.current o.paymentOrderId=some o := by
    rw [hid]
    exact hcur
  split
  · exact hr.fail h
  next hstatus =>
    have hs : o.status=.requiresAction := not_not.1 hstatus
    split
    · have hlegal : o.status.canTransition .notStarted=true := by
        rw [hs]
        rfl
      refine hr.quiet_bind_book (quiet_transition o .notStarted hlegal) ?_
      rintro _ w₁ ⟨now,rfl⟩ hb h₁
      have hstep : Step R (.off,w₁.book) (.off,w₁.book.logged (o.requeued now)) := by
        rw [hb]
        exact Step.confirm hc hcur' hs
      refine (followsTo_updateOrder h₁ hstep hid).bind fun _ w₂ h₂ => ?_
      refine h₂.quiet_bind (quiet_notify _ _) fun _ w₃ _ h₃ => ?_
      constructor
      apply Leaves.safe (quiet_auditRecord sdk _ _) (fun _ hb => (h₃.congr hb).onCourse)
      rintro out w₄ ⟨x,rfl,_⟩ hb
      exact (h₃.congr hb).steps
    split
    · have hlegal : o.status.canTransition .failed=true := by
        rw [hs]
        rfl
      refine hr.quiet_bind_book (quiet_transition o .failed hlegal) ?_
      rintro _ w₁ ⟨now,rfl⟩ hb h₁
      have hstep : Step R (.off,w₁.book)
          (.failing none (o.refused now),w₁.book.logged (o.refused now)) := by
        rw [hb]
        exact Step.reject hc hcur' hs
      refine (followsTo_updateOrder h₁ hstep hid).bind fun _ w₂ h₂ => ?_
      refine h₂.quiet_bind (quiet_ask .now) fun _ w₃ _ h₃ => ?_
      apply (followsTo_appendDlq h₃ rfl).post
      rintro out w₄ ⟨x,rfl,h₄⟩
      exact h₄.steps
    · exact hr.fail h

end
end OriginTools.Payments
