import OriginTools.Payments.OneOrder

/-!
# Dead letters and the number of attempts

`mark_failed` writes a dead letter and leaves the order in `FAILED`, with the retry
deadline that an earlier attempt may have set.
-/

namespace OriginTools.Payments

/-- Passes and sweeps under one retry policy, without crashes and callbacks. -/
def passRules (policy : RetryPolicy) : Rules where
  start := fun _ config => config.retry=policy
  cut := fun _ => True
  bury := fun _ _ => True
  crash := fun _ => False
  callbacks := False

/-- Such runs in which a dead letter is written only for an order that holds no retry
deadline. -/
def retryRules (policy : RetryPolicy) : Rules :=
  { passRules policy with
    bury := fun b id => (b.current id).bind PaymentOrder.nextRetryAt=none }

def Book.Fresh (b : Book) (x : String) : Prop :=
  (∀ o∈b.current x,o.IsNew) ∧ b.charges x=0 ∧ b.deadLettered x=false

inductive AtRest (m : ℕ) : Option PaymentOrder → ℕ → Bool → Prop
  | absent : AtRest m none 0 false
  | fresh {o : PaymentOrder} (h : o.IsNew) : AtRest m (some o) 0 false
  | waiting {o : PaymentOrder} {n : ℕ} (hs : o.status=.failed) (ha : o.attempts < m)
      (hn : n≤o.attempts) : AtRest m (some o) n false
  | answered {o : PaymentOrder} {n : ℕ}
      (hs : o.status=.success ∨ o.status=.requiresAction) (hn : n ≤ max 1 m) :
      AtRest m (some o) n false
  | dead {o : PaymentOrder} {n : ℕ} (hs : o.status=.failed) (hd : o.nextRetryAt=none)
      (hn : n ≤ max 1 m) : AtRest m (some o) n true

structure InHand (m : ℕ) (o : PaymentOrder) (unsent : ℕ) (v : View) : Prop where
  current : v.current=some o
  sent : v.charges+unsent≤o.attempts
  bound : o.attempts ≤ max 1 m
  alive : v.dead=false

def Sound (m : ℕ) (v : View) : Prop :=
  match v.stage with
  | .idle pass => (∀ config∈pass,config.retry.maxAttempts=m) ∧ AtRest m v.current v.charges v.dead
  | .attempt config o sent => config.retry.maxAttempts=m ∧ InHand m o (if sent then 0 else 1) v
  | .posting config o => config.retry.maxAttempts=m ∧ InHand m o 0 v
  | .failing pass o => (∀ config∈pass,config.retry.maxAttempts=m) ∧
      o.status=.failed ∧ InHand m o 0 v

variable {m n : ℕ} {d : Bool}

theorem AtRest.charges_le {c} (h : AtRest m c n d) : n ≤ max 1 m := by
  cases h with
  | absent | fresh | waiting => omega
  | answered _ hn | dead _ _ hn => exact hn

theorem AtRest.not_executing {o} (h : AtRest m (some o) n d) : o.status≠.executing := by
  intro he
  cases h with
  | fresh h =>
    rw [h.1] at he
    cases he
  | waiting hs _ _ | dead hs _ _ =>
    rw [hs] at he
    cases he
  | answered hs _ =>
    rcases hs with hs | hs
    · rw [hs] at he
      cases he
    · rw [hs] at he
      cases he

theorem AtRest.ready {o} (h : AtRest m (some o) n d) (hr : o.Ready) :
    n≤o.attempts ∧ o.attempts+1 ≤ max 1 m ∧ d=false := by
  cases h with
  | fresh h =>
    have ha:=h.2.1
    exact ⟨by omega,by omega,rfl⟩
  | waiting _ ha hn => exact ⟨hn,by omega,rfl⟩
  | answered hs _ =>
    rcases hr with hr | ⟨hr,_⟩
    · rcases hs with hs | hs
      · rw [hs] at hr
        cases hr
      · rw [hs] at hr
        cases hr
    · rcases hs with hs | hs
      · rw [hs] at hr
        cases hr
      · rw [hs] at hr
        cases hr
  | dead hs hd _ =>
    rcases hr with hr | ⟨_,hr⟩
    · rw [hs] at hr
      cases hr
    · exact absurd hd hr

theorem AtRest.of_dead {c} (h : AtRest m c n true) :
    ∃ o,c=some o ∧ o.status=.failed ∧ o.nextRetryAt=none := by
  cases h with
  | dead hs hd _ => exact ⟨_,rfl,hs,hd⟩

theorem Sound.charges_le {v} (h : Sound m v) : v.charges ≤ max 1 m := by
  obtain ⟨stage,c,n,d⟩ := v
  cases stage with
  | idle pass => exact h.2.charges_le
  | attempt | posting =>
    have hsent:=h.2.sent
    have hbound:=h.2.bound
    dsimp only at hsent ⊢
    omega
  | failing pass o =>
    have hsent:=h.2.2.sent
    have hbound:=h.2.2.bound
    dsimp only at hsent ⊢
    omega

variable {x : String}

theorem sound_turn {policy} (v v' : View) (h : Sound policy.maxAttempts v)
    (ht : Turn (retryRules policy) x v v') : Sound policy.maxAttempts v' := by
  cases ht with
  | start hstart =>
    obtain ⟨b,_,hb⟩ := hstart
    refine ⟨fun config hc => ?_,h.2⟩
    cases hc
    exact congrArg RetryPolicy.maxAttempts hb
  | finish => exact ⟨fun config hc => (by cases hc),h.2⟩
  | crash hcrash => exact hcrash.elim fun _ hb => hb.elim
  | requeue hs _ | expire hs => exact absurd hs h.2.not_executing
  | pick hr =>
    obtain ⟨hn,hbound,hd⟩ := h.2.ready hr
    exact ⟨h.1 _ rfl,rfl,Nat.succ_le_succ hn,hbound,hd⟩
  | submit | post | cut =>
    obtain ⟨hm,hcur,hsent,hbound,hd⟩ := h
    exact ⟨hm,hcur,hsent,hbound,hd⟩
  | settle =>
    obtain ⟨hm,hcur,hsent,hbound,hd⟩ := h
    cases hd
    refine ⟨fun config hc => (by cases hc; exact hm),AtRest.answered (.inl rfl) ?_⟩
    exact hsent.trans hbound
  | postpone _ ha =>
    obtain ⟨hm,hcur,hsent,hbound,hd⟩ := h
    cases hd
    refine ⟨fun config hc => (by cases hc; exact hm),AtRest.waiting rfl (hm ▸ ha) ?_⟩
    exact (Nat.le_add_right _ _).trans hsent
  | park =>
    obtain ⟨hm,hcur,hsent,hbound,hd⟩ := h
    cases hd
    refine ⟨fun config hc => (by cases hc; exact hm),AtRest.answered (.inr rfl) ?_⟩
    exact hsent.trans hbound
  | refuse =>
    obtain ⟨hm,hcur,hsent,hbound,hd⟩ := h
    refine ⟨fun config hc => (by cases hc; exact hm),rfl,rfl,?_,hbound,hd⟩
    exact (Nat.le_add_right _ _).trans hsent
  | bury hbury =>
    obtain ⟨hm,hs,hcur,hsent,hbound,hd⟩ := h
    obtain ⟨b,hb,hnone⟩ := hbury
    cases hcur
    have hdeadline : (b.current x).bind PaymentOrder.nextRetryAt=none := hnone
    rw [hb] at hdeadline
    exact ⟨hm,AtRest.dead hs hdeadline (hsent.trans hbound)⟩
  | payout hnew =>
    refine ⟨h.1,?_⟩
    have hrest:=h.2
    cases hrest
    exact AtRest.fresh hnew
  | confirm hc _ | reject hc _ => exact hc.elim

theorem sound_fresh {b} (h : b.Fresh x) : Sound m (view x (.off,b)) := by
  obtain ⟨hnew,hcharges,hdead⟩ := h
  refine ⟨fun config hc => (by cases hc),?_⟩
  show AtRest m (b.current x) (b.charges x) (b.deadLettered x)
  rw [hcharges,hdead]
  cases hcur : b.current x with
  | none => exact AtRest.absent
  | some o => exact AtRest.fresh (hnew o hcur)

theorem sound_dead {b} (h : Sound m (view x (.off,b))) (hd : b.deadLettered x=true) :
    Spent (b.charges x) (view x (.off,b)) := by
  have hrest : AtRest m (b.current x) (b.charges x) (b.deadLettered x) := h.2
  rw [hd] at hrest
  obtain ⟨o,hcur,hs,hnone⟩ := hrest.of_dead
  rw [view_eq rfl hcur]
  exact ⟨hs,hnone⟩

theorem deadLettered_stays_dead {W : Type} (sdk : PaySdk) (policy : RetryPolicy)
    (before after : List (Event W)) (w : World W) (x : String) (hx : w.book.Fresh x)
    (hm : MeetsAll sdk (retryRules policy) (before++after) w) :
    ((runAll sdk before w).book.deadLettered x=true → ∀ v,Passes sdk after (runAll sdk before w) v →
        v.book.charges x=(runAll sdk before w).book.charges x) ∧
    ∀ v,Passes sdk (before++after) w v → v.book.charges x ≤ max 1 policy.maxAttempts := by
  obtain ⟨hbefore,hafter⟩ := (meetsAll_append sdk before after w).1 hm
  constructor
  · intro hd v hv
    have hsound:=runAll_view sdk sound_turn hbefore (sound_fresh hx)
    obtain ⟨ph,hph⟩ := run_view sdk spent_turn hafter (sound_dead hsound hd) hv
    exact hph.charges_eq
  · intro v hv
    obtain ⟨ph,hph⟩ := run_view sdk sound_turn hm (sound_fresh hx) hv
    exact hph.charges_le

instance decidesPass (policy : RetryPolicy) : (passRules policy).Decides :=
  ⟨fun _ config => inferInstanceAs (Decidable (config.retry=policy)),fun _ => isTrue trivial,
    fun _ _ => isTrue trivial,fun _ => isFalse not_false,isFalse not_false⟩

instance decidesRetry (policy : RetryPolicy) : (retryRules policy).Decides :=
  ⟨fun _ config => inferInstanceAs (Decidable (config.retry=policy)),fun _ => isTrue trivial,
    fun b id => inferInstanceAs (Decidable ((b.current id).bind PaymentOrder.nextRetryAt=none)),
    fun _ => isFalse not_false,isFalse not_false⟩

namespace Sample

def declining : (r : RailRequest) → r.Answer
  | .pay _ _ => .error "rail down"
  | .x402Pay _ _ _ => .error (.railNotConfigured "http402" "rail down")
  | .facilitatorSettle _ _ _ _ _ => .ok (.rejected "rail down" none)
  | .authorize _ _ => .error (.railNotConfigured "card" "rail down")

def retrying (maxAttempts : ℕ) : PaymentsConfig :=
  { PaymentsConfig.default with
    retry := { PaymentsConfig.default.retry with maxAttempts := maxAttempts } }

theorem world_fresh : (world order).book.Fresh "o1" := by
  refine ⟨fun o ho => ?_,rfl,rfl⟩
  have horder : (world order).book.current "o1"=some order :=
    Book.current_logged_self ⟨[],[],[],[]⟩ order
  rw [horder] at ho
  cases ho
  exact ⟨rfl,rfl,rfl⟩

end Sample
open Sample

/-- Two attempts are allowed. The first failure sets a deadline, the second writes the
dead letter, and a third pass submits the order again. -/
theorem deadLettered_charged_again : let policy := (retrying 2).retry
    let e:=Sample.pass (retrying 2) "a" declining 60
    let w:=world Sample.order
    w.book.Fresh "o1" ∧ MeetsAll paySdk (passRules policy) ([e,e]++[e]) w ∧
      (runAll paySdk [e,e] w).book.deadLettered "o1"=true ∧
      (runAll paySdk [e,e] w).book.charges "o1"=2 ∧
      (runAll paySdk ([e,e]++[e]) w).book.charges "o1"=3 ∧
      max 1 policy.maxAttempts=2 := by
  intro policy e w
  refine ⟨world_fresh,by decide +kernel,by decide +kernel,by decide +kernel,by decide +kernel,rfl⟩

theorem deadLettered_stays_dead_one_attempt : let e := Sample.pass (retrying 1) "a" declining 60
    let w:=world Sample.order
    (runAll paySdk [e] w).book.deadLettered "o1"=true ∧ (runAll paySdk [e] w).book.charges "o1"=1 ∧
      ∀ v,Passes paySdk [e] (runAll paySdk [e] w) v →
        v.book.charges "o1"=(runAll paySdk [e] w).book.charges "o1" := by
  intro e w
  have hdead : (runAll paySdk [e] w).book.deadLettered "o1"=true := by decide +kernel
  refine ⟨hdead,by decide +kernel,?_⟩
  exact (deadLettered_stays_dead paySdk (retrying 1).retry [e] [e] w "o1"
    world_fresh (by decide +kernel)).1 hdead

end OriginTools.Payments
