import OriginTools.Payments.Footprint
import OriginTools.Payments.Run

/-!
# One order's turn

While a pass or a sweep works on one order it appends snapshots of that order, and
orders that the log does not hold yet; the event log is written by the roll-up only.
-/

namespace OriginTools.Payments
open Process
variable {W : Type} (sdk : PaySdk) {x : String}

def Op.concerns (x : String) : Op → Prop
  | .append .orders o => PaymentOrder.paymentOrderId o=x
  | .append .events _ => False
  | .replace .orders _ => False
  | .replace .events _ => False
  | _ => True

structure Touched (x : String) (w w' : World W) : Prop where
  events : w'.store.events=w.store.events
  orders : ∃ news,w'.store.orders=w.store.orders++news ∧
    ∀ o∈news,o.paymentOrderId=x ∨ latest w.store.orders o.paymentOrderId=none

theorem latest_none_of_append {lines news id} (h : latest (lines++news) id=none) :
    latest lines id=none := by
  rw [latest_eq_none_iff] at h ⊢
  exact fun o ho => h o (List.mem_append_left _ ho)

instance : Std.Refl (Touched x : World W → World W → Prop) where
  refl _ := ⟨rfl,[],(List.append_nil _).symm,fun _ h => by cases h⟩

instance : IsTrans (World W) (Touched x) where
  trans w₁ w₂ w₃ h₁₂ h₂₃ := by
    obtain ⟨news,hnews,hold⟩ := h₁₂.orders
    obtain ⟨news',hnews',hold'⟩ := h₂₃.orders
    refine ⟨h₂₃.events.trans h₁₂.events,news++news',?_,?_⟩
    · rw [hnews',hnews,List.append_assoc]
    · intro o ho
      rcases List.mem_append.1 ho with ho | ho
      · exact hold o ho
      · refine (hold' o ho).imp_right fun hnone => ?_
        rw [hnews] at hnone
        exact latest_none_of_append hnone

variable {w : World W}

theorem touched_of_eq {w'} (hevents : w'.store.events=w.store.events)
    (horders : w'.store.orders=w.store.orders) : Touched x w w' :=
  ⟨hevents,[],by rw [horders,List.append_nil],fun _ h => by cases h⟩

theorem touched_push {o} (h : o.paymentOrderId=x ∨ latest w.store.orders o.paymentOrderId=none) :
    Touched x w (w.push .orders o) := by
  refine ⟨rfl,[o],rfl,fun o' ho' => ?_⟩
  rw [List.mem_singleton.1 ho']
  exact h

theorem touched_elsewhere {op} (hevents : op.log? ≠ some .events) (horders : op.log? ≠ some .orders)
    (a : op.Ans W) (w : World W) : Touched x w (handle op a w).2 :=
  touched_of_eq (handle_elsewhere hevents a w) (handle_elsewhere horders a w)

theorem concerns_touched {op} (h : op.concerns x) (a : op.Ans W) (w : World W) :
    Touched x w (handle op a w).2 := by
  cases op with
  | read l => cases a <;> exact Std.Refl.refl w
  | append l entry =>
    cases l with
    | orders =>
      cases a with
      | none => exact touched_push (.inl h)
      | some e => exact Std.Refl.refl w
    | events => cases h
    | postings | retryJobs | dlq | notifications | audit | receipts | deferred | batches
    | checkpoints => exact touched_elsewhere (by simp [Op.log?]) (by simp [Op.log?]) a w
  | replace l entries =>
    cases l with
    | orders | events => cases h
    | postings | retryJobs | dlq | notifications | audit | receipts | deferred | batches
    | checkpoints => exact touched_elsewhere (by simp [Op.log?]) (by simp [Op.log?]) a w
  | ask q => exact Std.Refl.refl w
  | submit r => exact touched_elsewhere (by simp [Op.log?]) (by simp [Op.log?]) a w
  | openWallet | saveWallet => exact touched_elsewhere (by simp [Op.log?]) (by simp [Op.log?]) a w

/-- Every operation of the process concerns `x` only, whatever the responses are. -/
abbrev Concerns {ε α : Type} (x : String) (p : Proc ε α) : Prop :=
  Emits (Op.concerns x) (fun _ => True) p

theorem concerns_notify (orderId event : String) : Concerns x (notify orderId event) :=
  emits_notify (fun _ _ => trivial) (fun _ => trivial) orderId event

theorem concerns_auditRecord (entryType payload) : Concerns x (auditRecord sdk entryType payload none) :=
  emits_auditRecord sdk (fun _ _ => trivial) trivial (fun _ => trivial) entryType payload

theorem concerns_transition (order : PaymentOrder) (target) :
    Emits (Op.concerns x) (fun o => o.paymentOrderId=order.paymentOrderId)
      (order.transition target) := by
  unfold PaymentOrder.transition
  split
  · exact .call trivial fun _ => .done rfl
  · exact .fail _

section
variable {order : PaymentOrder} (signer : Option OrderSigner)

theorem concerns_askExcept {ε ε' α : Type} {q : Question} {r : q.Answer → Except ε α} {m : ε → ε'} :
    Concerns x (((ask q).bind fun a => (ofExcept (r a) : Proc ε α)).mapErr m) :=
  (emits_checked trivial).mapErr

theorem concerns_writeBatch (paymentOrderId fxRate legs) :
    Concerns x (writeBatch sdk paymentOrderId fxRate signer legs) :=
  emits_writeBatch sdk (fun _ _ => trivial) trivial (fun _ => trivial) _ _ _ _

theorem concerns_checked {α β : Type} (check) {g : α → Proc Error β} (h : ∀ a,Concerns x (g a)) :
    Concerns x ((ofExcept check : Proc Error α).bind g) :=
  (Emits.ofExcept check fun _ => trivial).bind fun a _ => h a

theorem concerns_appendOrderBatch (paymentOrderId amount currency fx) :
    Concerns x (appendOrderBatch sdk paymentOrderId amount currency fx signer) := by
  cases fx with
  | none => exact concerns_checked _ fun _ => concerns_writeBatch sdk signer _ _ _
  | some rate =>
    refine concerns_checked _ fun _ => ?_
    exact concerns_checked _ fun _ => concerns_writeBatch sdk signer _ _ _

theorem concerns_announceSettled (order payload) : Concerns x (announceSettled sdk order payload) :=
  (concerns_notify _ _).mapErr.bind fun _ _ =>
    (concerns_auditRecord sdk _ _).mapErr.bind fun _ _ => .done trivial

theorem concerns_journalAndSettle (h : order.paymentOrderId=x)
    (receipt receiptHash walletUpdated payload) :
    Concerns x (journalAndSettle sdk order signer receipt receiptHash walletUpdated payload) := by
  refine (concerns_appendOrderBatch sdk signer _ _ _ _).mapErr.bind fun _ _ => ?_
  refine (concerns_transition _ _).mapErr.bind fun o ho => ?_
  have hid : o.paymentOrderId=x := ho.trans h
  refine Emits.bind (R := fun _ => True) (Emits.mapErr (emits_appendLog hid)) fun _ _ => ?_
  rcases receiptHash with _ | hash
  · exact concerns_announceSettled sdk _ _
  have hrecord : Concerns x (recordReceiptHash o.paymentOrderId hash) :=
    .call trivial fun _ => emits_appendLog trivial
  exact hrecord.mapErr.bind fun _ _ => concerns_announceSettled sdk _ _

theorem concerns_settleWithReceipt (h : order.paymentOrderId=x) (bytes receipt duplicate payload) :
    Concerns x (settleWithReceipt sdk order signer bytes receipt duplicate payload) := by
  have hread : Concerns x (isReceiptSettled (sdk.sha3 bytes)) :=
    (emits_readLog trivial).bind fun _ _ => .done trivial
  refine hread.mapErr.bind fun settled _ => ?_
  cases settled with
  | true => exact .fail _
  | false =>
    exact concerns_journalAndSettle sdk signer h receipt (some (sdk.sha3 bytes)) false payload

theorem concerns_settleNative (h : order.paymentOrderId=x) (amount : ℕ) :
    Concerns x (settleNative sdk order amount signer) := by
  refine .call trivial fun answer => ?_
  match answer with
  | .error e => exact .fail _
  | .ok (.error e) => exact .fail _
  | .ok (.ok encoded) => exact concerns_journalAndSettle sdk signer h (.native encoded) none true _

theorem concerns_course {signer sent due p} (hcourse : RailCourse sdk order signer sent due p)
    (h : order.paymentOrderId=x) : Concerns x p := by
  induction hcourse with
  | refuse => exact .fail _
  | settle => exact concerns_settleWithReceipt sdk signer h _ _ _ _
  | ask _ _ ih | submit _ _ _ ih => exact .call trivial ih

theorem concerns_screen (order) : Concerns x (screen sdk order) := by
  refine concerns_askExcept.bind fun verdict _ => ?_
  cases verdict with
  | accept => exact .done trivial
  | flag reason => exact (concerns_auditRecord sdk _ _).mapErr
  | reject reason => exact .fail _

theorem concerns_settle (h : order.paymentOrderId=x) (config screened) :
    Concerns x (settle sdk config screened signer order) := by
  have hrail : ∀ m,Concerns x (settleOnRail sdk signer order m) := by
    intro m
    unfold settleOnRail
    split
    · exact concerns_settleNative sdk signer h _
    · exact concerns_course sdk course_settleHttp402 h
    · exact concerns_course sdk course_settleCard h
    · exact concerns_course sdk course_settleAch h
  unfold settle
  split
  · exact .fail _
  · cases screened with
    | true => exact (concerns_screen sdk order).bind fun _ _ => hrail _
    | false => exact hrail _

end

/-- The arithmetic on times stays in range, and the retry policy's cap is a positive
number of milliseconds. -/
def Op.timely : (op : Op) → op.Ans W → Bool
  | .ask (.deadline _),a => Option.isSome a
  | .ask (.expired _ _),a => Option.isSome a
  | .ask .config,.ok config => decide (0<wrap64 config.retry.capMs)
  | _,_ => true

def Attended (_ : World W) (op : Op) (a : op.Ans W) : Prop := op.works a=true ∧ op.timely a=true

instance decidableAttended (w : World W) (op : Op) (a : op.Ans W) : Decidable (Attended w op a) :=
  inferInstanceAs (Decidable (_ ∧ _))

theorem Attended.allowed {op a} (h : Attended w op a) : Allowed freeRules w op a :=
  ⟨h.1,fun _ _ => trivial,fun _ _ => trivial,fun _ => trivial⟩

theorem safe_readLog {α : Type} {I : World W → Prop} {Q : Outcome Error α → World W → Prop}
    {l : Log} {g : List l.Entry → Proc Error α} (hI : I w)
    (h : Safe handle Attended I Q (g (w.store.get l)) w) :
    Safe handle Attended I Q ((readLog l).bind g) w := by
  refine ⟨hI,fun a ha => ?_⟩
  cases a with
  | none => exact h
  | some e => cases ha.1

theorem safe_appendLog {α : Type} {I : World W → Prop} {Q : Outcome Error α → World W → Prop}
    {l entry} {g : Unit → Proc Error α} (hI : I w)
    (h : Safe handle Attended I Q (g ()) (w.push l entry)) :
    Safe handle Attended I Q ((appendLog l entry).bind g) w := by
  refine ⟨hI,fun a ha => ?_⟩
  cases a with
  | none => exact h
  | some e => cases ha.1

theorem nextBackoffMs_isSome {policy} (h : 0<wrap64 policy.capMs) (attempt retryAfterMs raw) :
    ∃ backoffMs,nextBackoffMs policy attempt retryAfterMs raw=some backoffMs := by
  unfold nextBackoffMs
  dsimp only
  rw [if_neg (by omega)]
  exact ⟨_,rfl⟩

/-- The process returns a value that meets `P`, and touches at most the order `x`. -/
abbrev OwnTurn {ε α : Type} (W : Type) (x : String) (P : α → Prop) (p : Proc ε α) : Prop :=
  Moves (handle (W := W)) Attended (Touched x) (fun o => ∃ a,o=.done a ∧ P a) p

section
variable {ε ε' α β : Type}
variable {P : α → Prop}

theorem OwnTurn.of_done {a} (h : P a) : OwnTurn W x P (.done a : Proc ε α) :=
  Moves.of_done a ⟨a,rfl,h⟩

theorem OwnTurn.then {R : Outcome ε β → Prop} {p : Proc ε α} {g : α → Proc ε β}
    (h : OwnTurn W x P p) (hg : ∀ a,P a → Moves (handle (W := W)) Attended (Touched x) R (g a)) :
    Moves (handle (W := W)) Attended (Touched x) R (p.bind g) := by
  apply Moves.bind h
  · rintro a ⟨a',ha,hP⟩
    cases ha
    exact hg a hP
  · rintro e ⟨a,ha,_⟩
    cases ha
  · rintro ⟨a,ha,_⟩
    cases ha

theorem QuietReturns.turn {p : Proc ε α} (h : QuietReturns W freeRules P p) (hp : Concerns x p) :
    OwnTurn W x P p := by
  have hmoves : Moves (handle (W := W)) Attended (Touched x) (fun _ => True) p :=
    (hp.moves fun _ a w hop _ => concerns_touched hop a w).mono fun _ _ => trivial
  refine (hmoves.and fun w => ?_).mono fun _ ho => ho.2
  exact ((h w).narrow fun _ _ _ ha => ha.allowed).mono (fun _ _ => trivial) fun _ _ _ hq => hq.1

theorem turn_ask (q : Question) :
    OwnTurn W x (fun a => Op.timely (W := W) (.ask q) a=true) (ask q : Proc ε q.Answer) :=
  fun w => ⟨Std.Refl.refl w,fun a ha => ⟨Std.Refl.refl w,⟨a,rfl,ha.2⟩,Std.Refl.refl w⟩⟩

theorem turn_appendLog {l entry} (h : Op.concerns x (.append l entry)) :
    OwnTurn W x (fun _ => True) (appendLog l entry) := by
  intro w
  refine ⟨Std.Refl.refl w,fun a ha => ?_⟩
  have htouched:=concerns_touched h a w
  cases a with
  | none => exact ⟨htouched,⟨(),rfl,trivial⟩,htouched⟩
  | some e => cases ha.1

variable {o : PaymentOrder}

theorem turn_updateOrder (h : o.paymentOrderId=x) : OwnTurn W x (fun _ => True) (updateOrder o) :=
  turn_appendLog h

theorem turn_transition {target} (h : o.status.canTransition target=true) :
    OwnTurn W x (fun o' => ∃ now,o'={ o with status := target,updatedAt := now })
      (o.transition target) :=
  (quiet_transition o target h).turn ((concerns_transition o target).mono (fun _ h => h)
    fun _ _ => trivial)

theorem turn_notify (orderId event : String) : OwnTurn W x (fun _ => True) (notify orderId event) :=
  (quiet_notify orderId event).turn (concerns_notify orderId event)

theorem turn_auditRecord (entryType payload) :
    OwnTurn W x (fun _ => True) (auditRecord sdk entryType payload none) :=
  (quiet_auditRecord sdk entryType payload).turn (concerns_auditRecord sdk entryType payload)

theorem turn_markFailed (hid : o.paymentOrderId=x) (hs : o.status.canTransition .failed=true)
    (reason : String) : OwnTurn W x (fun _ => True) (markFailed sdk o reason) := by
  refine (turn_transition hs).then ?_
  rintro _ ⟨now,rfl⟩
  refine (turn_updateOrder (o := o.refused now) hid).then fun _ _ => ?_
  refine (turn_ask .now).then fun _ _ => ?_
  refine (turn_appendLog (l := .dlq) trivial).then fun _ _ => ?_
  exact (turn_notify _ _).then fun _ _ => turn_auditRecord sdk _ _

theorem turn_scheduleRetry (hid : o.paymentOrderId=x) (hs : o.status.canTransition .failed=true)
    {policy} (hcap : 0<wrap64 policy.capMs) (reason retryAfterMs) :
    OwnTurn W x (fun _ => True) (scheduleRetry o reason policy retryAfterMs) := by
  unfold scheduleRetry
  split
  · exact OwnTurn.of_done trivial
  refine (turn_ask .random).then fun raw _ => ?_
  obtain ⟨backoffMs,hbackoff⟩ := nextBackoffMs_isSome hcap o.attempts retryAfterMs raw
  rw [hbackoff]
  refine (turn_ask (.deadline backoffMs)).then fun deadline hdeadline => ?_
  match deadline with
  | none => cases hdeadline
  | some deadline =>
    refine (turn_transition hs).then ?_
    rintro _ ⟨now,rfl⟩
    refine (turn_updateOrder (o := o.postponed now deadline) hid).then fun _ _ => ?_
    exact (turn_appendLog (l := .retryJobs) trivial).then fun _ _ => OwnTurn.of_done trivial

theorem turn_insertOrder (o) : OwnTurn W x (fun _ => True) (insertOrder o) := by
  intro w
  apply safe_readLog (Std.Refl.refl w)
  split
  next existing _ => exact ⟨Std.Refl.refl w,⟨_,rfl,trivial⟩,Std.Refl.refl w⟩
  next hfind =>
    have hfresh : latest w.store.orders o.paymentOrderId=none := by
      apply (latest_eq_none_iff _ _).2
      intro o' ho'
      have hne:=List.find?_eq_none.1 hfind o' ho'
      simpa using hne
    have htouched : Touched x w (w.push .orders o) := touched_push (.inr hfresh)
    exact safe_appendLog (Std.Refl.refl w) ⟨htouched,⟨_,rfl,trivial⟩,htouched⟩

theorem turn_insertPayout (o amount) (payload : String → Payload) :
    OwnTurn W x (fun _ => True) (insertPayout sdk o amount payload) := by
  refine (turn_ask .now).then fun now _ => ?_
  refine (turn_ask .uuid).then fun id _ => ?_
  exact (turn_insertOrder _).then fun _ _ => turn_auditRecord sdk _ _

theorem turn_applySettlementPreference (o config) :
    OwnTurn W x (fun _ => True) (applySettlementPreference sdk o config) := by
  unfold applySettlementPreference
  split
  · exact OwnTurn.of_done trivial
  · exact turn_insertPayout sdk _ _ _
  · split
    · exact OwnTurn.of_done trivial
    split
    · exact OwnTurn.of_done trivial
    · exact (turn_ask _).then fun amount _ => turn_insertPayout sdk _ _ _

def Unsettled (o : PaymentOrder) : Except (SettleOutcome × PaymentOrder) PaymentOrder → Prop
  | .ok _ => True
  | .error e => e.2=o

theorem turn_settle (hid : o.paymentOrderId=x) (hs : o.status=.executing)
    (config : PaymentsConfig) (screened : Bool) (signer : Option OrderSigner) :
    OwnTurn W x (Unsettled o) ((settle sdk config screened signer o).attempt : Proc Error _) := by
  apply Moves.attempt
  have hmoves : Moves (handle (W := W)) Attended (Touched x) (fun _ => True)
      (settle sdk config screened signer o) :=
    ((concerns_settle sdk signer hid config screened).moves
      fun _ a w hop _ => concerns_touched hop a w).mono fun _ _ => trivial
  refine (hmoves.and fun w => ?_).mono fun _ ho => ho.2
  -- how the attempt ends is read off the machine, started in the attempt itself
  have hreached : Reached freeRules (.attempt config o false,w.book) x w.book
      (.attempt config o false) w := ⟨Steps.refl _,Keeps.refl _ _⟩
  have hsafe:=(settle_follows sdk hreached hid hs screened signer).safe
  refine (hsafe.narrow fun _ _ _ ha => ha.allowed).mono (fun _ _ => trivial) ?_
  intro out w' _ hends
  match out with
  | .done o' => exact ⟨.ok o',rfl,trivial⟩
  | .fail (.retryable reason,o') => exact ⟨.error _,rfl,hends.1⟩
  | .fail (.terminal reason,o') => exact ⟨.error _,rfl,hends.1⟩
  | .fail (.requiresAction reason,o') => exact ⟨.error _,rfl,hends.1⟩
  | .panic => exact hends.elim

theorem turn_concludeOrder (hid : o.paymentOrderId=x) (hs : o.status=.executing) {config}
    (hcap : 0<wrap64 config.retry.capMs) {result} (hr : Unsettled o result) (tally) :
    OwnTurn W x (fun _ => True) (concludeOrder sdk config tally result) := by
  have hfail : o.status.canTransition .failed=true := by
    rw [hs]
    rfl
  have hpark : o.status.canTransition .requiresAction=true := by
    rw [hs]
    rfl
  match result with
  | .ok settled =>
    unfold concludeOrder
    dsimp only
    split
    · exact (turn_applySettlementPreference sdk settled config).then fun _ _ =>
        OwnTurn.of_done trivial
    · exact OwnTurn.of_done trivial
  | .error (.retryable reason,o') =>
    have ho : o'=o := hr
    subst ho
    refine (turn_scheduleRetry hid hfail hcap reason _).then fun scheduled _ => ?_
    cases scheduled with
    | true => exact OwnTurn.of_done trivial
    | false => exact (turn_markFailed sdk hid hfail reason).then fun _ _ => OwnTurn.of_done trivial
  | .error (.terminal reason,o') =>
    have ho : o'=o := hr
    subst ho
    exact (turn_markFailed sdk hid hfail reason).then fun _ _ => OwnTurn.of_done trivial
  | .error (.requiresAction reason,o') =>
    have ho : o'=o := hr
    subst ho
    refine (turn_transition hpark).then ?_
    rintro _ ⟨now,rfl⟩
    refine (turn_updateOrder (o := o'.parked now) hid).then fun _ _ => ?_
    refine (turn_notify _ _).then fun _ _ => ?_
    exact (turn_auditRecord sdk _ _).then fun _ _ => OwnTurn.of_done trivial

theorem turn_startOrder (hs : o.status.canTransition .executing=true) : OwnTurn W o.paymentOrderId
      (fun o' => o'.paymentOrderId=o.paymentOrderId ∧ o'.status=.executing)
      (startOrder o) := by
  refine (turn_transition hs).then ?_
  rintro _ ⟨now,rfl⟩
  refine (turn_ask .now).then fun since _ => ?_
  exact (turn_updateOrder (o := o.started now since) rfl).then fun _ _ => OwnTurn.of_done ⟨rfl,rfl⟩

end
end OriginTools.Payments
