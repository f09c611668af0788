import OriginTools.Payments.Quiet
import OriginTools.Payments.RailCourse

/-!
# Settling one order follows the life of an order

Every state that the settle functions pass through is the book of a state that the
abstract machine reaches, with the phase the code has got to.
-/

namespace OriginTools.Payments
open Process
variable {W : Type}

def Keeps (id : String) (b b' : Book) : Prop :=
  ∀ id',id'≠id → ∀ o,b.current id'=some o → b'.current id'=some o

theorem Keeps.refl (id b) : Keeps id b b := fun _ _ _ h => h

theorem Keeps.logged {id b b'} (h : Keeps id b b') {o} (ho : o.paymentOrderId=id) :
    Keeps id b (b'.logged o) := by
  intro id' hne x hx
  rw [Book.current_logged_ne _ (by rw [ho]; exact hne)]
  exact h id' hne x hx

theorem Keeps.logged_fresh {id b b'} (h : Keeps id b b') {o}
    (ho : b'.current o.paymentOrderId=none) : Keeps id b (b'.logged o) := by
  intro id' hne x hx
  have hcur:=h id' hne x hx
  have hid : id'≠o.paymentOrderId := by
    intro he
    rw [he,ho] at hcur
    cases hcur
  rw [Book.current_logged_ne _ hid]
  exact hcur

structure Reached (R : Rules) (a : Phase × Book) (id : String) (b₀ : Book) (ph : Phase)
    (w : World W) : Prop where
  steps : Steps R a (ph,w.book)
  keeps : Keeps id b₀ w.book

def OnCourse (R : Rules) (a : Phase × Book) (w : World W) : Prop := ∃ ph,Steps R a (ph,w.book)

structure Follows {ε α : Type} (R : Rules) (a : Phase × Book) (Q : Outcome ε α → World W → Prop)
    (p : Proc ε α) (w : World W) : Prop where
  safe : Safe handle (Allowed R) (OnCourse R a) Q p w

abbrev FollowsTo {ε α : Type} (R : Rules) (a : Phase × Book) (P : α → World W → Prop)
    (p : Proc ε α) (w : World W) : Prop :=
  Follows R a (fun out w' => ∃ x,out=.done x ∧ P x w') p w

section
variable {ε ε' α β : Type} {R : Rules} {a : Phase × Book} {id : String} {b₀ : Book}
variable {ph ph' : Phase} {w : World W}

theorem Reached.onCourse (h : Reached R a id b₀ ph w) : OnCourse R a w := ⟨ph,h.steps⟩

theorem Reached.congr {w' : World W} (h : Reached R a id b₀ ph w) (hb : w'.book=w.book) :
    Reached R a id b₀ ph w' :=
  ⟨hb ▸ h.steps,hb ▸ h.keeps⟩

theorem Reached.step {w' : World W} (h : Reached R a id b₀ ph w)
    (hs : Step R (ph,w.book) (ph',w'.book)) (hk : Keeps id b₀ w'.book) :
    Reached R a id b₀ ph' w' :=
  ⟨h.steps.step hs,hk⟩

theorem Reached.turn (h : Reached R a id b₀ ph w) (hs : Step R (ph,w.book) (ph',w.book)) :
    Reached R a id b₀ ph' w :=
  ⟨h.steps.step hs,h.keeps⟩

theorem Reached.done {Q x} (h : Reached R a id b₀ ph w) (hQ : Q (.done x) w) :
    Follows R a Q (.done x : Proc ε α) w :=
  ⟨h.onCourse,hQ⟩

theorem Reached.fail {Q e} (h : Reached R a id b₀ ph w) (hQ : Q (.fail e) w) :
    Follows R a Q (.fail e : Proc ε α) w :=
  ⟨h.onCourse,hQ⟩

theorem Reached.panic {Q} (h : Reached R a id b₀ ph w) (hQ : Q .panic w) :
    Follows R a Q (.panic : Proc ε α) w :=
  ⟨h.onCourse,hQ⟩

theorem Reached.quiet_bind_book {P : α → Prop} {Q : Outcome ε β → World W → Prop}
    {p : Proc ε α} {g : α → Proc ε β} (h : Reached R a id b₀ ph w) (hp : QuietReturns W R P p)
    (hg : ∀ x (w' : World W),P x → w'.book=w.book → Reached R a id b₀ ph w' →
      Follows R a Q (g x) w') : Follows R a Q (p.bind g) w := by
  constructor
  apply Returns.safe_bind (hp.returns fun w' hb => (h.congr hb).onCourse)
  intro x w' hx
  exact (hg x w' hx.1 hx.2 (h.congr hx.2)).safe

theorem Reached.quiet_bind {P : α → Prop} {Q : Outcome ε β → World W → Prop}
    {p : Proc ε α} {g : α → Proc ε β} (h : Reached R a id b₀ ph w) (hp : QuietReturns W R P p)
    (hg : ∀ x (w' : World W),P x → Reached R a id b₀ ph w' → Follows R a Q (g x) w') :
    Follows R a Q (p.bind g) w :=
  h.quiet_bind_book hp fun x w' hx _ h' => hg x w' hx h'

theorem Reached.quietEnds_bind {Q : Outcome ε β → World W → Prop}
    {p : Proc ε α} {g : α → Proc ε β} (h : Reached R a id b₀ ph w) (hp : QuietEnds W R p)
    (hg : ∀ x (w' : World W),Reached R a id b₀ ph w' → Follows R a Q (g x) w')
    (hfail : ∀ e (w' : World W),Reached R a id b₀ ph w' → Q (.fail e) w') :
    Follows R a Q (p.bind g) w := by
  constructor
  apply Leaves.safe_bind hp (fun w' hb => (h.congr hb).onCourse)
  · intro x w' _ hb
    exact (hg x w' (h.congr hb)).safe
  · intro e w' _ hb
    exact hfail e w' (h.congr hb)
  · intro w' hne _
    exact absurd rfl hne

theorem Reached.quietEnds_mapErr_bind {Q : Outcome ε' β → World W → Prop} {p} {m : ε → ε'}
    {g : α → Proc ε' β} (h : Reached R a id b₀ ph w) (hp : QuietEnds W R p)
    (hg : ∀ x (w' : World W),Reached R a id b₀ ph w' → Follows R a Q (g x) w')
    (hfail : ∀ e (w' : World W),Reached R a id b₀ ph w' → Q (.fail (m e)) w') :
    Follows R a Q ((p.mapErr m).bind g) w := by
  constructor
  apply Safe.bind
  apply Safe.mapErr
  apply Leaves.safe hp (fun _ hb => (h.congr hb).onCourse)
  intro o w' ho hb
  cases o with
  | done x => exact (hg x w' (h.congr hb)).safe
  | fail e => exact hfail e w' (h.congr hb)
  | panic => exact absurd rfl ho

theorem Follows.post {Q Q' : Outcome ε α → World W → Prop} {p : Proc ε α}
    (h : Follows R a Q p w) (hQ : ∀ o w',Q o w' → Q' o w') : Follows R a Q' p w :=
  ⟨h.safe.post fun o w' _ hq => hQ o w' hq⟩

theorem Follows.bind {Q : Outcome ε α → World W → Prop} {Q' : Outcome ε β → World W → Prop}
    {p : Proc ε α} {g : α → Proc ε β} (h : Follows R a Q p w)
    (hdone : ∀ x w',Q (.done x) w' → Follows R a Q' (g x) w')
    (hfail : ∀ e w',Q (.fail e) w' → Q' (.fail e) w')
    (hpanic : ∀ w',Q .panic w' → Q' .panic w') : Follows R a Q' (p.bind g) w := by
  constructor
  apply Safe.bind
  apply Safe.post h.safe
  intro o w' _ ho
  cases o with
  | done x => exact (hdone x w' ho).safe
  | fail e => exact hfail e w' ho
  | panic => exact hpanic w' ho

theorem Follows.mapErr_bind {Q : Outcome ε α → World W → Prop}
    {Q' : Outcome ε' β → World W → Prop} {p : Proc ε α} {m : ε → ε'} {g : α → Proc ε' β}
    (h : Follows R a Q p w) (hdone : ∀ x w',Q (.done x) w' → Follows R a Q' (g x) w')
    (hfail : ∀ e w',Q (.fail e) w' → Q' (.fail (m e)) w')
    (hpanic : ∀ w',Q .panic w' → Q' .panic w') : Follows R a Q' ((p.mapErr m).bind g) w := by
  constructor
  apply Safe.bind
  apply Safe.mapErr
  apply Safe.post h.safe
  intro o w' _ ho
  cases o with
  | done x => exact (hdone x w' ho).safe
  | fail e => exact hfail e w' ho
  | panic => exact hpanic w' ho

theorem FollowsTo.bind {P : α → World W → Prop} {Q : Outcome ε β → World W → Prop}
    {p : Proc ε α} {g : α → Proc ε β} (h : FollowsTo R a P p w)
    (hg : ∀ x w',P x w' → Follows R a Q (g x) w') : Follows R a Q (p.bind g) w :=
  ⟨Returns.safe_bind h.safe fun x w' hx => (hg x w' hx).safe⟩

theorem FollowsTo.mapErr {P : α → World W → Prop} {p : Proc ε α} {g : ε → ε'}
    (h : FollowsTo R a P p w) : FollowsTo R a P (p.mapErr g) w :=
  ⟨Returns.mapErr h.safe⟩

theorem follows_readLog {l : Log} {Q : Outcome Error β → World W → Prop}
    {g : List l.Entry → Proc Error β} (hw : OnCourse R a w)
    (hg : Follows R a Q (g (w.store.get l)) w) : Follows R a Q ((readLog l).bind g) w := by
  refine ⟨hw,fun ans ha => ?_⟩
  cases ans with
  | none => exact hg.safe
  | some e => cases ha.1

theorem followsTo_updateOrder (h : Reached R a id b₀ ph w) {o}
    (hs : Step R (ph,w.book) (ph',w.book.logged o)) (hid : o.paymentOrderId=id) :
    FollowsTo R a (fun _ w' => Reached R a id b₀ ph' w') (updateOrder o) w := by
  refine ⟨h.onCourse,fun ans ha => ?_⟩
  have h' : Reached R a id b₀ ph' (w.push .orders o) := h.step hs (h.keeps.logged hid)
  cases ans with
  | none => exact ⟨h'.onCourse,_,rfl,h'⟩
  | some e => cases ha.1

theorem followsTo_insert (h : Reached R a id b₀ ph w) {o}
    (hs : Step R (ph,w.book) (ph',w.book.logged o))
    (hfresh : w.book.current o.paymentOrderId=none) :
    FollowsTo R a (fun _ w' => Reached R a id b₀ ph' w') (appendLog .orders o) w := by
  refine ⟨h.onCourse,fun ans ha => ?_⟩
  have h' : Reached R a id b₀ ph' (w.push .orders o) := h.step hs (h.keeps.logged_fresh hfresh)
  cases ans with
  | none => exact ⟨h'.onCourse,_,rfl,h'⟩
  | some e => cases ha.1

theorem followsTo_appendPosting (h : Reached R a id b₀ ph w) {p}
    (hs : Step R (ph,w.book) (ph',w.book.posted p)) :
    FollowsTo R a (fun _ w' => Reached R a id b₀ ph' w') (appendLog .postings p) w := by
  refine ⟨h.onCourse,fun ans ha => ?_⟩
  have h' : Reached R a id b₀ ph' (w.push .postings p) := h.step hs h.keeps
  cases ans with
  | none => exact ⟨h'.onCourse,_,rfl,h'⟩
  | some e => cases ha.1

theorem followsTo_appendDlq {back o} (h : Reached R a id b₀ (.failing back o) w) {r}
    (hid : r.paymentOrderId=o.paymentOrderId) :
    FollowsTo R a (fun _ w' => Reached R a id b₀ (Phase.back back) w') (appendLog .dlq r) w := by
  refine ⟨h.onCourse,fun ans ha => ?_⟩
  have h' : Reached R a id b₀ (Phase.back back) (w.push .dlq r) :=
    h.step (Step.bury hid (ha.2.1 r.paymentOrderId rfl)) h.keeps
  cases ans with
  | none => exact ⟨h'.onCourse,_,rfl,h'⟩
  | some e => cases ha.1

theorem followsTo_submit {config o} (h : Reached R a id b₀ (.attempt config o false) w)
    (hg : (settleGate config o).isOk) {r} (hid : r.orderId=o.paymentOrderId) :
    FollowsTo R a (fun _ w' => Reached R a id b₀ (.attempt config o true) w')
      (submit r : Proc ε r.Answer) w := by
  refine ⟨h.onCourse,fun ans _ => ?_⟩
  have hbook : (handle (.submit r) ans w).2.book=w.book.requested r := by
    simp only [World.book,Book.requested,handle_submit_requests,handle_submit_store]
  have h' : Reached R a id b₀ (.attempt config o true) (handle (.submit r) ans w).2 :=
    h.step (hbook ▸ Step.submit hg hid) (hbook ▸ h.keeps)
  exact ⟨h'.onCourse,_,rfl,h'⟩

variable {config : PaymentsConfig} {o : PaymentOrder}

/-- A signature that fails is one that the rules let cut a batch short. -/
def SignEnds (R : Rules) (a : Phase × Book) (id : String) (b₀ : Book) (ph : Phase)
    (body : PostingBody) : Outcome Error LedgerPosting → World W → Prop
  | .done p,w => p.toPostingBody=body ∧ Reached R a id b₀ ph w
  | .fail _,w => R.cut w.book ∧ Reached R a id b₀ ph w
  | .panic,_ => False

variable (sdk : PaySdk)

theorem signPosting_follows (h : Reached R a id b₀ ph w) (body signer) :
    Follows R a (SignEnds R a id b₀ ph body) (signPosting sdk body signer) w := by
  rcases signer with _ | keys
  · exact h.done ⟨rfl,h⟩
  refine ⟨h.onCourse,fun ans ha => ?_⟩
  cases ans with
  | ok signature => exact ⟨h.onCourse,rfl,h⟩
  | error e => exact ⟨h.onCourse,ha.2.2.2 rfl,h⟩

/-- How the batch of an order ends: written, or cut off with the attempt still open. -/
def BatchEnds (R : Rules) (a : Phase × Book) (id : String) (b₀ : Book) (config : PaymentsConfig)
    (o : PaymentOrder) (batch : α → String) : Outcome Error α → World W → Prop
  | .done x,w => Reached R a id b₀ (.posting config o (batch x)) w
  | .fail _,w => Reached R a id b₀ (.attempt config o true) w
  | .panic,_ => False

variable {fx : Option FxRate} {signer : Option OrderSigner}

theorem appendLeg_follows {Q : Outcome Error Unit → World W → Prop} {batchId ts leg legs prev}
    (h : Reached R a id b₀ ph w)
    (hpost : ∀ (b : Book) (p : LedgerPosting),p.paymentOrderId=o.paymentOrderId →
      p.batchId=batchId → Step R (ph,b) (.posting config o batchId,b.posted p))
    (hrest : ∀ prev w',Reached R a id b₀ (.posting config o batchId) w' →
      Follows R a Q (appendLegs sdk batchId o.paymentOrderId ts fx signer legs prev) w')
    (hcut : ∀ e w',R.cut w'.book → Reached R a id b₀ ph w' → Q (.fail e) w') :
    Follows R a Q (appendLegs sdk batchId o.paymentOrderId ts fx signer (leg::legs) prev) w := by
  apply h.quiet_bind (quiet_ask .uuid)
  intro postingId w' _ h'
  apply (signPosting_follows sdk h' _ signer).bind
  · intro p w'' hout
    obtain ⟨hbody,hp⟩ := hout
    have hid : p.paymentOrderId=o.paymentOrderId := by rw [hbody]
    have hbatch : p.batchId=batchId := by rw [hbody]
    apply (followsTo_appendPosting hp (hpost _ p hid hbatch)).bind
    intro _ w₃ h₃
    exact hrest _ w₃ h₃
  · intro e w'' hout
    exact hcut e w'' hout.1 hout.2
  · intro w'' hout
    exact hout.elim

theorem appendLegs_follows {batchId ts} (legs : List CurrencyLeg) (prev : Bytes) (w : World W)
    (h : Reached R a id b₀ (.posting config o batchId) w) :
    Follows R a (BatchEnds R a id b₀ config o fun _ => batchId)
      (appendLegs sdk batchId o.paymentOrderId ts fx signer legs prev) w := by
  induction legs generalizing prev w with
  | nil => exact h.done h
  | cons leg legs ih =>
    apply appendLeg_follows sdk h
    · intro b p hid hbatch
      subst hbatch
      exact Step.postMore hid
    · exact ih
    · intro e w' hcut h'
      exact h'.turn (Step.cut hcut)

theorem writeBatch_follows (leg : CurrencyLeg) (legs : List CurrencyLeg)
    (h : Reached R a id b₀ (.attempt config o true) w) :
    Follows R a (BatchEnds R a id b₀ config o fun batchId => batchId)
      (writeBatch sdk o.paymentOrderId fx signer (leg::legs)) w := by
  apply h.quiet_bind (quiet_ask .uuid)
  intro batchId w₁ _ h₁
  apply h₁.quiet_bind (quiet_ask .now)
  intro ts w₂ _ h₂
  have hhead : QuietReturns W R (fun _ => True) (journalHead sdk) :=
    (quiet_readLog .postings).bind fun _ _ => QuietReturns.of_done trivial
  apply h₂.quiet_bind hhead
  intro prev w₃ _ h₃
  have hlegs : Follows R a (BatchEnds R a id b₀ config o fun _ => batchId)
      (appendLegs sdk batchId o.paymentOrderId ts fx signer (leg::legs) prev) w₃ := by
    apply appendLeg_follows sdk h₃
    · intro b p hid hbatch
      subst hbatch
      exact Step.post hid
    · exact fun prev w' h' => appendLegs_follows sdk legs prev w' h'
    · exact fun e w' _ h' => h'
  apply hlegs.bind
  · intro _ w' h'
    exact Reached.done h' h'
  · exact fun e w' h' => h'
  · exact fun w' h' => h'

theorem checked_follows {check} {g : α → Proc Error String}
    (h : Reached R a id b₀ (.attempt config o true) w)
    (hg : ∀ x (w' : World W),Reached R a id b₀ (.attempt config o true) w' →
      Follows R a (BatchEnds R a id b₀ config o fun batchId => batchId) (g x) w') :
    Follows R a (BatchEnds R a id b₀ config o fun batchId => batchId) ((ofExcept check).bind g) w :=
  h.quietEnds_bind (quiet_ofExcept check) hg fun _ _ h' => h'

theorem appendOrderBatch_follows (amount currency fx signer)
    (h : Reached R a id b₀ (.attempt config o true) w) :
    Follows R a (BatchEnds R a id b₀ config o fun batchId => batchId)
      (appendOrderBatch sdk o.paymentOrderId amount currency fx signer) w := by
  cases fx with
  | none =>
    rw [appendOrderBatch,appendBatch,bind_eq]
    refine checked_follows h fun _ w' h' => ?_
    exact writeBatch_follows sdk ⟨.debit,amount,currency⟩ [⟨.credit,amount,currency⟩] h'
  | some rate =>
    rw [appendOrderBatch,bind_eq]
    refine checked_follows h fun toAmount w' h' => ?_
    rw [appendFxBatch,bind_eq]
    refine checked_follows h' fun _ w'' h'' => ?_
    exact writeBatch_follows sdk _ _ h''

/-- How a settle function may leave the machine: settled and back in the pass, or
with the order's attempt still open and the order unchanged. An action is awaited
only after a request; a retry is asked for only past the gate. -/
def SettleEnds (R : Rules) (a : Phase × Book) (id : String) (b₀ : Book) (config : PaymentsConfig)
    (o : PaymentOrder) :
    Outcome (SettleOutcome × PaymentOrder) PaymentOrder → World W → Prop
  | .done _,w => Reached R a id b₀ (.pass config) w
  | .fail (.requiresAction _,o'),w => o'=o ∧ Reached R a id b₀ (.attempt config o true) w
  | .fail (.terminal _,o'),w => o'=o ∧ ∃ sent,Reached R a id b₀ (.attempt config o sent) w
  | .fail (.retryable _,o'),w =>
      o'=o ∧ (settleGate config o).isOk ∧ ∃ sent,Reached R a id b₀ (.attempt config o sent) w
  | .panic,_ => False

variable {sent : Bool}

theorem settleEnds_terminal (h : Reached R a id b₀ (.attempt config o sent) w) (reason : String) :
    SettleEnds R a id b₀ config o (.fail (.terminal reason,o)) w :=
  ⟨rfl,sent,h⟩

theorem settleEnds_refusal (h : Reached R a id b₀ (.attempt config o sent) w)
    (hg : (settleGate config o).isOk) {refusal} (hr : refusal.IsRefusal) :
    SettleEnds R a id b₀ config o (.fail (refusal,o)) w := by
  cases refusal with
  | retryable reason => exact ⟨rfl,hg,sent,h⟩
  | terminal reason => exact ⟨rfl,sent,h⟩
  | requiresAction reason => exact hr.elim

theorem terminal_follows (h : Reached R a id b₀ (.attempt config o sent) w) (reason : String) :
    Follows R a (SettleEnds R a id b₀ config o) (terminal o reason : Attempt PaymentOrder) w :=
  h.fail (settleEnds_terminal h reason)

theorem announceSettled_follows (o' payload) (h : Reached R a id b₀ (.pass config) w) :
    Follows R a (SettleEnds R a id b₀ config o) (announceSettled sdk o' payload) w := by
  apply h.quiet_bind (quiet_notify _ _).mapErr
  intro _ w₁ _ h₁
  apply h₁.quiet_bind (quiet_auditRecord sdk _ _).mapErr
  intro _ w₂ _ h₂
  exact h₂.done h₂

theorem journalAndSettle_follows (h : Reached R a id b₀ (.attempt config o true) w)
    (hid : o.paymentOrderId=id) (hs : o.status=.executing)
    (signer receipt receiptHash walletUpdated payload) :
    Follows R a (SettleEnds R a id b₀ config o)
      (journalAndSettle sdk o signer receipt receiptHash walletUpdated payload) w := by
  have hbatch:=appendOrderBatch_follows sdk o.amount o.currency o.fx signer h
  apply hbatch.mapErr_bind
  · intro batchId w₁ h₁
    have hlegal : ({ o with receipt := some receipt } : PaymentOrder).status.canTransition
        .success=true := by
      show o.status.canTransition .success=true
      rw [hs]
      rfl
    apply Reached.quiet_bind h₁ (quiet_transition _ .success hlegal).mapErr
    rintro _ w₂ ⟨now,rfl⟩ h₂
    have hstep : Step R (.posting config o batchId,w₂.book)
        (.pass config,w₂.book.logged (o.settled now receipt walletUpdated)) := Step.settle
    apply (followsTo_updateOrder h₂ hstep hid).mapErr.bind
    intro _ w₃ h₃
    rcases receiptHash with _ | hash
    · exact announceSettled_follows sdk _ _ h₃
    apply h₃.quiet_bind (quiet_recordReceiptHash _ _).mapErr
    intro _ w₄ _ h₄
    exact announceSettled_follows sdk _ _ h₄
  · exact fun e w' h' => settleEnds_terminal h' _
  · exact fun w' h' => h'

theorem settleWithReceipt_follows (h : Reached R a id b₀ (.attempt config o true) w)
    (hid : o.paymentOrderId=id) (hs : o.status=.executing)
    (signer bytes receipt duplicate payload) :
    Follows R a (SettleEnds R a id b₀ config o)
      (settleWithReceipt sdk o signer bytes receipt duplicate payload) w := by
  apply h.quiet_bind (quiet_isReceiptSettled _).mapErr
  intro settled w' _ h'
  cases settled with
  | true => exact terminal_follows h' duplicate
  | false =>
    exact journalAndSettle_follows sdk h' hid hs signer receipt (some (sdk.sha3 bytes)) false payload

theorem settleNative_follows (h : Reached R a id b₀ (.attempt config o false) w)
    (hid : o.paymentOrderId=id) (hs : o.status=.executing) (hg : (settleGate config o).isOk)
    (amount signer) :
    Follows R a (SettleEnds R a id b₀ config o) (settleNative sdk o amount signer) w := by
  apply (followsTo_submit h hg (r := .pay o.paymentOrderId _) rfl).bind
  intro answer w' h'
  match answer with
  | .error e => exact h'.fail ⟨rfl,hg,true,h'⟩
  | .ok (.error e) => exact terminal_follows h' _
  | .ok (.ok encoded) => exact journalAndSettle_follows sdk h' hid hs signer _ _ _ _

theorem course_follows {due p} (hcourse : RailCourse sdk o signer sent due p)
    (h : Reached R a id b₀ (.attempt config o sent) w) (hid : o.paymentOrderId=id)
    (hs : o.status=.executing) (hg : (settleGate config o).isOk) :
    Follows R a (SettleEnds R a id b₀ config o) p w := by
  induction hcourse generalizing w with
  | @refuse sent out hout =>
    rcases hout with rfl | hrefusal
    · cases out with
      | requiresAction reason => exact h.fail ⟨rfl,h⟩
      | terminal reason => exact terminal_follows h reason
      | retryable reason => exact h.fail ⟨rfl,hg,true,h⟩
    · exact h.fail (settleEnds_refusal h hg hrefusal)
  | settle => exact settleWithReceipt_follows sdk h hid hs signer _ _ _ _
  | @ask sent due q next _ _ ih => exact h.quiet_bind (quiet_ask q) fun answer w' _ h' => ih answer h'
  | submit _ horder _ ih => exact (followsTo_submit h hg horder).bind fun answer w' h' => ih answer h'

theorem screen_follows (h : Reached R a id b₀ (.attempt config o false) w) :
    Follows R a (fun out w' => match out with
        | .done _ => Reached R a id b₀ (.attempt config o false) w'
        | .fail e => SettleEnds R a id b₀ config o (.fail e) w'
        | .panic => False) (screen sdk o) w := by
  refine h.quietEnds_mapErr_bind (quietEnds_ask fun r => quiet_ofExcept r) ?_
    fun e _ h' => settleEnds_terminal h' _
  intro verdict w₁ h₁
  match verdict with
  | .accept => exact h₁.done h₁
  | .reject reason => exact h₁.fail (settleEnds_terminal h₁ _)
  | .flag reason =>
    constructor
    apply Leaves.safe (quiet_auditRecord sdk _ _).mapErr (fun _ hb => (h₁.congr hb).onCourse)
    rintro out w₂ ⟨_,rfl,_⟩ hb
    exact h₁.congr hb

theorem settleOnRail_follows (h : Reached R a id b₀ (.attempt config o false) w)
    (hid : o.paymentOrderId=id) (hs : o.status=.executing) (hg : (settleGate config o).isOk)
    (signer amountMinor) :
    Follows R a (SettleEnds R a id b₀ config o) (settleOnRail sdk signer o amountMinor) w := by
  unfold settleOnRail
  cases o.rail.getD .native with
  | native => exact settleNative_follows sdk h hid hs hg _ signer
  | http402 => exact course_follows sdk course_settleHttp402 h hid hs hg
  | card => exact course_follows sdk course_settleCard h hid hs hg
  | ach => exact course_follows sdk course_settleAch h hid hs hg

theorem settle_follows (h : Reached R a id b₀ (.attempt config o false) w)
    (hid : o.paymentOrderId=id) (hs : o.status=.executing) (screened signer) :
    Follows R a (SettleEnds R a id b₀ config o) (settle sdk config screened signer o) w := by
  unfold settle
  split
  next reason hgate => exact terminal_follows h reason
  next amountMinor hgate =>
    have hg : (settleGate config o).isOk := by
      rw [hgate]
      rfl
    cases screened with
    | false => exact settleOnRail_follows sdk h hid hs hg signer amountMinor
    | true =>
      apply (screen_follows sdk h).bind
      · exact fun _ w' h' => settleOnRail_follows sdk h' hid hs hg signer amountMinor
      · exact fun e w' h' => h'
      · exact fun w' h' => h'

end
end OriginTools.Payments
