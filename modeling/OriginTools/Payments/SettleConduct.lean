import OriginTools.Payments.Conduct

/-!
# How an order is settled, seen from the process

The settling of the order at hand ends in one of three ways: with the order settled
and nothing owed; with the order given back as it was, at rest; or with a `SUCCESS`
order that cannot be marked as failed, after which the pass goes no further.
-/

namespace OriginTools.Payments
open Process
variable (sdk : PaySdk)

def Sight.postedAll (g : Sight) (ps : List LedgerPosting) : Sight :=
  { g with work := { g.work with posted := g.work.posted++ps } }

theorem Sight.Calmer.postedAll {g g' : Sight} (h : g.Calmer g') (ps) :
    (g.postedAll ps).Calmer (g'.postedAll ps) where
  work := by simp only [Sight.postedAll,h.work]
  view := h.view
  torn := h.torn

theorem Sight.postedAll_nil (g : Sight) : g.postedAll []=g := by
  simp [Sight.postedAll]

theorem Sight.posted_postedAll (g : Sight) (p ps) :
    (g.posted p).postedAll ps=g.postedAll (p::ps) := by
  simp [Sight.postedAll,Sight.posted]

theorem Sight.postedAll_keeps {g g' : Sight} {ps} (h : (g.postedAll ps).Calmer g') (id : String) :
    g.Keeps id g' :=
  ⟨fun _ _ ho => h.holds ho,h.torn⟩

theorem signPosting_sighted (body signer) (g : Sight) :
    Sighted sdk (fun out g' => g.Calmer g' ∧ ∀ p,out=.done p → p.toPostingBody=body)
      (signPosting sdk body signer) g := by
  cases signer with
  | none =>
    refine ⟨Sight.Calmer.refl g,?_⟩
    rintro p ⟨⟩
    rfl
  | some keys =>
    refine ⟨trivial,fun answer => ?_⟩
    have hg : g.Calmer (g.note sdk (.ask (.sign keys (sdk.postingJson body))) answer) :=
      note_calm sdk rfl g answer
    cases answer with
    | error e => exact ⟨hg,nofun⟩
    | ok signature =>
      refine ⟨hg,?_⟩
      rintro p ⟨⟩
      rfl

def PostEnds {α : Type} (plan : BatchPlan) (g : Sight) (written : α → String)
    (out : Outcome Error α) (g' : Sight) : Prop :=
  ∃ ps,(g.postedAll ps).Calmer g' ∧ ∀ a,out=.done a → plan.Written (written a) ps

section
variable {g g' : Sight} {order : PaymentOrder} {plan : BatchPlan}

theorem postEnds_stopped {α : Type} {written} {out : Outcome Error α} (hg : g.Calmer g')
    (hno : ∀ a,out≠.done a) : PostEnds plan g written out g' := by
  refine ⟨[],?_,fun a ha => absurd ha (hno a)⟩
  rw [Sight.postedAll_nil]
  exact hg

theorem appendLegs_sighted (batchId ts legs prev)
    (horder : g.work.order=some order) (hexec : order.status=.executing)
    (hid : plan.paymentOrderId=order.paymentOrderId) :
    Sighted sdk (PostEnds { plan with legs := legs } g fun _ : Unit => batchId)
      (appendLegs sdk batchId plan.paymentOrderId ts plan.fxRate plan.signer legs prev) g := by
  induction legs generalizing prev g with
  | nil =>
    refine ⟨[],?_,fun _ _ => ⟨rfl,by simp⟩⟩
    rw [Sight.postedAll_nil]
    exact Sight.Calmer.refl g
  | cons leg legs ih =>
    unfold appendLegs
    refine ask_sighted sdk fun postingId g₁ h₁ => ?_
    apply (signPosting_sighted sdk _ plan.signer g₁).bind
    · intro p g₂ h₂
      have hbody:=h₂.2 p rfl
      have hcalm:=h₁.trans h₂.1
      refine ⟨⟨order,by rw [hcalm.work]; exact horder,hexec,by rw [hbody]; exact hid⟩,fun r => ?_⟩
      cases r with
      | error e => exact postEnds_stopped hcalm (Outcome.fail_ne_done e)
      | ok u =>
        have horder' : (g₂.posted p).work.order=some order := by
          show g₂.work.order=some order
          rw [hcalm.work]
          exact horder
        apply (ih (postingHash sdk p) horder').post
        intro out g₃ hend
        obtain ⟨ps,hps,hwritten⟩ := hend
        refine ⟨p::ps,?_,?_⟩
        · rw [Sight.posted_postedAll] at hps
          exact (hcalm.postedAll _).trans hps
        · intro a ha
          refine (hwritten a ha).cons ?_ ?_
          · rw [LedgerPosting.leg,hbody]
          · rw [hbody]
            exact ⟨rfl,rfl,rfl⟩
    · exact fun e g₂ h₂ => postEnds_stopped (h₁.trans h₂.1) (Outcome.fail_ne_done e)
    · exact fun g₂ h₂ => postEnds_stopped (h₁.trans h₂.1) Outcome.panic_ne_done

theorem write_sighted (horder : g.work.order=some order)
    (hexec : order.status=.executing) (hid : plan.paymentOrderId=order.paymentOrderId) :
    Sighted sdk (PostEnds plan g fun batchId => batchId) (plan.write sdk) g := by
  refine ask_sighted sdk fun batchId g₁ h₁ => ask_sighted sdk fun ts g₂ h₂ => ?_
  have hcalm:=h₁.trans h₂
  have hhead : Mild (journalHead sdk) := (mild_readLog rfl).bind fun _ _ => .done trivial
  apply (hhead.sighted sdk g₂).bind
  · intro prev g₃ h₃
    have hcalm₃:=hcalm.trans h₃
    apply Watched.bind (appendLegs_sighted sdk batchId ts plan.legs prev
      (by rw [hcalm₃.work]; exact horder) hexec hid)
    · intro _ g₄ hend
      obtain ⟨ps,hps,hwritten⟩ := hend
      refine ⟨ps,(hcalm₃.postedAll ps).trans hps,?_⟩
      rintro a ⟨⟩
      exact hwritten () rfl
    · intro e g₄ hend
      obtain ⟨ps,hps,_⟩ := hend
      exact ⟨ps,(hcalm₃.postedAll ps).trans hps,nofun⟩
    · intro g₄ hend
      obtain ⟨ps,hps,_⟩ := hend
      exact ⟨ps,(hcalm₃.postedAll ps).trans hps,nofun⟩
  · exact fun e g₃ h₃ => postEnds_stopped (hcalm.trans h₃) nofun
  · exact fun g₃ h₃ => postEnds_stopped (hcalm.trans h₃) nofun

end

structure Sight.Begun (g : Sight) (order : PaymentOrder) : Prop where
  atHand : g.work.order=some order
  executing : order.status=.executing
  posted : g.work.posted=[]
  owed : g.work.owed=none
  holds : g.Holds order

def AttemptEnds (order : PaymentOrder) (g : Sight) :
    Outcome (SettleOutcome × PaymentOrder) PaymentOrder → Sight → Prop
  | .done _,g' => g.Turned order.paymentOrderId g'
  | .fail (out,o),g' => (o=order ∧ g.Turned order.paymentOrderId g' ∧ g'.Holds order) ∨
      (o.status=.success ∧ ∃ reason,out=.terminal reason)
  | .panic,_ => True

section
variable {g g' : Sight} {order : PaymentOrder} {signer : Option OrderSigner}

theorem Sight.Begun.calm (h : g.Begun order) (hg : g.Calmer g') : g'.Begun order where
  atHand := by rw [hg.work]; exact h.atHand
  executing := h.executing
  posted := by rw [hg.work]; exact h.posted
  owed := by rw [hg.work]; exact h.owed
  holds := hg.holds h.holds

theorem AttemptEnds.keeps (hg : g.Keeps order.paymentOrderId g') {out g''}
    (h : AttemptEnds order g' out g'') : AttemptEnds order g out g'' := by
  cases out with
  | done o => exact hg.turned h
  | fail e =>
    rcases h with ⟨ho,hturn,hh⟩ | h
    · exact .inl ⟨ho,hg.turned hturn,hh⟩
    · exact .inr h
  | panic => trivial

theorem Sight.Begun.gaveBack (h : g.Begun order) (hg : g.Calmer g') (out) :
    AttemptEnds order g (.fail (out,order)) g' :=
  .inl ⟨rfl,hg.turned h.owed,(h.calm hg).holds⟩

theorem orTerminal_sighted {α β : Type} {p} (hp : Mild p) (o) {f : α → Attempt β}
    {Q : Outcome (SettleOutcome × PaymentOrder) β → Sight → Prop}
    (hdone : ∀ a g',g.Calmer g' → Sighted sdk Q (f a) g')
    (hfail : ∀ reason g',g.Calmer g' → Q (.fail (.terminal reason,o)) g')
    (hpanic : ∀ g',g.Calmer g' → Q .panic g') : Sighted sdk Q ((orTerminal o p).bind f) g := by
  have hmapped : Sighted sdk (fun out g' => g.Calmer g' ∧
      ∀ e,out=.fail e → ∃ reason,e=(.terminal reason,o)) (orTerminal o p) g := by
    apply Watched.mapErr
    apply (hp.sighted sdk g).post
    intro out g' hg
    refine ⟨hg,fun e he => ?_⟩
    cases out with
    | done | panic => cases he
    | fail e' =>
      cases he
      exact ⟨_,rfl⟩
  apply hmapped.bind
  · exact fun a g' h => hdone a g' h.1
  · intro e g' h
    obtain ⟨reason,rfl⟩ := h.2 e rfl
    exact hfail reason g' h.1
  · exact fun g' h => hpanic g' h.1

theorem announceSettled_sighted {o} (hs : o.status=.success) {g₀}
    (h : g₀.Turned order.paymentOrderId g) (payload) :
    Sighted sdk (AttemptEnds order g₀) (announceSettled sdk o payload) g := by
  apply orTerminal_sighted sdk (side_notify _ _).mild
  · intro _ g₁ h₁
    apply orTerminal_sighted sdk (side_auditRecord sdk _ _).mild
    · exact fun _ g₂ h₂ => h.keeps.turned ((h₁.trans h₂).turned h.rest)
    · exact fun reason _ _ => .inr ⟨hs,reason,rfl⟩
    · exact fun _ _ => trivial
  · exact fun reason _ _ => .inr ⟨hs,reason,rfl⟩
  · exact fun _ _ => trivial

variable {plan : BatchPlan}

theorem plan_orderId (h : (batchCall order signer).plan=.ok plan) :
    plan.paymentOrderId=order.paymentOrderId := by
  unfold batchCall at h
  generalize order.fx=fx at h
  cases fx with
  | none =>
    simp only [JournalCall.plan] at h
    obtain ⟨_,_,rfl⟩ := map_eq_ok h
    rfl
  | some rate =>
    simp only [JournalCall.plan] at h
    obtain ⟨toAmount,_,h⟩ := bind_eq_ok h
    obtain ⟨_,_,rfl⟩ := map_eq_ok h
    rfl

variable {receipt : RailReceipt}

theorem Sight.Begun.earned (h : g.Begun order)
    (hplan : (batchCall order signer).plan=.ok plan) {batchId ps}
    (hwritten : plan.Written batchId ps) (hg : (g.postedAll ps).Calmer g')
    (hfresh : ∀ bytes,receipt.bytes=some bytes →
      ∃ rs,g.work.receipts=some rs ∧ ∀ r∈rs,r.hash≠sdk.sha3 bytes) (now walletUpdated) :
    g'.work.Earned sdk order (order.settled now receipt walletUpdated) := by
  rw [hg.work]
  refine ⟨h.atHand,h.executing,⟨now,receipt,walletUpdated,rfl⟩,?_,hfresh,h.owed⟩
  refine ⟨signer,plan,batchId,hplan,?_⟩
  have hall : (g.postedAll ps).work.posted=ps := by
    simp only [Sight.postedAll,h.posted,List.nil_append]
  rw [hall]
  exact hwritten

theorem recordReceipt_sighted {o} (hs : o.status=.success) {g₀}
    (hk : g₀.Keeps order.paymentOrderId g) {hash} (howed : g.work.owed=some hash)
    (payload : Payload) :
    Sighted sdk (AttemptEnds order g₀)
      ((orTerminal o (recordReceiptHash o.paymentOrderId hash)).bind fun _ =>
        announceSettled sdk o payload) g := by
  refine ⟨trivial,fun now => ⟨trivial,fun r => ?_⟩⟩
  rcases r with e | u
  · exact .inr ⟨hs,_,rfl⟩
  apply announceSettled_sighted sdk hs ?_ payload
  have hrecorded : g.Keeps order.paymentOrderId (g.recorded ⟨o.paymentOrderId,hash,now⟩) :=
    ⟨fun _ _ ho => ho,fun _ ht => ht⟩
  refine ⟨?_,hk.trans hrecorded⟩
  show (if g.work.owed=some hash then none else _)=none
  rw [howed,if_pos rfl]

theorem settledSnapshot_sighted (h : g.Begun order)
    (hplan : (batchCall order signer).plan=.ok plan) {batchId : String} {ps : List LedgerPosting}
    (hwritten : plan.Written batchId ps) (hg : (g.postedAll ps).Calmer g')
    (hfresh : ∀ bytes,receipt.bytes=some bytes →
      ∃ rs,g.work.receipts=some rs ∧ ∀ r∈rs,r.hash≠sdk.sha3 bytes) (walletUpdated : Bool)
    {f : PaymentOrder → Attempt PaymentOrder} (hf : ∀ now g'',g.Keeps order.paymentOrderId g'' →
      g''.work.owed=receipt.bytes.map sdk.sha3 →
      Sighted sdk (AttemptEnds order g)
        (f { order with receipt := some receipt,status := .success,updatedAt := now }) g'') :
    Sighted sdk (AttemptEnds order g) ((orTerminal { order with receipt := some receipt }
        (PaymentOrder.transition { order with receipt := some receipt } .success)).bind fun o =>
        (orTerminal { o with ledgerUpdated := true,walletUpdated := walletUpdated }
          (updateOrder { o with ledgerUpdated := true,walletUpdated := walletUpdated })).bind
          fun _ => f o) g' := by
  have hlegal : ({ order with receipt := some receipt } : PaymentOrder).status.canTransition
      .success=true := by
    show order.status.canTransition .success=true
    rw [h.executing]
    rfl
  unfold PaymentOrder.transition
  rw [if_pos hlegal]
  refine ⟨trivial,fun now => ?_⟩
  have hnow : g'.Calmer (g'.note sdk (.ask .now) now) := note_calm sdk rfl g' now
  have hcalm:=hg.trans hnow
  have hholds : (g'.note sdk (.ask .now) now).Holds order := hcalm.holds h.holds
  refine ⟨⟨?_,fun _ => ⟨order,?_⟩⟩,fun r => ?_⟩
  · refine hholds.legal rfl ?_
    rw [h.executing]
    rfl
  · exact h.earned sdk hplan hwritten hcalm hfresh now walletUpdated
  · rcases r with e | u
    · exact .inr ⟨rfl,_,rfl⟩
    refine hf now _ ?_ rfl
    exact (Sight.postedAll_keeps hcalm _).trans
      (Sight.wrote_keeps sdk _ (order.settled now receipt walletUpdated))

theorem journal_sighted (h : g.Begun order) {signer}
    (hplan : (batchCall order signer).plan=.ok plan) :
    Sighted sdk (fun out g' => ∃ ps,(g.postedAll ps).Calmer g' ∧
      (∀ batchId,out=.done batchId → plan.Written batchId ps) ∧ ∀ e,out=.fail e → e.2=order)
      (orTerminal order (plan.write sdk)) g := by
  apply Watched.mapErr
  apply (write_sighted sdk h.atHand h.executing (plan_orderId hplan)).post
  intro out g' hend
  obtain ⟨ps,hps,hwritten⟩ := hend
  refine ⟨ps,hps,?_,?_⟩
  · intro batchId hd
    cases out with
    | done a =>
      cases hd
      exact hwritten _ rfl
    | fail | panic => cases hd
  · intro e he
    cases out with
    | done | panic => cases he
    | fail e' =>
      cases he
      rfl

theorem journalAndSettle_sighted (h : g.Begun order) (signer : Option OrderSigner)
    (receipt : RailReceipt)
    (hfresh : ∀ bytes,receipt.bytes=some bytes →
      ∃ rs,g.work.receipts=some rs ∧ ∀ r∈rs,r.hash≠sdk.sha3 bytes)
    (walletUpdated : Bool) (payload : Payload) :
    Sighted sdk (AttemptEnds order g) (journalAndSettle sdk order signer receipt
      (receipt.bytes.map sdk.sha3) walletUpdated payload) g := by
  have hprocess : appendOrderBatch sdk order.paymentOrderId order.amount order.currency order.fx
      signer=(ofExcept (batchCall order signer).plan).bind (BatchPlan.write sdk) :=
    JournalCall.process_eq sdk (batchCall order signer)
  unfold journalAndSettle
  rw [hprocess]
  cases hplan : (batchCall order signer).plan with
  | error e =>
    -- The journal refuses the order before anything is written.
    exact h.gaveBack (Sight.Calmer.refl g) _
  | ok plan =>
    apply (journal_sighted sdk h hplan).bind
    · intro batchId g' hend
      obtain ⟨ps,hps,hwritten,_⟩ := hend
      apply settledSnapshot_sighted sdk h hplan (hwritten batchId rfl) hps hfresh
      intro now g'' hk howed
      cases hbytes : receipt.bytes with
      | none =>
        rw [hbytes] at howed
        exact announceSettled_sighted sdk rfl ⟨howed,hk⟩ payload
      | some bytes =>
        rw [hbytes] at howed
        exact recordReceipt_sighted sdk rfl hk howed payload
    · intro e g' hend
      obtain ⟨ps,hps,_,hfail⟩ := hend
      left
      refine ⟨hfail e rfl,⟨?_,Sight.postedAll_keeps hps _⟩,hps.holds h.holds⟩
      rw [Sight.Rest,hps.work]
      exact h.owed
    · exact fun _ _ => trivial

theorem settleWithReceipt_sighted (h : g.Begun order) {bytes} (hbytes : receipt.bytes=some bytes)
    (duplicate payload) :
    Sighted sdk (AttemptEnds order g)
      (settleWithReceipt sdk order signer bytes receipt duplicate payload) g := by
  have hhash : (some (sdk.sha3 bytes) : Option Bytes)=receipt.bytes.map sdk.sha3 := by
    rw [hbytes]
    rfl
  unfold settleWithReceipt
  dsimp only
  rw [hhash]
  refine ⟨trivial,fun r => ?_⟩
  cases r with
  | error e => exact h.gaveBack (Sight.Calmer.refl g) _
  | ok rs =>
    have hbegun : (g.readReceipts rs).Begun order :=
      ⟨h.atHand,h.executing,h.posted,h.owed,h.holds⟩
    have hkeeps : g.Keeps order.paymentOrderId (g.readReceipts rs) :=
      ⟨fun _ _ hx => hx,fun _ hx => hx⟩
    refine Watched.post (?_ : Sighted sdk (AttemptEnds order (g.readReceipts rs)) _ _)
      fun _ _ hend => hend.keeps hkeeps
    cases hseen : rs.any fun r => r.hash==sdk.sha3 bytes with
    | true =>
      dsimp only [Process.bind,Process.ofExcept]
      rw [hseen]
      exact hbegun.gaveBack (Sight.Calmer.refl _) _
    | false =>
      dsimp only [Process.bind,Process.ofExcept]
      rw [hseen]
      apply journalAndSettle_sighted sdk hbegun
      intro bytes' hbytes'
      rw [hbytes,Option.some.injEq] at hbytes'
      refine ⟨rs,rfl,fun r hr heq => ?_⟩
      rw [List.any_eq_false] at hseen
      have hne:=hseen r hr
      rw [heq,hbytes'] at hne
      simp at hne

theorem settleNative_sighted (h : g.Begun order) (amount : ℕ) :
    Sighted sdk (AttemptEnds order g) (settleNative sdk order amount signer) g := by
  refine ⟨trivial,fun answer => ?_⟩
  rcases answer with e | encoding
  · exact h.gaveBack (Sight.Calmer.refl g) _
  rcases encoding with e | encoded
  · exact h.gaveBack (Sight.Calmer.refl g) _
  exact journalAndSettle_sighted sdk h signer (.native encoded) nofun true
    [("order",.text order.paymentOrderId),("amount",.text order.amount),
      ("currency",.text order.currency),("direction",.text order.direction.toText),
      ("to",.text order.recipient)]

theorem course_sighted {sent due p} (hcourse : RailCourse sdk order signer sent due p)
    (h : g.Begun order) : Sighted sdk (AttemptEnds order g) p g := by
  induction hcourse generalizing g with
  | refuse => exact h.gaveBack (Sight.Calmer.refl g) _
  | settle hbytes duplicate payload =>
    exact settleWithReceipt_sighted sdk h hbytes duplicate payload
  | ask _ _ ih => exact ⟨trivial,fun answer => ih answer h⟩
  | submit _ _ _ ih => exact ⟨trivial,fun answer => ih answer h⟩

theorem Mild.attempt_bind {α : Type} {p} (hp : Mild p) {f : Error → SettleOutcome}
    {k : α → Attempt PaymentOrder} (h : g.Begun order)
    (hk : ∀ a g',g'.Begun order → Sighted sdk (AttemptEnds order g') (k a) g') :
    Sighted sdk (AttemptEnds order g) ((p.mapErr fun e => (f e,order)).bind k) g := by
  have hmapped : Sighted sdk (fun out g' => g.Calmer g' ∧ ∀ e,out=.fail e → e.2=order)
      (p.mapErr fun e => (f e,order)) g := by
    apply Watched.mapErr
    apply (hp.sighted sdk g).post
    intro out g' hg
    refine ⟨hg,fun e he => ?_⟩
    cases out with
    | done | panic => cases he
    | fail e' =>
      cases he
      rfl
  apply hmapped.bind
  · intro a g' hg
    exact (hk a g' (h.calm hg.1)).post fun _ _ hend => hend.keeps hg.1.keeps
  · intro e g' hg
    obtain ⟨out,o⟩ := e
    have ho : o=order := hg.2 _ rfl
    subst ho
    exact h.gaveBack hg.1 out
  · exact fun _ _ => trivial

theorem screen_sighted (h : g.Begun order) {k : Unit → Attempt PaymentOrder}
    (hk : ∀ a g',g'.Begun order → Sighted sdk (AttemptEnds order g') (k a) g') :
    Sighted sdk (AttemptEnds order g) ((screen sdk order).bind k) g := by
  refine ⟨trivial,fun answer => ?_⟩
  match answer with
  | .error e => exact h.gaveBack (Sight.Calmer.refl g) _
  | .ok .accept => exact hk () _ h
  | .ok (.flag reason) => exact (side_auditRecord sdk _ _).mild.attempt_bind sdk h hk
  | .ok (.reject reason) => exact h.gaveBack (Sight.Calmer.refl g) _

theorem settleOnRail_sighted (h : g.Begun order) (m) :
    Sighted sdk (AttemptEnds order g) (settleOnRail sdk signer order m) g := by
  unfold settleOnRail
  cases order.rail.getD .native with
  | native => exact settleNative_sighted sdk h _
  | http402 => exact course_sighted sdk course_settleHttp402 h
  | card => exact course_sighted sdk course_settleCard h
  | ach => exact course_sighted sdk course_settleAch h

theorem settle_sighted (h : g.Begun order) (config screened) :
    Sighted sdk (AttemptEnds order g) (settle sdk config screened signer order) g := by
  unfold settle
  rcases settleGate config order with reason | m
  · exact h.gaveBack (Sight.Calmer.refl g) _
  cases screened with
  | false => exact settleOnRail_sighted sdk h m
  | true => exact screen_sighted sdk h fun _ g₁ h₁ => settleOnRail_sighted sdk h₁ m

end
end OriginTools.Payments
