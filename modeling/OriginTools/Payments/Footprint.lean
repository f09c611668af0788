import OriginTools.Foundation.Footprint
import OriginTools.Payments.Executor

/-!
# What the parts of a pass touch

Notifications, audit records, retry jobs, dead letters and the event roll-up are written
beside the orders, the journal and the receipts.
-/

namespace OriginTools.Payments
open Process
variable (sdk : PaySdk)

/-- The logs beside the orders, the journal, the receipts and the deferred batches. -/
def Log.side : Log → Bool
  | .events => true
  | .retryJobs => true
  | .dlq => true
  | .notifications => true
  | .audit => true
  | _ => false

def Question.side : Question → Bool
  | .settlementResponse _ => false
  | _ => true

def Op.side : Op → Bool
  | .read l => l.side
  | .append l _ => l.side
  | .ask q => q.side
  | _ => false

/-- The process performs side operations only, and its value meets `R`. -/
abbrev SideTo {ε α : Type} (R : α → Prop) (p : Proc ε α) : Prop :=
  Emits (fun op : Op => op.side=true) R p

abbrev Side {ε α : Type} (p : Proc ε α) : Prop := SideTo (fun _ => True) p

theorem side_ask {ε : Type} {q} (h : q.side=true) : Side (ask q : Proc ε q.Answer) :=
  .call h fun _ => .done trivial

theorem side_checked {ε ε' α : Type} {q : Question} {r : q.Answer → Proc ε α} {f : ε → ε'}
    (h : q.side=true) (hr : ∀ a,Side (r a)) : Side (((ask q).bind r).mapErr f) :=
  ((side_ask h).bind fun a _ => hr a).mapErr

theorem side_ofExcept {ε α : Type} (r) : Side (ofExcept r : Proc ε α) :=
  .ofExcept r fun _ => trivial

section
variable {P : Op → Prop}

theorem emits_ask {ε : Type} {q} (h : P (.ask q)) :
    Emits P (fun _ => True) (ask q : Proc ε q.Answer) :=
  .call h fun _ => .done trivial

theorem emits_checked {ε : Type} {q : Question} {α : Type} {r : q.Answer → Except ε α}
    (h : P (.ask q)) : Emits P (fun _ => True) ((ask q).bind fun a => (ofExcept (r a) : Proc ε α)) :=
  (emits_ask h).bind fun a _ => .ofExcept (r a) fun _ => trivial

theorem emits_readLog {l} (h : P (.read l)) : Emits P (fun _ => True) (readLog l) :=
  .call h fun r => .ofExcept r fun _ => trivial

theorem emits_appendLog {l entry} (h : P (.append l entry)) :
    Emits P (fun _ => True) (appendLog l entry) :=
  .call h fun r => .ofExcept r fun _ => trivial

variable (hask : ∀ q,q.side=true → P (.ask q))
include hask

theorem emits_notify (happend : ∀ n,P (.append .notifications n)) (orderId event : String) :
    Emits P (fun _ => True) (notify orderId event) :=
  (emits_ask (hask .uuid rfl)).bind fun _ _ => (emits_ask (hask .now rfl)).bind fun _ _ =>
    emits_appendLog (happend _)

theorem emits_auditRecord (hread : P (.read .audit)) (happend : ∀ r,P (.append .audit r))
    (entryType payload) : Emits P (fun _ => True) (auditRecord sdk entryType payload none) :=
  (emits_readLog hread).bind fun _ _ => (emits_ask (hask .nanos rfl)).bind fun _ _ =>
    emits_appendLog (happend _)

theorem emits_signPosting (body signer) :
    Emits P (fun _ => True) (signPosting sdk body signer) := by
  rcases signer with _ | keys
  · exact .done trivial
  have hsign : Emits P (fun _ => True)
      ((ask (.sign keys (sdk.postingJson body))).bind Process.ofExcept : Proc Error Bytes) :=
    .call (hask _ rfl) fun r => .ofExcept r fun _ => trivial
  exact hsign.bind fun _ _ => .done trivial

theorem emits_appendLegs (happend : ∀ p,P (.append .postings p))
    (batchId paymentOrderId ts fxRate signer legs prev) :
    Emits P (fun _ => True) (appendLegs sdk batchId paymentOrderId ts fxRate signer legs prev) := by
  induction legs generalizing prev with
  | nil => exact .done trivial
  | cons leg legs ih =>
    refine .call (hask .uuid rfl) fun postingId => ?_
    apply (emits_signPosting sdk hask _ signer).bind
    intro posting _
    exact (emits_appendLog (happend posting)).bind fun _ _ => ih _

theorem emits_writeBatch (hread : P (.read .postings)) (happend : ∀ p,P (.append .postings p))
    (paymentOrderId fxRate signer legs) :
    Emits P (fun _ => True) (writeBatch sdk paymentOrderId fxRate signer legs) := by
  refine .call (hask .uuid rfl) fun batchId => .call (hask .now rfl) fun ts => ?_
  have hhead : Emits P (fun _ => True) (journalHead sdk) :=
    (emits_readLog hread).bind fun _ _ => .done trivial
  exact hhead.bind fun prev _ =>
    (emits_appendLegs sdk hask happend _ _ _ _ _ _ _).bind fun _ _ => .done trivial

end

theorem side_notify (orderId event : String) : Side (notify orderId event) :=
  emits_notify (P := fun op => op.side=true) (fun _ h => h) (fun _ => rfl) orderId event

theorem side_auditRecord (entryType payload) : Side (auditRecord sdk entryType payload none) :=
  emits_auditRecord (P := fun op => op.side=true) sdk (fun _ h => h) rfl (fun _ => rfl) _ _

theorem side_screen (order) : Side (screen sdk order) := by
  apply (side_checked (q := .score order) rfl fun r => side_ofExcept r).bind
  intro verdict _
  cases verdict with
  | accept => exact .done trivial
  | flag reason => exact (side_auditRecord sdk _ _).mapErr
  | reject reason => exact .fail _

def Op.posts : Op → Bool
  | .read .postings => true
  | .append .postings _ => true
  | op => op.side

abbrev Posts {ε α : Type} (p : Proc ε α) : Prop :=
  Emits (fun op : Op => op.posts=true) (fun _ => True) p

theorem posts_writeBatch (paymentOrderId fxRate signer legs) :
    Posts (writeBatch sdk paymentOrderId fxRate signer legs) :=
  emits_writeBatch (P := fun op => op.posts=true) sdk (fun _ h => h) rfl (fun _ => rfl) _ _ _ _

end OriginTools.Payments
