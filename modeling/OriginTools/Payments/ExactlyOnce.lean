import OriginTools.Payments.Run

/-!
# One journal batch for each settled order

The rail call, the postings and the `SUCCESS` snapshot are separate writes, and an order
found in `EXECUTING` is tried again.
-/

namespace OriginTools.Payments
open List
namespace Book

def batches (b : Book) (id : String) : List String :=
  ((b.postings.filter fun p => p.paymentOrderId==id).map fun p => p.batchId).dedup

def status (b : Book) (id : String) : Option OrderStatus := (b.current id).map PaymentOrder.status

def ExactlyOnce (b : Book) : Prop :=
  (∀ id,(b.batches id).length≤1) ∧ ∀ id,b.status id=some .success → (b.batches id).length=1

def Closed (b : Book) : Prop := ∀ p∈b.postings,b.status p.paymentOrderId=some .success

instance decidableClosed (b : Book) : Decidable b.Closed :=
  inferInstanceAs (Decidable (∀ p∈b.postings,b.status p.paymentOrderId=some .success))

theorem mem_batches {b : Book} {id batch} :
    batch∈b.batches id ↔ ∃ p∈b.postings,p.paymentOrderId=id ∧ p.batchId=batch := by
  simp only [batches,mem_dedup,mem_map,mem_filter,beq_iff_eq]
  constructor
  · rintro ⟨p,⟨hp,hid⟩,hbatch⟩
    exact ⟨p,hp,hid,hbatch⟩
  · rintro ⟨p,hp,hid,hbatch⟩
    exact ⟨p,⟨hp,hid⟩,hbatch⟩

def Single (b : Book) : Prop :=
  ∀ p∈b.postings,∀ q∈b.postings,p.paymentOrderId=q.paymentOrderId → p.batchId=q.batchId

def Backed (b : Book) : Prop := ∀ id,b.status id=some .success → ∃ p∈b.postings,p.paymentOrderId=id

theorem length_batches_le_one_iff (b : Book) : (∀ id,(b.batches id).length≤1) ↔ b.Single := by
  constructor
  · intro h p hp q hq hid
    have hpm : p.batchId∈b.batches p.paymentOrderId := mem_batches.2 ⟨p,hp,rfl,rfl⟩
    have hqm : q.batchId∈b.batches p.paymentOrderId := mem_batches.2 ⟨q,hq,hid.symm,rfl⟩
    have hle:=h p.paymentOrderId
    generalize b.batches p.paymentOrderId=l at hpm hqm hle
    match l with
    | [] => cases hpm
    | [x] =>
      have hpx : p.batchId=x := mem_singleton.1 hpm
      have hqx : q.batchId=x := mem_singleton.1 hqm
      rw [hpx,hqx]
    | x::y::rest => simp at hle
  · intro h id
    have hnodup : (b.batches id).Nodup := nodup_dedup _
    have hall : ∀ x∈b.batches id,∀ y∈b.batches id,x=y := by
      intro x hx y hy
      obtain ⟨p,hp,hpid,rfl⟩ := mem_batches.1 hx
      obtain ⟨q,hq,hqid,rfl⟩ := mem_batches.1 hy
      exact h p hp q hq (hpid.trans hqid.symm)
    generalize b.batches id=l at hnodup hall
    match l with
    | [] => simp
    | [x] => simp
    | x::y::rest =>
      have hxy:=hall x (by simp) y (by simp)
      rw [hxy] at hnodup
      simp at hnodup

theorem exactlyOnce_iff (b : Book) : b.ExactlyOnce ↔ b.Single ∧ b.Backed := by
  rw [ExactlyOnce,length_batches_le_one_iff]
  constructor
  · rintro ⟨hsingle,hone⟩
    refine ⟨hsingle,fun id hid => ?_⟩
    obtain ⟨x,hx⟩ := length_eq_one_iff.1 (hone id hid)
    have hmem : x∈b.batches id := by
      rw [hx]
      exact mem_singleton_self x
    obtain ⟨p,hp,hpid,_⟩ := mem_batches.1 hmem
    exact ⟨p,hp,hpid⟩
  · rintro ⟨hsingle,hbacked⟩
    refine ⟨hsingle,fun id hid => ?_⟩
    obtain ⟨p,hp,hpid⟩ := hbacked id hid
    have hmem : p.batchId∈b.batches id := mem_batches.2 ⟨p,hp,hpid,rfl⟩
    have hle:=(length_batches_le_one_iff b).2 hsingle id
    have hpos:=length_pos_of_mem hmem
    omega

theorem status_logged (b : Book) (o : PaymentOrder) (id : String) :
    (b.logged o).status id=if o.paymentOrderId=id then some o.status else b.status id := by
  rw [status,current_logged]
  split
  · rfl
  · rfl

theorem status_of_current {b : Book} {id} {o : PaymentOrder} (h : b.current id=some o) :
    b.status id=some o.status := by
  rw [status,h]
  rfl

theorem closed_logged {b : Book} (h : b.Closed) {o : PaymentOrder}
    (hb : b.status o.paymentOrderId≠some .success) : (b.logged o).Closed := by
  intro p hp
  have hp':=h p hp
  have hne : o.paymentOrderId≠p.paymentOrderId := by
    intro he
    rw [he] at hb
    exact hb hp'
  rw [status_logged,if_neg hne]
  exact hp'

theorem backed_logged {b : Book} (h : b.Backed) {o : PaymentOrder}
    (ho : o.status≠.success) : (b.logged o).Backed := by
  intro id hid
  rw [status_logged] at hid
  split at hid
  · exact absurd (Option.some.inj hid) ho
  · exact h id hid

end Book

/-- What the phase says about the journal: outside a batch every posting is of a
settled order; within one, the open postings are of the order being settled. -/
def Phase.Journal (b : Book) : Phase → Prop
  | .attempt _ o _ => b.Closed ∧ b.status o.paymentOrderId=some .executing
  | .posting _ o batch =>
      b.status o.paymentOrderId=some .executing ∧
        (∃ p∈b.postings,p.paymentOrderId=o.paymentOrderId) ∧
        ∀ p∈b.postings,b.status p.paymentOrderId=some .success ∨
          (p.paymentOrderId=o.paymentOrderId ∧ p.batchId=batch)
  | _ => b.Closed

structure Once (a : Phase × Book) : Prop where
  single : a.2.Single
  backed : a.2.Backed
  journal : a.1.Journal a.2

/-- A batch is cut short, and a process dies, only between batches. -/
def onceRules : Rules where
  start := fun _ _ => True
  cut := Book.Closed
  bury := fun _ _ => True
  crash := Book.Closed
  callbacks := True

section
variable {b : Book} {o : PaymentOrder}

theorem ne_success_of_status {id s} (h : b.status id=some s) (hs : s≠.success) :
    b.status id≠some .success := by
  rw [h]
  intro he
  exact hs (Option.some.inj he)

theorem once_logged {ph : Phase} (hsingle : b.Single) (hbacked : b.Backed) (hclosed : b.Closed)
    (hb : b.status o.paymentOrderId≠some .success) (ho : o.status≠.success)
    (hph : (b.logged o).Closed → ph.Journal (b.logged o)) : Once (ph,b.logged o) :=
  ⟨hsingle,Book.backed_logged hbacked ho,hph (Book.closed_logged hclosed hb)⟩

theorem ready_status {o : PaymentOrder} (h : o.Ready) : o.status≠.success := by
  rcases h with hs | ⟨hs,_⟩
  · rw [hs]
    intro he
    cases he
  · rw [hs]
    intro he
    cases he

variable {config : PaymentsConfig}

theorem once_posted {p} (hsingle : b.Single) (hbacked : b.Backed)
    (hexec : b.status o.paymentOrderId=some .executing)
    (hall : ∀ q∈b.postings,b.status q.paymentOrderId=some .success ∨
      (q.paymentOrderId=o.paymentOrderId ∧ q.batchId=p.batchId))
    (hid : p.paymentOrderId=o.paymentOrderId) :
    Once (.posting config o p.batchId,b.posted p) := by
  have hopen : b.status o.paymentOrderId≠some .success := ne_success_of_status hexec nofun
  have hbatch : ∀ q∈b.postings,q.paymentOrderId=p.paymentOrderId → q.batchId=p.batchId := by
    intro q hq he
    rcases hall q hq with hs | ⟨_,hb⟩
    · rw [he,hid] at hs
      exact absurd hs hopen
    · exact hb
  constructor
  · intro q hq r hr he
    rcases mem_append.1 hq with hq | hq
    · rcases mem_append.1 hr with hr | hr
      · exact hsingle q hq r hr he
      · cases mem_singleton.1 hr
        exact hbatch q hq he
    · cases mem_singleton.1 hq
      rcases mem_append.1 hr with hr | hr
      · exact (hbatch r hr he.symm).symm
      · cases mem_singleton.1 hr
        rfl
  · intro id hs
    obtain ⟨q,hq,hqid⟩ := hbacked id hs
    exact ⟨q,mem_append_left _ hq,hqid⟩
  · refine ⟨hexec,⟨p,mem_append_right _ (mem_singleton_self p),hid⟩,?_⟩
    intro q hq
    rcases mem_append.1 hq with hq | hq
    · exact hall q hq
    · cases mem_singleton.1 hq
      exact .inr ⟨hid,rfl⟩

theorem once_settle {b o o' batch} (h : Once (.posting config o batch,b))
    (hid : o'.paymentOrderId=o.paymentOrderId) (hs : o'.status=.success) :
    Once (.pass config,b.logged o') := by
  obtain ⟨hsingle,hbacked,hexec,⟨p,hp,hpid⟩,hall⟩ := h
  refine ⟨hsingle,?_,?_⟩
  · intro id hsid
    rw [Book.status_logged] at hsid
    split at hsid
    · next he => exact ⟨p,hp,by rw [hpid,← hid,he]⟩
    · exact hbacked id hsid
  · intro q hq
    rw [Book.status_logged]
    split
    · rw [hs]
    · next hne =>
      rcases hall q hq with hq' | ⟨hq',_⟩
      · exact hq'
      · exact absurd (hid.trans hq'.symm) hne

theorem once_not_cut {b o batch} (h : Once (.posting config o batch,b)) (hclosed : b.Closed) :
    False := by
  obtain ⟨_,_,hexec,⟨p,hp,hpid⟩,_⟩ := h
  have hs:=hclosed p hp
  rw [hpid,hexec] at hs
  cases hs

end

theorem once_step (a a' : Phase × Book) (h : Once a) (hs : Step onceRules a a') : Once a' := by
  cases hs with
  | start | finish | submit => exact ⟨h.single,h.backed,h.journal⟩
  | crash hclosed => exact ⟨h.single,h.backed,hclosed⟩
  | requeue hcur hst _ | expire hcur hst | confirm _ hcur hst | reject _ hcur hst =>
    refine once_logged h.single h.backed h.journal ?_ nofun (fun hc => hc)
    exact ne_success_of_status (Book.status_of_current hcur) (by rw [hst]; nofun)
  | pick hcur hr =>
    apply once_logged h.single h.backed h.journal
    · exact ne_success_of_status (Book.status_of_current hcur) (ready_status hr)
    · intro he
      cases he
    · intro hc
      exact ⟨hc,Book.status_of_current (Book.current_logged_self _ _)⟩
  | post hid =>
    exact once_posted h.single h.backed h.journal.2 (fun q hq => .inl (h.journal.1 q hq)) hid
  | postMore hid => exact once_posted h.single h.backed h.journal.1 h.journal.2.2 hid
  | settle => exact once_settle h rfl rfl
  | postpone | park | refuse =>
    refine once_logged h.single h.backed h.journal.1 ?_ nofun (fun hc => hc)
    exact ne_success_of_status h.journal.2 nofun
  | cut hclosed => exact (once_not_cut h hclosed).elim
  | @bury b back o r _ _ =>
    refine ⟨h.single,h.backed,?_⟩
    cases back with
    | none | some => exact h.journal
  | payout hfresh hnew =>
    refine once_logged h.single h.backed h.journal ?_ ?_ (fun hc => hc)
    · rw [Book.status,hfresh]
      intro he
      cases he
    · rw [hnew.1]
      intro he
      cases he

theorem once_off {b} (h : b.ExactlyOnce) (hclosed : b.Closed) : Once (Phase.off,b) := by
  obtain ⟨hsingle,hbacked⟩ := (Book.exactlyOnce_iff b).1 h
  exact ⟨hsingle,hbacked,hclosed⟩

theorem Once.exactlyOnce {a} (h : Once a) : a.2.ExactlyOnce :=
  (Book.exactlyOnce_iff a.2).2 ⟨h.single,h.backed⟩

theorem journal_exactlyOnce {W : Type} (sdk : PaySdk) (es : List (Event W)) (w : World W)
    (hw : w.book.ExactlyOnce) (hclosed : w.book.Closed) (hm : MeetsAll sdk onceRules es w)
    (v : World W) (hv : Passes sdk es w v) : v.book.ExactlyOnce := by
  obtain ⟨ph,hph⟩ := run_invariant sdk once_step hm (once_off hw hclosed) hv
  exact hph.exactlyOnce

instance decidesOnce : onceRules.Decides :=
  ⟨fun _ _ => isTrue trivial,Book.decidableClosed,fun _ _ => isTrue trivial,
    Book.decidableClosed,isTrue trivial⟩

namespace Sample

theorem world_closed (o) : (world o).book.Closed := by
  intro p hp
  cases hp

theorem world_exactlyOnce {o : PaymentOrder} (ho : o.status≠.success) :
    (world o).book.ExactlyOnce := by
  rw [Book.exactlyOnce_iff]
  refine ⟨fun p hp => (by cases hp),?_⟩
  exact Book.backed_logged (b := ⟨[],[],[],[]⟩) (fun id hid => by cases hid) ho

end Sample
open Sample

/-- A pass that dies between the journal batch and the `SUCCESS` snapshot, then a pass
that runs to its end. -/
theorem journal_exactlyOnce_crash_two_batches : let es := [Sample.pass .default "a" accepting 22,
      Sample.pass .default "b" accepting 60]
    let w:=world Sample.order
    (w.book.ExactlyOnce ∧ w.book.Closed) ∧ MeetsAll paySdk freeRules es w ∧
      (runAll paySdk es w).book.batches "o1"=["a","b"] ∧
      ¬ (runAll paySdk es w).book.ExactlyOnce := by
  intro es w
  have hbatches : (runAll paySdk es w).book.batches "o1"=["a","b"] := by decide +kernel
  refine ⟨⟨world_exactlyOnce nofun,world_closed _⟩,by decide +kernel,hbatches,?_⟩
  intro h
  have hle:=h.1 "o1"
  rw [hbatches] at hle
  simp at hle

theorem journal_exactlyOnce_one_pass : (runAll paySdk [Sample.pass .default "a" accepting 60]
        (world Sample.order)).book.status "o1"=some .success ∧
      (runAll paySdk [Sample.pass .default "a" accepting 60]
        (world Sample.order)).book.ExactlyOnce := by
  refine ⟨by decide +kernel,?_⟩
  exact journal_exactlyOnce paySdk [Sample.pass .default "a" accepting 60]
    (world Sample.order) (world_exactlyOnce nofun) (world_closed _)
    (by decide +kernel) _ (.inr rfl)

end OriginTools.Payments
