import OriginTools.Payments.PassConduct

/-!
# Runs under the observer

The events of a run start with a new observer each, since a process knows nothing of the
ones before it.
-/

namespace OriginTools.Payments
open Process
variable {W : Type} (sdk : PaySdk)

theorem job_sighted (job : Job) : Sighted sdk JobEnds (job.process sdk) {} := by
  cases job with
  | pass path screened => exact sighted_bind sdk (runOnce_sighted sdk path screened) fun _ _ h => h
  | sweep config =>
    exact sighted_bind sdk (requeueStuckExecuting_sighted sdk start_rest config) fun _ _ h => h
  | callback message => exact processCallback_sighted sdk message

structure Sight.Still (g g' : Sight) : Prop where
  order : g'.work.order=g.work.order
  posted : g'.work.posted=g.work.posted
  receipts : g'.work.receipts=g.work.receipts
  owed : g'.work.owed=g.work.owed

structure World.SameBooks (w w' : World W) : Prop where
  orders : w'.store.orders=w.store.orders
  postings : w'.store.postings=w.store.postings
  receipts : w'.store.receipts=w.store.receipts

theorem Sight.Calmer.still {g g' : Sight} (h : g.Calmer g') : g.Still g' := by
  constructor <;> rw [h.work]

theorem sameBooks_of_log {op} (h : ∀ l,op.log? = some l → l.booked=false) (a : op.Ans W)
    (w : World W) : w.SameBooks (handle op a w).2 := by
  have hne : ∀ l : Log,l.booked=true → op.log? ≠ some l := by
    intro l hl hop
    rw [h l hop] at hl
    cases hl
  exact ⟨handle_elsewhere (hne .orders rfl) a w,handle_elsewhere (hne .postings rfl) a w,
    handle_elsewhere (hne .receipts rfl) a w⟩

theorem sameBooks_of_none {op} (hop : op.log? = none) (a : op.Ans W) (w : World W) :
    w.SameBooks (handle op a w).2 := by
  refine sameBooks_of_log (fun l hl => ?_) a w
  rw [hop] at hl
  cases hl

theorem sameBooks_calm {op} (h : op.calm=true) (a : op.Ans W) (w : World W) :
    w.SameBooks (handle op a w).2 := by
  cases op with
  | read l => cases a <;> exact ⟨rfl,rfl,rfl⟩
  | append l entry | replace l entries =>
    refine sameBooks_of_log (fun l' hl' => ?_) a w
    cases hl'
    simpa [Op.calm] using h
  | ask | submit | openWallet | saveWallet => exact sameBooks_of_none rfl a w

section
variable {allowed : World W → (op : Op) → op.Ans W → Prop} {Rel : World W → Sight → Prop}

theorem fair_step (hstill : ∀ w w' g g',Rel w g → w.SameBooks w' → g.Still g' → Rel w' g')
    (hread : ∀ w g,Rel w g → Rel w (g.readReceipts w.store.receipts))
    (hwrote : ∀ w g o,Rel w g → g.Fair sdk (.append .orders o) →
      allowed w (.append .orders o) none → Rel (w.push .orders o) (g.wrote sdk o))
    (hposted : ∀ w g p,Rel w g → g.Fair sdk (.append .postings p) →
      Rel (w.push .postings p) (g.posted p))
    (hrecorded : ∀ w g r,Rel w g → Rel (w.push .receipts r) (g.recorded r)) (w : World W)
    (g : Sight) (op : Op) (a) (h : Rel w g) (hfair : g.Fair sdk op) (hallowed : allowed w op a) :
    Rel (handle op a w).2 (g.note sdk op (handle op a w).1) := by
  by_cases hcalm : op.calm=true
  · exact hstill w _ g _ h (sameBooks_calm hcalm a w) (note_calm sdk hcalm g _).still
  have hsame : w.SameBooks w := ⟨rfl,rfl,rfl⟩
  have hg : g.Still g := (Sight.Calmer.refl g).still
  cases op with
  | read l =>
    cases l with
    | receipts =>
      cases a with
      | none => exact hread w g h
      | some e => exact hstill w _ g _ h hsame hg
    | _ => exact absurd rfl hcalm
  | append l entry =>
    cases l with
    | orders =>
      cases a with
      | none => exact hwrote w g entry h hfair hallowed
      | some e => exact hstill w _ g _ h hsame hg
    | postings =>
      cases a with
      | none => exact hposted w g entry h hfair
      | some e => exact hstill w _ g _ h hsame hg
    | receipts =>
      cases a with
      | none => exact hrecorded w g entry h
      | some e => exact hstill w _ g _ h hsame hg
    | _ => exact absurd rfl hcalm
  | replace l entries =>
    cases l with
    | orders | postings | receipts => exact hfair.elim
    | _ => exact absurd rfl hcalm
  | ask | submit | openWallet | saveWallet => exact absurd rfl hcalm

end

def Event.Finished (e : Event W) (w : World W) : Prop := (e.run sdk e.steps w).1.succeeded=true

section
variable (allowed : World W → (op : Op) → op.Ans W → Prop) (stop : World W → Prop)

structure Event.Heeds (e : Event W) (w : World W) : Prop where
  answers : Obeys handle e.source allowed e.steps 0 (e.job.process sdk) w
  stops : ¬ e.Finished sdk w → stop (e.after sdk w)

def HeedsAll : List (Event W) → World W → Prop
  | [],_ => True
  | e::es,w => e.Heeds sdk allowed stop w ∧ HeedsAll es (e.after sdk w)

instance decidableFinished (e : Event W) (w : World W) : Decidable (e.Finished sdk w) :=
  inferInstanceAs (Decidable (_=true))

instance decidableHeeds [∀ w op a,Decidable (allowed w op a)] [∀ w,Decidable (stop w)]
    (e : Event W) (w : World W) : Decidable (e.Heeds sdk allowed stop w) :=
  decidable_of_iff (Obeys handle e.source allowed e.steps 0 (e.job.process sdk) w ∧
      (¬ e.Finished sdk w → stop (e.after sdk w)))
    ⟨fun h => ⟨h.1,h.2⟩,fun h => ⟨h.answers,h.stops⟩⟩

instance decidableHeedsAll [∀ w op a,Decidable (allowed w op a)] [∀ w,Decidable (stop w)] :
    (es : List (Event W)) → (w : World W) → Decidable (HeedsAll sdk allowed stop es w)
  | [],_ => isTrue trivial
  | e::es,w =>
      haveI := decidableHeedsAll es (e.after sdk w)
      inferInstanceAs (Decidable (e.Heeds sdk allowed stop w ∧
        HeedsAll sdk allowed stop es (e.after sdk w)))

variable {allowed stop}

theorem HeedsAll.passes (Start : World W → Prop) {Rel : World W → Sight → Prop}
    (hstart : ∀ w,Start w → Rel w {})
    (hstep : ∀ w g op a,Rel w g → g.Fair sdk op → allowed w op a →
      Rel (handle op a w).2 (g.note sdk op (handle op a w).1))
    (hrest : ∀ w g,Rel w g → g.Rest → Start w) (hstop : ∀ w g,Rel w g → stop w → Start w) {es w v}
    (h : HeedsAll sdk allowed stop es w) (hw : Start w) (hv : Passes sdk es w v) :
    ∃ g,Rel v g := by
  induction es generalizing w with
  | nil =>
    rw [show v=w from hv]
    exact ⟨_,hstart w hw⟩
  | cons e es ih =>
    have hsafe : ∀ n≤e.steps,Safe handle allowed (fun w => ∃ g,Rel w g)
        (fun o w => ∃ g,Rel w g ∧ JobEnds o g) (e.run sdk n w).1 (e.run sdk n w).2 := by
      intro n hn
      apply Safe.run n 0
      · exact (job_sighted sdk e.job).safe hstep (hstart w hw)
      · exact obeys_mono handle e.source allowed n e.steps 0 _ w hn h.1.answers
    rcases hv with ⟨n,hn,rfl⟩ | hv
    · exact (hsafe n hn).inv
    apply ih h.2 ?_ hv
    have hend:=hsafe e.steps le_rfl
    by_cases hfin : e.Finished sdk w
    · obtain ⟨_,g,hrel,hjob⟩ := hend.succeeded hfin
      exact hrest _ g hrel hjob
    · obtain ⟨g,hrel⟩ := hend.inv
      exact hstop _ g hrel (h.1.stops hfin)

end
end OriginTools.Payments
