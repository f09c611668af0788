import OriginTools.Payments.PassRefinement

/-!
# Runs of passes, sweeps and callbacks

A run is a list of events.
-/

namespace OriginTools.Payments
open Process
variable {W : Type} (sdk : PaySdk)

inductive Job where
  | pass (path : String) (screened : Bool)
  | sweep (config : PaymentsConfig)
  | callback (message : SettlementCallback)

def Job.process : Job → Proc Error Unit
  | .pass path screened => (runOnce sdk path screened).bind fun _ => .done ()
  | .sweep config => (requeueStuckExecuting sdk config).bind fun _ => .done ()
  | .callback message => processCallback sdk message

structure Event (W : Type) where
  job : Job
  source : ℕ → (op : Op) → op.Ans W
  steps : ℕ

namespace Event

def run (e : Event W) (n : ℕ) (w : World W) : Proc Error Unit × World W :=
  Process.run handle e.source n 0 (e.job.process sdk) w

def after (e : Event W) (w : World W) : World W := (e.run sdk e.steps w).2
def Ended (e : Event W) (w : World W) : Prop := (e.run sdk e.steps w).1.ended=true

end Event

/-- A sweep starts with a configuration that the rules accept, and callbacks come
only where they are part of the run. -/
def Job.Permitted (R : Rules) (w : World W) : Job → Prop
  | .pass _ _ => True
  | .sweep config => R.start w.book config
  | .callback _ => R.callbacks

structure Event.Meets (R : Rules) (e : Event W) (w : World W) : Prop where
  permitted : e.job.Permitted R w
  answers : Obeys handle e.source (Allowed R) e.steps 0 (e.job.process sdk) w
  crash : ¬ e.Ended sdk w → R.crash (e.after sdk w).book

def MeetsAll (R : Rules) : List (Event W) → World W → Prop
  | [],_ => True
  | e::es,w => e.Meets sdk R w ∧ MeetsAll R es (e.after sdk w)

def runAll : List (Event W) → World W → World W
  | [],w => w
  | e::es,w => runAll es (e.after sdk w)

section
variable (R : Rules) [R.Decides]

instance decidablePermitted (w : World W) : (job : Job) → Decidable (job.Permitted R w)
  | .pass _ _ => isTrue trivial
  | .sweep config => inferInstanceAs (Decidable (R.start w.book config))
  | .callback _ => inferInstanceAs (Decidable R.callbacks)

instance decidableEnded (e : Event W) (w : World W) : Decidable (e.Ended sdk w) :=
  inferInstanceAs (Decidable (_=true))

instance decidableMeets (e : Event W) (w : World W) : Decidable (e.Meets sdk R w) :=
  decidable_of_iff
    (e.job.Permitted R w ∧ Obeys handle e.source (Allowed R) e.steps 0 (e.job.process sdk) w ∧
      (¬ e.Ended sdk w → R.crash (e.after sdk w).book))
    ⟨fun h => ⟨h.1,h.2.1,h.2.2⟩,fun h => ⟨h.permitted,h.answers,h.crash⟩⟩

instance decidableMeetsAll : (es : List (Event W)) → (w : World W) → Decidable (MeetsAll sdk R es w)
  | [],_ => isTrue trivial
  | e::es,w =>
      haveI := decidableMeetsAll es (e.after sdk w)
      inferInstanceAs (Decidable (e.Meets sdk R w ∧ MeetsAll sdk R es (e.after sdk w)))

end

def Passes : List (Event W) → World W → World W → Prop
  | [],w,v => v=w
  | e::es,w,v => (∃ n≤e.steps,v=(e.run sdk n w).2) ∨ Passes es (e.after sdk w) v

structure Rules.Within (R R' : Rules) : Prop where
  start : ∀ b config,R.start b config → R'.start b config
  cut : ∀ b,R.cut b → R'.cut b
  bury : ∀ b id,R.bury b id → R'.bury b id
  crash : ∀ b,R.crash b → R'.crash b
  callbacks : R.callbacks → R'.callbacks

theorem allowed_within {R R' : Rules} (hR : R.Within R') {w : World W} {op : Op} {a : op.Ans W}
    (h : Allowed R w op a) : Allowed R' w op a := by
  obtain ⟨hworks,hbury,hstart,hcut⟩ := h
  exact ⟨hworks,fun id hid => hR.bury _ _ (hbury id hid),
    fun config hc => hR.start _ _ (hstart config hc),fun hc => hR.cut _ (hcut hc)⟩

theorem permitted_within {R R' : Rules} (hR : R.Within R') {w : World W} {job : Job}
    (h : job.Permitted R w) : job.Permitted R' w := by
  cases job with
  | pass path screened => trivial
  | sweep config => exact hR.start _ _ h
  | callback message => exact hR.callbacks h

theorem meets_within {R R' : Rules} (hR : R.Within R') {e : Event W} {w : World W}
    (h : e.Meets sdk R w) : e.Meets sdk R' w where
  permitted := permitted_within hR h.permitted
  answers := obeys_imp (fun _ _ _ ha => allowed_within hR ha) _ _ _ _ h.answers
  crash := fun hend => hR.crash _ (h.crash hend)

theorem meetsAll_within {R R' : Rules} (hR : R.Within R') {es} (w : World W)
    (h : MeetsAll sdk R es w) : MeetsAll sdk R' es w := by
  induction es generalizing w with
  | nil => trivial
  | cons e es ih => exact ⟨meets_within sdk hR h.1,ih _ h.2⟩

theorem meetsAll_append {R} (es fs : List (Event W)) (w : World W) :
    MeetsAll sdk R (es++fs) w ↔ MeetsAll sdk R es w ∧ MeetsAll sdk R fs (runAll sdk es w) := by
  induction es generalizing w with
  | nil => exact ⟨fun h => ⟨trivial,h⟩,fun h => h.2⟩
  | cons e es ih =>
    rw [List.cons_append]
    show _ ∧ MeetsAll sdk R (es++fs) (e.after sdk w) ↔ _
    rw [ih]
    exact and_assoc.symm

section
variable {R : Rules} {a : Phase × Book} {w : World W}

theorem process_follows {job : Job} (hj : job.Permitted R w) (h : Steps R a (.off,w.book)) :
    Follows R a (LoopEnds R a .off) (job.process sdk) w := by
  cases job with
  | pass path screened =>
    exact (runOnce_follows sdk path screened h).bind (fun _ _ h' => ⟨⟨_,h'⟩,h'⟩)
      (fun _ _ h' => h') fun _ _ => trivial
  | sweep config =>
    have hsweep:=requeueStuckExecuting_follows sdk (h.step (Step.start hj))
    exact hsweep.bind (fun _ _ h' => ⟨⟨_,h'⟩,loopEnds_finish h'⟩)
      (fun _ _ h' => loopEnds_finish h') fun _ _ => trivial
  | callback message => exact processCallback_follows sdk hj message h

variable {e : Event W}

theorem event_safe (hj : e.job.Permitted R w)
    (hobeys : Obeys handle e.source (Allowed R) e.steps 0 (e.job.process sdk) w)
    (h : Steps R a (.off,w.book)) {n : ℕ} (hn : n≤e.steps) :
    Safe handle (Allowed R) (OnCourse R a) (LoopEnds R a .off) (e.run sdk n w).1
      (e.run sdk n w).2 :=
  Safe.run n 0 _ w (process_follows sdk hj h).safe
    (obeys_mono handle e.source (Allowed R) n e.steps 0 _ w hn hobeys)

theorem event_passes (he : e.Meets sdk R w) (h : Steps R a (.off,w.book)) (n : ℕ)
    (hn : n≤e.steps) : OnCourse R a (e.run sdk n w).2 :=
  (event_safe sdk he.permitted he.answers h hn).inv

theorem event_steps (he : e.Meets sdk R w) (h : Steps R a (.off,w.book)) :
    Steps R a (.off,(e.after sdk w).book) := by
  have hsafe:=event_safe sdk he.permitted he.answers h le_rfl
  by_cases hend : e.Ended sdk w
  · rcases hsafe.ended hend with ⟨_,hdone⟩ | ⟨_,hfail⟩
    · exact hdone
    · exact hfail
  · obtain ⟨ph,hph⟩ := hsafe.inv
    exact hph.step (Step.crash (he.crash hend))

variable {es : List (Event W)}

theorem run_steps (hm : MeetsAll sdk R es w) (h : Steps R a (.off,w.book)) :
    Steps R a (.off,(runAll sdk es w).book) := by
  induction es generalizing w with
  | nil => exact h
  | cons e es ih => exact ih hm.2 (event_steps sdk hm.1 h)

theorem run_passes (hm : MeetsAll sdk R es w) (h : Steps R a (.off,w.book)) {v}
    (hv : Passes sdk es w v) : OnCourse R a v := by
  induction es generalizing w with
  | nil =>
    rw [show v=w from hv]
    exact ⟨_,h⟩
  | cons e es ih =>
    rcases hv with ⟨n,hn,rfl⟩ | hv
    · exact event_passes sdk hm.1 h n hn
    · exact ih hm.2 (event_steps sdk hm.1 h) hv

theorem run_invariant {I : Phase × Book → Prop} (hstep : ∀ a a',I a → Step R a a' → I a')
    (hm : MeetsAll sdk R es w) (hw : I (.off,w.book)) {v : World W} (hv : Passes sdk es w v) :
    ∃ ph,I (ph,v.book) := by
  obtain ⟨ph,hph⟩ := run_passes sdk hm (Steps.refl _) hv
  exact ⟨ph,Steps.invariant hstep hph hw⟩

end

def freeRules : Rules where
  start := fun _ _ => True
  cut := fun _ => True
  bury := fun _ _ => True
  crash := fun _ => True
  callbacks := True

instance decidesFree : freeRules.Decides :=
  ⟨fun _ _ => isTrue trivial,fun _ => isTrue trivial,fun _ _ => isTrue trivial,
    fun _ => isTrue trivial,isTrue trivial⟩

namespace Sample

def paySdk : PaySdk where
  sha3 := fun b => b
  postingJson := fun _ => []
  payloadJson := fun _ => []
  itemsJson := fun _ _ => []

def question (config : PaymentsConfig) (stamp : String) : (q : Question) → q.Answer
  | .config => .ok config
  | .now => "2026"
  | .uuid => stamp
  | .today => "2026"
  | .nanos => (0 : ℕ)
  | .random => (25 : ℕ)
  | .deadline _ => some "2026"
  | .expired _ _ => some true
  | .hashOrder orders => ⟨orders,List.Perm.refl orders⟩
  | .operatorKeys => none
  | .sign _ _ => .ok []
  | .cents _ => ""
  | .score _ => .ok .accept
  | .facilitatorConfig _ => .ok (some { url := "https://rail",apiKey := "key" })
  | .httpGet _ => .ok (402,none)
  | .parseRequirements _ => .ok ⟨[]⟩
  | .signPayment _ _ _ => .ok []
  | .verifySignedPayload _ _ _ => .accept
  | .verifyPaymentPayload _ _ => .ok true
  | .facilitatorVerify _ _ _ _ => .ok true
  | .decodeReceipt _ => .ok []
  | .settlementResponse _ => .ok ⟨"",none,none⟩
  | .settlementRef _ => ""

def accepting : (r : RailRequest) → r.Answer
  | .pay _ _ => .ok (.ok [])
  | .x402Pay _ _ _ => .ok (200,none)
  | .facilitatorSettle _ _ _ _ _ => .ok (.settled [])
  | .authorize _ _ => .ok (.settled [])

def source (config : PaymentsConfig) (stamp : String) (rail : (r : RailRequest) → r.Answer)
    (_ : ℕ) : (op : Op) → op.Ans Unit
  | .read _ => none
  | .append _ _ => none
  | .replace _ _ => none
  | .ask q => question config stamp q
  | .submit r => (rail r,())
  | .openWallet => none
  | .saveWallet => none

def pass (config : PaymentsConfig) (stamp : String) (rail : (r : RailRequest) → r.Answer)
    (steps : ℕ) : Event Unit where
  job := .pass "wallet" false
  source := source config stamp rail
  steps := steps

def order : PaymentOrder := PaymentOrder.new "o1" "2026" "c1" "mesh" "1.00" "USD"

def world (o : PaymentOrder) : World Unit where
  store := { orders := [o] }
  wallet := ()
  walletFile := ()

def emptyWorld : World Unit where
  store := {}
  wallet := ()
  walletFile := ()

end Sample
end OriginTools.Payments
