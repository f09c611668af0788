import OriginTools.Payments.PassConduct

/-!
# Processes side by side on one store

Passes, callbacks and operator commands run as processes of their own.
-/

namespace OriginTools.Payments
open Process
variable {W ι : Type} (sdk : PaySdk)

inductive Party where
  | pass (path : String) (screened : Bool)
  | callback (message : SettlementCallback)
  | retry (paymentOrderId : String)
  | resume (paymentOrderId : String)

def Party.process : Party → Proc Error Unit
  | .pass path screened => (runOnce sdk path screened).bind fun _ => .done ()
  | .callback message => processCallback sdk message
  | .retry paymentOrderId => cmdOrderRetry paymentOrderId
  | .resume paymentOrderId => cmdOrderResume paymentOrderId

theorem party_sighted (party : Party) : Sighted sdk (fun _ _ => True) (party.process sdk) {} := by
  cases party with
  | pass path screened =>
    apply (runOnce_sighted sdk path screened).bind
    · exact fun _ _ _ => trivial
    · exact fun _ _ _ => trivial
    · exact fun _ _ => trivial
  | callback message => exact (processCallback_sighted sdk message).post fun _ _ _ => trivial
  | retry id => exact (cmdOrderRetry_sighted sdk id).post fun _ _ _ => trivial
  | resume id => exact (cmdOrderResume_sighted sdk id).post fun _ _ _ => trivial

/-- The world, and for each process that has read the order log the snapshots that the
others have appended since its first read. -/
structure Shared (ι W : Type) where
  world : World W
  foreign : ι → Option (List PaymentOrder) := fun _ => none

namespace Shared
variable [DecidableEq ι]

def log (s : Shared ι W) : List PaymentOrder := s.world.store.get .orders

def noted (i : ι) (foreign : ι → Option (List PaymentOrder)) :
    (op : Op) → op.Resp → ι → Option (List PaymentOrder)
  | .read .orders,.ok _ => Function.update foreign i (some ((foreign i).getD []))
  | .append .orders (o : PaymentOrder),.ok _ =>
      fun j => if j=i then foreign i else (foreign j).map fun os => os++[o]
  | _,_ => foreign

-- The wallet of the world is the one opened last. No response depends on it.
def handle (i : ι) (op : Op) (a : op.Ans W) (s : Shared ι W) : op.Resp × Shared ι W :=
  ((Payments.handle op a s.world).1,
    { world := (Payments.handle op a s.world).2
      foreign := noted i s.foreign op (Payments.handle op a s.world).1 })

/-- No other process has appended a snapshot of the order since `i` first read the log. -/
def Undisturbed (s : Shared ι W) (i : ι) (id : String) : Prop :=
  ∀ o∈(s.foreign i).getD [],o.paymentOrderId≠id

def Exclusive (i : ι) (s : Shared ι W) : (op : Op) → op.Ans W → Prop
  | .append .orders o,_ => s.Undisturbed i o.paymentOrderId
  | _,_ => True

instance decidableUndisturbed (s : Shared ι W) (i : ι) (id : String) :
    Decidable (s.Undisturbed i id) :=
  inferInstanceAs (Decidable (∀ o∈(s.foreign i).getD [],o.paymentOrderId≠id))

instance decidableExclusive (i : ι) (s : Shared ι W) (op : Op) (a : op.Ans W) :
    Decidable (Exclusive i s op a) := by
  cases op with
  | append l _ =>
    cases l with
    | orders => exact decidableUndisturbed ..
    | _ => exact isTrue trivial
  | _ => exact isTrue trivial

theorem noted_elsewhere {i op} (h : op.log? ≠ some .orders)
    (foreign : ι → Option (List PaymentOrder)) (r : op.Resp) : noted i foreign op r=foreign := by
  cases op with
  | read l | append l entry => cases l <;> first | rfl | exact absurd rfl h
  | replace | ask | submit | openWallet | saveWallet => rfl

end Shared

def Lawful (lines : List PaymentOrder) : Prop :=
  ∀ id,(snapshots lines id).IsChain fun a b => a.status.leadsTo b.status=true

def SuccessFinal (lines : List PaymentOrder) : Prop :=
  ∀ id,(snapshots lines id).Pairwise fun a b => a.status=.success → b.status=.success

theorem lawful_append {lines o} (h : Lawful lines)
    (ho : ∀ o',latest lines o.paymentOrderId=some o' → o'.status.leadsTo o.status=true) :
    Lawful (lines++[o]) := by
  intro id
  have hsplit : snapshots (lines++[o]) id=
      snapshots lines id++snapshots [o] id := List.filter_append _ _
  rw [hsplit]
  refine List.isChain_append.2 ⟨h id,?_,?_⟩
  · by_cases hid : o.paymentOrderId=id
    · simp [snapshots,hid]
    · simp [snapshots,hid]
  · intro a ha b hb
    rw [← latest_eq_getLast?_snapshots] at ha
    have hmem:=List.mem_filter.1 (List.mem_of_mem_head? hb)
    have hb' : b=o := List.mem_singleton.1 hmem.1
    have hid : o.paymentOrderId=id := by
      rw [← hb']
      simpa using hmem.2
    subst hid
    rw [hb']
    exact ho a ha

theorem leadsTo_success {a b : OrderStatus} (h : a.leadsTo b=true) (ha : a=.success) :
    b=.success := by
  subst ha
  cases b <;> first | rfl | cases h

theorem Lawful.successFinal {lines} (h : Lawful lines) : SuccessFinal lines := by
  intro id
  have hchain:=(h id).imp fun a b hab => leadsTo_success hab
  have htrans : IsTrans PaymentOrder fun a b => a.status=.success → b.status=.success :=
    ⟨fun _ _ _ hab hbc ha => hbc (hab ha)⟩
  exact List.isChain_iff_pairwise.1 hchain

section

structure Knows (i : ι) (s : Shared ι W) (g : Sight) : Prop where
  torn : ∀ id,s.Undisturbed i id → ¬ g.torn id
  view : ∀ v,g.view=some v → ∀ id,s.Undisturbed i id → latest s.log id=latest v id
  unread : s.foreign i=none ↔ g.view=none

variable {i j : ι} {s : Shared ι W} {g : Sight} {o : PaymentOrder}

theorem note_elsewhere {op} (h : op.log? ≠ some .orders) (r : op.Resp) :
    (g.note sdk op r).view=g.view ∧ (g.note sdk op r).torn=g.torn := by
  cases op with
  | read l =>
    cases l with
    | orders => exact absurd rfl h
    | receipts => cases r <;> exact ⟨rfl,rfl⟩
    | _ => exact ⟨rfl,rfl⟩
  | append l entry =>
    cases l with
    | orders => exact absurd rfl h
    | postings | receipts => cases r <;> exact ⟨rfl,rfl⟩
    | _ => exact ⟨rfl,rfl⟩
  | replace | ask | openWallet => exact ⟨rfl,rfl⟩
  | submit r' =>
    cases r' with
    | pay orderId params =>
      match r with
      | .ok (.ok _) => exact ⟨rfl,rfl⟩
      | .ok (.error _) => exact ⟨rfl,rfl⟩
      | .error _ => exact ⟨rfl,rfl⟩
    | _ => exact ⟨rfl,rfl⟩
  | saveWallet => cases r <;> exact ⟨rfl,rfl⟩

variable {s' : Shared ι W}

theorem Knows.congr {g'} (h : Knows i s g) (hlog : s'.log=s.log)
    (hforeign : s'.foreign i=s.foreign i) (hview : g'.view=g.view) (htorn : g'.torn=g.torn) :
    Knows i s' g' := by
  have hu : ∀ id,s'.Undisturbed i id ↔ s.Undisturbed i id := by
    intro id
    unfold Shared.Undisturbed
    rw [hforeign]
  constructor
  · intro id hid
    rw [htorn]
    exact h.torn id ((hu id).1 hid)
  · intro v hv id hid
    rw [hlog]
    exact h.view v (hview ▸ hv) id ((hu id).1 hid)
  · rw [hforeign,hview]
    exact h.unread

theorem Knows.learn (h : Knows i s g) (hlog : s'.log=s.log)
    (hforeign : s'.foreign i=some ((s.foreign i).getD [])) : Knows i s' (g.learn s.log) := by
  have hu : ∀ id,s'.Undisturbed i id ↔ s.Undisturbed i id := by
    intro id
    simp only [Shared.Undisturbed,hforeign,Option.getD_some]
  have hread : s'.foreign i≠none := by
    rw [hforeign]
    exact nofun
  unfold Sight.learn
  split
  · refine ⟨fun id hid => h.torn id ((hu id).1 hid),?_,iff_of_false hread nofun⟩
    intro v hv id _
    cases hv
    rw [hlog]
  · rename_i v hv
    have hsame : ∀ id,s'.Undisturbed i id → latest s.log id=latest v id :=
      fun id hid => h.view v hv id ((hu id).1 hid)
    refine ⟨?_,?_,iff_of_false hread (by rw [hv]; exact nofun)⟩
    · intro id hid ht
      rcases ht with ht | ht
      · exact h.torn id ((hu id).1 hid) ht
      · exact ht (hsame id hid)
    · intro v' hv' id hid
      have hvv' : v=v' := Option.some.inj (hv.symm.trans hv')
      rw [← hvv',hlog]
      exact hsame id hid

theorem Knows.wrote (h : Knows i s g) (hlog : s'.log=s.log++[o])
    (hforeign : s'.foreign i=s.foreign i) : Knows i s' (g.wrote sdk o) := by
  have hu : ∀ id,s'.Undisturbed i id ↔ s.Undisturbed i id := by
    intro id
    unfold Shared.Undisturbed
    rw [hforeign]
  refine ⟨fun id hid => h.torn id ((hu id).1 hid),?_,?_⟩
  · intro v hv id hid
    obtain ⟨v₀,hv₀,rfl⟩ := Option.map_eq_some_iff.1 hv
    rw [hlog,latest_append,latest_append,h.view v₀ hv₀ id ((hu id).1 hid)]
  · rw [hforeign,h.unread]
    exact Option.map_eq_none_iff.symm

theorem Knows.foreign (h : Knows i s g) (hlog : s'.log=s.log++[o])
    (hforeign : s'.foreign i=(s.foreign i).map fun os => os++[o]) : Knows i s' g := by
  cases hs : s.foreign i with
  | none =>
    have hsame : s'.foreign i=s.foreign i := by
      rw [hforeign,hs]
      rfl
    have hview:=h.unread.1 hs
    refine ⟨fun id _ => h.torn id ?_,fun v hv => ?_,by rw [hsame]; exact h.unread⟩
    · simp [Shared.Undisturbed,hs]
    · rw [hview] at hv
      cases hv
  | some os =>
    have hu : ∀ id,s'.Undisturbed i id → s.Undisturbed i id ∧ o.paymentOrderId≠id := by
      intro id hid
      rw [Shared.Undisturbed,hforeign,hs] at hid
      simp only [Option.map_some,Option.getD_some,List.mem_append,List.mem_singleton] at hid
      refine ⟨fun x hx => hid x (.inl ?_),hid o (.inr rfl)⟩
      rw [hs] at hx
      exact hx
    refine ⟨fun id hid => h.torn id (hu id hid).1,?_,?_⟩
    · intro v hv id hid
      have hne : id≠o.paymentOrderId := fun he => (hu id hid).2 he.symm
      rw [hlog,latest_append_ne _ hne]
      exact h.view v hv id (hu id hid).1
    · have hne : g.view≠none := fun hn => by
        have := h.unread.2 hn
        rw [hs] at this
        cases this
      rw [hforeign,hs]
      simp only [Option.map_some,reduceCtorEq,false_iff]
      exact hne

theorem start_knows (w : World W) (i : ι) : Knows i ⟨w,fun _ => none⟩ {} := by
  refine ⟨fun _ _ ht => ht,nofun,?_⟩
  exact iff_of_true rfl rfl

variable [DecidableEq ι]

theorem own_step {op a} (hlaw : Lawful s.log) (hk : Knows i s g) (hfair : g.Fair sdk op)
    (hex : Shared.Exclusive i s op a) :
    Lawful (Shared.handle i op a s).2.log ∧
      Knows i (Shared.handle i op a s).2 (g.note sdk op (Shared.handle i op a s).1) := by
  by_cases hop : op.log? = some .orders
  · cases op with
    | read l =>
      cases hop
      cases a with
      | none => exact ⟨hlaw,hk.learn rfl (Function.update_self _ _ _)⟩
      | some e => exact ⟨hlaw,hk.congr rfl rfl rfl rfl⟩
    | append l o =>
      cases hop
      change PaymentOrder at o
      cases a with
      | none =>
        have hlog : (Shared.handle i (.append .orders o) none s).2.log=s.log++[o] := rfl
        have hown : (Shared.handle i (.append .orders o) none s).2.foreign i=s.foreign i :=
          if_pos rfl
        refine ⟨?_,hk.wrote sdk hlog hown⟩
        rw [hlog]
        apply lawful_append hlaw
        rcases hfair.1 with ht | ⟨v,hv,hlead⟩
        · exact absurd ht (hk.torn _ hex)
        · intro o' ho'
          rw [hk.view v hv _ hex] at ho'
          exact hlead o' ho'
      | some e => exact ⟨hlaw,hk.congr rfl rfl rfl rfl⟩
    | replace l entries =>
      cases hop
      exact hfair.elim
    | _ => cases hop
  · have hlog : (Shared.handle i op a s).2.log=s.log := handle_elsewhere hop a s.world
    have hnoted : (Shared.handle i op a s).2.foreign=s.foreign := Shared.noted_elsewhere hop _ _
    obtain ⟨hview,htorn⟩ := note_elsewhere sdk (g := g) hop (Shared.handle i op a s).1
    exact ⟨hlog.symm ▸ hlaw,hk.congr hlog (by rw [hnoted]) hview htorn⟩

theorem foreign_step {g' : Sight} {op : Op} {a} (hne : i≠j) (hk : Knows i s g)
    (hfair : g'.Fair sdk op) : Knows i (Shared.handle j op a s).2 g := by
  by_cases hop : op.log? = some .orders
  · cases op with
    | read l =>
      cases hop
      cases a with
      | none => exact hk.congr rfl (Function.update_of_ne hne _ _) rfl rfl
      | some e => exact hk.congr rfl rfl rfl rfl
    | append l o =>
      cases hop
      cases a with
      | none => exact hk.foreign rfl (if_neg hne)
      | some e => exact hk.congr rfl rfl rfl rfl
    | replace l entries =>
      cases hop
      exact hfair.elim
    | _ => cases hop
  · have hlog : (Shared.handle j op a s).2.log=s.log := handle_elsewhere hop a s.world
    have hnoted : (Shared.handle j op a s).2.foreign=s.foreign := Shared.noted_elsewhere hop _ _
    exact hk.congr hlog (by rw [hnoted]) rfl rfl

theorem success_final_interleaved (parties : ι → Party)
    (schedule : List (ι × ((op : Op) → op.Ans W))) (w : World W)
    (hw : Lawful (w.store.get .orders))
    (hex : Pool.Obeys Shared.handle Shared.Exclusive schedule
      (fun i => (parties i).process sdk) ⟨w,fun _ => none⟩) :
    let s:=(Pool.run Shared.handle schedule (fun i => (parties i).process sdk)
      ⟨w,fun _ => none⟩).2
    Lawful s.log ∧ SuccessFinal s.log := by
  have hstart : Pool.Watching (Sight.note sdk) (Sight.Fair sdk) (fun s => Lawful s.log) Knows
      (fun i => (parties i).process sdk) (⟨w,fun _ => none⟩ : Shared ι W) :=
    ⟨hw,fun i => ⟨{},party_sighted sdk (parties i),start_knows w i⟩⟩
  have hlaw:=hstart.run hex
    (fun _ _ _ _ _ hinv hk hfair hallowed => own_step sdk hinv hk hfair hallowed)
    fun _ _ _ _ _ _ _ hne hk hfair => foreign_step sdk hne hk hfair
  exact ⟨hlaw,hlaw.successFinal⟩

theorem lawful_singleton (o) : Lawful [o] := by
  have hnil : Lawful [] := fun _ => List.isChain_nil
  refine lawful_append hnil fun o' ho' => ?_
  rw [latest_nil] at ho'
  cases ho'

namespace Sample

def operatorAndPass : Bool → Party
  | false => .retry "o1"
  | true => .pass "wallet" false

def turn (i : Bool) : Bool × ((op : Op) → op.Ans Unit) := (i,source .default "a" accepting 0)
def failedOrder : PaymentOrder := { order with status := .failed,nextRetryAt := some "2026" }

end Sample
open Sample

/-- The operator's command reads the failed order, a pass settles it, and then the
command appends its `NOT_STARTED` snapshot. -/
theorem success_undone_interleaved :
    let s:=(Pool.run Shared.handle (turn false::List.replicate 60 (turn true)++
        List.replicate 2 (turn false))
      (fun i => (operatorAndPass i).process paySdk)
      ⟨Sample.world failedOrder,fun _ => none⟩).2
    Lawful [failedOrder] ∧ s.log.map PaymentOrder.status=[.failed,.executing,.success,.notStarted] ∧
      s.log.map PaymentOrder.paymentOrderId=["o1","o1","o1","o1"] ∧
      ¬ SuccessFinal s.log := by
  intro s
  have hstatus : s.log.map PaymentOrder.status=[.failed,.executing,.success,.notStarted] := by
    decide +kernel
  have hids : s.log.map PaymentOrder.paymentOrderId=["o1","o1","o1","o1"] := by
    decide +kernel
  refine ⟨lawful_singleton _,hstatus,hids,fun hfinal => ?_⟩
  have hall : snapshots s.log "o1"=s.log := by
    apply List.filter_eq_self.2
    intro o ho
    have hmem:=List.mem_map_of_mem (f := PaymentOrder.paymentOrderId) ho
    rw [hids] at hmem
    simpa using hmem
  have hpairs:=hfinal "o1"
  rw [hall] at hpairs
  have hstatuses : (s.log.map PaymentOrder.status).Pairwise
      fun a b => a=.success → b=.success := List.pairwise_map.2 hpairs
  rw [hstatus] at hstatuses
  exact absurd hstatuses (by decide)

/-- The operator's command comes first, and the pass then settles the order. -/
theorem success_final_retry_then_pass :
    let schedule:=List.replicate 3 (turn false)++List.replicate 60 (turn true)
    let s:=(Pool.run Shared.handle schedule (fun i => (operatorAndPass i).process paySdk)
      ⟨Sample.world failedOrder,fun _ => none⟩).2
    s.log.map PaymentOrder.status=[.failed,.notStarted,.executing,.success] ∧
      Lawful s.log ∧ SuccessFinal s.log := by
  intro schedule s
  refine ⟨by decide +kernel,?_⟩
  exact success_final_interleaved paySdk operatorAndPass schedule
    (Sample.world failedOrder) (lawful_singleton _) (by decide +kernel)

end
end OriginTools.Payments
