import OriginTools.Payments.RunConduct
import OriginTools.Payments.Confirmed

/-!
# A receipt is spent once

The rails that dedupe look the hash of a receipt up before they settle an order with it.
-/

namespace OriginTools.Payments
open Process
variable {W : Type} (sdk : PaySdk)

def SpentOnce (orders : List PaymentOrder) : Prop :=
  ∀ o∈orders,∀ o'∈orders,o.status=.success → o'.status=.success →
    ∀ bytes∈o.receiptBytes,bytes∈o'.receiptBytes → o.paymentOrderId=o'.paymentOrderId

instance decidableSpentOnce (orders : List PaymentOrder) : Decidable (SpentOnce orders) :=
  inferInstanceAs (Decidable (∀ o∈orders,_))

def AllRecorded (w : World W) : Prop :=
  ∀ o∈w.store.orders,o.status=.success → ∀ bytes∈o.receiptBytes,
    ∃ r∈w.store.receipts,r.hash=sdk.sha3 bytes

instance decidableAllRecorded (w : World W) : Decidable (AllRecorded sdk w) :=
  inferInstanceAs (Decidable (∀ o∈w.store.orders,_))

structure Accounted (w : World W) (g : Sight) : Prop where
  read : ∀ rs,g.work.receipts=some rs → rs=w.store.receipts
  recorded : ∀ o∈w.store.orders,o.status=.success → ∀ bytes∈o.receiptBytes,
    g.work.owed=some (sdk.sha3 bytes) ∨ ∃ r∈w.store.receipts,r.hash=sdk.sha3 bytes
  spent : SpentOnce w.store.orders

section
variable {sdk} {w w' : World W} {g g' : Sight} {o : PaymentOrder}

theorem Accounted.still (h : Accounted sdk w g) (hw : w.SameBooks w') (hg : g.Still g') :
    Accounted sdk w' g' := by
  refine ⟨?_,?_,?_⟩
  · rw [hw.receipts,hg.receipts]
    exact h.read
  · rw [hw.orders,hw.receipts,hg.owed]
    exact h.recorded
  · rw [hw.orders]
    exact h.spent

theorem Accounted.all_recorded (h : Accounted sdk w g) (howed : g.work.owed=none) :
    AllRecorded sdk w := by
  intro o ho hs bytes hb
  rcases h.recorded o ho hs bytes hb with hd | hr
  · rw [howed] at hd
    cases hd
  · exact hr

theorem Accounted.fresh (h : Accounted sdk w g) {order} (he : g.work.Earned sdk order o) {o'}
    (ho' : o'∈w.store.orders) (hs : o'.status=.success) {bytes} (hb : bytes∈o.receiptBytes) :
    bytes∉o'.receiptBytes := by
  intro hb'
  obtain ⟨r,hr,hhash⟩ := h.all_recorded he.owed o' ho' hs bytes hb'
  obtain ⟨rs,hrs,hfresh⟩ := he.fresh bytes hb
  rw [h.read rs hrs] at hfresh
  exact hfresh r hr hhash

theorem spentOnce_append {orders} (h : SpentOnce orders)
    (ho : o.status=.success → ∀ o'∈orders,o'.status=.success →
      ∀ bytes∈o.receiptBytes,bytes∉o'.receiptBytes) : SpentOnce (orders++[o]) := by
  intro a ha b hb hsa hsb bytes hba hbb
  rcases List.mem_append.1 ha with ha | ha
  · rcases List.mem_append.1 hb with hb | hb
    · exact h a ha b hb hsa hsb bytes hba hbb
    · rw [List.mem_singleton.1 hb] at hsb hbb
      exact absurd hba (ho hsb a ha hsa bytes hbb)
  · rw [List.mem_singleton.1 ha] at hsa hba ⊢
    rcases List.mem_append.1 hb with hb | hb
    · exact absurd hbb (ho hsa b hb hsb bytes hba)
    · rw [List.mem_singleton.1 hb]

theorem Accounted.wrote (h : Accounted sdk w g) (hfair : g.Fair sdk (.append .orders o)) :
    Accounted sdk (w.push .orders o) (g.wrote sdk o) := by
  obtain ⟨_,hearned⟩ := hfair
  refine ⟨h.read,?_,?_⟩
  · intro x hx hs bytes hb
    rcases List.mem_append.1 hx with hx | hx
    · by_cases ho : o.status=.success
      · obtain ⟨order,he⟩ := hearned ho
        exact .inr (h.all_recorded he.owed x hx hs bytes hb)
      · simp only [Sight.wrote,if_neg ho]
        exact h.recorded x hx hs bytes hb
    · have hxo:=List.mem_singleton.1 hx
      subst hxo
      left
      have hb : x.receiptBytes=some bytes := hb
      simp only [Sight.wrote,if_pos hs,hb,Option.map_some]
  · apply spentOnce_append h.spent
    intro ho o' ho' hs' bytes hb
    obtain ⟨order,he⟩ := hearned ho
    exact h.fresh he ho' hs' hb

theorem Accounted.recordedHash (h : Accounted sdk w g) (r : ReceiptRecord) :
    Accounted sdk (w.push .receipts r) (g.recorded r) := by
  refine ⟨?_,?_,h.spent⟩
  · intro rs hrs
    obtain ⟨rs₀,hrs₀,rfl⟩ := Option.map_eq_some_iff.1 hrs
    rw [h.read rs₀ hrs₀]
    rfl
  · intro x hx hs bytes hb
    have hnew : ∀ r'∈w.store.receipts++[r],r'.hash=sdk.sha3 bytes →
        ∃ r'∈(w.push .receipts r).store.receipts,r'.hash=sdk.sha3 bytes :=
      fun r' hr' hh => ⟨r',hr',hh⟩
    rcases h.recorded x hx hs bytes hb with howed | ⟨r',hr',hh⟩
    · by_cases hr : g.work.owed=some r.hash
      · right
        refine hnew r (List.mem_append_right _ (List.mem_singleton_self r)) ?_
        rw [hr] at howed
        exact Option.some.inj howed
      · left
        simp only [Sight.recorded,if_neg hr]
        exact howed
    · exact .inr (hnew r' (List.mem_append_left _ hr') hh)

end

/-- In every run of passes, sweeps and callbacks with crashes in which no process stops
before its end with the receipt of a settled order unrecorded, a receipt is spent at
most once, in every state of the run. -/
theorem receipt_spent_once (es : List (Event W)) (w v : World W)
    (hw : AllRecorded sdk w ∧ SpentOnce w.store.orders)
    (hes : HeedsAll sdk (fun _ _ _ => True) (AllRecorded sdk) es w) (hv : Passes sdk es w v) :
    SpentOnce v.store.orders := by
  have hstep : ∀ (w : World W) g op a,Accounted sdk w g → g.Fair sdk op → True →
      Accounted sdk (handle op a w).2 (g.note sdk op (handle op a w).1) := by
    refine fair_step sdk (fun _ _ _ _ h hw hg => h.still hw hg) ?_
      (fun _ _ _ h hfair _ => h.wrote hfair) ?_ fun _ _ r h => h.recordedHash r
    · intro w g h
      exact ⟨fun rs hrs => (Option.some.inj hrs).symm,h.recorded,h.spent⟩
    · exact fun w g p h _ => ⟨h.read,h.recorded,h.spent⟩
  obtain ⟨g,hg⟩ := HeedsAll.passes sdk (fun w => AllRecorded sdk w ∧ SpentOnce w.store.orders)
    (fun w hw => ⟨nofun,fun o ho hs b hb => .inr (hw.1 o ho hs b hb),hw.2⟩) hstep
    (fun w g h hr => ⟨h.all_recorded hr,h.spent⟩) (fun w g h hr => ⟨hr,h.spent⟩) hes hw hv
  exact hg.spent

namespace Sample

def twoCards : World Unit where
  store := { orders := [cardOrder,{ cardOrder with paymentOrderId := "o2" }] }
  wallet := ()
  walletFile := ()

end Sample
open Sample

/-- A pass dies between the `SUCCESS` snapshot of the first order and the record of its
receipt. The next pass settles the second order with the same receipt. -/
theorem receipt_spent_twice : let es := [Sample.pass cardConfig "a" accepting 25,
      Sample.pass cardConfig "b" accepting 100]
    let v:=runAll paySdk es twoCards
    (AllRecorded paySdk twoCards ∧ SpentOnce twoCards.store.orders) ∧
      (v.store.orders.map fun o => (o.paymentOrderId,o.status,o.receiptBytes))=
        [("o1",.notStarted,none),("o2",.notStarted,none),("o1",.executing,none),
          ("o1",.success,some []),("o2",.executing,none),("o2",.success,some [])] ∧
      ¬ SpentOnce v.store.orders := by
  intro es v
  exact ⟨by decide +kernel,by decide +kernel,by decide +kernel⟩

/-- The first pass dies after the receipt is recorded: the second order is refused. -/
theorem receipt_spent_once_card : let es := [Sample.pass cardConfig "a" accepting 27,
      Sample.pass cardConfig "b" accepting 100]
    (runAll paySdk es twoCards).store.orders.map PaymentOrder.status=
        [.notStarted,.notStarted,.executing,.success,.executing,.failed] ∧
      ∀ v,Passes paySdk es twoCards v → SpentOnce v.store.orders := by
  intro es
  refine ⟨by decide +kernel,fun v hv => ?_⟩
  exact receipt_spent_once paySdk es twoCards v (by decide +kernel) (by decide +kernel) hv

end OriginTools.Payments
