import OriginTools.Payments.Run

/-!
# Inserting an order under its id

The log keeps every snapshot of an order; `insertOrder` scans it from its first line and
`getOrder` from its last.
-/

namespace OriginTools.Payments
open Process Option List
variable {W : Type} {source : ℕ → (op : Op) → op.Ans W} {w : World W} {order o : PaymentOrder}

def StoreWorks (source : ℕ → (op : Op) → op.Ans W) : Prop :=
  ∀ t (op : Op),op.works (source t op)=true

theorem find?_eq_head?_snapshots (lines : List PaymentOrder) (id : String) :
    lines.find? (fun o => o.paymentOrderId==id)=(snapshots lines id).head? :=
  (head?_filter ..).symm

theorem exec_readLog_bind {α : Type} (hworks : StoreWorks source) (t : ℕ) (l : Log)
    (f : List l.Entry → Proc Error α) :
    exec handle source t ((readLog l).bind f) w=exec handle source (t+1) (f (w.store.get l)) w := by
  have hread : source t (.read l)=none := isNone_iff_eq_none.1 (hworks t (.read l))
  simp only [readLog,Process.bind,exec,hread]
  rfl

theorem exec_getOrder {id} (hworks : StoreWorks source) (t : ℕ)
    (h : latest w.store.orders id=some o) :
    exec handle source t (getOrder id) w=(.done o,w) := by
  rw [getOrder,bind_eq,exec_readLog_bind hworks]
  erw [h]
  rfl

theorem exec_insertOrder_replay (hworks : StoreWorks source) (t : ℕ)
    (h : (snapshots w.store.orders order.paymentOrderId).head? = some o) :
    exec handle source t (insertOrder order) w=(.done (some o),w) := by
  rw [← find?_eq_head?_snapshots] at h
  rw [insertOrder,bind_eq,exec_readLog_bind hworks]
  erw [h]
  rfl

theorem exec_insertOrder_fresh (hworks : StoreWorks source) (t : ℕ)
    (h : (snapshots w.store.orders order.paymentOrderId).head? = none) :
    exec handle source t (insertOrder order) w=(.done none,w.push .orders order) := by
  have happend : source (t+1) (.append .orders order)=none :=
    isNone_iff_eq_none.1 (hworks (t+1) (.append .orders order))
  rw [← find?_eq_head?_snapshots] at h
  rw [insertOrder,bind_eq,exec_readLog_bind hworks]
  erw [h]
  simp only [bind_eq,appendLog,Process.bind,exec,happend]
  rfl

/-- A replay reports the order that a lookup gives and writes nothing; a fresh order is
the one that lookups give from then on. -/
structure InsertsOnce (source : ℕ → (op : Op) → op.Ans W) (t u : ℕ) (order : PaymentOrder)
    (w : World W) : Prop where
  replay : order.paymentOrderId∈w.store.orders.map (·.paymentOrderId) →
    ∃ o,exec handle source t (insertOrder order) w=(.done (some o),w) ∧
      exec handle source u (getOrder order.paymentOrderId) w=(.done o,w)
  fresh : order.paymentOrderId∉w.store.orders.map (·.paymentOrderId) →
    ∃ w',exec handle source t (insertOrder order) w=(.done none,w') ∧
      exec handle source u (getOrder order.paymentOrderId) w'=(.done order,w')

theorem insertsOnce_iff (hworks : StoreWorks source) (t u : ℕ) (order : PaymentOrder)
    (w : World W) :
    InsertsOnce source t u order w ↔ (snapshots w.store.orders order.paymentOrderId).head? =
        (snapshots w.store.orders order.paymentOrderId).getLast? := by
  have hempty : order.paymentOrderId∉w.store.orders.map (·.paymentOrderId) ↔
      snapshots w.store.orders order.paymentOrderId=[] := by
    simp [snapshots]
  have hlatest:=latest_eq_getLast?_snapshots w.store.orders order.paymentOrderId
  cases hs : snapshots w.store.orders order.paymentOrderId with
  | nil =>
    refine iff_of_true ⟨fun hmem => absurd hmem (hempty.2 hs),fun _ => ?_⟩ rfl
    exact ⟨_,exec_insertOrder_fresh hworks t (by rw [hs]; rfl),
      exec_getOrder hworks u (latest_append_self w.store.orders order)⟩
  | cons first rest =>
    have hinsert:=exec_insertOrder_replay hworks t (congrArg head? hs)
    rw [hs,getLast?_eq_some_getLast (cons_ne_nil first rest)] at hlatest
    have hget:=exec_getOrder hworks u hlatest
    rw [hs,iff_false_right (cons_ne_nil first rest),not_not] at hempty
    rw [getLast?_eq_some_getLast (cons_ne_nil first rest)]
    constructor
    · intro h
      obtain ⟨o,hi,hg⟩ := h.replay hempty
      rw [hinsert] at hi
      rw [hget] at hg
      cases hi
      exact congrArg some (Outcome.done.inj (congrArg Prod.fst hg)).symm
    · intro h
      rw [← Option.some.inj h] at hget
      exact ⟨fun _ => ⟨first,hinsert,hget⟩,fun hnone => absurd hempty hnone⟩

def Sample.advanced : World Unit where
  store := { orders := [Sample.order,{ Sample.order with status := .executing }] }
  wallet := ()
  walletFile := ()

theorem storeWorks_sample (config stamp) (rail : (r : RailRequest) → r.Answer) :
    StoreWorks (Sample.source config stamp rail) := by
  intro t op
  cases op <;> rfl

theorem insertsOnce_until_updated : let source:=Sample.source .default "a" Sample.accepting
    InsertsOnce source 0 0 Sample.order (Sample.world Sample.order) ∧
      ¬ InsertsOnce source 0 0 Sample.order Sample.advanced := by
  have hiff:=insertsOnce_iff (storeWorks_sample .default "a" Sample.accepting) 0 0 Sample.order
  refine ⟨(hiff _).2 rfl,fun h => ?_⟩
  have hsame:=(hiff _).1 h
  exact absurd (congrArg (Option.map PaymentOrder.status) hsame) (by decide)

theorem insertOrder_replays_first_snapshot : let source:=Sample.source .default "a" Sample.accepting
    ∃ first last,first≠last ∧ exec handle source 0 (insertOrder Sample.order) Sample.advanced=
        (.done (some first),Sample.advanced) ∧
      exec handle source 0 (getOrder "o1") Sample.advanced=(.done last,Sample.advanced) := by
  refine ⟨Sample.order,{ Sample.order with status := .executing },?_,rfl,rfl⟩
  intro h
  exact absurd (congrArg PaymentOrder.status h) (by decide)

end OriginTools.Payments
