import OriginTools.Payments.OrderTurn

/-!
# Events and the roll-up of their orders

An event is a coordination record over the orders of a checkout; its status is the
roll-up of theirs, stored in a log of its own.
-/

namespace OriginTools.Payments
open List
variable {W : Type}

def latestEvent (events : List PaymentEvent) (id : String) : Option PaymentEvent :=
  events.reverse.find? fun e => e.eventId==id

namespace PaymentEvent

def orderIds (e : PaymentEvent) : List String := e.paymentOrders.map PaymentOrder.paymentOrderId

def current (e : PaymentEvent) (lines : List PaymentOrder) : List PaymentOrder :=
  e.orderIds.filterMap (latest lines)

def RolledUp (e : PaymentEvent) (lines : List PaymentOrder) : Prop :=
  e.status=EventStatus.rollup (e.current lines)

end PaymentEvent

def Store.RolledUp (s : Store) : Prop := ∀ id e,latestEvent s.events id=some e → e.RolledUp s.orders

/-- As `RolledUp`, but for the events that hold the order `x`. -/
def Store.RolledUpBut (x : String) (s : Store) : Prop :=
  ∀ id e,latestEvent s.events id=some e → x∉e.orderIds → e.RolledUp s.orders

structure Store.Registered (s : Store) : Prop where
  known : ∀ e∈s.events,∀ id∈e.orderIds,latest s.orders id≠none
  stable : ∀ e∈s.events,∀ e'∈s.events,e.eventId=e'.eventId → e.orderIds=e'.orderIds
  exclusive : ∀ e∈s.events,∀ e'∈s.events,∀ id,id∈e.orderIds → id∈e'.orderIds → e.eventId=e'.eventId

structure Store.Coordinated (s : Store) : Prop where
  registered : s.Registered
  rolledUp : s.RolledUp

variable {events : List PaymentEvent}

theorem mem_of_latestEvent {id e} (h : latestEvent events id=some e) : e∈events :=
  mem_reverse.1 (mem_of_find?_eq_some h)

theorem latestEvent_append (events) (e : PaymentEvent) (id) :
    latestEvent (events++[e]) id=if e.eventId=id then some e else latestEvent events id := by
  by_cases h : e.eventId=id
  · simp [latestEvent,h]
  · simp [latestEvent,h]

theorem latestEvent_id {id e} (h : latestEvent events id=some e) : e.eventId=id := by
  have hp:=find?_some h
  simpa using hp

theorem eventOf_some {x e} (h : eventOf events x=some e) : e∈events ∧ x∈e.orderIds := by
  have hany:=find?_some h
  obtain ⟨o,ho,hid⟩ := any_eq_true.1 hany
  refine ⟨mem_reverse.1 (mem_of_find?_eq_some h),mem_map.2 ⟨o,ho,?_⟩⟩
  simpa using hid

theorem eventOf_none {x} (h : eventOf events x=none) {e} (he : e∈events) : x∉e.orderIds := by
  intro hx
  obtain ⟨o,ho,hid⟩ := mem_map.1 hx
  have hnot:=find?_eq_none.1 h e (mem_reverse.2 he)
  exact hnot (any_eq_true.2 ⟨o,ho,by simp [hid]⟩)

theorem latest_append_other {lines news id} (h : ∀ o∈news,o.paymentOrderId≠id) :
    latest (lines++news) id=latest lines id := by
  induction news using List.reverseRecOn with
  | nil => rw [append_nil]
  | append_singleton news o ih =>
    have hlast:=h o (mem_append_right _ (mem_singleton_self o))
    rw [← append_assoc,latest_append_ne _ (Ne.symm hlast)]
    exact ih fun o' ho' => h o' (mem_append_left _ ho')

theorem latest_ne_none_append {lines news id} (h : latest lines id≠none) :
    latest (lines++news) id≠none :=
  fun hnone => h (latest_none_of_append hnone)

section
variable {x : String} {w w' : World W} {s : Store}

theorem Touched.latest_other (h : Touched x w w') {id} (hne : id≠x)
    (hknown : latest w.store.orders id≠none) :
    latest w'.store.orders id=latest w.store.orders id := by
  obtain ⟨news,hnews,hold⟩ := h.orders
  rw [hnews]
  apply latest_append_other
  intro o ho hid
  rcases hold o ho with hx | hnone
  · exact hne (hid ▸ hx)
  · exact hknown (hid ▸ hnone)

theorem current_congr {e : PaymentEvent} {lines lines'}
    (h : ∀ id∈e.orderIds,latest lines' id=latest lines id) :
    e.current lines'=e.current lines :=
  filterMap_congr h

theorem Store.Registered.touched (hreg : w.store.Registered) (h : Touched x w w') :
    w'.store.Registered := by
  obtain ⟨news,hnews,_⟩ := h.orders
  have hevents:=h.events
  constructor
  · intro e he id hid
    rw [hnews]
    exact latest_ne_none_append (hreg.known e (hevents ▸ he) id hid)
  · intro e he e' he'
    exact hreg.stable e (hevents ▸ he) e' (hevents ▸ he')
  · intro e he e' he'
    exact hreg.exclusive e (hevents ▸ he) e' (hevents ▸ he')

theorem Store.RolledUpBut.touched (hbut : w.store.RolledUpBut x) (hreg : w.store.Registered)
    (h : Touched x w w') : w'.store.RolledUpBut x := by
  intro id e he hx
  rw [h.events] at he
  have hcurrent : e.current w'.store.orders=e.current w.store.orders := by
    apply current_congr
    intro id' hid'
    apply h.latest_other
    · intro hne
      exact hx (hne ▸ hid')
    · exact hreg.known e (mem_of_latestEvent he) id' hid'
  unfold PaymentEvent.RolledUp
  rw [hcurrent]
  exact hbut id e he hx

variable {shuffled : List PaymentOrder}

theorem find?_of_perm_latestOf {lines} (h : shuffled.Perm (latestOf lines)) (id : String) :
    shuffled.find? (fun o => o.paymentOrderId==id)=latest lines id := by
  have hmem : ∀ o,o∈shuffled ↔ latest lines o.paymentOrderId=some o := fun o =>
    h.mem_iff.trans (mem_latestOf lines o)
  cases hfind : shuffled.find? (fun o => o.paymentOrderId==id) with
  | some o =>
    have hid : o.paymentOrderId=id := by simpa using find?_some hfind
    rw [← hid]
    exact ((hmem o).1 (mem_of_find?_eq_some hfind)).symm
  | none =>
    rcases hlatest : latest lines id with _ | o
    · rfl
    have hid:=latest_id hlatest
    have hin : o∈shuffled := (hmem o).2 (by rw [hid]; exact hlatest)
    have hnot:=find?_eq_none.1 hfind o hin
    exact absurd (by simp [hid]) hnot

theorem latest_orders_hold_the_log {lines} (h : shuffled.Perm (latestOf lines)) :
    (shuffled.map PaymentOrder.paymentOrderId).Nodup ∧
      ∀ later id,latest (shuffled++later) id=latest (lines++later) id := by
  refine ⟨(h.map _).nodup_iff.mpr (latestOf_ids_nodup lines),fun later id => ?_⟩
  have hreverse:=find?_of_perm_latestOf ((reverse_perm shuffled).trans h) id
  simp only [latest,reverse_append,find?_append] at hreverse ⊢
  rw [hreverse]

theorem latest_orders_hold_retried :
    let o (now : String) := PaymentOrder.new "a" now "" "" "" ""
    latest ([o "2"]++[]) "a"=latest ([o "1",o "2"]++[]) "a" :=
  (latest_orders_hold_the_log (.of_eq (by rfl))).2 [] "a"

theorem refreshed_orders {lines} (h : shuffled.Perm (latestOf lines)) (e : PaymentEvent) :
    (e.refreshed shuffled).paymentOrders=e.current lines := by
  unfold PaymentEvent.refreshed PaymentEvent.current PaymentEvent.orderIds
  rw [filterMap_map]
  apply filterMap_congr
  intro o _
  exact find?_of_perm_latestOf h o.paymentOrderId

theorem filterMap_latest_ids {lines} {ids : List String} (h : ∀ id∈ids,latest lines id≠none) :
    (ids.filterMap (latest lines)).map PaymentOrder.paymentOrderId=ids := by
  induction ids with
  | nil => rfl
  | cons id ids ih =>
    have hrest:=ih fun id' hid' => h id' (.tail _ hid')
    cases hlatest : latest lines id with
    | none => exact absurd hlatest (h id (.head _))
    | some o => rw [filterMap_cons_some hlatest,map_cons,latest_id hlatest,hrest]

theorem refreshed_ids (hreg : s.Registered) (h : shuffled.Perm (latestOf s.orders))
    {e : PaymentEvent} (he : e∈s.events) : (e.refreshed shuffled).orderIds=e.orderIds := by
  unfold PaymentEvent.orderIds
  rw [refreshed_orders h]
  exact filterMap_latest_ids (hreg.known e he)

theorem refreshed_rolledUp (hreg : s.Registered) (h : shuffled.Perm (latestOf s.orders)) {e}
    (he : e∈s.events) : (e.refreshed shuffled).RolledUp s.orders := by
  have hcurrent : (e.refreshed shuffled).current s.orders=e.current s.orders := by
    unfold PaymentEvent.current
    rw [refreshed_ids hreg h he]
  unfold PaymentEvent.RolledUp
  rw [hcurrent,← refreshed_orders h]
  rfl

theorem Store.Registered.refreshed (hreg : s.Registered) (h : shuffled.Perm (latestOf s.orders)) {e}
    (he : e∈s.events) :
    ({ s with events := s.events++[e.refreshed shuffled] } : Store).Registered := by
  -- every snapshot stands for an old one with the same id and the same orders
  have hold : ∀ e'∈s.events++[e.refreshed shuffled],∃ e₀∈s.events,
      e₀.eventId=e'.eventId ∧ e₀.orderIds=e'.orderIds := by
    intro e' he'
    rcases mem_append.1 he' with he' | he'
    · exact ⟨e',he',rfl,rfl⟩
    · rw [mem_singleton.1 he']
      exact ⟨e,he,rfl,(refreshed_ids hreg h he).symm⟩
  constructor
  · intro e₁ h₁ id hid
    obtain ⟨e₀,h₀,_,hids⟩ := hold e₁ h₁
    exact hreg.known e₀ h₀ id (hids ▸ hid)
  · intro e₁ h₁ e₂ h₂ heq
    obtain ⟨a,ha,haid,haids⟩ := hold e₁ h₁
    obtain ⟨b,hb,hbid,hbids⟩ := hold e₂ h₂
    rw [← haids,← hbids]
    exact hreg.stable a ha b hb (by rw [haid,hbid,heq])
  · intro e₁ h₁ e₂ h₂ id hid₁ hid₂
    obtain ⟨a,ha,haid,haids⟩ := hold e₁ h₁
    obtain ⟨b,hb,hbid,hbids⟩ := hold e₂ h₂
    rw [← haid,← hbid]
    exact hreg.exclusive a ha b hb id (haids ▸ hid₁) (hbids ▸ hid₂)

theorem Store.Registered.rollup (hreg : s.Registered) (hbut : s.RolledUpBut x)
    (h : shuffled.Perm (latestOf s.orders)) {e} (he : eventOf s.events x=some e) :
    ({ s with events := s.events++[e.refreshed shuffled] } : Store).Coordinated := by
  obtain ⟨hmem,hx⟩ := eventOf_some he
  refine ⟨hreg.refreshed h hmem,?_⟩
  intro id e' he'
  rw [latestEvent_append] at he'
  by_cases hid : (e.refreshed shuffled).eventId=id
  · rw [if_pos hid] at he'
    cases he'
    exact refreshed_rolledUp hreg h hmem
  · rw [if_neg hid] at he'
    apply hbut id e' he'
    intro hx'
    apply hid
    rw [← latestEvent_id he']
    exact hreg.exclusive e hmem e' (mem_of_latestEvent he') x hx hx'

end

def PaymentEvent.new (id now checkoutId buyer seller : String) (orders : List PaymentOrder) :
    PaymentEvent where
  version := 1
  eventId := id
  checkoutId := checkoutId
  buyer := buyer
  seller := seller
  paymentOrders := orders
  status := .received
  createdAt := now
  envelope := none
  signature := none
  signer := none

variable {orders : List PaymentOrder}

theorem rollup_waiting (h : ∀ o∈orders,o.status=.notStarted) :
    EventStatus.rollup orders=.received := by
  rcases orders with _ | ⟨o,rest⟩
  · rfl
  have ho:=h o (.head _)
  have hrest : ∀ o'∈rest,o'.status=.notStarted := fun o' ho' => h o' (.tail _ ho')
  have hhalted : rest.any (fun o => o.status==.failed||o.status==.requiresAction)=false := by
    rw [any_eq_false]
    intro o' ho'
    simp [hrest o' ho']
  have hmoving : rest.any (fun o => o.status != .notStarted)=false := by
    rw [any_eq_false]
    intro o' ho'
    simp [hrest o' ho']
  simp [EventStatus.rollup,ho,hhalted,hmoving]

theorem coordinated_opened {e} (hstatus : e.status=.received)
    (hnew : ∀ o∈e.paymentOrders,o.status=.notStarted) :
    ({ orders := e.paymentOrders,events := [e] } : Store).Coordinated := by
  refine ⟨⟨fun e' he' id hid hnone => ?_,fun e₁ h₁ e₂ h₂ _ => ?_,fun e₁ h₁ e₂ h₂ _ _ _ => ?_⟩,
    fun id e' he' => ?_⟩
  · rw [mem_singleton.1 he'] at hid
    obtain ⟨o,ho,hoid⟩ := mem_map.1 hid
    exact (latest_eq_none_iff _ _).1 hnone o ho hoid
  · rw [mem_singleton.1 h₁,mem_singleton.1 h₂]
  · rw [mem_singleton.1 h₁,mem_singleton.1 h₂]
  · have he:=mem_singleton.1 (mem_of_latestEvent he')
    subst he
    refine hstatus.trans (rollup_waiting fun o ho => ?_).symm
    obtain ⟨id,hin,hlatest⟩ := mem_filterMap.1 ho
    exact hnew o (mem_of_latest hlatest)

def OrderStatus.halted (status : OrderStatus) : Prop := status=.failed ∨ status=.requiresAction

theorem rollup_halted (h : ∃ o∈orders,o.status.halted) :
    EventStatus.rollup orders=.partlySettled := by
  obtain ⟨o,ho,hs⟩ := h
  have hnonempty : orders.isEmpty=false := by
    cases orders with
    | nil => cases ho
    | cons _ _ => rfl
  have hall : orders.all (fun o => o.status==.success)=false := by
    rw [all_eq_false]
    refine ⟨o,ho,?_⟩
    rcases hs with hs | hs <;> simp [hs]
  have hany : orders.any (fun o => o.status==.failed||o.status==.requiresAction)=true := by
    rw [any_eq_true]
    refine ⟨o,ho,?_⟩
    rcases hs with hs | hs <;> simp [hs]
  simp [EventStatus.rollup,hnonempty,hall,hany]

theorem rollup_moving (hhalted : ∀ o∈orders,¬ o.status.halted)
    (hopen : ∃ o∈orders,o.status≠.success) (hmoving : ∃ o∈orders,o.status≠.notStarted) :
    EventStatus.rollup orders=.split := by
  obtain ⟨o,ho,hs⟩ := hopen
  have hnonempty : orders.isEmpty=false := by
    cases orders with
    | nil => cases ho
    | cons _ _ => rfl
  have hall : orders.all (fun o => o.status==.success)=false := by
    rw [all_eq_false]
    exact ⟨o,ho,by simpa using hs⟩
  have hnone : orders.any (fun o => o.status==.failed||o.status==.requiresAction)=false := by
    rw [any_eq_false]
    intro o' ho'
    have hnot:=hhalted o' ho'
    unfold OrderStatus.halted at hnot
    simpa using hnot
  have hany : orders.any (fun o => o.status != .notStarted)=true := by
    obtain ⟨o',ho',hs'⟩ := hmoving
    rw [any_eq_true]
    exact ⟨o',ho',by simpa using hs'⟩
  simp [EventStatus.rollup,hnonempty,hall,hnone,hany]

/-- Another order of the event decides the roll-up while `o` is put back into the queue:
one that has failed or awaits an action, or, if `o` is in flight, one in flight or settled. -/
def PaymentEvent.Steady (e : PaymentEvent) (lines : List PaymentOrder) (o : PaymentOrder) : Prop :=
  ∃ o'∈e.current lines,o'.paymentOrderId≠o.paymentOrderId ∧
    (o'.status.halted ∨ o.status=.executing ∧ (o'.status=.executing ∨ o'.status=.success))

section
variable {e : PaymentEvent} {lines : List PaymentOrder} {o o₁ : PaymentOrder} {id : String}

theorem mem_current_append {o'} : o'∈e.current (lines++[o₁]) ↔
      o'=o₁ ∧ o₁.paymentOrderId∈e.orderIds ∨
        o'∈e.current lines ∧ o'.paymentOrderId≠o₁.paymentOrderId := by
  unfold PaymentEvent.current
  simp only [mem_filterMap,latest_append]
  constructor
  · rintro ⟨id,hid,hlatest⟩
    by_cases h : o₁.paymentOrderId=id
    · rw [if_pos h] at hlatest
      exact .inl ⟨(Option.some.inj hlatest).symm,h ▸ hid⟩
    rw [if_neg h] at hlatest
    refine .inr ⟨⟨id,hid,hlatest⟩,?_⟩
    rw [latest_id hlatest]
    exact fun he => h he.symm
  · rintro (⟨rfl,hid⟩ | ⟨⟨id,hid,hlatest⟩,hne⟩)
    · exact ⟨_,hid,if_pos rfl⟩
    · rw [latest_id hlatest] at hne
      exact ⟨id,hid,by rw [if_neg (Ne.symm hne)]; exact hlatest⟩

theorem mem_current (ho : latest lines id=some o) (hin : id∈e.orderIds) : o∈e.current lines :=
  mem_filterMap.2 ⟨id,hin,ho⟩

theorem rollup_requeued (ho : latest lines id=some o) (hin : id∈e.orderIds)
    (hid : o₁.paymentOrderId=id) (h₁ : o₁.status=.notStarted) (hsteady : e.Steady lines o) :
    EventStatus.rollup (e.current (lines++[o₁]))=EventStatus.rollup (e.current lines) := by
  obtain ⟨o',ho',hne,hstatus⟩ := hsteady
  have hoid:=latest_id ho
  have hkept : ∀ y∈e.current lines,y.paymentOrderId≠id → y∈e.current (lines++[o₁]) :=
    fun y hy hyid => mem_current_append.2 (.inr ⟨hy,by rw [hid]; exact hyid⟩)
  have hkept':=hkept o' ho' (by rw [← hoid]; exact hne)
  by_cases hhalted : ∃ y∈e.current lines,y.paymentOrderId≠id ∧ y.status.halted
  · obtain ⟨y,hy,hyid,hyhalted⟩ := hhalted
    rw [rollup_halted ⟨y,hy,hyhalted⟩,rollup_halted ⟨y,hkept y hy hyid,hyhalted⟩]
  have hflight : o.status=.executing ∧ (o'.status=.executing ∨ o'.status=.success) := by
    rcases hstatus with hstatus | hstatus
    · exact absurd ⟨o',ho',by rw [← hoid]; exact hne,hstatus⟩ hhalted
    · exact hstatus
  have hnone : ∀ y∈e.current lines,¬ y.status.halted := by
    intro y hy hyhalted
    by_cases hyid : y.paymentOrderId=id
    · obtain ⟨id',_,hlatest⟩ := mem_filterMap.1 hy
      rw [← latest_id hlatest,hyid,ho] at hlatest
      cases hlatest
      rcases hyhalted with hyhalted | hyhalted <;> rw [hflight.1] at hyhalted <;> cases hyhalted
    · exact hhalted ⟨y,hy,hyid,hyhalted⟩
  have hmoving : o'.status≠.notStarted := by
    rcases hflight.2 with h' | h' <;> rw [h'] <;> decide
  have hsplit : EventStatus.rollup (e.current lines)=.split := by
    apply rollup_moving hnone
    · exact ⟨o,mem_current ho hin,by rw [hflight.1]; decide⟩
    · exact ⟨o',ho',hmoving⟩
  rw [hsplit]
  apply rollup_moving
  · intro y hy
    rcases mem_current_append.1 hy with ⟨rfl,_⟩ | ⟨hy,_⟩
    · intro hyhalted
      rcases hyhalted with hyhalted | hyhalted <;> rw [h₁] at hyhalted <;> cases hyhalted
    · exact hnone y hy
  · exact ⟨o₁,mem_current_append.2 (.inl ⟨rfl,by rw [hid]; exact hin⟩),by rw [h₁]; decide⟩
  · exact ⟨o',hkept',hmoving⟩

theorem rollup_rejected (ho : latest lines id=some o) (hin : id∈e.orderIds)
    (hid : o₁.paymentOrderId=id) (hs : o.status=.requiresAction) (h₁ : o₁.status=.failed) :
    EventStatus.rollup (e.current (lines++[o₁]))=EventStatus.rollup (e.current lines) := by
  have hmem₁ : o₁∈e.current (lines++[o₁]) :=
    mem_current_append.2 (.inl ⟨rfl,by rw [hid]; exact hin⟩)
  rw [rollup_halted ⟨o,mem_current ho hin,.inr hs⟩,rollup_halted ⟨o₁,hmem₁,.inl h₁⟩]

end

/-- Putting the order back into the queue leaves the roll-up of its event as it is. -/
def Store.SteadyFor (s : Store) (id : String) : Prop :=
  ∀ o∈latest s.orders id,o.status.canTransition .notStarted=true →
    ∀ e∈eventOf s.events id,e.Steady s.orders o

theorem Store.SteadyFor.steady {s : Store} {id eventId} {o : PaymentOrder} {e : PaymentEvent}
    (h : s.SteadyFor id) (hreg : s.Registered) (ho : latest s.orders id=some o)
    (hs : o.status.canTransition .notStarted=true) (he : latestEvent s.events eventId=some e)
    (hin : id∈e.orderIds) : e.Steady s.orders o := by
  have hmem:=mem_of_latestEvent he
  rcases hfound : eventOf s.events id with _ | e₀
  · exact absurd hin (eventOf_none hfound hmem)
  -- the snapshot found by the order lists the same orders as the latest one
  obtain ⟨hmem₀,hin₀⟩ := eventOf_some hfound
  have heq : e₀.orderIds=e.orderIds :=
    hreg.stable e₀ hmem₀ e hmem (hreg.exclusive e₀ hmem₀ e hmem id hin₀ hin)
  have hsteady : e₀.Steady s.orders o := h o ho hs e₀ hfound
  unfold PaymentEvent.Steady PaymentEvent.current at hsteady ⊢
  rw [heq] at hsteady
  exact hsteady

end OriginTools.Payments
