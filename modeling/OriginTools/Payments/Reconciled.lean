import OriginTools.Payments.Reconcile

/-!
# What a reconciled day means

A run compares the settlement files of one date with every settled order of the log,
whatever its day, and both sides are folded into maps by order id first.
-/

namespace OriginTools.Payments
open List

def amountKey (a : String) : ℤ ⊕ String :=
  match parseAmount a with
  | .ok x => .inl x
  | .error _ => .inr a

theorem amountEq_iff (a b : String) : amountEq a b=true ↔ amountKey a=amountKey b := by
  unfold amountEq amountKey
  cases ha : parseAmount a with
  | ok x =>
    cases hb : parseAmount b with
    | ok y => simp
    | error e =>
      have hne : a≠b := by
        intro hab
        rw [hab,hb] at ha
        cases ha
      simp [hne]
  | error e =>
    cases hb : parseAmount b with
    | ok y =>
      have hne : a≠b := by
        intro hab
        rw [hab,hb] at ha
        cases ha
      simp [hne]
    | error e' => simp

def SameParsed (a b : String) : Prop := ∃ x,parseAmount a=.ok x ∧ parseAmount b=.ok x

theorem sameParsed_of_amountEq {a b x} (ha : parseAmount a=.ok x) (h : amountEq a b=true) :
    SameParsed a b := by
  rw [amountEq_iff] at h
  unfold amountKey at h
  rw [ha] at h
  cases hb : parseAmount b with
  | error e =>
    rw [hb] at h
    cases h
  | ok y =>
    rw [hb] at h
    exact ⟨x,ha,by rw [hb,Sum.inl.inj h]⟩

def becameSuccess (orders : List PaymentOrder) (id : String) : Option PaymentOrder :=
  (successes orders).find? fun o => o.paymentOrderId==id

def onDay (date time : String) : Bool := (date ++ "T").toList.isPrefixOf time.toList

def settledOn (orders : List PaymentOrder) (date id : String) : Bool :=
  (becameSuccess orders id).any fun o => onDay date o.updatedAt

structure ListsDay (orders : List PaymentOrder) (date : String) (rows : List SettlementRow) :
    Prop where
  once : (rows.map SettlementRow.paymentOrderId).Nodup
  ids : ∀ id,id∈rows.map SettlementRow.paymentOrderId ↔ settledOn orders date id=true
  amounts : ∀ row∈rows,∀ o,settledOrder orders row.paymentOrderId=some o →
    amountEq row.amount o.amount=true

theorem settledOrder_of_settledOn {orders date id} (h : settledOn orders date id=true) :
    ∃ o,settledOrder orders id=some o := by
  cases hfirst : becameSuccess orders id with
  | none =>
    rw [settledOn,hfirst] at h
    cases h
  | some o =>
    have hid:=find?_some hfirst
    have hmem:=mem_of_find?_eq_some hfirst
    cases hlast : settledOrder orders id with
    | none => exact absurd (by simpa using hid) ((latest_eq_none_iff _ _).1 hlast o hmem)
    | some o' => exact ⟨o',rfl⟩

def dayRows (orders : List PaymentOrder) (date : String) : List SettlementRow :=
  ((((successes orders).map PaymentOrder.paymentOrderId).dedup.filter
    fun id => settledOn orders date id).map fun id =>
      { paymentOrderId := id
        amount := ((settledOrder orders id).map fun o => o.amount).getD "" })

theorem dayRows_ids (orders date) :
    (dayRows orders date).map SettlementRow.paymentOrderId=
      ((successes orders).map PaymentOrder.paymentOrderId).dedup.filter
        fun id => settledOn orders date id := by
  simp [dayRows,Function.comp_def]

theorem listsDay_dayRows (orders date) : ListsDay orders date (dayRows orders date) := by
  constructor
  · rw [dayRows_ids]
    exact (nodup_dedup _).filter _
  · intro id
    rw [dayRows_ids,mem_filter,mem_dedup]
    constructor
    · exact fun h => h.2
    · intro h
      obtain ⟨o,ho⟩ := settledOrder_of_settledOn h
      exact ⟨mem_map.2 ⟨o,mem_of_latest ho,latest_id ho⟩,h⟩
  · intro row hrow o ho
    obtain ⟨id,_,rfl⟩ := mem_map.1 hrow
    rw [amountEq_iff]
    simp only at ho
    simp [ho]

/-- The run for a date reports no mismatch when the files list its day. -/
def ComparesDay (sdk : ReconcileSdk) (orders : List PaymentOrder) (date : String) : Prop :=
  ∀ (books books' : Books) (today runId now : String) (files : List SettlementFile)
    (r : ReconcileRun),books.store.orders=orders →
    loadAll sdk books.settlement date=.ok files →
    run sdk books today runId now (some date)=.ok (r,books') →
    ListsDay orders date (allRows files) → r.mismatches=[]

/-- The run for a date reports every order of the day that is missing in the files or
has a different amount there. -/
def ReportsDay (sdk : ReconcileSdk) (dir : SettlementDir) (date : String)
    (files : List SettlementFile) : Prop :=
  ∀ (books books' : Books) (today runId now : String) (r : ReconcileRun) (id : String)
    (o : PaymentOrder),books.settlement=dir →
    run sdk books today runId now (some date)=.ok (r,books') →
    settledOn books.store.orders date id=true → settledOrder books.store.orders id=some o →
    ((∀ row∈allRows files,row.paymentOrderId≠id) ∨
      ∃ row∈allRows files,row.paymentOrderId=id ∧ amountEq row.amount o.amount=false) →
    ∃ m∈r.mismatches,m.paymentOrderId=id

theorem comparesDay_iff (sdk orders date) : ComparesDay sdk orders date ↔
      ∀ id o,settledOrder orders id=some o → settledOn orders date id=true := by
  constructor
  · intro hday id o ho
    -- The one file of the directory lists the day; the order must be among its rows.
    have hload:=loadAll_pulledBooks sdk orders date (dayRows orders date)
    obtain ⟨r,books',hrun⟩ := run_returns _ hload "" "" ""
    have hrows:=allRows_stamp sdk "native" date "" (dayRows orders date)
    have hlists : ListsDay orders date
        (allRows [stamp sdk "native" date "" (dayRows orders date)]) := by
      rw [hrows]
      exact listsDay_dayRows orders date
    have hnil:=hday _ _ _ _ _ _ _ rfl hload hrun hlists
    obtain ⟨row,o',hrow,_,_⟩ := (run_mismatches_nil hload hrun).1 hnil id (.inr ⟨o,ho⟩)
    rw [hrows] at hrow
    obtain ⟨hmem,hid⟩ := lastRow_id hrow
    rw [← (listsDay_dayRows orders date).ids id,← hid]
    exact mem_map_of_mem hmem
  · intro hall books books' today runId now files r horders hload hrun hlists
    rw [run_mismatches_nil hload hrun,horders]
    intro id hin
    have hon : settledOn orders date id=true := by
      rcases hin with ⟨row,hrow⟩ | ⟨o,ho⟩
      · obtain ⟨hmem,hid⟩ := lastRow_id hrow
        rw [← hlists.ids id,← hid]
        exact mem_map_of_mem hmem
      · exact hall id o ho
    obtain ⟨o,ho⟩ := settledOrder_of_settledOn hon
    obtain ⟨listed,hlisted,hlid⟩ := mem_map.1 ((hlists.ids id).2 hon)
    cases hrow : lastRow (allRows files) id with
    | none => exact absurd hlid (lastRow_eq_none hrow listed hlisted)
    | some row =>
      obtain ⟨hmem,hid⟩ := lastRow_id hrow
      exact ⟨row,o,hrow,ho,hlists.amounts row hmem o (hid ▸ ho)⟩

def settledSnapshot (id amount date : String) : PaymentOrder :=
  { PaymentOrder.new id (date ++ "T") "" "" amount "" with status := .success }

theorem settledOrder_snapshot (id amount date : String) :
    settledOrder [settledSnapshot id amount date] id=some (settledSnapshot id amount date) := by
  simp [settledOrder,successes,settledSnapshot,PaymentOrder.new,latest]

theorem settledOn_snapshot (id amount date : String) :
    settledOn [settledSnapshot id amount date] date id=true := by
  simp [settledOn,becameSuccess,successes,settledSnapshot,PaymentOrder.new,onDay]

theorem reportsDay_iff (sdk dir date files) (hload : loadAll sdk dir date=.ok files) :
    ReportsDay sdk dir date files ↔
      ∀ a∈allRows files,∀ b∈allRows files,a.paymentOrderId=b.paymentOrderId →
        amountEq a.amount b.amount=true := by
  constructor
  · intro hrep a ha b hb hab
    by_contra hdiff
    -- The order has the amount of the last row; one of the two rows differs from it.
    rcases hlast : lastRow (allRows files) a.paymentOrderId with _ | last
    · exact lastRow_eq_none hlast a ha rfl
    have hother : ∃ row∈allRows files,row.paymentOrderId=a.paymentOrderId ∧
        amountEq row.amount last.amount=false := by
      by_cases haeq : amountEq a.amount last.amount=true
      · refine ⟨b,hb,hab.symm,?_⟩
        rw [Bool.eq_false_iff]
        intro hbeq
        rw [amountEq_iff] at haeq hbeq hdiff
        exact hdiff (haeq.trans hbeq.symm)
      · exact ⟨a,ha,rfl,Bool.eq_false_iff.2 haeq⟩
    have horder:=settledOrder_snapshot a.paymentOrderId last.amount date
    obtain ⟨r,books',hrun⟩ := run_returns ⟨{ orders :=
      [settledSnapshot a.paymentOrderId last.amount date] },dir,[]⟩ hload "" "" ""
    have hm:=hrep _ _ _ _ _ _ _ _ rfl hrun
      (settledOn_snapshot a.paymentOrderId last.amount date) horder (.inr hother)
    refine ((run_reports hload hrun a.paymentOrderId).1 hm).2 ?_
    exact ⟨last,_,hlast,horder,(amountEq_iff _ _).2 rfl⟩
  · intro hsame books books' today runId now r id o hdir hrun _ ho hdiff
    rw [← hdir] at hload
    refine (run_reports hload hrun id).2 ⟨.inr ⟨o,ho⟩,?_⟩
    rintro ⟨last,o',hlast,ho',heq⟩
    obtain ⟨hmem,hid⟩ := lastRow_id hlast
    rw [ho,Option.some.injEq] at ho'
    subst ho'
    rcases hdiff with hmissing | ⟨row,hrow,hrowid,hne⟩
    · exact hmissing last hmem hid
    have hsame':=hsame row hrow last hmem (hrowid.trans hid.symm)
    rw [amountEq_iff] at heq hsame'
    rw [(amountEq_iff _ _).2 (hsame'.trans heq)] at hne
    cases hne

theorem reconciles_day_iff (sdk : ReconcileSdk) : (∀ (orders : List PaymentOrder) (date : String),
      ComparesDay sdk orders date ↔
        ∀ id o,settledOrder orders id=some o → settledOn orders date id=true) ∧
    (∀ (dir : SettlementDir) (date : String) (files : List SettlementFile),
      loadAll sdk dir date=.ok files → (ReportsDay sdk dir date files ↔
          ∀ a∈allRows files,∀ b∈allRows files,a.paymentOrderId=b.paymentOrderId →
            amountEq a.amount b.amount=true)) :=
  ⟨comparesDay_iff sdk,reportsDay_iff sdk⟩

namespace Sample

def reconcileSdk : ReconcileSdk where
  toPaySdk := {
    sha3 := fun b => b
    postingJson := fun p => p.prevHash
    payloadJson := fun _ => []
    itemsJson := fun _ _ => [] }
  fileJson := fun _ _ _ _ => []
  hexEncode := fun _ => ""
  hexDecode := fun _ => none
  mmrRoot := fun leaves => leaves.flatten

def twoDays : List PaymentOrder :=
  [settledSnapshot "o1" "3.15" "2026-08-22",settledSnapshot "o2" "5.00" "2026-08-23"]

end Sample
open Sample

/-- The file of the second day lists the order of that day, and the run for that day
reports the order of the first. -/
theorem reconcile_reports_other_day : ListsDay twoDays "2026-08-23" [⟨"o2","5.00"⟩] ∧
      ∃ r books',run reconcileSdk (pulledBooks reconcileSdk twoDays "2026-08-23" [⟨"o2","5.00"⟩])
          "2026-08-24" "r1" "2026-08-24T00:00:00Z" (some "2026-08-23")=.ok (r,books') ∧
        ∃ m∈r.mismatches,m.paymentOrderId = "o1" := by
  have hrows : dayRows twoDays "2026-08-23"=[⟨"o2","5.00"⟩] := by decide +kernel
  have hload:=loadAll_pulledBooks reconcileSdk twoDays "2026-08-23"
    [⟨"o2","5.00"⟩]
  obtain ⟨r,books',hrun⟩ := run_returns _ hload "2026-08-24" "r1" "2026-08-24T00:00:00Z"
  refine ⟨hrows ▸ listsDay_dayRows twoDays "2026-08-23",r,books',hrun,?_⟩
  rw [run_reports hload hrun,allRows_stamp]
  refine ⟨.inr ⟨settledSnapshot "o1" "3.15" "2026-08-22",rfl⟩,?_⟩
  rintro ⟨row,o,hrow,_,_⟩
  cases hrow

structure SettledOnce (orders : List PaymentOrder) (rows : List SettlementRow) : Prop where
  listed : ∀ id o,settledOrder orders id=some o →
    ∃ row,rows.filter (fun row => row.paymentOrderId==id)=[row] ∧ SameParsed row.amount o.amount
  known : ∀ row∈rows,∃ o,settledOrder orders row.paymentOrderId=some o

def ordersOf (rows : List SettlementRow) : List PaymentOrder :=
  rows.map fun row => settledSnapshot row.paymentOrderId row.amount ""

theorem settledOrder_ordersOf (rows id) : settledOrder (ordersOf rows) id=
      (lastRow rows id).map fun row => settledSnapshot row.paymentOrderId row.amount "" := by
  have hall : successes (ordersOf rows)=ordersOf rows := by
    simp [successes,ordersOf,settledSnapshot]
  rw [settledOrder,hall,latest,ordersOf,← map_reverse,find?_map]
  rfl

theorem reconciled_ordersOf {rows id}
    (h : (∃ row,lastRow rows id=some row) ∨ ∃ o,settledOrder (ordersOf rows) id=some o) :
    Reconciled (ordersOf rows) rows id := by
  rw [settledOrder_ordersOf] at h
  have hrow : ∃ row,lastRow rows id=some row := by
    rcases h with hrow | ⟨o,ho⟩
    · exact hrow
    · obtain ⟨row,hrow,_⟩ := Option.map_eq_some_iff.1 ho
      exact ⟨row,hrow⟩
  obtain ⟨row,hrow⟩ := hrow
  refine ⟨row,settledSnapshot row.paymentOrderId row.amount "",hrow,?_,?_⟩
  · rw [settledOrder_ordersOf,hrow]
    rfl
  · exact (amountEq_iff _ _).2 rfl

theorem filter_ids_length (rows : List SettlementRow) (id : String) :
    (rows.filter fun row => row.paymentOrderId==id).length=
      (rows.map SettlementRow.paymentOrderId).count id := by
  rw [List.count,countP_map,countP_eq_length_filter]
  rfl

theorem filter_eq_lastRow {rows id row} (hnodup : (rows.map SettlementRow.paymentOrderId).Nodup)
    (h : lastRow rows id=some row) :
    rows.filter (fun row => row.paymentOrderId==id)=[row] := by
  obtain ⟨hmem,hid⟩ := lastRow_id h
  have hin : row∈rows.filter fun row => row.paymentOrderId==id := mem_filter.2 ⟨hmem,by simp [hid]⟩
  have hle:=nodup_iff_count_le_one.1 hnodup id
  rw [← filter_ids_length] at hle
  cases hf : rows.filter fun row => row.paymentOrderId==id with
  | nil =>
    rw [hf] at hin
    cases hin
  | cons first rest =>
    rw [hf,length_cons] at hle
    have hrest : rest=[] := length_eq_zero_iff.1 (by omega)
    rw [hf,hrest,mem_singleton] at hin
    rw [hrest,hin]

theorem clean_detects_iff (sdk : ReconcileSdk) (dir : SettlementDir) (date : String)
    (files : List SettlementFile) (hload : loadAll sdk dir date=.ok files) :
    (∀ (books books' : Books) (today runId now : String) (r : ReconcileRun),
      books.settlement=dir → run sdk books today runId now (some date)=.ok (r,books') →
      r.status=.clean → SettledOnce books.store.orders (allRows files)) ↔
      ((allRows files).map SettlementRow.paymentOrderId).Nodup ∧
        ∀ row∈allRows files,∃ x,parseAmount row.amount=.ok x := by
  constructor
  · intro hclean
    obtain ⟨r,books',hrun⟩ :=
      run_returns ⟨{ orders := ordersOf (allRows files) },dir,[]⟩ hload "" "" ""
    have hnil:=(run_mismatches_nil hload hrun).2 fun id h => reconciled_ordersOf h
    have honce:=hclean _ _ _ _ _ _ rfl hrun ((run_clean hload hrun).2 hnil)
    constructor
    · rw [nodup_iff_count_le_one]
      intro id
      rw [← filter_ids_length]
      cases hrow : lastRow (allRows files) id with
      | none =>
        have hno : (allRows files).filter (fun row => row.paymentOrderId==id)=[] := by
          rw [filter_eq_nil_iff]
          intro row hmem
          simpa using lastRow_eq_none hrow row hmem
        simp [hno]
      | some row =>
        obtain ⟨hmem,hid⟩ := lastRow_id hrow
        obtain ⟨o,ho⟩ := honce.known row hmem
        obtain ⟨row',hone,_⟩ := honce.listed _ o (hid ▸ ho)
        simp [hone]
    · intro row hmem
      obtain ⟨o,ho⟩ := honce.known row hmem
      obtain ⟨row',hone,x,hx,_⟩ := honce.listed _ o ho
      have hin : row∈(allRows files).filter fun x => x.paymentOrderId==row.paymentOrderId :=
        mem_filter.2 ⟨hmem,by simp⟩
      rw [hone,mem_singleton] at hin
      exact ⟨x,hin ▸ hx⟩
  · rintro ⟨hnodup,hparse⟩ books books' today runId now r hdir hrun hstatus
    rw [← hdir] at hload
    have hall:=(run_mismatches_nil hload hrun).1 ((run_clean hload hrun).1 hstatus)
    constructor
    · intro id o ho
      obtain ⟨row,o',hrow,ho',heq⟩ := hall id (.inr ⟨o,ho⟩)
      rw [ho,Option.some.injEq] at ho'
      subst ho'
      obtain ⟨x,hx⟩ := hparse row (lastRow_id hrow).1
      exact ⟨row,filter_eq_lastRow hnodup hrow,sameParsed_of_amountEq hx heq⟩
    · intro row hmem
      cases hrow : lastRow (allRows files) row.paymentOrderId with
      | none => exact absurd rfl (lastRow_eq_none hrow row hmem)
      | some last =>
        obtain ⟨_,o,_,ho,_⟩ := hall row.paymentOrderId (.inl ⟨last,hrow⟩)
        exact ⟨o,ho⟩

theorem clean_detects_one_row : loadAll reconcileSdk
        (pulledBooks reconcileSdk [] "2026-08-23" [⟨"o1","5.00"⟩]).settlement
        "2026-08-23"=
      .ok [stamp reconcileSdk "native" "2026-08-23" "" [⟨"o1","5.00"⟩]] ∧
    ∀ (books books' : Books) (today runId now : String) (r : ReconcileRun),books.settlement=
        (pulledBooks reconcileSdk [] "2026-08-23" [⟨"o1","5.00"⟩]).settlement →
      run reconcileSdk books today runId now (some "2026-08-23")=.ok (r,books') →
      r.status=.clean → SettledOnce books.store.orders [⟨"o1","5.00"⟩] := by
  have hload:=loadAll_pulledBooks reconcileSdk [] "2026-08-23" [⟨"o1","5.00"⟩]
  have hrows:=allRows_stamp reconcileSdk "native" "2026-08-23" "" [⟨"o1","5.00"⟩]
  have hiff:=clean_detects_iff reconcileSdk _ "2026-08-23" _ hload
  rw [hrows] at hiff
  refine ⟨hload,hiff.2 ⟨by simp,?_⟩⟩
  intro row hrow
  rw [mem_singleton.1 hrow]
  have hok : (parseAmount "5.00").isOk=true := by decide +kernel
  cases hx : parseAmount "5.00" with
  | ok x => exact ⟨x,rfl⟩
  | error e =>
    rw [hx] at hok
    cases hok

/-- An order that the processor has settled twice: the run is clean. -/
theorem clean_with_double_row : ∃ r books',run reconcileSdk
        (pulledBooks reconcileSdk [settledSnapshot "o1" "5.00" "2026-08-23"] "2026-08-23"
          [⟨"o1","5.00"⟩,⟨"o1","5.00"⟩])
        "2026-08-24" "r1" "2026-08-24T00:00:00Z" (some "2026-08-23")=.ok (r,books') ∧
      r.status=.clean ∧
      ¬ SettledOnce [settledSnapshot "o1" "5.00" "2026-08-23"] [⟨"o1","5.00"⟩,⟨"o1","5.00"⟩] := by
  have hload:=loadAll_pulledBooks reconcileSdk
    [settledSnapshot "o1" "5.00" "2026-08-23"] "2026-08-23" [⟨"o1","5.00"⟩,⟨"o1","5.00"⟩]
  obtain ⟨r,books',hrun⟩ := run_returns _ hload "2026-08-24" "r1" "2026-08-24T00:00:00Z"
  refine ⟨r,books',hrun,?_,?_⟩
  · rw [run_clean hload hrun,run_mismatches_nil hload hrun,allRows_stamp]
    intro id hid
    have ho1 : id = "o1" := by
      rcases hid with ⟨row,hrow⟩ | ⟨o,ho⟩
      · obtain ⟨hmem,hid⟩ := lastRow_id hrow
        simp only [mem_cons,not_mem_nil,or_false,or_self] at hmem
        rw [← hid,hmem]
      · have hmem : o∈[settledSnapshot "o1" "5.00" "2026-08-23"] := mem_of_latest ho
        rw [← latest_id ho,mem_singleton.1 hmem]
        rfl
    subst ho1
    exact ⟨⟨"o1","5.00"⟩,settledSnapshot "o1" "5.00" "2026-08-23",rfl,rfl,(amountEq_iff _ _).2 rfl⟩
  · intro honce
    obtain ⟨row,hrow,_⟩ := honce.listed "o1" (settledSnapshot "o1" "5.00" "2026-08-23") rfl
    cases hrow

end OriginTools.Payments
