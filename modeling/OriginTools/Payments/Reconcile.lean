import OriginTools.Foundation.SortedMap
import OriginTools.Payments.Journal

/-!
# Reconciliation

`reconcile.rs`: the settlement files that a processor delivers for a date are stamped
with the hash of their content and compared, order by order, with the orders that the
log records as settled.
-/

namespace OriginTools.Payments
open List

structure SettlementRow where
  paymentOrderId : String
  amount : String
  deriving DecidableEq

structure SettlementFile where
  rail : String
  date : String
  currency : String
  rows : List SettlementRow
  contentHash : String

/-- The JSON body of a settlement file, the hex encoding of its hash and the root of
the checkpoint MMR over its leaves. -/
structure ReconcileSdk extends PaySdk where
  fileJson : String → String → String → List SettlementRow → Bytes
  hexEncode : Bytes → String
  hexDecode : String → Option Bytes
  mmrRoot : List Bytes → Bytes

inductive ReconcileStatus where
  | clean
  | mismatches
  | failed
  deriving DecidableEq

/-- `Match` is `agreement`. -/
inductive MismatchClass where
  | agreement
  | adjustable
  | unclassifiable
  deriving DecidableEq

structure ReconcileMismatch where
  runId : String
  paymentOrderId : String
  pspAmount : Option String
  journalAmount : Option String
  cls : MismatchClass
  evidence : List String
  deriving DecidableEq

structure ReconcileRun where
  runId : String
  date : String
  pspFiles : List SettlementFile
  journalRoot : Bytes
  matched : ℕ
  mismatches : List ReconcileMismatch
  mmrCheckpoint : Bytes
  status : ReconcileStatus
  createdAt : String

/-- The settlement directory: under each name the file, or the reason why its text is
not one. -/
structure SettlementDir where
  files : List (String × Except String SettlementFile)
  names_nodup : (files.map Prod.fst).Nodup

structure Books where
  store : Store
  settlement : SettlementDir
  runs : List ReconcileRun

namespace SettlementDir

def empty : SettlementDir := ⟨[],nodup_nil⟩

def read (dir : SettlementDir) (name : String) : Option (Except String SettlementFile) :=
  (dir.files.find? fun f => f.1==name).map Prod.snd

theorem names_nodup_write (dir : SettlementDir) (name : String)
    (content : Except String SettlementFile) :
    ((dir.files.filter (fun f => f.1≠name)++[(name,content)]).map Prod.fst).Nodup := by
  rw [map_append,nodup_append]
  refine ⟨(dir.names_nodup.sublist (filter_sublist.map _)),by simp,?_⟩
  intro a ha b hb hab
  obtain ⟨f,hf,rfl⟩ := mem_map.1 ha
  have hne:=(mem_filter.1 hf).2
  simp only [map_cons,map_nil,mem_singleton] at hb
  simp [hab,hb] at hne

def write (dir : SettlementDir) (name : String) (file : SettlementFile) : SettlementDir :=
  ⟨dir.files.filter (fun f => f.1≠name)++[(name,.ok file)],dir.names_nodup_write name (.ok file)⟩

end SettlementDir
variable (sdk : ReconcileSdk)

def SettlementFile.computeHash (file : SettlementFile) : String :=
  sdk.hexEncode (sdk.sha3 (sdk.fileJson file.rail file.date file.currency file.rows))

def SettlementFile.verifyStamp (file : SettlementFile) : Bool :=
  file.contentHash==file.computeHash sdk

def stamp (rail date currency : String) (rows : List SettlementRow) : SettlementFile :=
  let file : SettlementFile :=
    { rail := rail,date := date,currency := currency,rows := rows,contentHash := "" }
  { file with contentHash := file.computeHash sdk }

theorem verifyStamp_stamp (rail date currency rows) :
    (stamp sdk rail date currency rows).verifyStamp sdk=true := by
  simp [SettlementFile.verifyStamp,stamp,SettlementFile.computeHash]

def legacyName (date : String) : String := date ++ ".json"
def currencyName (date currency : String) : String := date ++ "."++currency ++ ".json"

def pull (books : Books) (rail date currency : String) (rows : List SettlementRow) :
    SettlementFile × Books :=
  let stamped:=stamp sdk rail date currency rows
  let name:=if currency = "" then legacyName date else currencyName date currency
  (stamped,{ books with settlement := books.settlement.write name stamped })

def successes (orders : List PaymentOrder) : List PaymentOrder :=
  orders.filter fun o => o.status==.success

def PaymentOrder.settlementCurrency (order : PaymentOrder) : String :=
  match order.fx with
  | some fx => fx.target
  | none => order.currency

def PaymentOrder.settlementRow (order : PaymentOrder) : SettlementRow :=
  { paymentOrderId := order.paymentOrderId,amount := order.amount }

def exportPerCurrency (books : Books) (rail date : String) : List SettlementFile × Books :=
  let byCurrency:=SortedMap.group
    ((successes books.store.orders).map fun o => (o.settlementCurrency,o.settlementRow))
  let files:=byCurrency.toList.map fun entry => stamp sdk rail date entry.1 entry.2
  let dir:=files.foldl (fun dir file => dir.write (currencyName date file.currency) file)
    books.settlement
  (files,{ books with settlement := dir })

def checkFile (name : String) : Except String SettlementFile → Except Error SettlementFile
  | .error e => .error (.settlementFileInvalid name ("parsing: "++e))
  | .ok file =>
      if file.verifyStamp sdk then .ok file else .error (.settlementStampMismatch name)

def load (dir : SettlementDir) (date : String) : Except Error SettlementFile :=
  match dir.read (legacyName date) with
  | none =>
      .error (.settlementFileInvalid (legacyName date) "no settlement file pulled for this date")
  | some content => checkFile sdk (legacyName date) content

def isExtra (date name : String) : Bool :=
  (date ++ ".").toList.isPrefixOf name.toList && ".json".toList.isSuffixOf name.toList&&
    name != legacyName date

def loadAll (dir : SettlementDir) (date : String) : Except Error (List SettlementFile) := do
  let legacy ← match dir.read (legacyName date) with
    | some _ => (load sdk dir date).map fun file => [file]
    | none => .ok []
  let names:=(dir.files.filter fun f => isExtra date f.1).mergeSort fun f g => f.1≤g.1
  let extra ← names.mapM fun f => checkFile sdk f.1 f.2
  let files:=legacy++extra
  if files.isEmpty then
    .error (.settlementFileInvalid (legacyName date) "no settlement file pulled for this date")
  else .ok files

def amountEq (a b : String) : Bool :=
  match parseAmount a,parseAmount b with
  | .ok x,.ok y => x==y
  | _,_ => a==b

def internalAmounts (orders : List PaymentOrder) : Std.ExtTreeMap String String compare :=
  SortedMap.collect ((successes orders).map fun o => (o.paymentOrderId,o.amount))

def allRows (files : List SettlementFile) : List SettlementRow := files.flatMap fun f => f.rows

def pspAmounts (files : List SettlementFile) : Std.ExtTreeMap String String compare :=
  SortedMap.collect ((allRows files).map fun row => (row.paymentOrderId,row.amount))

def orderIds (psp internal : Std.ExtTreeMap String String compare) : List String :=
  (psp.keys++internal.keys.filter fun id => !psp.contains id).mergeSort fun a b => a≤b

def compareIds (runId date : String) (psp internal : Std.ExtTreeMap String String compare) :
    List String → ℕ × List ReconcileMismatch
  | [] => (0,[])
  | id::rest =>
      let (matched,mismatches) := compareIds runId date psp internal rest
      let mismatch (cls : MismatchClass) : ReconcileMismatch :=
        { runId := runId,paymentOrderId := id,pspAmount := psp[id]?,
          journalAmount := internal[id]?,cls := cls,evidence := ["settlement "++date] }
      match psp[id]?,internal[id]? with
      | some p,some j =>
          if amountEq p j then (matched+1,mismatches)
          else (matched,mismatch .adjustable::mismatches)
      | _,_ => (matched,mismatch .unclassifiable::mismatches)

def journalRoot (postings : List LedgerPosting) : Bytes :=
  match postings.getLast? with
  | some p => postingHash sdk.toPaySdk p
  | none => genesisHash

/-- `run` for the date it is given or else today's, with the id and the time it draws. -/
def run (books : Books) (today runId now : String) (date : Option String) :
    Except Error (ReconcileRun × Books) := do
  let date:=date.getD today
  let settlements ← loadAll sdk books.settlement date
  let internal:=internalAmounts books.store.orders
  let psp:=pspAmounts settlements
  let (matched,mismatches) := compareIds runId date psp internal (orderIds psp internal)
  let root:=journalRoot sdk books.store.postings
  let stamps:=settlements.flatMap fun s => (sdk.hexDecode s.contentHash).getD []
  let leaves:=books.store.checkpoints++[sdk.sha3 (stamps++root)]
  let run : ReconcileRun :=
    { runId := runId,date := date,pspFiles := settlements,journalRoot := root,
      matched := matched,mismatches := mismatches,mmrCheckpoint := sdk.mmrRoot leaves,
      status := if mismatches.isEmpty then .clean else .mismatches,createdAt := now }
  return (run,
    { store := { books.store with checkpoints := leaves }
      settlement := books.settlement
      runs := books.runs.filter (fun r => r.runId≠runId)++[run] })

def Agrees (psp internal : Std.ExtTreeMap String String compare) (id : String) : Prop :=
  ∃ p j,psp[id]? = some p ∧ internal[id]? = some j ∧ amountEq p j=true

theorem mem_orderIds (psp internal id) : id∈orderIds psp internal ↔ id∈psp ∨ id∈internal := by
  rw [orderIds,(mergeSort_perm _ _).mem_iff,mem_append,mem_filter,
    Std.ExtTreeMap.mem_keys,Std.ExtTreeMap.mem_keys]
  by_cases hpsp : id∈psp
  · simp [hpsp]
  have hcontains : psp.contains id=false := by
    rw [Bool.eq_false_iff]
    exact fun h => hpsp (Std.ExtTreeMap.contains_iff_mem.1 h)
  simp [hpsp,hcontains]

theorem mem_compareIds (runId date psp internal ids id) :
    (∃ m∈(compareIds runId date psp internal ids).2,m.paymentOrderId=id) ↔
      id∈ids ∧ ¬ Agrees psp internal id := by
  induction ids with
  | nil => simp [compareIds]
  | cons x rest ih =>
    by_cases hx : Agrees psp internal x
    · obtain ⟨p,j,hp,hj,heq⟩ := hx
      have hstep : (compareIds runId date psp internal (x::rest)).2=
          (compareIds runId date psp internal rest).2 := by
        simp [compareIds,hp,hj,heq]
      rw [hstep,ih,mem_cons]
      constructor
      · exact fun h => ⟨.inr h.1,h.2⟩
      · rintro ⟨rfl | hmem,hno⟩
        · exact absurd ⟨p,j,hp,hj,heq⟩ hno
        · exact ⟨hmem,hno⟩
    · have hstep : ∃ m : ReconcileMismatch,m.paymentOrderId=x ∧
          (compareIds runId date psp internal (x::rest)).2=
            m::(compareIds runId date psp internal rest).2 := by
        simp only [compareIds]
        rcases hp : psp[x]? with _ | p
        · exact ⟨_,rfl,rfl⟩
        rcases hj : internal[x]? with _ | j
        · exact ⟨_,rfl,rfl⟩
        have hne : ¬ amountEq p j=true := fun heq => hx ⟨p,j,hp,hj,heq⟩
        simp only [if_neg hne]
        exact ⟨_,rfl,rfl⟩
      obtain ⟨m,hm,hcons⟩ := hstep
      rw [hcons,mem_cons]
      constructor
      · rintro ⟨m',hm',hid⟩
        rcases mem_cons.1 hm' with hm' | hm'
        · rw [← hid,hm',hm]
          exact ⟨.inl rfl,hx⟩
        · obtain ⟨hmem,hno⟩ := ih.1 ⟨m',hm',hid⟩
          exact ⟨.inr hmem,hno⟩
      · rintro ⟨rfl | hmem,hno⟩
        · exact ⟨m,.head _,hm⟩
        · obtain ⟨m',hm',hid⟩ := ih.2 ⟨hmem,hno⟩
          exact ⟨m',.tail _ hm',hid⟩

def settledOrder (orders : List PaymentOrder) (id : String) : Option PaymentOrder :=
  latest (successes orders) id

def lastRow (rows : List SettlementRow) (id : String) : Option SettlementRow :=
  rows.reverse.find? fun row => row.paymentOrderId==id

theorem lastRow_id {rows id row} (h : lastRow rows id=some row) :
    row∈rows ∧ row.paymentOrderId=id := by
  have hid:=find?_some h
  exact ⟨mem_reverse.1 (mem_of_find?_eq_some h),by simpa using hid⟩

theorem lastRow_eq_none {rows id} (h : lastRow rows id=none) :
    ∀ row∈rows,row.paymentOrderId≠id := by
  intro row hrow heq
  have hno:=find?_eq_none.1 h row (mem_reverse.2 hrow)
  simp [heq] at hno

variable (orders : List PaymentOrder)

theorem internalAmounts_get (id : String) :
    (internalAmounts orders)[id]? = (settledOrder orders id).map fun o => o.amount := by
  rw [internalAmounts,SortedMap.getElem?_collect,← map_reverse,find?_map,Option.map_map]
  rfl

theorem pspAmounts_get (files id) :
    (pspAmounts files)[id]? = (lastRow (allRows files) id).map fun row => row.amount := by
  rw [pspAmounts,SortedMap.getElem?_collect,← map_reverse,find?_map,Option.map_map]
  rfl

def Reconciled (orders : List PaymentOrder) (rows : List SettlementRow) (id : String) : Prop :=
  ∃ row o,lastRow rows id=some row ∧ settledOrder orders id=some o ∧
    amountEq row.amount o.amount=true

theorem agrees_iff (files id) : Agrees (pspAmounts files) (internalAmounts orders) id ↔
      Reconciled orders (allRows files) id := by
  unfold Agrees Reconciled
  rw [pspAmounts_get,internalAmounts_get]
  constructor
  · rintro ⟨p,j,hp,hj,heq⟩
    obtain ⟨row,hrow,rfl⟩ := Option.map_eq_some_iff.1 hp
    obtain ⟨o,ho,rfl⟩ := Option.map_eq_some_iff.1 hj
    exact ⟨row,o,hrow,ho,heq⟩
  · rintro ⟨row,o,hrow,ho,heq⟩
    exact ⟨row.amount,o.amount,by rw [hrow]; rfl,by rw [ho]; rfl,heq⟩

theorem mem_pspAmounts (files id) :
    id∈pspAmounts files ↔ ∃ row,lastRow (allRows files) id=some row := by
  rw [Std.ExtTreeMap.mem_iff_isSome_getElem?,pspAmounts_get,Option.isSome_map,
    Option.isSome_iff_exists]

theorem mem_internalAmounts (id : String) :
    id∈internalAmounts orders ↔ ∃ o,settledOrder orders id=some o := by
  rw [Std.ExtTreeMap.mem_iff_isSome_getElem?,internalAmounts_get,Option.isSome_map,
    Option.isSome_iff_exists]

variable {sdk : ReconcileSdk} {books books' : Books} {today runId now date : String}
  {files : List SettlementFile} {r : ReconcileRun}

theorem run_inv (hload : loadAll sdk books.settlement date=.ok files)
    (hrun : run sdk books today runId now (some date)=.ok (r,books')) :
    r.mismatches=(compareIds runId date (pspAmounts files) (internalAmounts books.store.orders)
        (orderIds (pspAmounts files) (internalAmounts books.store.orders))).2 ∧
      r.status=if r.mismatches.isEmpty then .clean else .mismatches := by
  simp only [run,Option.getD_some,hload,Bind.bind,Except.bind,pure,Except.pure,
    Except.ok.injEq,Prod.mk.injEq] at hrun
  rw [← hrun.1]
  exact ⟨rfl,rfl⟩

theorem run_reports (hload : loadAll sdk books.settlement date=.ok files)
    (hrun : run sdk books today runId now (some date)=.ok (r,books')) (id : String) :
    (∃ m∈r.mismatches,m.paymentOrderId=id) ↔
      ((∃ row,lastRow (allRows files) id=some row) ∨
        ∃ o,settledOrder books.store.orders id=some o) ∧
      ¬ Reconciled books.store.orders (allRows files) id := by
  rw [(run_inv hload hrun).1,mem_compareIds,mem_orderIds,agrees_iff,mem_pspAmounts,
    mem_internalAmounts]

theorem run_mismatches_nil (hload : loadAll sdk books.settlement date=.ok files)
    (hrun : run sdk books today runId now (some date)=.ok (r,books')) :
    r.mismatches=[] ↔ ∀ id,((∃ row,lastRow (allRows files) id=some row) ∨
        ∃ o,settledOrder books.store.orders id=some o) →
      Reconciled books.store.orders (allRows files) id := by
  have hreports:=run_reports hload hrun
  constructor
  · intro hnil id hin
    by_contra hno
    obtain ⟨m,hm,_⟩ := (hreports id).2 ⟨hin,hno⟩
    rw [hnil] at hm
    cases hm
  · intro hall
    rw [eq_nil_iff_forall_not_mem]
    intro m hm
    obtain ⟨hin,hno⟩ := (hreports m.paymentOrderId).1 ⟨m,hm,rfl⟩
    exact hno (hall _ hin)

theorem run_clean (hload : loadAll sdk books.settlement date=.ok files)
    (hrun : run sdk books today runId now (some date)=.ok (r,books')) :
    r.status=.clean ↔ r.mismatches=[] := by
  rw [(run_inv hload hrun).2]
  cases r.mismatches with
  | nil | cons => simp

theorem run_returns (books : Books) (hload : loadAll sdk books.settlement date=.ok files)
    (today runId now : String) :
    ∃ r books',run sdk books today runId now (some date)=.ok (r,books') := by
  simp only [run,Option.getD_some,hload,Bind.bind,Except.bind,pure,Except.pure]
  exact ⟨_,_,rfl⟩

def pulledBooks (sdk : ReconcileSdk) (orders : List PaymentOrder) (date : String)
    (rows : List SettlementRow) : Books :=
  (pull sdk ⟨{ orders := orders },.empty,[]⟩ "native" date "" rows).2

theorem loadAll_pulledBooks (sdk : ReconcileSdk) (orders : List PaymentOrder) (date : String)
    (rows : List SettlementRow) :
    loadAll sdk (pulledBooks sdk orders date rows).settlement date=
      .ok [stamp sdk "native" date "" rows] := by
  have hread : (pulledBooks sdk orders date rows).settlement.read (legacyName date)=
      some (.ok (stamp sdk "native" date "" rows)) := by
    simp [pulledBooks,pull,SettlementDir.read,SettlementDir.write,SettlementDir.empty]
  have hextra : (pulledBooks sdk orders date rows).settlement.files.filter
      (fun f => isExtra date f.1)=[] := by
    simp [pulledBooks,pull,SettlementDir.write,SettlementDir.empty,isExtra]
  simp only [loadAll,load,hread,hextra,checkFile,verifyStamp_stamp,if_true]
  simp [Bind.bind,Except.bind,pure,Except.pure,Except.map]

theorem allRows_stamp (sdk rail date currency rows) :
    allRows [stamp sdk rail date currency rows]=rows := by
  simp [allRows,stamp]

end OriginTools.Payments
