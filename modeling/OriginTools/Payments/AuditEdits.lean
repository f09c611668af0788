import OriginTools.Payments.Chains
import OriginTools.Payments.NativeAmount

/-!
# Edits of the audit log

The hash of an audit record covers everything but its payload and signature, and the
payload is covered by the payload hash.
-/

namespace OriginTools.Payments
open Process List
variable {W : Type} (sdk : PaySdk)

def AuditRecord.fields (r : AuditRecord) : List Bytes :=
  [r.prevHash,beBytes 4 r.seq,beBytes 1 r.entryType,r.payloadHash,beBytes 8 r.timestamp]

def AuditRecord.hashed (r : AuditRecord) : Bytes × ℕ × ℕ × Bytes × ℕ :=
  (r.prevHash,r.seq,r.entryType,r.payloadHash,r.timestamp)

/-- The fields fit their types `[u8; 32]`, `u32`, `u8`, `[u8; 32]` and `u64`. -/
def AuditRecord.Sized (r : AuditRecord) : Prop :=
  r.prevHash.length=32 ∧ r.seq<256^4 ∧ r.entryType<256^1 ∧ r.payloadHash.length=32 ∧
    r.timestamp<256^8

instance decidableSized (r : AuditRecord) : Decidable r.Sized := inferInstanceAs (Decidable (_ ∧ _))

def hashedBytes (records : List AuditRecord) : List Bytes :=
  records.flatMap fun r => [r.fields.flatten,sdk.payloadJson r.payload]

/-- Among what the records hash there is no collision, and no record has the hash that
the chain starts with; different payloads are written differently. -/
structure IdealHash (records : List AuditRecord) : Prop where
  sized : ∀ r∈records,r.Sized
  injective : ∀ a∈hashedBytes sdk records,∀ b∈hashedBytes sdk records,sdk.sha3 a=sdk.sha3 b → a=b
  start : ∀ r∈records,entryHash sdk r≠genesisHash
  payloads : ∀ r∈records,∀ r'∈records,
    sdk.payloadJson r.payload=sdk.payloadJson r'.payload → r.payload=r'.payload

theorem entryHash_eq (r : AuditRecord) : entryHash sdk r=sdk.sha3 r.fields.flatten := by
  simp [entryHash,AuditRecord.fields]

theorem beBytes_inj {n x y} (hx : x<256^n) (hy : y<256^n) (h : beBytes n x=beBytes n y) : x=y := by
  have hvalue:=congrArg beValue h
  rwa [beValue_beBytes,beValue_beBytes,Nat.mod_eq_of_lt hx,Nat.mod_eq_of_lt hy] at hvalue

theorem hashed_eq_of_fields {r s : AuditRecord} (hr : r.Sized) (hs : s.Sized)
    (h : r.fields.flatten=s.fields.flatten) : r.hashed=s.hashed := by
  obtain ⟨hr₁,hr₂,hr₃,hr₄,hr₅⟩ := hr
  obtain ⟨hs₁,hs₂,hs₃,hs₄,hs₅⟩ := hs
  have hfields : r.fields=s.fields := by
    refine eq_iff_flatten_eq.2 ⟨h,?_⟩
    simp only [AuditRecord.fields,map_cons,map_nil,length_beBytes,hr₁,hr₄,hs₁,hs₄]
  simp only [AuditRecord.fields,List.cons.injEq,and_true] at hfields
  obtain ⟨hprev,hseq,htype,hpayload,htime⟩ := hfields
  simp only [AuditRecord.hashed,hprev,hpayload,beBytes_inj hr₂ hs₂ hseq,beBytes_inj hr₃ hs₃ htype,
    beBytes_inj hr₅ hs₅ htime]

theorem hashed_eq_of_head_eq {all es fs : List AuditRecord} (hideal : IdealHash sdk all)
    (hes : verifyFrom sdk genesisHash es=true) (hfs : verifyFrom sdk genesisHash fs=true)
    (hP : ∀ r∈es,r∈all) (hQ : ∀ r∈fs,r∈all)
    (h : headFrom (entryHash sdk) genesisHash es=headFrom (entryHash sdk) genesisHash fs) :
    es.map AuditRecord.hashed=fs.map AuditRecord.hashed := by
  have hprev (r s : AuditRecord) (hrs : r.hashed=s.hashed) : r.prevHash=s.prevHash :=
    (Prod.mk.inj hrs).1
  refine map_eq_of_headFrom_eq hideal.start ?_ hprev es fs
    ((verifyFrom_iff sdk _ _).1 hes).1 ((verifyFrom_iff sdk _ _).1 hfs).1 hP hQ h
  intro r s hr hs hhash
  rw [entryHash_eq,entryHash_eq] at hhash
  refine hashed_eq_of_fields (hideal.sized r hr) (hideal.sized s hs)
    (hideal.injective _ ?_ _ ?_ hhash)
  · exact mem_flatMap.2 ⟨r,hr,by simp⟩
  · exact mem_flatMap.2 ⟨s,hs,by simp⟩

theorem verified_split {es fs r} (h : verifyFrom sdk genesisHash (es++r::fs)=true) :
    verifyFrom sdk genesisHash es=true ∧
      r.prevHash=headFrom (entryHash sdk) genesisHash es ∧ Sealed sdk r := by
  rw [verifyFrom_iff,linked_append] at h
  obtain ⟨⟨hes,hr,-⟩,hsealed⟩ := h
  exact ⟨(verifyFrom_iff sdk _ _).2 ⟨hes,fun s hs => hsealed s (by simp [hs])⟩,hr,
    hsealed r (by simp)⟩

/-- A payload is replaced; hashed fields are replaced before the last record; records are
taken out or put in before the last record; a record is repeated; two records are swapped. -/
inductive Edited : List AuditRecord → List AuditRecord → Prop
  | payload (es fs : List AuditRecord) (r : AuditRecord) (p : Payload) (hp : p≠r.payload) :
      Edited (es++r::fs) (es++{ r with payload := p }::fs)
  | fields (es fs : List AuditRecord) (r r' s : AuditRecord) (hr : r'.hashed≠r.hashed) :
      Edited (es++r::s::fs) (es++r'::s::fs)
  | delete (es gone fs : List AuditRecord) (s : AuditRecord) (hgone : gone≠[]) :
      Edited (es++gone++s::fs) (es++s::fs)
  | insert (es new fs : List AuditRecord) (s : AuditRecord) (hnew : new≠[]) :
      Edited (es++s::fs) (es++new++s::fs)
  | duplicate (es fs es' fs' : List AuditRecord) (r : AuditRecord)
      (h : es++r::fs=es'++fs') : Edited (es'++fs') (es'++r::fs')
  | swap (es fs gs : List AuditRecord) (r s : AuditRecord) :
      Edited (es++r::(fs++s::gs)) (es++s::(fs++r::gs))

theorem followed_eq {all es fs gs hs r} (hideal : IdealHash sdk all)
    (hes : verifyFrom sdk genesisHash (es++r::gs)=true)
    (hfs : verifyFrom sdk genesisHash (fs++r::hs)=true) (hP : ∀ r∈es,r∈all)
    (hQ : ∀ r∈fs,r∈all) : es.map AuditRecord.hashed=fs.map AuditRecord.hashed := by
  obtain ⟨hes,hprev,-⟩ := verified_split sdk hes
  obtain ⟨hfs,hprev',-⟩ := verified_split sdk hfs
  exact hashed_eq_of_head_eq sdk hideal hes hfs hP hQ (hprev.symm.trans hprev')

theorem verify_edited {log log'} (hlog : verifyFrom sdk genesisHash log=true)
    (hedit : Edited log log') (hideal : IdealHash sdk (log++log')) :
    verifyFrom sdk genesisHash log'=false := by
  refine Bool.eq_false_iff.2 fun hlog' => ?_
  cases hedit with
  | payload es fs r p hp =>
    have hr:=(verified_split sdk hlog).2.2
    have hr':=(verified_split sdk hlog').2.2
    have hjson:=hideal.injective (sdk.payloadJson p) (mem_flatMap.2
        ⟨{ r with payload := p },by simp,by simp⟩) (sdk.payloadJson r.payload)
      (mem_flatMap.2 ⟨r,by simp,by simp⟩) (hr'.symm.trans hr)
    exact hp (hideal.payloads { r with payload := p } (by simp) r (by simp) hjson)
  | fields es fs r r' s hr =>
    have hmap:=@followed_eq sdk _ (es++[r']) (es++[r]) fs fs s hideal
      (by simpa using hlog') (by simpa using hlog) (by grind) (by grind)
    rw [map_append,map_append,append_cancel_left_eq,map_singleton,
      map_singleton,singleton_inj] at hmap
    exact hr hmap
  | delete es gone fs s hgone =>
    have hmap:=followed_eq sdk hideal hlog hlog' (by grind) (by grind)
    have hlen:=congrArg List.length hmap
    simp [hgone] at hlen
  | insert es new fs s hnew =>
    have hmap:=followed_eq sdk hideal hlog hlog' (by grind) (by grind)
    have hlen:=congrArg List.length hmap
    simp [hnew] at hlen
  | duplicate es fs es' fs' r h =>
    -- the copy can only stand where the record stood, and then the record cannot follow it
    have hmem : ∀ x∈es,x∈es'++fs' := fun x hx => by simp [← h,hx]
    have hmap:=@followed_eq sdk _ es' es fs' fs r hideal hlog' (by rwa [h]) (by grind)
      (fun x hx => mem_append_left _ (hmem x hx))
    have hlen : es'.length=es.length := by simpa using congrArg List.length hmap
    obtain ⟨rfl,rfl⟩ := append_inj h hlen.symm
    have hmap:=@followed_eq sdk _ (es++[r]) es fs (r::fs) r hideal
      (by simpa using hlog') hlog' (by grind) (by grind)
    have hlen:=congrArg List.length hmap
    simp at hlen
  | swap es fs gs r s =>
    have hmap:=@followed_eq sdk _ (es++r::fs) es gs (fs++r::gs) s hideal
      (by simpa using hlog) hlog' (by grind) (by grind)
    have hlen:=congrArg List.length hmap
    simp at hlen

def WellKept (log : List AuditRecord) : Prop :=
  verifyFrom sdk genesisHash log=true ∧ ∀ i r,log[i]? = some r → r.seq=i%2^32

theorem WellKept.append {log r} (h : WellKept sdk log)
    (hprev : r.prevHash=headFrom (entryHash sdk) genesisHash log) (hsealed : Sealed sdk r)
    (hseq : r.seq=log.length%2^32) : WellKept sdk (log++[r]) := by
  refine ⟨verified_append sdk h.1 hprev hsealed,fun i x hx => ?_⟩
  rw [getElem?_append] at hx
  split at hx
  · exact h.2 i x hx
  · rename_i hi
    have hlt:=(List.getElem?_eq_some_iff.1 hx).1
    rw [List.length_singleton] at hlt
    have hi' : i=log.length := by omega
    rw [hi',Nat.sub_self,getElem?_singleton,if_pos rfl,Option.some.injEq] at hx
    rw [← hx,hseq,hi']

theorem WellKept.next_seq {log} (h : WellKept sdk log) : (match log.getLast? with
      | some r => (r.seq+1)%2^32
      | none => 0)=log.length%2^32 := by
  rcases eq_nil_or_concat' log with rfl | ⟨log,r,rfl⟩
  · rfl
  · have hr:=h.2 log.length r (by simp)
    simp only [getLast?_append,getLast?_singleton,Option.some_or,length_append,
      List.length_singleton,hr,Nat.mod_add_mod]

theorem auditRecord_wellKept (entryType payload keys) (w : World W)
    (hw : WellKept sdk w.store.audit) :
    Safe handle AnyAnswer (fun _ => True) (fun _ w' => WellKept sdk w'.store.audit)
      (auditRecord sdk entryType payload keys) w := by
  have happend : ∀ r : AuditRecord,r.prevHash=headFrom (entryHash sdk) genesisHash w.store.audit →
      Sealed sdk r → r.seq=w.store.audit.length%2^32 →
      Safe handle AnyAnswer (fun _ => True) (fun _ w' => WellKept sdk w'.store.audit)
        (appendLog .audit r) w := by
    intro r hprev hsealed hseq
    refine ⟨trivial,fun ans _ => ?_⟩
    cases ans with
    | none => exact ⟨trivial,hw.append sdk hprev hsealed hseq⟩
    | some e => exact ⟨trivial,hw⟩
  refine ⟨trivial,fun ans _ => ?_⟩
  cases ans with
  | some e => exact ⟨trivial,hw⟩
  | none =>
    refine ⟨trivial,fun timestamp _ => ?_⟩
    rcases keys with _ | keys
    · exact happend _ rfl rfl hw.next_seq
    refine ⟨trivial,fun signed _ => ?_⟩
    cases signed with
    | error e => exact ⟨trivial,hw⟩
    | ok signature => exact happend _ rfl rfl hw.next_seq

theorem writer_wellKept (calls : List (ℕ × Payload × Option OrderSigner)) (w : World W)
    (hw : WellKept sdk w.store.audit) :
    Safe handle AnyAnswer (fun _ => True) (fun _ w' => WellKept sdk w'.store.audit)
      (writer sdk (calls.map fun c => .record c.1 c.2.1 c.2.2)) w := by
  induction calls generalizing w with
  | nil => exact ⟨trivial,hw⟩
  | cons c calls ih =>
    refine Safe.bind (Safe.attempt ?_)
    refine (auditRecord_wellKept sdk c.1 c.2.1 c.2.2 w hw).post fun o w' _ hw' => ?_
    cases o with
    | done | fail => exact ih w' hw'
    | panic => exact hw'

theorem exec_wellKept (calls : List (ℕ × Payload × Option OrderSigner))
    (source : ℕ → (op : Op) → op.Ans W) (w : World W) (hw : w.store.audit=[]) :
    WellKept sdk (exec handle source 0 (writer sdk (calls.map fun c => .record c.1 c.2.1 c.2.2))
      w).2.store.audit := by
  have hempty : WellKept sdk w.store.audit := by
    rw [hw]
    exact ⟨rfl,fun i r hr => by simp at hr⟩
  exact (writer_wellKept sdk calls w hempty).exec 0 w
    (obeyed_of_forall _ _ _ (fun _ _ _ => trivial) 0 _ w)

/-- The log of one writer verifies and is numbered, and every edit of it but at its end
is found. -/
theorem audit_log_exposes_edits (calls : List (ℕ × Payload × Option OrderSigner))
    (source : ℕ → (op : Op) → op.Ans W) (w : World W) (hw : w.store.audit=[]) :
    let log:=(exec handle source 0 (writer sdk (calls.map fun c => .record c.1 c.2.1 c.2.2))
      w).2.store.audit
    verifyFrom sdk genesisHash log=true ∧ (∀ i r,log[i]? = some r → r.seq=i%2^32) ∧
      ∀ log',Edited log log' → IdealHash sdk (log++log') →
        verifyFrom sdk genesisHash log'=false := by
  intro log
  have hkept : WellKept sdk log := exec_wellKept sdk calls source w hw
  exact ⟨hkept.1,hkept.2,fun log' hedit hideal => verify_edited sdk hkept.1 hedit hideal⟩

deriving instance DecidableEq for PayloadValue

namespace Sample

def auditSdk (input output : Bytes) : PaySdk where
  sha3 b := if b=input then output else
    beBytes 32 (b.foldl (fun h x => h*257+x.toNat+1) 0)
  postingJson _ := []
  payloadJson p := p.flatMap fun field => Vcs.utf8 field.1
  itemsJson _ _ := []

def recordCalls (n : ℕ) : List (ℕ × Payload × Option OrderSigner) :=
  List.replicate n (1,[("a",.null)],none)

def recorded (sdk : PaySdk) (n : ℕ) : List AuditRecord :=
  (exec handle (source .default "a" accepting) 0
    (writer sdk ((recordCalls n).map fun c => .record c.1 c.2.1 c.2.2)) emptyWorld).2.store.audit

theorem length_recorded (sdk n t) (w : World Unit) : (exec handle (source .default "a" accepting) t
      (writer sdk ((recordCalls n).map fun c => .record c.1 c.2.1 c.2.2)) w).2.store.audit.length=
      w.store.audit.length+n := by
  induction n generalizing t w with
  | zero => rfl
  | succ n ih =>
    refine (ih (t+3) _).trans ?_
    show (w.store.audit++[_]).length+n=_
    rw [length_append,List.length_singleton]
    omega

theorem recorded_seq (sdk n) : ∃ r,(recorded sdk (n+1))[n]? = some r ∧ r.seq=n%2^32 := by
  have hkept:=exec_wellKept sdk (recordCalls (n+1)) (source .default "a" accepting) emptyWorld rfl
  have hlen : (recorded sdk (n+1)).length=0+(n+1) := length_recorded sdk (n+1) 0 emptyWorld
  have hlt : n<(recorded sdk (n+1)).length := by omega
  exact ⟨_,getElem?_eq_getElem hlt,hkept.2 n _ (getElem?_eq_getElem hlt)⟩

theorem edited_drop {log} (h : log.length=2) : Edited log (log.drop 1) := by
  obtain ⟨a,b,rfl⟩ := length_eq_two.1 h
  exact .delete [] [a] [] b (by simp)

def firstRecord : AuditRecord := ⟨genesisHash,0,1,beBytes 32 98,[("a",.null)],0,none⟩

def forgedRecord (sdk : PaySdk) (log : List AuditRecord) : AuditRecord :=
  ⟨headFrom (entryHash sdk) genesisHash log,7,9,beBytes 32 99,[("b",.null)],5,none⟩

end Sample
open Sample

theorem audit_log_exposes_deletion :
    verifyFrom (auditSdk [] []) genesisHash (recorded (auditSdk [] []) 2)=true ∧
      verifyFrom (auditSdk [] []) genesisHash ((recorded (auditSdk [] []) 2).drop 1)=false := by
  have h:=audit_log_exposes_edits (auditSdk [] []) (recordCalls 2)
    (Sample.source .default "a" accepting) emptyWorld rfl
  refine ⟨h.1,h.2.2 _ (edited_drop (by decide +kernel)) ?_⟩
  exact ⟨by decide +kernel,by decide +kernel,by decide +kernel,by decide +kernel⟩

/-- A forged record at the end is accepted; the record after 2^32 others has the number 0;
a first record whose hash is the start value can be deleted. -/
theorem audit_log_accepts_forged_end :
    let sdk:=auditSdk [] []
    let log:=recorded sdk 1
    let zero:=auditSdk firstRecord.fields.flatten genesisHash
    (verifyFrom sdk genesisHash (log++[forgedRecord sdk log])=true ∧
      IdealHash sdk (log++[forgedRecord sdk log])) ∧
    (∃ r,(recorded sdk (2^32+1))[2^32]? = some r ∧ r.seq=0) ∧
    Edited (recorded zero 2) ((recorded zero 2).drop 1) ∧
    verifyFrom zero genesisHash ((recorded zero 2).drop 1)=true := by
  intro sdk log zero
  refine ⟨⟨by decide +kernel,by decide +kernel,by decide +kernel,by decide +kernel,
    by decide +kernel⟩,?_,?_,by decide +kernel⟩
  · obtain ⟨r,hr,hseq⟩ := recorded_seq sdk (2^32)
    exact ⟨r,hr,hseq.trans (Nat.mod_self _)⟩
  · exact edited_drop (by decide +kernel)

end OriginTools.Payments
