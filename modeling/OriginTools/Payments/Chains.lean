import OriginTools.Foundation.Watch
import OriginTools.Payments.Run

/-!
# Writers of the two hash chains, side by side

`audit::record` and `append_batch` read the head of their log and then append records
that name it.
-/

namespace OriginTools.Payments
open Process
variable {W ι : Type} (sdk : PaySdk)

def verifyFrom : Bytes → List AuditRecord → Bool
  | _,[] => true
  | expectedPrev,r::records =>
    if r.prevHash≠expectedPrev then false
    else if r.payloadHash≠sdk.sha3 (sdk.payloadJson r.payload) then false
    else verifyFrom (entryHash sdk r) records

def auditVerify : Proc Error Bool := do
  let records : List AuditRecord ← readLog .audit
  return verifyFrom sdk genesisHash records

theorem exec_auditVerify {source} (w : World W) (hread : source 0 (.read .audit)=none) :
    (exec handle source 0 (auditVerify sdk) w).1=
      .done (verifyFrom sdk genesisHash w.store.audit) := by
  change (exec handle source 1 (((Process.ofExcept (handle (.read .audit)
    (source 0 (.read .audit)) w).1).bind fun records => .done _)) _).1=_
  rw [hread]
  rfl

def Sealed (r : AuditRecord) : Prop := r.payloadHash=sdk.sha3 (sdk.payloadJson r.payload)

theorem verifyFrom_iff (prev records) :
    verifyFrom sdk prev records=true ↔
      Linked AuditRecord.prevHash (entryHash sdk) prev records ∧ ∀ r∈records,Sealed sdk r := by
  induction records generalizing prev with
  | nil => simp [verifyFrom,Linked]
  | cons r records ih =>
    unfold verifyFrom Linked
    by_cases hprev : r.prevHash=prev
    · by_cases hsealed : r.payloadHash=sdk.sha3 (sdk.payloadJson r.payload)
      · rw [if_neg (not_not.2 hprev),if_neg (not_not.2 hsealed),ih]
        simp [Sealed,hprev,hsealed]
      · rw [if_neg (not_not.2 hprev),if_pos hsealed]
        simp [Sealed,hsealed]
    · rw [if_pos hprev]
      simp [hprev]

def PostingsLinked (postings : List LedgerPosting) : Prop :=
  postings.IsChain fun p q => q.prevHash=postingHash sdk p

theorem postingsLinked_append {postings p} (h : PostingsLinked sdk postings)
    (hp : p.prevHash=headFrom (postingHash sdk) genesisHash postings) :
    PostingsLinked sdk (postings++[p]) := by
  refine List.isChain_append.2 ⟨h,List.isChain_singleton _,?_⟩
  intro a ha b hb
  have hb' : p=b := by simpa using hb
  subst hb'
  rw [hp,headFrom,Option.mem_def.1 ha]

theorem verified_append {records r} (h : verifyFrom sdk genesisHash records=true)
    (hprev : r.prevHash=headFrom (entryHash sdk) genesisHash records) (hsealed : Sealed sdk r) :
    verifyFrom sdk genesisHash (records++[r])=true := by
  rw [verifyFrom_iff] at h ⊢
  refine ⟨(linked_snoc _ _ _).2 ⟨h.1,hprev⟩,?_⟩
  intro r' hr'
  rw [List.mem_append,List.mem_singleton] at hr'
  rcases hr' with hr' | hr'
  · exact h.2 r' hr'
  · rw [hr']
    exact hsealed

inductive ChainCall where
  | record (entryType : ℕ) (payload : Payload) (keys : Option OrderSigner)
  | batch (paymentOrderId currency : String) (legs : List (Account × String))
      (signer : Option OrderSigner)

def ChainCall.process : ChainCall → Proc Error Unit
  | .record entryType payload keys => auditRecord sdk entryType payload keys
  | .batch paymentOrderId currency legs signer =>
      (appendBatch sdk paymentOrderId currency legs signer).bind fun _ => .done ()

def writer : List ChainCall → Proc Error Unit
  | [] => .done ()
  | c::calls => ((c.process sdk).attempt).bind fun _ => writer calls

def chainHash : (l : Log) → l.Entry → Option Bytes
  | .audit,r => some (entryHash sdk r)
  | .postings,p => some (postingHash sdk p)
  | _,_ => none

def chainHead (l : Log) (entries : List l.Entry) : Option Bytes :=
  headFrom (chainHash sdk l) (some genesisHash) entries

/-- The heads that a writer knows of: from its last read of a log, or its last append. -/
abbrev Heads := Log → Option Bytes

namespace Heads

def note (g : Heads) : (op : Op) → op.Resp → Heads
  | .read l,.ok entries => Function.update g l (chainHead sdk l entries)
  | .append l entry,.ok _ => Function.update g l (chainHash sdk l entry)
  | _,_ => g

def Fair (g : Heads) : Op → Prop
  | .append .audit r => g .audit=some r.prevHash ∧ Sealed sdk r
  | .append .postings p => g .postings=some p.prevHash
  | .replace _ _ => False
  | _ => True

end Heads

theorem chainHead_audit (records : List AuditRecord) :
    chainHead sdk .audit records=some (headFrom (entryHash sdk) genesisHash records) :=
  headFrom_map some genesisHash records

theorem chainHead_postings (postings : List LedgerPosting) :
    chainHead sdk .postings postings=some (headFrom (postingHash sdk) genesisHash postings) :=
  headFrom_map some genesisHash postings

theorem note_read_self (g : Heads) (l : Log) (entries) :
    g.note sdk (.read l) (.ok entries) l=chainHead sdk l entries := by
  unfold Heads.note
  exact Function.update_self l _ g

theorem note_elsewhere_head {l op} (h : op.log? ≠ some l) (g : Heads) (r : op.Resp) :
    g.note sdk op r l=g l := by
  cases op with
  | read l' =>
    have hne : l≠l' := fun he => h (by rw [he]; rfl)
    cases r with
    | error e => rfl
    | ok entries =>
      unfold Heads.note
      exact Function.update_of_ne hne _ g
  | append l' entry =>
    have hne : l≠l' := fun he => h (by rw [he]; rfl)
    cases r with
    | error e => rfl
    | ok u =>
      unfold Heads.note
      exact Function.update_of_ne hne _ g
  | replace | ask | submit | openWallet | saveWallet => rfl

theorem note_append_self (g : Heads) (l : Log) (entry u) :
    g.note sdk (.append l entry) (.ok u) l=chainHash sdk l entry := by
  unfold Heads.note
  exact Function.update_self l _ g

theorem ask_watched {α : Type} {Q : Outcome Error α → Heads → Prop} {q}
    {f : q.Answer → Proc Error α} {g} (h : ∀ a,Watched (Heads.note sdk) (Heads.Fair sdk) Q (f a) g) :
    Watched (Heads.note sdk) (Heads.Fair sdk) Q ((ask q).bind f) g :=
  ⟨trivial,h⟩

theorem ofExcept_watched {α β : Type} {Q : Outcome Error β → Heads → Prop} {r}
    {f : α → Proc Error β} {g} (hok : ∀ a,Watched (Heads.note sdk) (Heads.Fair sdk) Q (f a) g)
    (herror : ∀ e,Q (.fail e) g) :
    Watched (Heads.note sdk) (Heads.Fair sdk) Q ((ofExcept r).bind f) g := by
  cases r with
  | ok a => exact hok a
  | error e => exact herror e

theorem auditRecord_watched (entryType payload keys g) :
    Watched (Heads.note sdk) (Heads.Fair sdk) (fun _ _ => True)
      (auditRecord sdk entryType payload keys) g := by
  refine ⟨trivial,fun r => ?_⟩
  rcases r with e | records
  · trivial
  have hknown:=(note_read_self sdk g .audit records).trans (chainHead_audit sdk records)
  refine ask_watched sdk fun timestamp => ?_
  cases keys with
  | none =>
    refine ⟨⟨hknown,rfl⟩,fun r => ?_⟩
    cases r with
    | error | ok => trivial
  | some keys =>
    refine ⟨trivial,fun signed => ?_⟩
    rcases signed with e | signature
    · trivial
    refine ⟨⟨hknown,rfl⟩,fun r => ?_⟩
    cases r with
    | error | ok => trivial

theorem appendLegs_watched (batchId paymentOrderId ts fxRate signer legs prev g)
    (hprev : g .postings=some prev) :
    Watched (Heads.note sdk) (Heads.Fair sdk) (fun _ _ => True)
      (appendLegs sdk batchId paymentOrderId ts fxRate signer legs prev) g := by
  induction legs generalizing prev g with
  | nil => trivial
  | cons leg legs ih =>
    -- the posting is appended after `prev`, and the rest of the batch after the posting
    have happend : ∀ posting : LedgerPosting,posting.prevHash=prev →
        Watched (Heads.note sdk) (Heads.Fair sdk) (fun _ _ => True)
          ((appendLog .postings posting).bind fun _ =>
            appendLegs sdk batchId paymentOrderId ts fxRate signer legs (postingHash sdk posting))
          g := by
      intro posting hposting
      have hfair : Heads.Fair sdk g (.append .postings posting) := by
        show g .postings=some posting.prevHash
        rw [hposting]
        exact hprev
      refine ⟨hfair,fun r => ?_⟩
      cases r with
      | error e => trivial
      | ok u =>
        exact ih (postingHash sdk posting) _ (note_append_self sdk g .postings posting u)
    refine ask_watched sdk fun postingId => ?_
    rcases signer with _ | keys
    · exact happend _ rfl
    refine ⟨trivial,fun signed => ?_⟩
    cases signed with
    | error e => trivial
    | ok signature => exact happend _ rfl

theorem journalHead_watched (g : Heads) :
    Watched (Heads.note sdk) (Heads.Fair sdk) (fun o g' => ∀ h,o=.done h → g' .postings=some h)
      (journalHead sdk) g := by
  refine ⟨trivial,fun r => ?_⟩
  cases r with
  | error e => exact fun _ h => by cases h
  | ok postings =>
    change List LedgerPosting at postings
    have hknown :=
      (note_read_self sdk g .postings postings).trans (chainHead_postings sdk postings)
    intro h hdone
    cases hdone
    refine hknown.trans ?_
    unfold headFrom
    cases postings.getLast? with
    | none | some => rfl

theorem appendBatch_watched (paymentOrderId currency legs signer g) :
    Watched (Heads.note sdk) (Heads.Fair sdk) (fun _ _ => True)
      (appendBatch sdk paymentOrderId currency legs signer) g := by
  refine ofExcept_watched sdk (fun _ => ?_) fun _ => trivial
  refine ask_watched sdk fun batchId => ask_watched sdk fun ts => ?_
  apply (journalHead_watched sdk g).bind
  · intro prev g' hprev
    apply (appendLegs_watched sdk batchId paymentOrderId ts none signer _ prev g'
      (hprev prev rfl)).bind
    · exact fun _ _ _ => trivial
    · exact fun _ _ _ => trivial
    · exact fun _ _ => trivial
  · exact fun _ _ _ => trivial
  · exact fun _ _ => trivial

theorem writer_watched (calls g) :
    Watched (Heads.note sdk) (Heads.Fair sdk) (fun _ _ => True) (writer sdk calls) g := by
  induction calls generalizing g with
  | nil => trivial
  | cons c calls ih =>
    have hcall : Watched (Heads.note sdk) (Heads.Fair sdk) (fun _ _ => True) (c.process sdk) g := by
      cases c with
      | record entryType payload keys => exact auditRecord_watched sdk entryType payload keys g
      | batch paymentOrderId currency legs signer =>
        apply (appendBatch_watched sdk paymentOrderId currency legs signer g).bind
        · exact fun _ _ _ => trivial
        · exact fun _ _ _ => trivial
        · exact fun _ _ => trivial
    have hattempt : Watched (Heads.note sdk) (Heads.Fair sdk) (fun _ _ => True)
        ((c.process sdk).attempt : Proc Error (Except Error Unit)) g :=
      Watched.attempt (hcall.post fun _ _ _ => trivial)
    apply hattempt.bind
    · exact fun _ g' _ => ih g'
    · exact fun _ _ _ => trivial
    · exact fun _ _ => trivial

/-- The world, and for each process the logs that others have appended to since it last read
or wrote them. -/
structure Overtaking (ι W : Type) where
  world : World W
  overtaken : ι → Log → Bool := fun _ _ => false

namespace Overtaking
variable [DecidableEq ι]

def noted (i : ι) (overtaken : ι → Log → Bool) : (op : Op) → op.Resp → ι → Log → Bool
  | .read l,.ok _ => Function.update overtaken i (Function.update (overtaken i) l false)
  | .append l _,.ok _ =>
      fun j => Function.update (overtaken j) l (if j=i then false else true)
  | _,_ => overtaken

def handle (i : ι) (op : Op) (a : op.Ans W) (s : Overtaking ι W) : op.Resp × Overtaking ι W :=
  ((Payments.handle op a s.world).1,
    { world := (Payments.handle op a s.world).2
      overtaken := noted i s.overtaken op (Payments.handle op a s.world).1 })

def Alone (i : ι) (s : Overtaking ι W) : (op : Op) → op.Ans W → Prop
  | .append .audit _,_ => s.overtaken i .audit=false
  | .append .postings _,_ => s.overtaken i .postings=false
  | _,_ => True

def Whole (s : Overtaking ι W) : Prop :=
  verifyFrom sdk genesisHash s.world.store.audit=true ∧ PostingsLinked sdk s.world.store.postings

def Knows (i : ι) (s : Overtaking ι W) (g : Heads) : Prop :=
  ∀ l,s.overtaken i l=false → ∀ h,g l=some h → chainHead sdk l (s.world.store.get l)=some h

variable {i j : ι} {s : Overtaking ι W} {g : Heads}
variable {op : Op} {a : op.Ans W}

theorem whole_step (hwhole : s.Whole sdk) (hknows : s.Knows sdk i g) (hfair : g.Fair sdk op)
    (halone : Alone i s op a) : (handle i op a s).2.Whole sdk := by
  obtain ⟨haudit,hpostings⟩ := hwhole
  by_cases haud : op.log? = some .audit
  · cases op with
    | append l r =>
      cases haud
      cases a with
      | some e => exact ⟨haudit,hpostings⟩
      | none =>
        have hhead:=hknows .audit halone _ hfair.1
        rw [show s.world.store.get .audit=s.world.store.audit from rfl,chainHead_audit] at hhead
        exact ⟨verified_append sdk haudit (Option.some.inj hhead).symm hfair.2,hpostings⟩
    | read l =>
      cases a with
      | none | some => exact ⟨haudit,hpostings⟩
    | replace l entries => exact hfair.elim
    | _ => cases haud
  · have hsame : (handle i op a s).2.world.store.audit=s.world.store.audit :=
      handle_elsewhere haud a s.world
    by_cases hpost : op.log? = some .postings
    · cases op with
      | append l p =>
        cases hpost
        cases a with
        | some e => exact ⟨haudit,hpostings⟩
        | none =>
          have hhead:=hknows .postings halone _ hfair
          rw [show s.world.store.get .postings=s.world.store.postings from rfl,
            chainHead_postings] at hhead
          exact ⟨haudit,postingsLinked_append sdk hpostings (Option.some.inj hhead).symm⟩
      | read l =>
        cases a with
        | none | some => exact ⟨haudit,hpostings⟩
      | replace l entries => exact hfair.elim
      | _ => cases hpost
    · have hsame' : (handle i op a s).2.world.store.postings=s.world.store.postings :=
        handle_elsewhere hpost a s.world
      unfold Whole
      rw [hsame,hsame']
      exact ⟨haudit,hpostings⟩

theorem noted_elsewhere_log {l} (h : op.log? ≠ some l) (overtaken : ι → Log → Bool) (r : op.Resp) :
    noted i overtaken op r j l=overtaken j l := by
  cases op with
  | read l' =>
    have hne : l≠l' := fun he => h (by rw [he]; rfl)
    rcases r with e | entries
    · rfl
    change Function.update overtaken i (Function.update (overtaken i) l' false) j l=_
    by_cases hj : j=i
    · subst hj
      rw [Function.update_self,Function.update_of_ne hne]
    · rw [Function.update_of_ne hj]
  | append l' entry =>
    have hne : l≠l' := fun he => h (by rw [he]; rfl)
    cases r with
    | error e => rfl
    | ok u =>
      change Function.update (overtaken j) l' (if j=i then false else true) l=_
      rw [Function.update_of_ne hne]
  | replace | ask | submit | openWallet | saveWallet => rfl

theorem knows_own (hknows : s.Knows sdk i g) (hfair : g.Fair sdk op) :
    (handle i op a s).2.Knows sdk i (g.note sdk op (handle i op a s).1) := by
  intro l hl h hg
  by_cases hlog : op.log? = some l
  · cases op with
    | read m =>
      cases hlog
      cases a with
      | some e => exact hknows l hl h hg
      | none => exact (note_read_self sdk g l _).symm.trans hg
    | append m entry =>
      cases hlog
      cases a with
      | some e => exact hknows l hl h hg
      | none =>
        have hget : (handle i (.append l entry) none s).2.world.store.get l=
            s.world.store.get l++[entry] := Store.get_set_self _ _ _
        rw [hget,chainHead,headFrom_append]
        exact (note_append_self sdk g l entry ()).symm.trans hg
    | replace m entries => exact hfair.elim
    | _ => cases hlog
  · have hstore : (handle i op a s).2.world.store.get l=s.world.store.get l :=
      handle_elsewhere hlog a s.world
    rw [hstore]
    rw [note_elsewhere_head sdk hlog] at hg
    exact hknows l ((noted_elsewhere_log hlog _ _).symm.trans hl) h hg

theorem knows_foreign {g' : Heads} (hne : i≠j) (hknows : s.Knows sdk i g) (hfair : g'.Fair sdk op) :
    (handle j op a s).2.Knows sdk i g := by
  intro l hl h hg
  by_cases hlog : op.log? = some l
  · cases op with
    | read m =>
      cases hlog
      cases a with
      | some e => exact hknows l hl h hg
      | none =>
        have hsame : (handle j (.read l) none s).2.overtaken i l=s.overtaken i l := by
          show Function.update s.overtaken j _ i l=_
          rw [Function.update_of_ne hne]
        exact hknows l (hsame.symm.trans hl) h hg
    | append m entry =>
      cases hlog
      cases a with
      | some e => exact hknows l hl h hg
      | none =>
        have hovertaken : (handle j (.append l entry) none s).2.overtaken i l=true := by
          show Function.update (s.overtaken i) l (if i=j then false else true) l=true
          rw [Function.update_self,if_neg hne]
        rw [hovertaken] at hl
        cases hl
    | replace m entries => exact hfair.elim
    | _ => cases hlog
  · have hstore : (handle j op a s).2.world.store.get l=s.world.store.get l :=
      handle_elsewhere hlog a s.world
    rw [hstore]
    exact hknows l ((noted_elsewhere_log hlog _ _).symm.trans hl) h hg

end Overtaking
variable [DecidableEq ι]

instance decidableAlone (i : ι) (s : Overtaking ι W) (op : Op) (a : op.Ans W) :
    Decidable (Overtaking.Alone i s op a) := by
  unfold Overtaking.Alone
  split <;> infer_instance

/-- Any number of writers on one store, in every interleaving in which each append comes
from a writer that was not overtaken: `audit::verify` returns `true` and every posting names
the one before it. -/
theorem chains_survive_interleaved (writers : ι → List ChainCall)
    (schedule : List (ι × ((op : Op) → op.Ans W))) (w : World W)
    (haudit : verifyFrom sdk genesisHash w.store.audit=true)
    (hpostings : PostingsLinked sdk w.store.postings)
    (halone : Pool.Obeys Overtaking.handle Overtaking.Alone schedule
      (fun i => writer sdk (writers i)) { world := w }) :
    let s:=(Pool.run Overtaking.handle schedule (fun i => writer sdk (writers i))
      { world := w }).2
    (∀ source,source 0 (.read .audit)=none →
      (exec handle source 0 (auditVerify sdk) s.world).1=.done true) ∧
      PostingsLinked sdk s.world.store.postings := by
  intro s
  have hstart : Pool.Watching (Heads.note sdk) (Heads.Fair sdk) (Overtaking.Whole sdk)
      (Overtaking.Knows sdk) (fun i => writer sdk (writers i))
      ({ world := w } : Overtaking ι W) := by
    refine ⟨⟨haudit,hpostings⟩,fun i => ⟨fun _ => none,writer_watched sdk _ _,?_⟩⟩
    intro l _ h hg
    cases hg
  have hwhole : s.Whole sdk := by
    apply hstart.run halone
    · intro i s g op a hwhole hknows hfair hallowed
      exact ⟨Overtaking.whole_step sdk hwhole hknows hfair hallowed,
        Overtaking.knows_own sdk hknows hfair⟩
    · intro i j s g g' op a hne hknows hfair
      exact Overtaking.knows_foreign sdk hne hknows hfair
  refine ⟨fun source hread => ?_,hwhole.2⟩
  rw [exec_auditVerify sdk s.world hread,hwhole.1]

namespace Sample

def record : ChainCall := .record 1 [] none
def transfer : ChainCall := .batch "o1" "USD" [(.debit,"5"),(.credit,"5")] none
def writerTurn (i : Bool) : Bool × ((op : Op) → op.Ans Unit) := (i,source .default "a" accepting 0)

def write (calls : List ChainCall) (turns : List Bool) : World Unit :=
  (Pool.run Overtaking.handle (turns.map writerTurn) (fun _ => writer paySdk calls)
    { world := emptyWorld }).2.world

end Sample
open Sample

/-- Both writers read the empty log before either appends: two audit records, or the first
postings of two batches, name the same head. -/
theorem chains_forked_interleaved : let w:=write [Sample.record] [false,true,false,false,true,true]
    let w':=write [transfer]
      (List.replicate 3 false++List.replicate 3 true++List.replicate 8 false++List.replicate 8 true)
    (verifyFrom paySdk genesisHash emptyWorld.store.audit=true ∧
        PostingsLinked paySdk emptyWorld.store.postings) ∧
      (w.store.audit.map AuditRecord.prevHash=[genesisHash,genesisHash] ∧
        (exec handle (Sample.source .default "a" accepting) 0
          (auditVerify paySdk) w).1=.done false) ∧
      w'.store.postings.map (fun p => p.prevHash)=[genesisHash,[],genesisHash,[]] ∧
        ¬ PostingsLinked paySdk w'.store.postings := by
  intro w w'
  refine ⟨⟨rfl,List.isChain_nil⟩,⟨by decide +kernel,?_⟩,by decide +kernel,?_⟩
  · rw [exec_auditVerify _ _ rfl]
    exact congrArg Outcome.done (by decide +kernel)
  · unfold PostingsLinked
    decide +kernel

/-- One writer after the other. -/
theorem chains_survive_in_turn :
    let turns:=List.replicate 16 false++List.replicate 16 true
    let w:=write [Sample.record,transfer] turns
    w.store.audit.length=2 ∧ w.store.postings.length=4 ∧
      (exec handle (Sample.source .default "a" accepting) 0
        (auditVerify paySdk) w).1=.done true ∧
      PostingsLinked paySdk w.store.postings := by
  intro turns w
  have hsurvive:=chains_survive_interleaved paySdk
    (fun _ : Bool => [Sample.record,transfer]) (turns.map writerTurn)
    emptyWorld rfl List.isChain_nil (by decide +kernel)
  exact ⟨by decide +kernel,by decide +kernel,hsurvive.1 _ rfl,hsurvive.2⟩

end OriginTools.Payments
