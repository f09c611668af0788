import OriginTools.Attest.Record
import OriginTools.Foundation.HashChain

/-!
# The agent registry and its endorsement chains

An agent's record keeps the endorsements it gave, those it received and a hash chain of
the given ones, whose links are signed fields that `append` sets.
-/

namespace OriginTools.Attest
open Vcs (hexDecode)

inductive AttestError where
  | notFound (fp : String)
  | chainBroken (index : ℕ)
  deriving DecidableEq

abbrev EndorsementChain := List Endorsement

theorem zeroHash_length : (List.replicate 32 (0 : UInt8)).length=32 := rfl

def zeroHash : Digest := ⟨List.replicate 32 0,zeroHash_length⟩

namespace EndorsementChain
variable (sdk : AttestSdk)

def tipHash (chain : EndorsementChain) : Digest :=
  headFrom (fun e : Endorsement => e.hash sdk) zeroHash chain

def append (chain : EndorsementChain) (e : Endorsement) : EndorsementChain :=
  chain++[{ e with prevHash := tipHash sdk chain }]

def verifyFrom (expected : Digest) (i : ℕ) : EndorsementChain → Except AttestError Unit
  | [] => .ok ()
  | e::es =>
      if e.prevHash≠expected then .error (.chainBroken i)
      else verifyFrom (e.hash sdk) (i+1) es

def verifyIntegrity (chain : EndorsementChain) : Except AttestError Unit :=
  verifyFrom sdk zeroHash 0 chain

/-- Each endorsement carries the hash of the one before it. -/
def InLine (start : Digest) (es : List Endorsement) : Prop :=
  Linked (fun e : Endorsement => e.prevHash) (fun e => e.hash sdk) start es

theorem verifyFrom_ok_iff (expected i chain) :
    verifyFrom sdk expected i chain=.ok () ↔ InLine sdk expected chain := by
  induction chain generalizing expected i with
  | nil => exact iff_of_true rfl trivial
  | cons e es ih =>
    by_cases h : e.prevHash=expected
    · rw [verifyFrom,if_neg (not_not.2 h),ih]
      exact (and_iff_right h).symm
    · rw [verifyFrom,if_pos h]
      exact iff_of_false nofun fun hline => h hline.1

theorem inLine_append {chain} (h : InLine sdk zeroHash chain) (e) :
    InLine sdk zeroHash (append sdk chain e) :=
  (linked_snoc zeroHash chain _).2 ⟨h,rfl⟩

theorem verifyIntegrity_foldl {chain} (h : verifyIntegrity sdk chain=.ok ())
    (es : List Endorsement) : verifyIntegrity sdk (es.foldl (append sdk) chain)=.ok () := by
  rw [verifyIntegrity,verifyFrom_ok_iff] at h ⊢
  induction es generalizing chain with
  | nil => exact h
  | cons e es ih => exact ih (inLine_append sdk h e)

theorem mem_foldl_append {chain} {e} (h : e∈chain) (es : List Endorsement) :
    e∈es.foldl (append sdk) chain := by
  induction es generalizing chain with
  | nil => exact h
  | cons f es ih => exact ih (List.mem_append_left _ h)

end EndorsementChain
open EndorsementChain

/-- The signature verifies under its endorser's key for the endorsement's own bytes and
for no others. -/
def Endorsement.SignedExactly (sdk : AttestSdk) (keyOf : String → String) (e : Endorsement) :
    Prop :=
  ∀ f : EndorsementBody,f.endorserFp=e.endorserFp →
    (Endorsement.verifySignature sdk ⟨f,e.falconSignature⟩ (keyOf e.endorserFp)=true ↔
      f.signableBytes=e.signableBytes)

theorem verifySignature_relinked_iff {sdk keyOf} {e : Endorsement}
    (h : e.SignedExactly sdk keyOf) (d : Digest) :
    Endorsement.verifySignature sdk { e with prevHash := d } (keyOf e.endorserFp)=true ↔
      e.prevHash=d := by
  refine (h { e with prevHash := d } rfl).trans ?_
  simp only [EndorsementBody.signableBytes,List.append_cancel_right_eq,List.append_cancel_left_eq]
  exact ⟨fun hb => Digest.eq_of_bytes hb.symm,fun hd => by rw [hd]⟩

theorem chained_signatures_hold_iff {sdk keyOf chain} {es : List Endorsement}
    (hchain : verifyIntegrity sdk chain=.ok ())
    (hstored : ∀ e∈chain,e.verifySignature sdk (keyOf e.endorserFp)=true)
    (hsigned : ∀ e∈es,e.SignedExactly sdk keyOf) :
    (verifyIntegrity sdk (es.foldl (append sdk) chain)=.ok () ∧
        ∀ e∈es.foldl (append sdk) chain,e.verifySignature sdk (keyOf e.endorserFp)=true) ↔
      InLine sdk (tipHash sdk chain) es := by
  rw [and_iff_right (verifyIntegrity_foldl sdk hchain es)]
  clear hchain
  induction es generalizing chain with
  | nil => exact iff_of_true hstored trivial
  | cons e es ih =>
    rw [List.forall_mem_cons] at hsigned
    have hlast:=verifySignature_relinked_iff hsigned.1 (tipHash sdk chain)
    by_cases h : e.prevHash=tipHash sdk chain
    · have happend : append sdk chain e=chain++[e] := by rw [append,← h]
      rw [List.foldl_cons,happend,ih ?_ hsigned.2,tipHash,headFrom_append]
      · exact (and_iff_right h).symm
      intro f hf
      rcases List.mem_append.1 hf with hf | hf
      · exact hstored f hf
      · rw [← h] at hlast
        rw [List.mem_singleton.1 hf]
        exact hlast.2 rfl
    · refine iff_of_false (fun hall => h (hlast.1 (hall _ ?_))) fun hline => h hline.1
      exact mem_foldl_append sdk (List.mem_append_right chain List.mem_cons_self) es

structure AgentRecord where
  endorsementsReceived : List Endorsement
  endorsementsGiven : List Endorsement
  chain : EndorsementChain
  lastSeen : Int64

abbrev AgentRegistry := String → Option AgentRecord

namespace AgentRegistry
variable (sdk : AttestSdk)

def addEndorsement (now later : Int64) (agents : AgentRegistry) (e : Endorsement) :
    Except AttestError Unit × AgentRegistry :=
  match agents e.endorserFp with
  | none => (.error (.notFound e.endorserFp),agents)
  | some endorser =>
      let agents:=Function.update agents e.endorserFp (some { endorser with
          endorsementsGiven := endorser.endorsementsGiven++[e]
          chain := EndorsementChain.append sdk endorser.chain e
          lastSeen := now })
      match agents e.endorseeFp with
      | none => (.error (.notFound e.endorseeFp),agents)
      | some endorsee =>
          (.ok (),Function.update agents e.endorseeFp (some { endorsee with
              endorsementsReceived := endorsee.endorsementsReceived++[e]
              lastSeen := later }))

def lists (agents : AgentRegistry) (fp : String) :
    Option (List Endorsement × List Endorsement × EndorsementChain) :=
  (agents fp).map fun r => (r.endorsementsReceived,r.endorsementsGiven,r.chain)

def recorded (agents : AgentRegistry) (e : Endorsement) (fp : String) :
    Option (List Endorsement × List Endorsement × EndorsementChain) :=
  (agents.lists fp).map fun r =>
    (if fp=e.endorseeFp then r.1++[e] else r.1,
      if fp=e.endorserFp then (r.2.1++[e],EndorsementChain.append sdk r.2.2 e) else r.2)

/-- An endorsement that fails changes nobody's lists; one that succeeds is in the lists
of its two agents and nowhere else. -/
def AllOrNothing (now later : Int64) (agents : AgentRegistry) (e : Endorsement) : Prop :=
  let r:=agents.addEndorsement sdk now later e
  (r.1≠.ok () → r.2.lists=agents.lists) ∧ (r.1=.ok () → r.2.lists=agents.recorded sdk e)

theorem allOrNothing_iff (now later : Int64) (agents : AgentRegistry) (e : Endorsement) :
    agents.AllOrNothing sdk now later e ↔
      ((agents e.endorserFp).isSome → (agents e.endorseeFp).isSome) := by
  unfold AllOrNothing addEndorsement
  cases hendorser : agents e.endorserFp with
  | none => simp
  | some endorser =>
    by_cases hself : e.endorseeFp=e.endorserFp
    · refine iff_of_true ?_ fun _ => by rw [hself,hendorser]; rfl
      simp only [hself,Function.update_self]
      refine ⟨fun h => absurd rfl h,fun _ => funext fun fp => ?_⟩
      by_cases hfp : fp=e.endorserFp
      · simp [hfp,hself,lists,recorded,hendorser]
      · cases h : agents fp <;> simp [h,hfp,hself,lists,recorded]
    · cases hendorsee : agents e.endorseeFp with
      | none =>
        simp only [Function.update_of_ne hself,hendorsee]
        refine iff_of_false (fun h => ?_) (by simp)
        have hgiven:=congrFun (h.1 nofun) e.endorserFp
        simp [lists,hendorser] at hgiven
      | some endorsee =>
        simp only [Function.update_of_ne hself,hendorsee]
        refine iff_of_true ⟨fun h => absurd rfl h,fun _ => funext fun fp => ?_⟩ (by simp)
        by_cases hfp : fp=e.endorserFp
        · simp [hfp,Ne.symm hself,lists,recorded,hendorser]
        · by_cases hfe : fp=e.endorseeFp
          · simp [hfe,hself,lists,recorded,hendorsee]
          · cases h : agents fp <;> simp [h,hfp,hfe,lists,recorded]

end AgentRegistry
namespace Sample

def agents (known : List String) : AgentRegistry :=
  fun fp => if fp∈known then some ⟨[],[],[],0⟩ else none

def plainSdk : AttestSdk where
  sha3 := fun _ => ⟨List.replicate 32 1,rfl⟩
  verifyWithPubkey := fun _ message signature => message==signature

def signed (endorsee : String) (prev : Digest) : Endorsement :=
  let body:={ endorsementOf endorsee "d" with prevHash := prev }
  { body with falconSignature := body.signableBytes }

theorem signedExactly (endorsee prev) : (signed endorsee prev).SignedExactly plainSdk fun _ => "ab" := by
  intro f _
  have hkey : hexDecode "ab"=.ok [171] := by decide +kernel
  simp only [Endorsement.verifySignature,hkey]
  exact beq_iff_eq

end Sample
open Sample

theorem failed_endorsement_recorded : let e := endorsementOf "cd" "d"
    let r:=(agents ["ab"]).addEndorsement plainSdk 0 0 e
    r.1=.error (.notFound "cd") ∧ (r.2 "ab").map (·.endorsementsGiven)=some [e] := by
  decide +kernel

/-- The second endorsement was signed with the hash of the first. -/
theorem one_chained_signature :
    let chain:=[signed "cd" zeroHash,signed "ef" (plainSdk.sha3 [])].foldl (append plainSdk) []
    verifyIntegrity plainSdk chain=.ok () ∧ ∀ e∈chain,e.verifySignature plainSdk "ab"=true := by
  have hsigned : ∀ e∈[signed "cd" zeroHash,signed "ef" (plainSdk.sha3 [])],
      e.SignedExactly plainSdk fun _ => "ab" := by
    simp [signedExactly]
  exact (chained_signatures_hold_iff rfl (by simp) hsigned).2 ⟨rfl,rfl,trivial⟩

theorem second_chained_signature_broken :
    (∀ e∈[signed "cd" zeroHash,signed "ef" zeroHash],e.SignedExactly plainSdk fun _ => "ab") ∧
      ∃ e∈[signed "cd" zeroHash,signed "ef" zeroHash].foldl (append plainSdk) [],
        e.verifySignature plainSdk "ab"=false := by
  constructor
  · simp [signedExactly]
  · exact ⟨_,List.mem_cons_of_mem _ List.mem_cons_self,by decide +kernel⟩

end OriginTools.Attest
