import OriginTools.Attest.Record
import OriginTools.Foundation.Bfs

/-!
# The trust graph

Endorsements are kept at the node of their endorser and at that of their endorsee.
-/

namespace OriginTools.Attest
open List Std.ExtTreeMap

structure TrustNode where
  fingerprint : String
  endorsementsReceived : List Endorsement
  endorsementsGiven : List Endorsement
  claims : List CapabilityClaim

def TrustNode.new (fingerprint : String) : TrustNode where
  fingerprint := fingerprint
  endorsementsReceived := []
  endorsementsGiven := []
  claims := []

def TrustNode.give (e : Endorsement) (node : TrustNode) : TrustNode :=
  { node with endorsementsGiven := node.endorsementsGiven++[e] }

def TrustNode.receive (e : Endorsement) (node : TrustNode) : TrustNode :=
  { node with endorsementsReceived := node.endorsementsReceived++[e] }

def TrustNode.claim (c : CapabilityClaim) (node : TrustNode) : TrustNode :=
  { node with claims := node.claims++[c] }

structure TrustGraph where
  nodes : Std.ExtTreeMap String TrustNode compare
  threshold : ℕ

namespace TrustGraph

def empty (threshold : ℕ) : TrustGraph := ⟨∅,threshold⟩

def ensureNode (g : TrustGraph) (fp : String) : TrustGraph :=
  { g with nodes := g.nodes.insertIfNew fp (TrustNode.new fp) }

def addEndorsement (g : TrustGraph) (e : Endorsement) : TrustGraph :=
  let g:=(g.ensureNode e.endorserFp).ensureNode e.endorseeFp
  let nodes:=g.nodes.modify e.endorserFp (TrustNode.give e)
  { g with nodes := nodes.modify e.endorseeFp (TrustNode.receive e) }

def addClaim (g : TrustGraph) (c : CapabilityClaim) : TrustGraph :=
  let g:=g.ensureNode c.fingerprint
  { g with nodes := g.nodes.modify c.fingerprint (TrustNode.claim c) }

def received (g : TrustGraph) (fp : String) : List Endorsement :=
  (g.nodes[fp]?.map TrustNode.endorsementsReceived).getD []

def given (g : TrustGraph) (fp : String) : List Endorsement :=
  (g.nodes[fp]?.map TrustNode.endorsementsGiven).getD []

end TrustGraph

def Endorsement.vouches (now : Int64) (e : Endorsement) : Bool :=
  decide (e.tier=.tier2)&&e.isValid now

def Endorsement.vouchesIn (domain : String) (now : Int64) (e : Endorsement) : Bool :=
  decide (e.tier=.tier2)&&decide (e.capabilityDomain=domain)&&e.isValid now

namespace TrustGraph

def counted (g : TrustGraph) (fp : String) (now : Int64) : List Endorsement :=
  (g.received fp).filter (Endorsement.vouches now)

def countedIn (g : TrustGraph) (fp domain : String) (now : Int64) : List Endorsement :=
  (g.received fp).filter (Endorsement.vouchesIn domain now)

def canIssueTier2 (g : TrustGraph) (fp : String) (now : Int64) : Bool :=
  match g.nodes[fp]? with
  | some _ => decide (g.threshold≤(g.counted fp now).length)
  | none => false

def canIssueTier2InDomain (g : TrustGraph) (fp domain : String) (now : Int64) : Bool :=
  match g.nodes[fp]? with
  | some _ => decide (g.threshold≤(g.countedIn fp domain now).length)
  | none => false

def pathEdges (g : TrustGraph) (fp domain : String) (now : Int64) : List Endorsement :=
  (g.given fp).filter (Endorsement.vouchesIn domain now)

def neighbors (g : TrustGraph) (domain : String) (now : Int64) (fp : String) : List String :=
  (g.pathEdges fp domain now).map fun e => e.endorseeFp

def edgeCount (g : TrustGraph) : ℕ :=
  (g.nodes.toList.flatMap fun entry => entry.2.endorsementsGiven).length

def shortestTrustPath (g : TrustGraph) (source target domain : String) (now : Int64) :
    Option (List String) :=
  if source=target then some [source]
  else Bfs.search (g.neighbors domain now) target (g.edgeCount+1) (Bfs.Search.start source)

end TrustGraph
section
variable (g : TrustGraph) (e : Endorsement) (fp : String)

theorem TrustGraph.getElem?_ensureNode (fp' : String) : (g.ensureNode fp).nodes[fp']? =
      if fp=fp' ∧ fp∉g.nodes then some (TrustNode.new fp) else g.nodes[fp']? := by
  rw [TrustGraph.ensureNode,getElem?_insertIfNew]
  simp only [Std.LawfulEqCmp.compare_eq_iff_eq]

theorem TrustGraph.lookup_ensureNode (f : TrustNode → List Endorsement) (fp' : String)
    (hf : f (TrustNode.new fp)=[]) :
    ((g.ensureNode fp).nodes[fp']?.map f).getD []=(g.nodes[fp']?.map f).getD [] := by
  rw [getElem?_ensureNode]
  split
  · rename_i h
    obtain ⟨rfl,hmem⟩ := h
    rw [getElem?_eq_none hmem,Option.map_some,hf]
    rfl
  · rfl

theorem TrustGraph.mem_ensureNode_self : fp∈(g.ensureNode fp).nodes := mem_insertIfNew_self

theorem TrustGraph.mem_ensureNode {fp'} (h : fp'∈g.nodes) : fp'∈(g.ensureNode fp).nodes := by
  rw [TrustGraph.ensureNode,mem_insertIfNew]
  exact .inr h

theorem TrustGraph.lookup_modify (nodes : Std.ExtTreeMap String TrustNode compare) (key)
    (update : TrustNode → TrustNode) (f : TrustNode → List Endorsement) (added) (hkey : key∈nodes)
    (hf : ∀ node,f (update node)=f node++added) :
    ((nodes.modify key update)[fp]?.map f).getD []=
      (nodes[fp]?.map f).getD []++if key=fp then added else [] := by
  rw [Std.ExtTreeMap.getElem?_modify]
  simp only [Std.LawfulEqCmp.compare_eq_iff_eq]
  by_cases h : key=fp
  · subst h
    rw [if_pos rfl,if_pos rfl,getElem?_eq_some_getElem hkey]
    simp only [Option.map_some,Option.getD_some,hf]
  · rw [if_neg h,if_neg h,append_nil]

theorem TrustGraph.lookup_modify_same (nodes : Std.ExtTreeMap String TrustNode compare)
    (key : String) (update : TrustNode → TrustNode) (f : TrustNode → List Endorsement)
    (hf : ∀ node,f (update node)=f node) :
    ((nodes.modify key update)[fp]?.map f).getD []=(nodes[fp]?.map f).getD [] := by
  rw [Std.ExtTreeMap.getElem?_modify]
  simp only [Std.LawfulEqCmp.compare_eq_iff_eq]
  by_cases h : key=fp
  · subst h
    rw [if_pos rfl,Option.map_map]
    congr 2
    funext node
    exact hf node
  · rw [if_neg h]

theorem TrustGraph.given_addEndorsement : (g.addEndorsement e).given fp=
      g.given fp++if e.endorserFp=fp then [e] else [] := by
  have hendorser:=(g.ensureNode e.endorserFp).mem_ensureNode e.endorseeFp
    (g.mem_ensureNode_self e.endorserFp)
  unfold TrustGraph.given TrustGraph.addEndorsement
  dsimp only
  rw [lookup_modify_same fp _ _ (TrustNode.receive e) _ fun _ => rfl,
    lookup_modify fp _ e.endorserFp (TrustNode.give e) _ [e] hendorser fun _ => rfl,
    lookup_ensureNode _ _ _ _ rfl,lookup_ensureNode _ _ _ _ rfl]

theorem TrustGraph.received_addEndorsement : (g.addEndorsement e).received fp=
      g.received fp++if e.endorseeFp=fp then [e] else [] := by
  have hendorsee : e.endorseeFp∈((g.ensureNode e.endorserFp).ensureNode
      e.endorseeFp).nodes.modify e.endorserFp (TrustNode.give e) :=
    mem_modify.2 ((g.ensureNode e.endorserFp).mem_ensureNode_self e.endorseeFp)
  unfold TrustGraph.received TrustGraph.addEndorsement
  dsimp only
  rw [lookup_modify fp _ e.endorseeFp (TrustNode.receive e) _ [e] hendorsee fun _ => rfl,
    lookup_modify_same fp _ _ (TrustNode.give e) _ fun _ => rfl,
    lookup_ensureNode _ _ _ _ rfl,lookup_ensureNode _ _ _ _ rfl]

theorem TrustGraph.given_addClaim (c) : (g.addClaim c).given fp=g.given fp := by
  unfold TrustGraph.given TrustGraph.addClaim
  dsimp only
  rw [lookup_modify_same fp _ _ (TrustNode.claim c) _ fun _ => rfl,lookup_ensureNode _ _ _ _ rfl]

theorem TrustGraph.received_addClaim (c) : (g.addClaim c).received fp=g.received fp := by
  unfold TrustGraph.received TrustGraph.addClaim
  dsimp only
  rw [lookup_modify_same fp _ _ (TrustNode.claim c) _ fun _ => rfl,lookup_ensureNode _ _ _ _ rfl]

end

inductive Addition where
  | endorsement (e : Endorsement)
  | claim (c : CapabilityClaim)

def TrustGraph.add (g : TrustGraph) : Addition → TrustGraph
  | .endorsement e => g.addEndorsement e
  | .claim c => g.addClaim c

def TrustGraph.build (threshold : ℕ) (additions : List Addition) : TrustGraph :=
  additions.foldl TrustGraph.add (TrustGraph.empty threshold)

theorem TrustGraph.build_keeps {threshold additions e} (h : .endorsement e∈additions) :
    e∈(build threshold additions).received e.endorseeFp ∧
      e∈(build threshold additions).given e.endorserFp := by
  induction additions using List.reverseRecOn with
  | nil => cases h
  | append_singleton additions a ih =>
    have hbuild : build threshold (additions++[a])=(build threshold additions).add a := by
      simp [build]
    rw [hbuild]
    have hold : .endorsement e∈additions →
        e∈((build threshold additions).add a).received e.endorseeFp ∧
          e∈((build threshold additions).add a).given e.endorserFp := by
      intro hmem
      obtain ⟨hreceived,hgiven⟩ := ih hmem
      cases a with
      | endorsement e' =>
        rw [add,received_addEndorsement,given_addEndorsement]
        exact ⟨mem_append_left _ hreceived,mem_append_left _ hgiven⟩
      | claim c =>
        rw [add,received_addClaim,given_addClaim]
        exact ⟨hreceived,hgiven⟩
    rcases mem_append.1 h with h | h
    · exact hold h
    rw [← mem_singleton.1 h,add,received_addEndorsement,given_addEndorsement,if_pos rfl,if_pos rfl]
    exact ⟨mem_append_right _ (mem_singleton_self e),mem_append_right _ (mem_singleton_self e)⟩

variable {r : Endorsement}

theorem Endorsement.vouches_of_revocation (h : r.revocation=true) (now : Int64) :
    r.vouches now=false := by
  simp [Endorsement.vouches,EndorsementBody.isValid,h]

theorem Endorsement.vouchesIn_of_revocation (h : r.revocation=true) (domain now) :
    r.vouchesIn domain now=false := by
  simp [Endorsement.vouchesIn,EndorsementBody.isValid,h]

theorem filter_unless {p} (hp : p r=false) (c : Prop) [Decidable c] :
    (if c then [r] else []).filter p=[] := by
  split
  · simp [hp]
  · rfl

theorem TrustGraph.counted_addRevocation (g : TrustGraph) (h : r.revocation=true) (fp now) :
    (g.addEndorsement r).counted fp now=g.counted fp now := by
  unfold counted
  rw [received_addEndorsement,filter_append,
    filter_unless (Endorsement.vouches_of_revocation h now),append_nil]

theorem TrustGraph.countedIn_addRevocation (g : TrustGraph) (h : r.revocation=true)
    (fp domain now) : (g.addEndorsement r).countedIn fp domain now=g.countedIn fp domain now := by
  unfold countedIn
  rw [received_addEndorsement,filter_append,
    filter_unless (Endorsement.vouchesIn_of_revocation h domain now),append_nil]

theorem TrustGraph.pathEdges_addRevocation (g : TrustGraph) (h : r.revocation=true)
    (fp domain now) : (g.addEndorsement r).pathEdges fp domain now=g.pathEdges fp domain now := by
  unfold pathEdges
  rw [given_addEndorsement,filter_append,
    filter_unless (Endorsement.vouchesIn_of_revocation h domain now),append_nil]

structure TrustGraph.Withdrawn (g : TrustGraph) (e : Endorsement) (now : Int64) : Prop where
  counted : e∉g.counted e.endorseeFp now
  countedIn : ∀ domain,e∉g.countedIn e.endorseeFp domain now
  pathEdges : ∀ domain,e∉g.pathEdges e.endorserFp domain now

theorem TrustGraph.withdrawn_iff {g : TrustGraph} {e : Endorsement}
    (hreceived : e∈g.received e.endorseeFp) (now : Int64) :
    g.Withdrawn e now ↔ e.vouches now=false := by
  constructor
  · intro h
    by_contra hv
    rw [Bool.not_eq_false] at hv
    exact h.counted (mem_filter.2 ⟨hreceived,hv⟩)
  · intro hv
    have hin : ∀ domain,e.vouchesIn domain now=false := by
      intro domain
      by_contra h
      simp only [Endorsement.vouchesIn,Bool.not_eq_false,Bool.and_eq_true] at h
      simp [Endorsement.vouches,h.1.1,h.2] at hv
    refine ⟨?_,?_,?_⟩
    · intro hmem
      rw [(mem_filter.1 hmem).2] at hv
      cases hv
    · intro domain hmem
      have hfalse:=hin domain
      rw [(mem_filter.1 hmem).2] at hfalse
      cases hfalse
    · intro domain hmem
      have hfalse:=hin domain
      rw [(mem_filter.1 hmem).2] at hfalse
      cases hfalse

structure Endorsement.Revokes (sdk : AttestSdk) (r e : Endorsement) : Prop where
  endorser : r.endorserFp=e.endorserFp
  revocation : r.revocation=true
  supersedes : r.supersedes=some (e.hash sdk)

theorem TrustGraph.withdrawn_addRevocation {sdk} (g : TrustGraph) {e} (h : r.Revokes sdk e)
    (now : Int64) : (g.addEndorsement r).Withdrawn e now ↔ g.Withdrawn e now := by
  constructor
  · intro hw
    refine ⟨?_,fun domain => ?_,fun domain => ?_⟩
    · rw [← counted_addRevocation g h.revocation]
      exact hw.counted
    · rw [← countedIn_addRevocation g h.revocation]
      exact hw.countedIn domain
    · rw [← pathEdges_addRevocation g h.revocation]
      exact hw.pathEdges domain
  · intro hw
    refine ⟨?_,fun domain => ?_,fun domain => ?_⟩
    · rw [counted_addRevocation g h.revocation]
      exact hw.counted
    · rw [countedIn_addRevocation g h.revocation]
      exact hw.countedIn domain
    · rw [pathEdges_addRevocation g h.revocation]
      exact hw.pathEdges domain

theorem revocation_withdraws_iff (sdk : AttestSdk) {threshold : ℕ} {additions : List Addition}
    {e r : Endorsement} (hmem : .endorsement e∈additions) (h : r.Revokes sdk e) (now : Int64) :
    ((TrustGraph.build threshold additions).addEndorsement r).Withdrawn e now ↔
      ¬ (e.tier=.tier2 ∧ e.isValid now=true) := by
  have hreceived:=(@TrustGraph.build_keeps threshold _ _ hmem).1
  rw [TrustGraph.withdrawn_addRevocation _ h,TrustGraph.withdrawn_iff hreceived]
  simp [Endorsement.vouches]

namespace TrustGraph

def replay (g : TrustGraph) (e : Endorsement) : ℕ → TrustGraph
  | 0 => g
  | n+1 => (g.replay e n).addEndorsement e

structure ReplayProof (g : TrustGraph) (e : Endorsement) (now : Int64) : Prop where
  anyDomain : ∀ n fp,(g.replay e n).canIssueTier2 fp now=g.canIssueTier2 fp now
  inDomain : ∀ n fp domain,
    (g.replay e n).canIssueTier2InDomain fp domain now=g.canIssueTier2InDomain fp domain now

/-- Both thresholds: `canIssueTier2` and `canIssueTier2InDomain` are this at their filter. -/
def qualifies (g : TrustGraph) (p : Endorsement → Bool) (fp : String) : Bool :=
  match g.nodes[fp]? with
  | some _ => decide (g.threshold≤((g.received fp).filter p).length)
  | none => false

section
variable {g : TrustGraph} {e : Endorsement}

theorem received_replay (n fp) : (g.replay e n).received fp=
    g.received fp++if e.endorseeFp=fp then replicate n e else [] := by
  induction n with
  | zero => simp [replay]
  | succ n ih =>
    rw [replay,received_addEndorsement,ih,append_assoc]
    split_ifs
    · rw [replicate_succ']
    · rfl

theorem threshold_replay (n) : (g.replay e n).threshold=g.threshold := by
  induction n with
  | zero => rfl
  | succ n ih => exact ih

theorem mem_replay (hendorser : e.endorserFp∈g.nodes) (hendorsee : e.endorseeFp∈g.nodes) (n)
    {fp} : fp∈(g.replay e n).nodes ↔ fp∈g.nodes := by
  induction n with
  | zero => rfl
  | succ n ih =>
    simp only [replay,addEndorsement,ensureNode,mem_modify,mem_insertIfNew,
      Std.LawfulEqCmp.compare_eq_iff_eq,ih]
    constructor
    · rintro (rfl | rfl | h)
      · exact hendorsee
      · exact hendorser
      · exact h
    · exact fun h => .inr (.inr h)

theorem qualifies_iff {p fp} : g.qualifies p fp=true ↔
    fp∈g.nodes ∧ g.threshold≤((g.received fp).filter p).length := by
  rw [qualifies,mem_iff_isSome_getElem?]
  cases g.nodes[fp]? with
  | none => simp
  | some node => exact ⟨fun h => ⟨rfl,of_decide_eq_true h⟩,fun h => decide_eq_true h.2⟩

theorem qualifies_replay_iff (p) (hendorser : e.endorserFp∈g.nodes)
    (hendorsee : e.endorseeFp∈g.nodes) :
    (∀ n fp,(g.replay e n).qualifies p fp=g.qualifies p fp) ↔
      (p e=true → g.threshold≤((g.received e.endorseeFp).filter p).length) := by
  have hcount : ∀ n fp,((g.replay e n).received fp).filter p=(g.received fp).filter p++
      if e.endorseeFp=fp ∧ p e=true then replicate n e else [] := by
    intro n fp
    rw [received_replay,filter_append]
    by_cases hfp : e.endorseeFp=fp <;> cases hp : p e <;> simp [hfp,hp]
  rw [forall₂_congr fun n fp => Bool.eq_iff_iff]
  simp only [qualifies_iff,mem_replay hendorser hendorsee,threshold_replay,hcount]
  constructor
  · intro h hp
    refine ((h g.threshold _).mp ⟨hendorsee,?_⟩).2
    rw [if_pos ⟨rfl,hp⟩]
    simp
  · intro h n fp
    split_ifs with hfp
    · obtain ⟨rfl,hp⟩ := hfp
      have hreached:=h hp
      simp only [length_append,length_replicate]
      exact and_congr_right fun _ => ⟨fun _ => hreached,fun _ => by omega⟩
    · rw [append_nil]

theorem mem_nodes_of_lookup {f : TrustNode → List Endorsement} {fp}
    (h : e∈(g.nodes[fp]?.map f).getD []) : fp∈g.nodes := by
  by_contra hmem
  rw [getElem?_eq_none hmem] at h
  cases h

end
end TrustGraph

theorem replay_adds_nothing_iff {threshold : ℕ} {additions : List Addition} {e : Endorsement}
    (hmem : .endorsement e∈additions) (now : Int64) :
    (TrustGraph.build threshold additions).ReplayProof e now ↔ (e.tier=.tier2 ∧ e.isValid now=true →
        (TrustGraph.build threshold additions).threshold≤((TrustGraph.build threshold
          additions).countedIn e.endorseeFp e.capabilityDomain now).length) := by
  obtain ⟨hreceived,hgiven⟩ := @TrustGraph.build_keeps threshold _ _ hmem
  have hendorsee:=TrustGraph.mem_nodes_of_lookup hreceived
  have hendorser:=TrustGraph.mem_nodes_of_lookup hgiven
  have hreplay:=fun p => TrustGraph.qualifies_replay_iff p hendorser hendorsee
  generalize TrustGraph.build threshold additions=g at *
  constructor
  · rintro ⟨-,h⟩ ⟨htier,hvalid⟩
    refine (hreplay (Endorsement.vouchesIn e.capabilityDomain now)).mp (fun n fp => h n fp _) ?_
    simp [Endorsement.vouchesIn,htier,hvalid]
  · intro h
    refine ⟨(hreplay (Endorsement.vouches now)).mpr fun hp => ?_,fun n fp domain =>
      (hreplay (Endorsement.vouchesIn domain now)).mpr (fun hp => ?_) n fp⟩
    · simp only [Endorsement.vouches,Bool.and_eq_true,decide_eq_true_eq] at hp
      refine (h hp).trans (Sublist.length_le (monotone_filter_right _ fun r hr => ?_))
      simp only [Endorsement.vouchesIn,Bool.and_eq_true] at hr
      simp [Endorsement.vouches,hr.1.1,hr.2]
    · simp only [Endorsement.vouchesIn,Bool.and_eq_true,decide_eq_true_eq] at hp
      obtain ⟨⟨htier,rfl⟩,hvalid⟩ := hp
      exact h ⟨htier,hvalid⟩

namespace Sample

def attestSdk : AttestSdk where
  sha3 := fun _ => zeroDigest
  verifyWithPubkey := fun _ _ _ => true

def vouchBy (endorser : String) (validUntil : Int64) : Endorsement :=
  { endorsementOf "d" "review" with endorserFp := endorser,validUntil := validUntil }

def revocationOfVouch (e : Endorsement) : Endorsement :=
  { e with revocation := true,supersedes := some (e.hash attestSdk) }

theorem revocationOfVouch_revokes (e) : (revocationOfVouch e).Revokes attestSdk e := ⟨rfl,rfl,rfl⟩

def vouches : List Addition :=
  [.endorsement (vouchBy "a" 0),.endorsement (vouchBy "b" 0),.endorsement (vouchBy "c" 0)]

def revoked : TrustGraph :=
  (TrustGraph.build 3 vouches).addEndorsement (revocationOfVouch (vouchBy "a" 0))

end Sample
open Sample

theorem revocation_withdraws_expired :
    ((TrustGraph.build 3 [.endorsement (vouchBy "a" 5)]).addEndorsement
      (revocationOfVouch (vouchBy "a" 5))).Withdrawn (vouchBy "a" 5) 6 :=
  (revocation_withdraws_iff attestSdk (mem_singleton_self _)
    (revocationOfVouch_revokes _) 6).2 (by decide)

/-- The vouch of `a` for `d` is revoked, and yet it is one of the three that let `d`
vouch, and the way from `a` to `d`. -/
theorem revocation_without_effect : (revocationOfVouch (vouchBy "a" 0)).Revokes attestSdk
        (vouchBy "a" 0) ∧
      ¬ Sample.revoked.Withdrawn (vouchBy "a" 0) 0 ∧
      Sample.revoked.canIssueTier2 "d" 0=true ∧
      Sample.revoked.canIssueTier2InDomain "d" "review" 0=true ∧
      Sample.revoked.shortestTrustPath "a" "d" "review" 0=some ["a","d"] := by
  have hrevokes:=revocationOfVouch_revokes (vouchBy "a" 0)
  have hkept : .endorsement (vouchBy "a" 0)∈vouches := .head _
  refine ⟨hrevokes,?_,by decide +kernel,by decide +kernel,by decide +kernel⟩
  unfold Sample.revoked
  rw [TrustGraph.withdrawn_addRevocation _ hrevokes,
    TrustGraph.withdrawn_iff (TrustGraph.build_keeps hkept).1]
  decide

theorem replay_of_third_vouch : (TrustGraph.build 3 Sample.vouches).ReplayProof (vouchBy "a" 0) 0 :=
  (replay_adds_nothing_iff (.head _) 0).mpr fun _ => by decide +kernel

theorem replayed_vouch_counts :
    ¬ (TrustGraph.build 3 [.endorsement (vouchBy "a" 0)]).ReplayProof (vouchBy "a" 0) 0 := by
  intro h
  have hsame:=h.anyDomain 2 "d"
  have hbefore : (TrustGraph.build 3 [.endorsement (vouchBy "a" 0)]).canIssueTier2 "d" 0=false := by
    decide +kernel
  have hafter : ((TrustGraph.build 3 [.endorsement (vouchBy "a" 0)]).replay (vouchBy "a" 0)
      2).canIssueTier2 "d" 0=true := by
    decide +kernel
  rw [hbefore,hafter] at hsame
  cases hsame

end OriginTools.Attest
