import OriginTools.Network.RelayServer

/-!
# Who can change a forwarding pair

The id of a forwarding pair is a small consecutive number, so a client can name the pairs
of others.
-/

namespace OriginTools.Network
open List
namespace RelayServer

def pairsWithout (fp : Fingerprint) (s : RelayServer) : List ForwardPair :=
  s.state.forwarding.filter (fun p => ¬p.Involves fp)

/-- `conn` is served for `fp` and the step is a control frame it sent or its end. -/
inductive Acts (s : RelayServer) (conn : ConnId) (fp : Fingerprint) : Event → Prop where
  | frame (now : ℕ) (tag : UInt8) (body : List UInt8) (sent : Bool)
    (served : s.served conn=some fp) : Acts s conn fp (.frame conn now tag body sent)
  | disconnect (served : s.served conn=some fp) : Acts s conn fp (.disconnect conn)

def CloseRequest (dec : PayloadDecoder) (pairId : UInt64) : Event → Prop
  | .frame _ _ tag body _ => Carries dec.sessionClose .sessionClose tag body ⟨pairId⟩
  | _ => False

structure MembersOnly (dec : PayloadDecoder) (s : RelayServer) (e : Event) : Prop where
  removed : ∀ p∈s.state.forwarding,p∉(s.step dec e).1.state.forwarding →
    ∃ conn fp,s.Acts conn fp e ∧ p.Involves fp ∧
      (CloseRequest dec p.id e ∨ (s.step dec e).1.served conn=none)
  delivered : ∀ target data,(target,data)∈(s.step dec e).2 →
    ∃ conn fp peer,s.Acts conn fp e ∧ s.served target=some peer ∧
      ∃ p∈s.state.forwarding,p.id=data.pairId ∧
        (p.fromFp=fp ∧ p.toFp=peer ∨ p.toFp=fp ∧ p.fromFp=peer)
  others : ∀ conn now tag body sent fp,e=.frame conn now tag body sent →
    s.served conn=some fp → (s.step dec e).1.pairsWithout fp=s.pairsWithout fp

def ClosesOwn (dec : PayloadDecoder) (s : RelayServer) (e : Event) : Prop :=
  ∀ conn fp,s.Acts conn fp e → ∀ pairId,CloseRequest dec pairId e →
    ∀ p,s.state.lookupPair pairId=some p → p.Involves fp

theorem pairsWithout_teardown (s : RelayServer) (conn fp) :
    (s.teardown conn fp).pairsWithout fp=s.pairsWithout fp := by
  unfold pairsWithout teardown RelayState.deregister
  simp only [filter_filter]
  apply filter_congr
  intro p _
  simp only [ForwardPair.Involves]
  by_cases hfrom : p.fromFp=fp
  · simp [hfrom]
  · simp [hfrom]

variable {s : RelayServer} {fp : Fingerprint}

theorem mem_teardown {p} (h : p∈s.state.forwarding) (conn : ConnId) (hfp : ¬p.Involves fp) :
    p∈(s.teardown conn fp).state.forwarding := by
  unfold ForwardPair.Involves at hfp
  push Not at hfp
  exact mem_filter.2 ⟨h,decide_eq_true hfp⟩

theorem afterFrame_cases (h : Handled) (conn fp sent) :
    afterFrame h conn fp sent=h.server ∨ afterFrame h conn fp sent=h.server.teardown conn fp := by
  unfold afterFrame
  split
  · exact .inr rfl
  · exact .inl rfl
  · split
    · exact .inl rfl
    · exact .inr rfl

variable {dec : PayloadDecoder} {now : ℕ} {tag : UInt8} {body : List UInt8}

theorem removed_by_close {p} (hmem : p∈s.state.forwarding)
    (hgone : p∉(s.controlFrame dec now fp tag body).server.state.forwarding) :
    Carries dec.sessionClose .sessionClose tag body ⟨p.id⟩ ∧ s.state.lookupPair p.id=some p := by
  have heffect:=s.controlFrame_effect dec now fp tag body
  generalize s.controlFrame dec now fp tag body=handled at heffect hgone
  cases heffect with
  | quiet h keeps =>
    rw [keeps.forwarding] at hgone
    exact absurd hmem hgone
  | opens msg carried =>
    rw [onSessionOpen_server] at hgone
    rcases s.state.openPair_forwarding s.eviction fp ⟨msg.targetFp⟩ with hsame | hmore
    · simp only [hsame] at hgone
      exact absurd hmem hgone
    · simp only [hmore] at hgone
      exact absurd (mem_append_left _ hmem) hgone
  | closes msg carried =>
    cases hlookup : s.state.lookupPair msg.pairId with
    | none =>
      have hsame:=RelayState.closePair_of_lookup_none hlookup
      simp only [onSessionClose,next,hsame] at hgone
      exact absurd hmem hgone
    | some pair =>
      obtain ⟨before,after,hlist,hid,hclosed⟩ := RelayState.closePair_of_lookup hlookup
      simp only [onSessionClose,next,hclosed] at hgone
      rw [hlist] at hmem
      have hpair : p=pair := by
        simp only [mem_append,mem_cons] at hmem hgone
        tauto
      subst hpair
      have hmsg : msg=⟨p.id⟩ := by
        rw [hid]
      rw [hmsg] at carried hlookup
      exact ⟨carried,hlookup⟩
  | relays msg carried =>
    rw [onRelayData_server] at hgone
    exact absurd hmem hgone

theorem pairsWithout_controlFrame
    (hown : ∀ pairId,Carries dec.sessionClose .sessionClose tag body ⟨pairId⟩ →
      ∀ p,s.state.lookupPair pairId=some p → p.Involves fp) :
    (s.controlFrame dec now fp tag body).server.pairsWithout fp=s.pairsWithout fp := by
  have heffect:=s.controlFrame_effect dec now fp tag body
  generalize s.controlFrame dec now fp tag body=handled at heffect
  cases heffect with
  | quiet h keeps =>
    unfold pairsWithout
    rw [keeps.forwarding]
  | opens msg carried =>
    rw [onSessionOpen_server]
    unfold pairsWithout
    rcases s.state.openPair_forwarding s.eviction fp ⟨msg.targetFp⟩ with hsame | hmore
    · simp only [hsame]
    · simp only [hmore,filter_append]
      have hnew : ForwardPair.Involves fp ⟨s.state.nextPairId,fp,⟨msg.targetFp⟩⟩ := .inl rfl
      rw [filter_cons_of_neg (by simp [hnew]),filter_nil,append_nil]
  | closes msg carried =>
    cases hlookup : s.state.lookupPair msg.pairId with
    | none =>
      have hsame:=RelayState.closePair_of_lookup_none hlookup
      simp only [onSessionClose,next,hsame]
    | some pair =>
      obtain ⟨before,after,hlist,hid,hclosed⟩ := RelayState.closePair_of_lookup hlookup
      have hinvolves:=hown msg.pairId carried pair hlookup
      unfold pairsWithout
      simp only [onSessionClose,next,hclosed,hlist,filter_append]
      rw [filter_cons_of_neg (by simp [hinvolves])]
  | relays msg carried => rw [onRelayData_server]

theorem peerOf_endpoints {pair peer} (h : peerOf pair fp=some peer) :
    pair.fromFp=fp ∧ pair.toFp=peer ∨ pair.toFp=fp ∧ pair.fromFp=peer := by
  unfold peerOf at h
  split at h
  case isTrue hfrom => exact .inl ⟨hfrom,Option.some.inj h⟩
  · split at h
    case isTrue hto => exact .inr ⟨hto,Option.some.inj h⟩
    · cases h

theorem delivered_between (hrouted : WellRouted s) {target data}
    (h : (target,data)∈(s.controlFrame dec now fp tag body).delivered) :
    ∃ peer,s.served target=some peer ∧ ∃ p∈s.state.forwarding,p.id=data.pairId ∧
      (p.fromFp=fp ∧ p.toFp=peer ∨ p.toFp=fp ∧ p.fromFp=peer) := by
  have heffect:=s.controlFrame_effect dec now fp tag body
  generalize s.controlFrame dec now fp tag body=handled at heffect h
  cases heffect with
  | quiet handled keeps =>
    rw [keeps.delivered] at h
    cases h
  | opens msg carried =>
    rw [onSessionOpen_delivered] at h
    cases h
  | closes msg carried => cases h
  | relays msg carried =>
    obtain ⟨hdata,pair,peer,hlookup,hpeer,hconn,halive⟩ := onRelayData_delivered h
    subst hdata
    obtain ⟨owner,howner⟩ := Option.isSome_iff_exists.1 halive
    have hsame : owner=peer := hrouted.routed peer target hconn owner howner
    subst hsame
    obtain ⟨hmem,hid⟩ := RelayState.mem_of_lookupPair hlookup
    exact ⟨owner,howner,pair,hmem,hid,peerOf_endpoints hpeer⟩

variable {conn : ConnId}

theorem step_frame (hserved : s.served conn=some fp) (dec now tag body sent) :
    s.step dec (.frame conn now tag body sent)=
      (afterFrame (s.controlFrame dec now fp tag body) conn fp sent,
        (s.controlFrame dec now fp tag body).delivered) := by
  simp only [step,hserved]

theorem connect_forwarding (s : RelayServer) (fp token sent) :
    (s.connect fp token sent).state.forwarding=s.state.forwarding := by
  unfold connect
  split
  · rfl
  case h_2 state hregister =>
    have hsame : state.forwarding=s.state.forwarding := RelayState.register_forwarding hregister
    exact hsame

theorem served_teardown (s : RelayServer) (conn fp) : (s.teardown conn fp).served conn=none := by
  simp [teardown]

variable {e : Event}

theorem membersOnly_of_unchanged (hsame : (s.step dec e).1.state.forwarding=s.state.forwarding)
    (hquiet : (s.step dec e).2=[]) : MembersOnly dec s e where
  removed := by
    intro p hp hgone
    rw [hsame] at hgone
    exact absurd hp hgone
  delivered := by
    intro target data h
    rw [hquiet] at h
    cases h
  others := by
    intro conn now tag body sent fp _ _
    unfold pairsWithout
    rw [hsame]

theorem membersOnly_frame (hrouted : WellRouted s) (hserved : s.served conn=some fp) {sent}
    (hown : ClosesOwn dec s (.frame conn now tag body sent)) :
    MembersOnly dec s (.frame conn now tag body sent) := by
  have hacts : s.Acts conn fp (.frame conn now tag body sent) := .frame now tag body sent hserved
  have hstep:=step_frame hserved dec now tag body sent
  have hcases:=afterFrame_cases (s.controlFrame dec now fp tag body) conn fp sent
  refine ⟨?_,?_,?_⟩
  · intro p hp hgone
    rw [hstep] at hgone ⊢
    by_cases hstill : p∈(s.controlFrame dec now fp tag body).server.state.forwarding
    -- still there after the frame: the connection ended and `fp` was an endpoint
    · rcases hcases with hcase | hcase
      · rw [hcase] at hgone
        exact absurd hstill hgone
      rw [hcase] at hgone ⊢
      have hinvolves : p.Involves fp := by
        by_contra hnot
        exact hgone (mem_teardown hstill conn hnot)
      exact ⟨conn,fp,hacts,hinvolves,.inr (served_teardown _ conn fp)⟩
    · obtain ⟨hcarries,hlookup⟩ := removed_by_close hp hstill
      have hinvolves:=hown conn fp hacts p.id hcarries p hlookup
      exact ⟨conn,fp,hacts,hinvolves,.inl hcarries⟩
  · intro target data h
    rw [hstep] at h
    obtain ⟨peer,hpeer,hpair⟩ := delivered_between hrouted h
    exact ⟨conn,fp,peer,hacts,hpeer,hpair⟩
  · intro c n t b st owner heq howner
    cases heq
    have hfp : owner=fp := by
      rw [hserved] at howner
      exact (Option.some.inj howner).symm
    subst hfp
    have hframe : (s.controlFrame dec now owner tag body).server.pairsWithout owner=
        s.pairsWithout owner :=
      pairsWithout_controlFrame (hown conn owner hacts)
    rw [hstep]
    rcases hcases with hcase | hcase
    · simp only [hcase,hframe]
    · simp only [hcase,pairsWithout_teardown,hframe]

theorem membersOnly_disconnect (dec) (hserved : s.served conn=some fp) :
    MembersOnly dec s (.disconnect conn) := by
  have hstep : s.step dec (.disconnect conn)=(s.teardown conn fp,[]) := by
    simp only [step,hserved]
  refine ⟨?_,?_,?_⟩
  · intro p hp hgone
    rw [hstep] at hgone ⊢
    have hinvolves : p.Involves fp := by
      by_contra hnot
      exact hgone (mem_teardown hp conn hnot)
    exact ⟨conn,fp,.disconnect hserved,hinvolves,.inr (served_teardown s conn fp)⟩
  · intro target data h
    rw [hstep] at h
    cases h
  · intro c n t b st owner heq
    cases heq

theorem membersOnly_of_closesOwn (hrouted : WellRouted s) (hown : ClosesOwn dec s e) :
    MembersOnly dec s e := by
  cases e with
  | connect fp token sent =>
    exact membersOnly_of_unchanged (s.connect_forwarding fp token sent) rfl
  | frame conn now tag body sent =>
    cases hserved : s.served conn with
    | none =>
      have hstep : s.step dec (.frame conn now tag body sent)=(s,[]) := by
        simp only [step,hserved]
      exact membersOnly_of_unchanged (by rw [hstep]) (by rw [hstep])
    | some fp => exact membersOnly_frame hrouted hserved hown
  | disconnect conn =>
    cases hserved : s.served conn with
    | none =>
      have hstep : s.step dec (.disconnect conn)=(s,[]) := by
        simp only [step,hserved]
      exact membersOnly_of_unchanged (by rw [hstep]) (by rw [hstep])
    | some fp => exact membersOnly_disconnect dec hserved
  | revoke | pardon => exact membersOnly_of_unchanged rfl rfl

theorem closesOwn_of_membersOnly (h : MembersOnly dec s e) : ClosesOwn dec s e := by
  intro conn fp hacts pairId hclose p hlookup
  by_contra hforeign
  cases hacts with
  | disconnect hserved => exact hclose
  | frame now tag body sent hserved =>
    have hsame:=h.others conn now tag body sent fp rfl hserved
    have hframe:=controlFrame_of_close hclose s now fp
    obtain ⟨before,after,hlist,hid,hclosed⟩ := RelayState.closePair_of_lookup hlookup
    rw [step_frame hserved,hframe] at hsame
    have hlen:=congrArg List.length hsame
    unfold pairsWithout at hlen
    simp only [onSessionClose,next,afterFrame,hclosed,hlist,filter_append,length_append] at hlen
    rw [filter_cons_of_pos (by simp [hforeign]),length_cons] at hlen
    omega

theorem members_only_iff (dec : PayloadDecoder) (state : RelayState)
    (eviction : Finset Fingerprint) (events : List Event) :
    (∀ before e after,events=before++e::after →
        MembersOnly dec ((new state eviction).run dec before) e) ↔
      (∀ before e after,events=before++e::after →
        ClosesOwn dec ((new state eviction).run dec before) e) := by
  constructor
  · intro h before e after hevents
    exact closesOwn_of_membersOnly (h before e after hevents)
  · intro h before e after hevents
    have hrouted:=(wellRouted_new state eviction).run dec before
    exact membersOnly_of_closesOwn hrouted (h before e after hevents)

/-! Three clients are connected; the first opens a pair with the second and the third, which
is no endpoint, closes it by its number. -/

def sampleClient (b : UInt8) : Fingerprint := ⟨List.Vector.replicate 32 b⟩

def sampleDecoder : PayloadDecoder :=
  { PayloadDecoder.refusing with
    sessionOpen := fun _ => .ok ⟨(sampleClient 2).bytes⟩
    sessionClose := fun _ => .ok ⟨1⟩ }

def sampleConnected : List Event :=
  [.connect (sampleClient 1) "a" true,.connect (sampleClient 2) "b" true,
    .connect (sampleClient 3) "c" true,.frame 0 0 0x43 [] true]

def sampleRelay : RelayServer := new (RelayState.new defaultMaxForwardings) ∅

/-- The pair of clients 1 and 2 is gone after a frame of client 3, who stays connected. -/
theorem foreign_close_removes_pair :
    (sampleRelay.run sampleDecoder sampleConnected).state.forwarding=
        [⟨1,sampleClient 1,sampleClient 2⟩] ∧
      (sampleRelay.run sampleDecoder
        (sampleConnected++[.frame 2 0 0x44 [] true])).state.forwarding=[] ∧
      ¬MembersOnly sampleDecoder (sampleRelay.run sampleDecoder sampleConnected)
        (.frame 2 0 0x44 [] true) := by
  refine ⟨by decide,by decide,?_⟩
  intro h
  have hacts : Acts (sampleRelay.run sampleDecoder sampleConnected) 2 (sampleClient 3)
      (.frame 2 0 0x44 [] true) := .frame 0 0x44 [] true (by decide)
  have hown:=closesOwn_of_membersOnly h 2 (sampleClient 3) hacts 1 ⟨rfl,rfl⟩
    ⟨1,sampleClient 1,sampleClient 2⟩ (by decide)
  exact absurd hown (by decide)

end RelayServer
end OriginTools.Network
