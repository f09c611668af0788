import OriginTools.Network.Pairs

/-!
# What an evicted client can still do

The relay looks at the eviction set when a client registers, opens a pair or pushes into
an inbox.
-/

namespace OriginTools.Network
namespace RelayState

theorem openPair_evicted {s : RelayState} {eviction source} (h : source∈eviction) (target) :
    (s.openPair eviction source target).2=s := by
  unfold openPair
  rw [if_pos h]

theorem inboxPush_evicted {s : RelayState} {eviction source} (h : source∈eviction)
    (now target frame) : (s.inboxPush eviction now source target frame).2=s := by
  unfold inboxPush
  rw [if_pos h]

theorem inboxPull_box (s : RelayState) (now fp target) :
    ((s.inboxPull now fp).2.box target).1.Sublist (s.box target).1 := by
  unfold inboxPull
  split
  · exact List.Sublist.refl _
  · by_cases heq : target=fp
    · subst heq
      simp [box]
    · simp [box,Function.update_of_ne heq]

theorem box_congr {s s' : RelayState} (h : s'.inboxes=s.inboxes) (target) :
    (s'.box target).1.Sublist (s.box target).1 := by
  unfold box
  rw [h]

end RelayState
namespace RelayServer

/-- A frame that a connection of an evicted fingerprint sends is put into no other connection
and into no inbox. -/
def Silenced (dec : PayloadDecoder) (s : RelayServer) (e : Event) : Prop :=
  ∀ conn now tag body sent fp,e=.frame conn now tag body sent → s.served conn=some fp →
    fp∈s.eviction → (s.step dec e).2=[] ∧
      ∀ target,((s.step dec e).1.state.box target).1.Sublist (s.state.box target).1

/-- A fingerprint is revoked when it has no pair, and no pair is asked for with an evicted
fingerprint. -/
def KeepsApart (dec : PayloadDecoder) (s : RelayServer) : Event → Prop
  | .revoke fp => ∀ p∈s.state.forwarding,¬p.Involves fp
  | .frame _ _ tag body _ =>
    ∀ msg,Carries dec.sessionOpen .sessionOpen tag body msg → ⟨msg.targetFp⟩∉s.eviction
  | _ => True

def Unpaired (s : RelayServer) : Prop := ∀ p∈s.state.forwarding,∀ fp∈s.eviction,¬p.Involves fp

variable {s : RelayServer} {fp : Fingerprint}

theorem stateMove_box {now} {state : RelayState} (h : StateMove s now fp state)
    (hfp : fp∈s.eviction) (target) : (state.box target).1.Sublist (s.state.box target).1 := by
  cases h with
  | same => exact List.Sublist.refl _
  | opened other =>
    obtain ⟨_,_,hwrites⟩ := s.state.openPair_writes s.eviction fp other
    exact RelayState.box_congr (by rw [hwrites]) target
  | closed pairId =>
    obtain ⟨_,hwrites⟩ := s.state.closePair_writes pairId
    exact RelayState.box_congr (by rw [hwrites]) target
  | pushed other frame => rw [RelayState.inboxPush_evicted hfp]
  | pulled => exact s.state.inboxPull_box now fp target
  | published state advert hpublished =>
    obtain ⟨_,hwrites⟩ := RelayState.advertPublish_writes hpublished
    exact RelayState.box_congr (by rw [hwrites]) target
  | fetched other =>
    obtain ⟨_,hwrites⟩ := s.state.advertFetch_writes now other
    exact RelayState.box_congr (by rw [hwrites]) target

theorem teardown_inboxes (s : RelayServer) (conn fp) :
    (s.teardown conn fp).state.inboxes=s.state.inboxes := rfl

theorem involves_of_peerOf {pair peer} (h : peerOf pair fp=some peer) : pair.Involves fp := by
  rcases peerOf_endpoints h with ⟨hfrom,_⟩ | ⟨hto,_⟩
  · exact .inl hfrom
  · exact .inr hto

theorem controlFrame_delivered (h : Unpaired s) (hfp : fp∈s.eviction) (dec now tag body) :
    (s.controlFrame dec now fp tag body).delivered=[] := by
  have heffect:=s.controlFrame_effect dec now fp tag body
  generalize s.controlFrame dec now fp tag body=handled at heffect
  cases heffect with
  | quiet handled keeps => exact keeps.delivered
  | opens msg carried => exact s.onSessionOpen_delivered fp msg
  | closes msg carried => rfl
  | relays msg carried =>
    rw [List.eq_nil_iff_forall_not_mem]
    rintro ⟨conn,data⟩ hdelivered
    obtain ⟨_,pair,peer,hlookup,hpeer,_,_⟩ := onRelayData_delivered hdelivered
    exact h pair (RelayState.mem_of_lookupPair hlookup).1 fp hfp (involves_of_peerOf hpeer)

theorem silenced_of_unpaired (h : Unpaired s) (dec : PayloadDecoder) (e : Event) :
    Silenced dec s e := by
  intro conn now tag body sent fp he hserved hfp
  subst he
  rw [step_frame hserved]
  refine ⟨controlFrame_delivered h hfp dec now tag body,fun target => ?_⟩
  have hinbox:=stateMove_box (s.controlFrame_movesBy dec now fp tag body).1 hfp target
  rcases afterFrame_cases (s.controlFrame dec now fp tag body) conn fp sent with hcase | hcase
  · rw [hcase]
    exact hinbox
  · rw [hcase]
    exact (RelayState.box_congr (teardown_inboxes _ conn fp) target).trans hinbox

theorem Unpaired.of_subset {s'} (h : Unpaired s)
    (hforwarding : ∀ p∈s'.state.forwarding,p∈s.state.forwarding)
    (heviction : ∀ fp∈s'.eviction,fp∈s.eviction) : Unpaired s' :=
  fun p hp fp hfp => h p (hforwarding p hp) fp (heviction fp hfp)

theorem Unpaired.teardown (h : Unpaired s) (conn fp) : Unpaired (s.teardown conn fp) :=
  h.of_subset (fun _ hp => List.mem_of_mem_filter hp) fun _ hfp => hfp

theorem Unpaired.onSessionOpen (h : Unpaired s) (fp) {msg : SessionOpen}
    (htarget : ⟨msg.targetFp⟩∉s.eviction) : Unpaired (s.onSessionOpen fp msg).server := by
  rw [onSessionOpen_server]
  by_cases hfp : fp∈s.eviction
  · rw [RelayState.openPair_evicted hfp]
    exact h
  rcases s.state.openPair_forwarding s.eviction fp ⟨msg.targetFp⟩ with hsame | hmore
  · intro p hp
    rw [hsame] at hp
    exact h p hp
  · intro p hp evicted hevicted hinvolves
    rw [hmore,List.mem_append,List.mem_singleton] at hp
    rcases hp with hp | hp
    · exact h p hp evicted hevicted hinvolves
    rw [hp] at hinvolves
    rcases hinvolves with hsource | hother
    · have hsource : fp=evicted := hsource
      exact hfp (hsource ▸ hevicted)
    · have hother : (⟨msg.targetFp⟩ : Fingerprint)=evicted := hother
      exact htarget (hother ▸ hevicted)

theorem Unpaired.controlFrame {dec} (h : Unpaired s) (fp now) {tag body}
    (hopens : ∀ msg,Carries dec.sessionOpen .sessionOpen tag body msg →
      ⟨msg.targetFp⟩∉s.eviction) : Unpaired (s.controlFrame dec now fp tag body).server := by
  have heviction:=(s.controlFrame_movesBy dec now fp tag body).2
  have heffect:=s.controlFrame_effect dec now fp tag body
  generalize s.controlFrame dec now fp tag body=handled at heffect heviction
  have hkeeps : ∀ f∈handled.server.eviction,f∈s.eviction := by
    rw [heviction]
    exact fun _ hf => hf
  cases heffect with
  | quiet handled keeps =>
    apply h.of_subset _ hkeeps
    rw [keeps.forwarding]
    exact fun _ hp => hp
  | opens msg carried => exact h.onSessionOpen fp (hopens msg carried)
  | closes msg carried =>
    apply h.of_subset _ hkeeps
    intro p hp
    cases hlookup : s.state.lookupPair msg.pairId with
    | none =>
      have hsame:=RelayState.closePair_of_lookup_none hlookup
      simp only [onSessionClose,next,hsame] at hp
      exact hp
    | some pair =>
      obtain ⟨before,after,hlist,_,hclosed⟩ := RelayState.closePair_of_lookup hlookup
      simp only [onSessionClose,next,hclosed,List.mem_append] at hp
      rw [hlist,List.mem_append,List.mem_cons]
      exact hp.imp_right .inr
  | relays msg carried =>
    apply h.of_subset _ hkeeps
    rw [onRelayData_server]
    exact fun _ hp => hp

theorem Unpaired.step {dec} (h : Unpaired s) {e} (hapart : KeepsApart dec s e) :
    Unpaired (s.step dec e).1 := by
  cases e with
  | connect fp token sent =>
    apply h.of_subset
    · intro p hp
      rw [← s.connect_forwarding fp token sent]
      exact hp
    · intro f hf
      have heviction : (s.connect fp token sent).eviction=s.eviction := by
        unfold connect
        split
        · rfl
        · rfl
      rw [← heviction]
      exact hf
  | frame conn now tag body sent =>
    cases hserved : s.served conn with
    | none =>
      simp only [RelayServer.step,hserved]
      exact h
    | some fp =>
      rw [step_frame hserved]
      have hframe:=h.controlFrame fp now hapart
      rcases afterFrame_cases (s.controlFrame dec now fp tag body) conn fp sent with hcase | hcase
      · rw [hcase]
        exact hframe
      · rw [hcase]
        exact hframe.teardown conn fp
  | disconnect conn =>
    cases hserved : s.served conn with
    | none =>
      simp only [RelayServer.step,hserved]
      exact h
    | some fp =>
      simp only [RelayServer.step,hserved]
      exact h.teardown conn fp
  | revoke fp =>
    intro p hp f hf
    rcases Finset.mem_insert.1 hf with rfl | hf
    · exact hapart p hp
    · exact h p hp f hf
  | pardon fp => exact h.of_subset (fun _ hp => hp) fun _ hf => Finset.mem_of_mem_erase hf

def AllKeepApart (dec : PayloadDecoder) (s : RelayServer) : List Event → Prop
  | [] => True
  | e::events => KeepsApart dec s e ∧ AllKeepApart dec (s.step dec e).1 events

theorem Unpaired.run {dec s} (h : Unpaired s) {before rest}
    (hapart : AllKeepApart dec s (before++rest)) : Unpaired (s.run dec before) := by
  induction before generalizing s with
  | nil => exact h
  | cons e before ih => exact ih (h.step hapart.1) hapart.2

theorem evicted_client_silent (dec : PayloadDecoder)
    (maxForwardings maxInboxMessages maxInboxBytes inboxTtlSecs : ℕ)
    (eviction : Finset Fingerprint) (events : List Event)
    (hapart : AllKeepApart dec (new (.withCaps maxForwardings maxInboxMessages maxInboxBytes
      inboxTtlSecs) eviction) events) :
    ∀ before e after,events=before++e::after →
      Silenced dec ((new (.withCaps maxForwardings maxInboxMessages maxInboxBytes inboxTtlSecs)
        eviction).run dec before) e := by
  intro before e after hevents
  rw [hevents] at hapart
  have hstart : Unpaired (new (.withCaps maxForwardings maxInboxMessages maxInboxBytes
      inboxTtlSecs) eviction) := fun p hp => by cases hp
  exact silenced_of_unpaired (hstart.run hapart) dec e

/-! Two clients are paired. If the first is revoked while the pair is open, its next frame
still arrives at the second; if it has closed the pair before, it does not. -/

def relayingDecoder : PayloadDecoder :=
  { sampleDecoder with relayData := fun body => .ok ⟨1,0,body⟩ }

def pairedClients : List Event :=
  [.connect (sampleClient 1) "a" true,.connect (sampleClient 2) "b" true,.frame 0 0 0x43 [] true]

def relayedFrame : Event := .frame 0 0 0x4D [7] true

theorem evicted_client_silent_unpaired :
    let events:=pairedClients++[.frame 0 0 0x44 [] true,.revoke (sampleClient 1),relayedFrame]
    AllKeepApart relayingDecoder sampleRelay events ∧ ∀ before e after,events=before++e::after →
        Silenced relayingDecoder (sampleRelay.run relayingDecoder before) e := by
  intro events
  have hother : ∀ {tag : UInt8} {body : List UInt8} {msg : SessionOpen}
      {eviction : Finset Fingerprint},WireType.fromU8 tag≠some .sessionOpen →
      Carries relayingDecoder.sessionOpen .sessionOpen tag body msg →
      (⟨msg.targetFp⟩ : Fingerprint)∉eviction := fun hne hcarries => absurd hcarries.1 hne
  have hapart : AllKeepApart relayingDecoder sampleRelay events := by
    refine ⟨trivial,trivial,fun msg _ => ?_,fun msg => hother (by decide),?_,
      fun msg => hother (by decide),trivial⟩
    · exact Finset.notMem_empty _
    · have hclosed : (sampleRelay.run relayingDecoder
          (pairedClients++[.frame 0 0 0x44 [] true])).state.forwarding=[] := by decide
      intro p (hp : p∈(sampleRelay.run relayingDecoder
        (pairedClients++[.frame 0 0 0x44 [] true])).state.forwarding)
      rw [hclosed] at hp
      cases hp
  exact ⟨hapart,evicted_client_silent relayingDecoder _ _ _ _ _ events hapart⟩

/-- The revoked client's frame is put into the connection of its peer. -/
theorem evicted_client_delivers :
    let s:=sampleRelay.run relayingDecoder (pairedClients++[.revoke (sampleClient 1)])
    sampleClient 1∈s.eviction ∧ s.served 0=some (sampleClient 1) ∧
      (s.step relayingDecoder relayedFrame).2=[(1,⟨1,0,[7]⟩)] ∧
      ¬Silenced relayingDecoder s relayedFrame := by
  intro s
  have hevicted : sampleClient 1∈s.eviction := by decide
  have hserved : s.served 0=some (sampleClient 1) := by decide
  have hdelivered : (s.step relayingDecoder relayedFrame).2=[(1,⟨1,0,[7]⟩)] := rfl
  refine ⟨hevicted,hserved,hdelivered,fun hsilenced => ?_⟩
  have hnone:=(hsilenced 0 0 0x4D [7] true _ rfl hserved hevicted).1
  rw [hdelivered] at hnone
  cases hnone

end RelayServer
end OriginTools.Network
