import OriginTools.Network.Eviction

/-!
# Registrations and live connections

Registration, the outbound sender, the tokens and the presence channel of a client are
filed under its identity, while they come and go with a single connection.
-/

namespace OriginTools.Network
namespace RelayServer

def Serves (s : RelayServer) (fp : Fingerprint) : Prop := ∃ conn,s.served conn=some fp

def Reachable (s : RelayServer) (fp : Fingerprint) : Prop :=
  ∃ conn,s.conns fp=some conn ∧ s.alive conn=true

/-- A client is registered, and reachable for relayed data, exactly while it is served. -/
def PresenceExact (s : RelayServer) : Prop :=
  ∀ fp,(fp∈s.state.online ↔ s.Serves fp) ∧ (s.Reachable fp ↔ s.Serves fp)

def OneAtATime (s : RelayServer) : Event → Prop
  | .connect fp _ sent => fp∈s.eviction ∨ ¬s.Serves fp ∧ sent=true
  | _ => True

structure Linked (s : RelayServer) : Prop where
  online : ∀ fp,fp∈s.state.online ↔ s.Serves fp
  conns : ∀ fp conn,s.conns fp=some conn ↔ s.served conn=some fp

variable {s : RelayServer}

theorem Linked.presenceExact (h : Linked s) : PresenceExact s := by
  intro fp
  refine ⟨h.online fp,?_⟩
  constructor
  · rintro ⟨conn,hconn,_⟩
    exact ⟨conn,(h.conns fp conn).1 hconn⟩
  · rintro ⟨conn,hserved⟩
    refine ⟨conn,(h.conns fp conn).2 hserved,?_⟩
    unfold alive
    rw [hserved]
    rfl

theorem Linked.of_links {s'} (h : Linked s) (honline : s'.state.online=s.state.online)
    (hconns : s'.conns=s.conns) (hserved : s'.served=s.served) : Linked s' := by
  constructor
  · unfold Serves
    rw [honline,hserved]
    exact h.online
  · rw [hconns,hserved]
    exact h.conns

variable {fp : Fingerprint}

theorem stateMove_online {now state} (h : StateMove s now fp state) :
    state.online=s.state.online := by
  cases h with
  | same => rfl
  | opened other =>
    obtain ⟨_,_,hwrites⟩ := s.state.openPair_writes s.eviction fp other
    rw [hwrites]
  | closed pairId =>
    obtain ⟨_,hwrites⟩ := s.state.closePair_writes pairId
    rw [hwrites]
  | pushed other frame =>
    obtain ⟨_,hwrites⟩ := s.state.inboxPush_writes s.eviction now fp other frame
    rw [hwrites]
  | pulled =>
    obtain ⟨_,hwrites⟩ := s.state.inboxPull_writes now fp
    rw [hwrites]
  | published state advert hpublished =>
    obtain ⟨_,hwrites⟩ := RelayState.advertPublish_writes hpublished
    rw [hwrites]
  | fetched other =>
    obtain ⟨_,hwrites⟩ := s.state.advertFetch_writes now other
    rw [hwrites]

theorem Linked.controlFrame (h : Linked s) (dec now fp tag body) :
    Linked (s.controlFrame dec now fp tag body).server := by
  obtain ⟨hconns,hserved,_⟩ := s.controlFrame_links dec now fp tag body
  exact h.of_links (stateMove_online (s.controlFrame_movesBy dec now fp tag body).1) hconns hserved

theorem Linked.teardown (h : Linked s) {conn} (hserved : s.served conn=some fp) :
    Linked (s.teardown conn fp) := by
  have hsole : ∀ c,s.served c=some fp → c=conn := by
    intro c hc
    have hc':=(h.conns fp c).2 hc
    rw [(h.conns fp conn).2 hserved] at hc'
    exact (Option.some.inj hc').symm
  have hserves : ∀ c f,(s.teardown conn fp).served c=some f ↔ s.served c=some f ∧ f≠fp := by
    intro c f
    by_cases hc : c=conn
    · subst hc
      rw [served_teardown,hserved]
      constructor
      · intro hnone
        cases hnone
      · rintro ⟨heq,hne⟩
        exact absurd (Option.some.inj heq).symm hne
    · have hsame : (s.teardown conn fp).served c=s.served c := Function.update_of_ne hc _ _
      rw [hsame]
      constructor
      · intro hf
        refine ⟨hf,fun heq => ?_⟩
        subst heq
        exact hc (hsole c hf)
      · exact fun hf => hf.1
  constructor
  · intro f
    have honline : f∈(s.teardown conn fp).state.online ↔ f≠fp ∧ f∈s.state.online := Finset.mem_erase
    rw [honline,h.online f]
    constructor
    · rintro ⟨hne,c,hc⟩
      exact ⟨c,(hserves c f).2 ⟨hc,hne⟩⟩
    · rintro ⟨c,hc⟩
      obtain ⟨hc,hne⟩ := (hserves c f).1 hc
      exact ⟨hne,c,hc⟩
  · intro f c
    rw [hserves c f]
    by_cases hf : f=fp
    · subst hf
      have hnone : (s.teardown conn f).conns f=none := Function.update_self _ _ _
      rw [hnone]
      constructor
      · intro hsome
        cases hsome
      · intro hboth
        exact absurd rfl hboth.2
    · have hsame : (s.teardown conn fp).conns f=s.conns f := Function.update_of_ne hf _ _
      rw [hsame,h.conns f c]
      exact ⟨fun hc => ⟨hc,hf⟩,fun hc => hc.1⟩

theorem Linked.connect (h : Linked s) (hrouted : WellRouted s) {sent}
    (hone : fp∈s.eviction ∨ ¬s.Serves fp ∧ sent=true) (token : String) :
    Linked (s.connect fp token sent) := by
  by_cases hevicted : fp∈s.eviction
  · unfold RelayServer.connect RelayState.register
    rw [if_pos hevicted]
    exact h
  · obtain ⟨hfree,rfl⟩ := hone.resolve_left hevicted
    unfold RelayServer.connect RelayState.register
    rw [if_neg hevicted]
    dsimp only [RelayState.issueToken]
    rw [if_pos rfl]
    have hserves : ∀ c f,Function.update s.served s.accepted (some fp) c=some f ↔
        c=s.accepted ∧ f=fp ∨ s.served c=some f := by
      intro c f
      by_cases hc : c=s.accepted
      · subst hc
        rw [Function.update_self]
        constructor
        · intro hf
          exact .inl ⟨rfl,(Option.some.inj hf).symm⟩
        · rintro (⟨_,rfl⟩ | hold)
          · rfl
          · exact absurd (hrouted.served_lt _ f hold) (Nat.lt_irrefl _)
      · rw [Function.update_of_ne hc]
        constructor
        · exact .inr
        · rintro (⟨hc',_⟩ | hold)
          · exact absurd hc' hc
          · exact hold
    constructor
    · intro f
      show f∈insert fp s.state.online ↔ ∃ c,Function.update s.served s.accepted (some fp) c=some f
      rw [Finset.mem_insert,h.online f]
      constructor
      · rintro (rfl | ⟨c,hc⟩)
        · exact ⟨s.accepted,(hserves _ _).2 (.inl ⟨rfl,rfl⟩)⟩
        · exact ⟨c,(hserves c f).2 (.inr hc)⟩
      · rintro ⟨c,hc⟩
        rcases (hserves c f).1 hc with ⟨_,hf⟩ | hold
        · exact .inl hf
        · exact .inr ⟨c,hold⟩
    · intro f c
      show Function.update s.conns fp (some s.accepted) f=some c ↔
        Function.update s.served s.accepted (some fp) c=some f
      rw [hserves c f]
      by_cases hf : f=fp
      · subst hf
        rw [Function.update_self]
        constructor
        · intro hc
          exact .inl ⟨(Option.some.inj hc).symm,rfl⟩
        · rintro (⟨rfl,_⟩ | hold)
          · rfl
          · exact absurd ⟨c,hold⟩ hfree
      · rw [Function.update_of_ne hf,h.conns f c]
        constructor
        · exact .inr
        · rintro (⟨_,hf'⟩ | hold)
          · exact absurd hf' hf
          · exact hold

theorem Linked.step {dec} (h : Linked s) (hrouted : WellRouted s) {e} (hone : OneAtATime s e) :
    Linked (s.step dec e).1 := by
  cases e with
  | connect fp token sent => exact h.connect hrouted hone token
  | frame conn now tag body sent =>
    cases hserved : s.served conn with
    | none =>
      simp only [RelayServer.step,hserved]
      exact h
    | some fp =>
      rw [step_frame hserved]
      have hframe:=h.controlFrame dec now fp tag body
      rcases afterFrame_cases (s.controlFrame dec now fp tag body) conn fp sent with hcase | hcase
      · rw [hcase]
        exact hframe
      rw [hcase]
      apply hframe.teardown
      rw [(s.controlFrame_links dec now fp tag body).2.1]
      exact hserved
  | disconnect conn =>
    cases hserved : s.served conn with
    | none =>
      simp only [RelayServer.step,hserved]
      exact h
    | some fp =>
      simp only [RelayServer.step,hserved]
      exact h.teardown hserved
  | revoke | pardon => exact h.of_links rfl rfl rfl

def AllOneAtATime (dec : PayloadDecoder) (s : RelayServer) : List Event → Prop
  | [] => True
  | e::events => OneAtATime s e ∧ AllOneAtATime dec (s.step dec e).1 events

theorem Linked.run {dec s} (h : Linked s) (hrouted : WellRouted s) {before rest}
    (hone : AllOneAtATime dec s (before++rest)) : Linked (s.run dec before) := by
  induction before generalizing s with
  | nil => exact h
  | cons e before ih => exact ih (h.step hrouted hone.1) (hrouted.step dec e) hone.2

theorem presence_equals_connections (dec : PayloadDecoder)
    (maxForwardings maxInboxMessages maxInboxBytes inboxTtlSecs : ℕ)
    (eviction : Finset Fingerprint) (events : List Event)
    (hone : AllOneAtATime dec (new (.withCaps maxForwardings maxInboxMessages maxInboxBytes
      inboxTtlSecs) eviction) events) :
    ∀ before after,events=before++after →
      PresenceExact ((new (.withCaps maxForwardings maxInboxMessages maxInboxBytes inboxTtlSecs)
        eviction).run dec before) := by
  intro before after hevents
  rw [hevents] at hone
  have hstart : Linked (new (.withCaps maxForwardings maxInboxMessages maxInboxBytes
      inboxTtlSecs) eviction) := by
    constructor
    · intro fp
      constructor
      · intro honline
        cases honline
      · rintro ⟨conn,hserved⟩
        cases hserved
    · intro fp conn
      constructor
      · intro hconn
        cases hconn
      · intro hserved
        cases hserved
  exact (hstart.run (wellRouted_new _ _) hone).presenceExact

/-! One client connects twice. -/

def reconnecting : List Event :=
  [.connect (sampleClient 1) "a" true,.disconnect 0,.connect (sampleClient 1) "b" true]

theorem presence_equals_connections_reconnecting :
    AllOneAtATime sampleDecoder sampleRelay reconnecting ∧
      ∀ before after,reconnecting=before++after →
        PresenceExact (sampleRelay.run sampleDecoder before) := by
  have hone : AllOneAtATime sampleDecoder sampleRelay reconnecting := by
    refine ⟨.inr ⟨?_,rfl⟩,trivial,.inr ⟨?_,rfl⟩,trivial⟩
    · rintro ⟨conn,hserved⟩
      cases hserved
    · rintro ⟨conn,hserved⟩
      by_cases hconn : conn=0
      · subst hconn
        exact absurd hserved (by decide)
      have hnone : (sampleRelay.run sampleDecoder
          [.connect (sampleClient 1) "a" true,.disconnect 0]).served conn=none :=
        (Function.update_of_ne hconn _ _).trans (Function.update_of_ne hconn _ _)
      exact absurd (hnone.symm.trans hserved) (by simp)
  exact ⟨hone,presence_equals_connections sampleDecoder _ _ _ _ _ reconnecting hone⟩

/-- The first of two connections of one client ends: the second is still served, and the
client is neither registered nor reachable. -/
theorem presence_lost_with_first_connection :
    let s:=sampleRelay.run sampleDecoder
      [.connect (sampleClient 1) "a" true,.connect (sampleClient 1) "b" true,.disconnect 0]
    s.served 1=some (sampleClient 1) ∧ sampleClient 1∉s.state.online ∧
      s.conns (sampleClient 1)=none ∧ ¬PresenceExact s := by
  intro s
  have hserved : s.served 1=some (sampleClient 1) := by decide
  have honline : sampleClient 1∉s.state.online := by decide
  refine ⟨hserved,honline,by decide,fun hexact => ?_⟩
  exact honline ((hexact (sampleClient 1)).1.2 ⟨1,hserved⟩)

end RelayServer
end OriginTools.Network
