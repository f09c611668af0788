import OriginTools.Network.Relay
import OriginTools.Network.Presence

/-!
# Relay server

`origin-network/src/relay_server.rs`: authenticated connections, each with its control
loop, over one relay state.
-/

namespace OriginTools.Network

inductive Reply where
  | sessionOpenAck (pairId : UInt64)
  | inboxFrames (frames : List (List UInt8))
  | probe (online : Bool)
  | advert (advert : Option Advert)
  | presence (event : PresenceEvent)
  | error (code detail : String)

structure RelayServer where
  state : RelayState
  eviction : Finset Fingerprint
  presence : PresenceRegistry
  conns : Fingerprint → Option ConnId
  /-- The connections in their control loop, with the identity each was authenticated as. -/
  served : ConnId → Option Fingerprint
  accepted : ConnId

/-- What the control loop does with one frame: `outcome` is an error when the loop returns,
and the reply to send otherwise; `delivered` are the frames put into other connections. -/
structure Handled where
  server : RelayServer
  outcome : Except NetworkError (Option Reply)
  delivered : List (ConnId × RelayData)

namespace RelayServer

def new (state : RelayState) (eviction : Finset Fingerprint) : RelayServer :=
  { state := state
    eviction := eviction
    presence := .empty
    conns := fun _ => none
    served := fun _ => none
    accepted := 0 }

def alive (s : RelayServer) (conn : ConnId) : Bool := (s.served conn).isSome
def stop (s : RelayServer) (e : NetworkError) : Handled := ⟨s,.error e,[]⟩
def next (s : RelayServer) : Handled := ⟨s,.ok none,[]⟩
def reply (s : RelayServer) (r : Reply) : Handled := ⟨s,.ok (some r),[]⟩
def sendError (s : RelayServer) (code detail : String) : Handled := s.reply (.error code detail)

def onSessionOpen (s : RelayServer) (fp : Fingerprint) (msg : SessionOpen) : Handled :=
  let opened:=s.state.openPair s.eviction fp ⟨msg.targetFp⟩
  let s:={ s with state := opened.2 }
  match opened.1 with
  | .ok pairId => s.reply (.sessionOpenAck pairId)
  | .error e => s.sendError "session_open" e.toText

def onSessionClose (s : RelayServer) (msg : SessionClose) : Handled :=
  next { s with state := (s.state.closePair msg.pairId).2 }

def onInboxPush (s : RelayServer) (now : ℕ) (fp : Fingerprint) (msg : InboxPush) : Handled :=
  let target : Fingerprint := ⟨msg.targetFp⟩
  let pushed:=s.state.inboxPush s.eviction now fp target msg.frame
  let s:={ s with state := pushed.2 }
  match pushed.1 with
  | .ok .buffered => s.next
  | .ok .targetOffline => s.sendError "target_offline" target.toHex
  | .error e => s.sendError "inbox_push" e.toText

def onInboxPull (s : RelayServer) (now : ℕ) (fp : Fingerprint) : Handled :=
  let pulled:=s.state.inboxPull now fp
  reply { s with state := pulled.2 } (.inboxFrames pulled.1)

def onProbe (s : RelayServer) (msg : Probe) : Handled :=
  s.reply (.probe (s.state.isOnline ⟨msg.targetFp⟩))

def onAdvertPublish (s : RelayServer) (now : ℕ) (fp : Fingerprint) (msg : AdvertPublish) :
    Handled :=
  match s.state.advertPublish now fp msg.advert with
  | .error e => s.sendError "advert_publish" e.toText
  | .ok state => next { s with state := state }

def onAdvertFetch (s : RelayServer) (now : ℕ) (msg : AdvertFetch) : Handled :=
  let fetched:=s.state.advertFetch now ⟨msg.targetFp⟩
  reply { s with state := fetched.2 } (.advert fetched.1)

def onPresenceSubscribe (s : RelayServer) (fp : Fingerprint) (msg : PresenceSubscribe) : Handled :=
  let target : Fingerprint := ⟨msg.targetFp⟩
  let subscribed:=s.presence.subscribe target fp
  let s:={ s with presence := subscribed.2 }
  match subscribed.1 with
  | .ok () => s.reply (.presence ⟨msg.targetFp,s.state.isOnline target⟩)
  | .error e => s.sendError "presence_subscribe" e.toText

def peerOf (pair : ForwardPair) (fp : Fingerprint) : Option Fingerprint :=
  if pair.fromFp=fp then some pair.toFp
  else if pair.toFp=fp then some pair.fromFp
  else none

/-- A channel whose connection is gone still counts as delivered: the code looks at the
presence of the sender in `conns`, not at the result of the send. -/
def onRelayData (s : RelayServer) (fp : Fingerprint) (msg : RelayData) : Handled :=
  if msg.frame.length>s.state.maxFrameSize then
    s.sendError "relay_data" s!"frame exceeds {s.state.maxFrameSize} bytes"
  else
    match s.state.lookupPair msg.pairId with
    | none => s.sendError "relay_data" "unknown pair_id"
    | some pair =>
      match peerOf pair fp with
      | none => s.sendError "relay_data" "not a member of pair"
      | some peer =>
        match s.conns peer with
        | none => s.sendError "relay_data" "peer not connected"
        | some conn => ⟨s,.ok none,if s.alive conn then [(conn,msg)] else []⟩

/-- A body that does not decode ends the loop, except for relayed data. -/
def controlFrame (dec : PayloadDecoder) (s : RelayServer) (now : ℕ) (fp : Fingerprint)
    (tag : UInt8) (body : List UInt8) : Handled :=
  match WireType.fromU8 tag with
  | none => s.sendError "bad_type" "unknown wire type"
  | some .sessionOpen =>
    match decodePayload dec.sessionOpen body with
    | .error e => s.stop e
    | .ok msg => s.onSessionOpen fp msg
  | some .sessionClose =>
    match decodePayload dec.sessionClose body with
    | .error e => s.stop e
    | .ok msg => s.onSessionClose msg
  | some .inboxPush =>
    match decodePayload dec.inboxPush body with
    | .error e => s.stop e
    | .ok msg => s.onInboxPush now fp msg
  | some .inboxPull =>
    match decodePayload dec.inboxPull body with
    | .error e => s.stop e
    | .ok () => s.onInboxPull now fp
  | some .probe =>
    match decodePayload dec.probe body with
    | .error e => s.stop e
    | .ok msg => s.onProbe msg
  | some .advertPublish =>
    match decodePayload dec.advertPublish body with
    | .error e => s.stop e
    | .ok msg => s.onAdvertPublish now fp msg
  | some .advertFetch =>
    match decodePayload dec.advertFetch body with
    | .error e => s.stop e
    | .ok msg => s.onAdvertFetch now msg
  | some .presenceSubscribe =>
    match decodePayload dec.presenceSubscribe body with
    | .error e => s.stop e
    | .ok msg => s.onPresenceSubscribe fp msg
  | some .relayData =>
    match decodePayload dec.relayData body with
    | .error e => s.sendError "relay_data" e.toText
    | .ok msg => s.onRelayData fp msg
  | some other => s.sendError "bad_type" s!"frame {other.debugName}"

/-- What `handle_connection` does after authentication, up to the control loop. A failed
send of the acceptance returns at once and leaves the registration behind. -/
def connect (s : RelayServer) (fp : Fingerprint) (token : String) (sent : Bool) : RelayServer :=
  match s.state.register s.eviction fp with
  | .error _ => s
  | .ok state =>
    let conn:=s.accepted
    let presence:=((s.presence.registerClient fp conn).notify s.alive fp).2
    { s with
      state := state.issueToken fp token
      presence := presence
      conns := Function.update s.conns fp (some conn)
      served := if sent then Function.update s.served conn (some fp) else s.served
      accepted := conn+1 }

/-- The end of a control loop. The sender and the registration are those of the identity,
whichever of its connections ends. -/
def teardown (s : RelayServer) (conn : ConnId) (fp : Fingerprint) : RelayServer :=
  let s:={ s with served := Function.update s.served conn none }
  { s with
    conns := Function.update s.conns fp none
    state := s.state.deregister fp
    presence := ((s.presence.notify s.alive fp).2).removeClient fp }

inductive Event where
  | connect (fp : Fingerprint) (token : String) (sent : Bool)
  | frame (conn : ConnId) (now : ℕ) (tag : UInt8) (body : List UInt8) (sent : Bool)
  | disconnect (conn : ConnId)
  | revoke (fp : Fingerprint)
  | pardon (fp : Fingerprint)

/-- `sent` says whether the reply could be written; if not, the control loop returns. -/
def afterFrame (h : Handled) (conn : ConnId) (fp : Fingerprint) (sent : Bool) : RelayServer :=
  match h.outcome with
  | .error _ => h.server.teardown conn fp
  | .ok none => h.server
  | .ok (some _) => if sent then h.server else h.server.teardown conn fp

def step (dec : PayloadDecoder) (s : RelayServer) : Event → RelayServer × List (ConnId × RelayData)
  | .connect fp token sent => (s.connect fp token sent,[])
  | .frame conn now tag body sent =>
    match s.served conn with
    | none => (s,[])
    | some fp =>
      let h:=s.controlFrame dec now fp tag body
      (afterFrame h conn fp sent,h.delivered)
  | .disconnect conn =>
    match s.served conn with
    | none => (s,[])
    | some fp => (s.teardown conn fp,[])
  | .revoke fp => ({ s with eviction := insert fp s.eviction },[])
  | .pardon fp => ({ s with eviction := s.eviction.erase fp },[])

def run (dec : PayloadDecoder) (s : RelayServer) : List Event → RelayServer
  | [] => s
  | e::events => run dec (s.step dec e).1 events

structure Quiet (s : RelayServer) (h : Handled) : Prop where
  forwarding : h.server.state.forwarding=s.state.forwarding
  conns : h.server.conns=s.conns
  served : h.server.served=s.served
  accepted : h.server.accepted=s.accepted
  delivered : h.delivered=[]

theorem quiet_stop (s : RelayServer) (e) : Quiet s (s.stop e) := ⟨rfl,rfl,rfl,rfl,rfl⟩

theorem quiet_reply (s : RelayServer) (r : Reply) : Quiet s (s.reply r) := ⟨rfl,rfl,rfl,rfl,rfl⟩

theorem quiet_sendError (s : RelayServer) (code detail : String) :
    Quiet s (s.sendError code detail) :=
  s.quiet_reply _

theorem quiet_onInboxPush (s : RelayServer) (now fp msg) : Quiet s (s.onInboxPush now fp msg) := by
  have hkeep:=s.state.inboxPush_forwarding s.eviction now fp ⟨msg.targetFp⟩ msg.frame
  unfold onInboxPush
  simp only
  split
  · exact ⟨hkeep,rfl,rfl,rfl,rfl⟩
  · exact ⟨hkeep,rfl,rfl,rfl,rfl⟩
  · exact ⟨hkeep,rfl,rfl,rfl,rfl⟩

theorem quiet_onInboxPull (s : RelayServer) (now fp) : Quiet s (s.onInboxPull now fp) :=
  ⟨s.state.inboxPull_forwarding now fp,rfl,rfl,rfl,rfl⟩

theorem quiet_onAdvertPublish (s : RelayServer) (now fp msg) :
    Quiet s (s.onAdvertPublish now fp msg) := by
  unfold onAdvertPublish
  split
  · exact s.quiet_sendError _ _
  case h_2 state hpublished =>
    exact ⟨RelayState.advertPublish_forwarding hpublished,rfl,rfl,rfl,rfl⟩

theorem quiet_onAdvertFetch (s : RelayServer) (now : ℕ) (msg : AdvertFetch) :
    Quiet s (s.onAdvertFetch now msg) :=
  ⟨s.state.advertFetch_forwarding now ⟨msg.targetFp⟩,rfl,rfl,rfl,rfl⟩

theorem quiet_onPresenceSubscribe (s : RelayServer) (fp msg) :
    Quiet s (s.onPresenceSubscribe fp msg) := by
  unfold onPresenceSubscribe
  simp only
  split
  · exact ⟨rfl,rfl,rfl,rfl,rfl⟩
  · exact ⟨rfl,rfl,rfl,rfl,rfl⟩

def Carries {α : Type} (decode : List UInt8 → Except String α) (wireType : WireType)
    (tag : UInt8) (body : List UInt8) (msg : α) : Prop :=
  WireType.fromU8 tag=some wireType ∧ decodePayload decode body=.ok msg

inductive FrameEffect (dec : PayloadDecoder) (s : RelayServer) (fp : Fingerprint) (tag : UInt8)
    (body : List UInt8) : Handled → Prop where
  | quiet (h : Handled) (keeps : Quiet s h) : FrameEffect dec s fp tag body h
  | opens (msg : SessionOpen) (carried : Carries dec.sessionOpen .sessionOpen tag body msg) :
    FrameEffect dec s fp tag body (s.onSessionOpen fp msg)
  | closes (msg : SessionClose) (carried : Carries dec.sessionClose .sessionClose tag body msg) :
    FrameEffect dec s fp tag body (s.onSessionClose msg)
  | relays (msg : RelayData) (carried : Carries dec.relayData .relayData tag body msg) :
    FrameEffect dec s fp tag body (s.onRelayData fp msg)

theorem controlFrame_effect (dec) (s : RelayServer) (now fp tag body) :
    FrameEffect dec s fp tag body (s.controlFrame dec now fp tag body) := by
  unfold controlFrame
  split
  · exact .quiet _ (s.quiet_sendError _ _)
  case h_2 htag =>
    split
    · exact .quiet _ (s.quiet_stop _)
    case h_2 msg hmsg => exact .opens msg ⟨htag,hmsg⟩
  case h_3 htag =>
    split
    · exact .quiet _ (s.quiet_stop _)
    case h_2 msg hmsg => exact .closes msg ⟨htag,hmsg⟩
  · split
    · exact .quiet _ (s.quiet_stop _)
    · exact .quiet _ (s.quiet_onInboxPush now fp _)
  · split
    · exact .quiet _ (s.quiet_stop _)
    · exact .quiet _ (s.quiet_onInboxPull now fp)
  · split
    · exact .quiet _ (s.quiet_stop _)
    · exact .quiet _ (s.quiet_reply _)
  · split
    · exact .quiet _ (s.quiet_stop _)
    · exact .quiet _ (s.quiet_onAdvertPublish now fp _)
  · split
    · exact .quiet _ (s.quiet_stop _)
    · exact .quiet _ (s.quiet_onAdvertFetch now _)
  · split
    · exact .quiet _ (s.quiet_stop _)
    · exact .quiet _ (s.quiet_onPresenceSubscribe fp _)
  case h_10 htag =>
    split
    · exact .quiet _ (s.quiet_sendError _ _)
    case h_2 msg hmsg => exact .relays msg ⟨htag,hmsg⟩
  · exact .quiet _ (s.quiet_sendError _ _)

theorem controlFrame_of_close {dec tag body msg}
    (hcarry : Carries dec.sessionClose .sessionClose tag body msg) (s : RelayServer) (now fp) :
    s.controlFrame dec now fp tag body=s.onSessionClose msg := by
  unfold controlFrame
  rw [hcarry.1]
  simp only [hcarry.2]

theorem onSessionOpen_server (s : RelayServer) (fp) (msg : SessionOpen) :
    (s.onSessionOpen fp msg).server=
      { s with state := (s.state.openPair s.eviction fp ⟨msg.targetFp⟩).2 } := by
  unfold onSessionOpen
  simp only
  split
  · rfl
  · rfl

theorem onSessionOpen_delivered (s : RelayServer) (fp msg) :
    (s.onSessionOpen fp msg).delivered=[] := by
  unfold onSessionOpen
  simp only
  split
  · rfl
  · rfl

theorem onRelayData_server (s : RelayServer) (fp msg) : (s.onRelayData fp msg).server=s := by
  unfold onRelayData
  split
  · rfl
  · split
    · rfl
    · split
      · rfl
      · split
        · rfl
        · rfl

variable {s : RelayServer}

theorem onRelayData_delivered {fp msg conn data}
    (h : (conn,data)∈(s.onRelayData fp msg).delivered) :
    data=msg ∧ ∃ pair peer,s.state.lookupPair msg.pairId=some pair ∧
      peerOf pair fp=some peer ∧ s.conns peer=some conn ∧ s.alive conn=true := by
  unfold onRelayData at h
  split at h
  · cases h
  · split at h
    · cases h
    case h_2 pair hpair =>
      split at h
      · cases h
      case h_2 peer hpeer =>
        split at h
        · cases h
        case h_2 target htarget =>
          simp only at h
          split at h
          case isTrue halive =>
            rw [List.mem_singleton] at h
            cases h
            exact ⟨rfl,pair,peer,hpair,hpeer,htarget,halive⟩
          · cases h

theorem controlFrame_links (dec) (s : RelayServer) (now fp tag body) :
    (s.controlFrame dec now fp tag body).server.conns=s.conns ∧
      (s.controlFrame dec now fp tag body).server.served=s.served ∧
      (s.controlFrame dec now fp tag body).server.accepted=s.accepted := by
  have heffect:=s.controlFrame_effect dec now fp tag body
  generalize s.controlFrame dec now fp tag body=handled at heffect
  cases heffect with
  | quiet h keeps => exact ⟨keeps.conns,keeps.served,keeps.accepted⟩
  | opens msg carried =>
    rw [onSessionOpen_server]
    exact ⟨rfl,rfl,rfl⟩
  | closes msg carried => exact ⟨rfl,rfl,rfl⟩
  | relays msg carried =>
    rw [onRelayData_server]
    exact ⟨rfl,rfl,rfl⟩

/-- What a frame of `fp` makes of the relay state. -/
inductive StateMove (s : RelayServer) (now : ℕ) (fp : Fingerprint) : RelayState → Prop where
  | same : StateMove s now fp s.state
  | opened (target : Fingerprint) : StateMove s now fp (s.state.openPair s.eviction fp target).2
  | closed (pairId : UInt64) : StateMove s now fp (s.state.closePair pairId).2
  | pushed (target : Fingerprint) (frame : List UInt8) :
    StateMove s now fp (s.state.inboxPush s.eviction now fp target frame).2
  | pulled : StateMove s now fp (s.state.inboxPull now fp).2
  | published (state : RelayState) (advert : Advert)
    (h : s.state.advertPublish now fp advert=.ok state) : StateMove s now fp state
  | fetched (target : Fingerprint) : StateMove s now fp (s.state.advertFetch now target).2

def MovesBy (s : RelayServer) (now : ℕ) (fp : Fingerprint) (h : Handled) : Prop :=
  StateMove s now fp h.server.state ∧ h.server.eviction=s.eviction

theorem movesBy_same (s now fp outcome delivered) : MovesBy s now fp ⟨s,outcome,delivered⟩ :=
  ⟨.same,rfl⟩

theorem movesBy_onInboxPush (s : RelayServer) (now fp msg) :
    MovesBy s now fp (s.onInboxPush now fp msg) := by
  unfold onInboxPush
  simp only
  split
  · exact ⟨.pushed _ _,rfl⟩
  · exact ⟨.pushed _ _,rfl⟩
  · exact ⟨.pushed _ _,rfl⟩

theorem movesBy_onAdvertPublish (s : RelayServer) (now fp msg) :
    MovesBy s now fp (s.onAdvertPublish now fp msg) := by
  unfold onAdvertPublish
  split
  · exact s.movesBy_same now fp _ _
  case h_2 state hpublished => exact ⟨.published state msg.advert hpublished,rfl⟩

theorem movesBy_onPresenceSubscribe (s : RelayServer) (now fp msg) :
    MovesBy s now fp (s.onPresenceSubscribe fp msg) := by
  unfold onPresenceSubscribe
  simp only
  split
  · exact ⟨.same,rfl⟩
  · exact ⟨.same,rfl⟩

theorem controlFrame_movesBy (dec) (s : RelayServer) (now fp tag body) :
    MovesBy s now fp (s.controlFrame dec now fp tag body) := by
  unfold controlFrame
  split
  · exact s.movesBy_same now fp _ _
  · split
    · exact s.movesBy_same now fp _ _
    case h_2 msg _ =>
      unfold MovesBy
      rw [onSessionOpen_server]
      exact ⟨.opened _,rfl⟩
  · split
    · exact s.movesBy_same now fp _ _
    · exact ⟨.closed _,rfl⟩
  · split
    · exact s.movesBy_same now fp _ _
    · exact s.movesBy_onInboxPush now fp _
  · split
    · exact s.movesBy_same now fp _ _
    · exact ⟨.pulled,rfl⟩
  · split
    · exact s.movesBy_same now fp _ _
    · exact s.movesBy_same now fp _ _
  · split
    · exact s.movesBy_same now fp _ _
    · exact s.movesBy_onAdvertPublish now fp _
  · split
    · exact s.movesBy_same now fp _ _
    · exact ⟨.fetched _,rfl⟩
  · split
    · exact s.movesBy_same now fp _ _
    · exact s.movesBy_onPresenceSubscribe now fp _
  · split
    · exact s.movesBy_same now fp _ _
    case h_2 msg _ =>
      unfold MovesBy
      rw [onRelayData_server]
      exact ⟨.same,rfl⟩
  · exact s.movesBy_same now fp _ _

structure WellRouted (s : RelayServer) : Prop where
  routed : ∀ fp conn,s.conns fp=some conn → ∀ owner,s.served conn=some owner → owner=fp
  conns_lt : ∀ fp conn,s.conns fp=some conn → conn<s.accepted
  served_lt : ∀ conn owner,s.served conn=some owner → conn<s.accepted

theorem WellRouted.of_links {s'} (h : WellRouted s) (hconns : s'.conns=s.conns)
    (hserved : s'.served=s.served) (haccepted : s'.accepted=s.accepted) : WellRouted s' where
  routed := by
    rw [hconns,hserved]
    exact h.routed
  conns_lt := by
    rw [hconns,haccepted]
    exact h.conns_lt
  served_lt := by
    rw [hserved,haccepted]
    exact h.served_lt

theorem wellRouted_new (state eviction) : WellRouted (new state eviction) where
  routed := fun _ _ h => by cases h
  conns_lt := fun _ _ h => by cases h
  served_lt := fun _ _ h => by cases h

theorem WellRouted.teardown (h : WellRouted s) (conn fp) : WellRouted (s.teardown conn fp) := by
  have hserved : ∀ c owner,(s.teardown conn fp).served c=some owner → s.served c=some owner := by
    intro c owner hc
    by_cases heq : c=conn
    · subst heq
      simp [RelayServer.teardown] at hc
    · simpa [RelayServer.teardown,heq] using hc
  have hconns : ∀ f c,(s.teardown conn fp).conns f=some c → s.conns f=some c := by
    intro f c hf
    by_cases heq : f=fp
    · subst heq
      simp [RelayServer.teardown] at hf
    · simpa [RelayServer.teardown,heq] using hf
  exact
    { routed := fun f c hf owner hc => h.routed f c (hconns f c hf) owner (hserved c owner hc)
      conns_lt := fun f c hf => h.conns_lt f c (hconns f c hf)
      served_lt := fun c owner hc => h.served_lt c owner (hserved c owner hc) }

theorem WellRouted.connect (h : WellRouted s) (fp token sent) :
    WellRouted (s.connect fp token sent) := by
  unfold RelayServer.connect
  split
  · exact h
  · have hfresh : ∀ owner,s.served s.accepted=some owner → False := fun owner hc =>
      Nat.lt_irrefl _ (h.served_lt _ owner hc)
    -- the new number is in neither table, so the old entries are untouched
    have hserved : ∀ c owner,
        (if sent then Function.update s.served s.accepted (some fp) else s.served) c=some owner →
        (c=s.accepted ∧ owner=fp) ∨ s.served c=some owner := by
      intro c owner hc
      split at hc
      · by_cases heq : c=s.accepted
        · subst heq
          rw [Function.update_self] at hc
          exact .inl ⟨rfl,(Option.some.inj hc).symm⟩
        · rw [Function.update_of_ne heq] at hc
          exact .inr hc
      · exact .inr hc
    have hconns : ∀ f c,Function.update s.conns fp (some s.accepted) f=some c →
        (f=fp ∧ c=s.accepted) ∨ s.conns f=some c := by
      intro f c hf
      by_cases heq : f=fp
      · subst heq
        rw [Function.update_self] at hf
        exact .inl ⟨rfl,(Option.some.inj hf).symm⟩
      · rw [Function.update_of_ne heq] at hf
        exact .inr hf
    constructor
    · intro f c hf owner hc
      rcases hconns f c hf with ⟨hf,hc'⟩ | hold
      · rcases hserved c owner hc with ⟨_,howner⟩ | hc''
        · rw [howner,hf]
        · rw [hc'] at hc''
          exact (hfresh owner hc'').elim
      · rcases hserved c owner hc with ⟨hc',_⟩ | hc''
        · exact absurd hc' (Nat.ne_of_lt (h.conns_lt f c hold))
        · exact h.routed f c hold owner hc''
    · intro f c hf
      rcases hconns f c hf with ⟨_,hc⟩ | hold
      · exact Nat.lt_succ_of_le (Nat.le_of_eq hc)
      · exact Nat.lt_succ_of_lt (h.conns_lt f c hold)
    · intro c owner hc
      rcases hserved c owner hc with ⟨hc',_⟩ | hold
      · exact Nat.lt_succ_of_le (Nat.le_of_eq hc')
      · exact Nat.lt_succ_of_lt (h.served_lt c owner hold)

theorem WellRouted.step (h : WellRouted s) (dec e) : WellRouted (s.step dec e).1 := by
  cases e with
  | connect fp token sent => exact h.connect fp token sent
  | frame conn now tag body sent =>
    unfold RelayServer.step
    simp only
    split
    · exact h
    case h_2 fp hserved =>
      obtain ⟨hconns,hserved,haccepted⟩ := s.controlFrame_links dec now fp tag body
      have hafter:=h.of_links hconns hserved haccepted
      unfold afterFrame
      split
      · exact hafter.teardown conn fp
      · exact hafter
      · split
        · exact hafter
        · exact hafter.teardown conn fp
  | disconnect conn =>
    unfold RelayServer.step
    simp only
    split
    · exact h
    case h_2 fp hserved => exact h.teardown conn fp
  | revoke | pardon => exact h.of_links rfl rfl rfl

theorem WellRouted.run {s} (h : WellRouted s) (dec events) : WellRouted (s.run dec events) := by
  induction events generalizing s with
  | nil => exact h
  | cons e events ih => exact ih (h.step dec e)

end RelayServer
end OriginTools.Network
