import OriginTools.Channel.Replay

/-!
# Ratcheted sessions

`origin-channel/src/session.rs` with the parts it is made of: the usage tracker
(`usage_limit.rs`), the nonce counter (`nonce_tracker.rs`), the message chain of
`ratchet.rs` and the replay window.
-/

namespace OriginTools.Channel

abbrev Bytes := List UInt8

structure Sdk (Key : Type) where
  hkdf : (ikm : Key) → (info : String) → Except String Key
  encrypt : (key : Key) → (nonce plaintext : Bytes) → Except String Bytes
  decrypt : (key : Key) → (nonce ciphertext : Bytes) → Except String Bytes

def messageKeyLabel : String := "origin-channel:message:v1"
def chainAdvanceLabel : String := "origin-channel:chain:v1"

def deriveMessageKey {Key : Type} (sdk : Sdk Key) (chainKey : Key) :
    Except ChannelError (Key × Key) :=
  match sdk.hkdf chainKey messageKeyLabel with
  | .error e => .error (.key s!"message key HKDF failed: {e}")
  | .ok msgKey =>
    match sdk.hkdf chainKey chainAdvanceLabel with
    | .error e => .error (.key s!"chain advance HKDF failed: {e}")
    | .ok nextChain => .ok (msgKey,nextChain)

def defaultMaxMessages : ℕ := 2^20
def defaultMaxBytes : ℕ := 2^34

structure AeadLimits where
  maxMessages : ℕ := defaultMaxMessages
  maxBytes : ℕ := defaultMaxBytes

structure DirectionUsage where
  messages : ℕ := 0
  bytes : ℕ := 0

structure AeadUsageTracker where
  limits : AeadLimits
  send : DirectionUsage := {}
  recv : DirectionUsage := {}

def checkAndRecord (dir : DirectionUsage) (limits : AeadLimits) (plaintextLen : ℕ)
    (direction : String) : Except ChannelError DirectionUsage :=
  let newMessages:=dir.messages+1
  let newBytes:=dir.bytes+plaintextLen
  if newMessages>limits.maxMessages then
    .error (.usageLimitExceeded
      s!"{direction} message limit reached ({dir.messages}/{limits.maxMessages})")
  else if newBytes>limits.maxBytes then
    .error (.usageLimitExceeded s!"{direction} byte limit reached ({dir.bytes}/{limits.maxBytes})")
  else .ok { messages := newMessages,bytes := newBytes }

def AeadUsageTracker.checkSend (usage : AeadUsageTracker) (plaintextLen : ℕ) :
    Except ChannelError AeadUsageTracker :=
  (checkAndRecord usage.send usage.limits plaintextLen "send").map
    fun dir => { usage with send := dir }

def AeadUsageTracker.checkRecv (usage : AeadUsageTracker) (ciphertextLen : ℕ) :
    Except ChannelError AeadUsageTracker :=
  -- the tag is 16 bytes, and the subtraction saturates
  (checkAndRecord usage.recv usage.limits (ciphertextLen-16) "recv").map
    fun dir => { usage with recv := dir }

theorem checkAndRecord_ok (dir : DirectionUsage) (limits : AeadLimits) (len direction)
    (hmessages : dir.messages+1≤limits.maxMessages) (hbytes : dir.bytes+len≤limits.maxBytes) :
    checkAndRecord dir limits len direction=
      .ok { messages := dir.messages+1,bytes := dir.bytes+len } := by
  unfold checkAndRecord
  dsimp only
  rw [if_neg (by omega),if_neg (by omega)]

def AeadUsageTracker.Spent (usage : AeadUsageTracker) : Prop :=
  usage.recv.messages≥usage.limits.maxMessages ∨ usage.recv.bytes>usage.limits.maxBytes

theorem AeadUsageTracker.checkRecv_of_spent (usage : AeadUsageTracker) (h : usage.Spent)
    (len : ℕ) : ∃ e,usage.checkRecv len=.error e := by
  unfold checkRecv checkAndRecord
  dsimp only
  unfold Spent at h
  by_cases hmessages : usage.recv.messages+1>usage.limits.maxMessages
  · rw [if_pos hmessages]
    exact ⟨_,rfl⟩
  · rw [if_neg hmessages,if_pos (by omega)]
    exact ⟨_,rfl⟩

structure NonceTracker where
  next : ℕ
  label : String

def counterToNonce (counter : ℕ) : Bytes := (beBytes 8 counter).reverse++List.replicate 16 0

def NonceTracker.nextNonce (tracker : NonceTracker) : Except ChannelError (Bytes × NonceTracker) :=
  if tracker.next=2^64-1 then
    .error (.other s!"{tracker.label} nonce counter exhausted (2^64 messages)")
  else .ok (counterToNonce tracker.next,{ tracker with next := tracker.next+1 })

def msgData : UInt8 := 0x10

structure ChannelMessage where
  msgType : UInt8
  seq : ℕ
  nonce : Bytes
  ciphertext : Bytes

structure RatchetKeys (Key : Type) where
  root : Key
  sendChain : Key
  recvChain : Key

structure RatchetedSession (Key : Type) where
  keys : RatchetKeys Key
  sendNonce : NonceTracker
  replay : ReplayWindow
  usage : AeadUsageTracker
  sendSeq : ℕ

namespace RatchetedSession
variable {Key : Type}

def new (keys : RatchetKeys Key) (limits : AeadLimits) : RatchetedSession Key :=
  { keys := keys
    sendNonce := { next := 0,label := "send" }
    replay := ReplayWindow.new 1024
    usage := { limits := limits }
    sendSeq := 0 }

def encrypt (sdk : Sdk Key) (s : RatchetedSession Key) (plaintext : Bytes) :
    Except ChannelError ChannelMessage × RatchetedSession Key :=
  match s.usage.checkSend plaintext.length with
  | .error e => (.error e,s)
  | .ok usage =>
    match deriveMessageKey sdk s.keys.sendChain with
    | .error e => (.error e,{ s with usage := usage })
    | .ok (msgKey,nextChain) =>
      let keys:={ s.keys with sendChain := nextChain }
      match s.sendNonce.nextNonce with
      | .error e => (.error e,{ s with usage := usage,keys := keys })
      | .ok (nonce,tracker) =>
        let s':={ s with usage := usage,keys := keys,sendNonce := tracker }
        match sdk.encrypt msgKey nonce plaintext with
        | .error e => (.error (.key s!"encrypt failed: {e}"),s')
        | .ok ciphertext =>
          (.ok { msgType := msgData,seq := s.sendSeq,nonce := nonce,ciphertext := ciphertext },
            { s' with sendSeq := s.sendSeq+1 })

def decrypt (sdk : Sdk Key) (s : RatchetedSession Key) (msg : ChannelMessage) :
    Except ChannelError Bytes × RatchetedSession Key :=
  match s.replay.accept msg.seq with
  | (.error e,replay) => (.error e,{ s with replay := replay })
  | (.ok (),replay) =>
    match s.usage.checkRecv msg.ciphertext.length with
    | .error e => (.error e,{ s with replay := replay })
    | .ok usage =>
      match deriveMessageKey sdk s.keys.recvChain with
      | .error e => (.error e,{ s with replay := replay,usage := usage })
      | .ok (recvKey,nextChain) =>
        let s':={ s with
          replay := replay,usage := usage,keys := { s.keys with recvChain := nextChain } }
        match sdk.decrypt recvKey msg.nonce msg.ciphertext with
        | .error e => (.error (.decryption s!"AEAD failed: {e}"),s')
        | .ok plaintext => (.ok plaintext,s')

def rotate (s : RatchetedSession Key) (newKeys : RatchetKeys Key) : RatchetedSession Key :=
  { keys := newKeys
    sendNonce := { next := 0,label := "send" }
    replay := ReplayWindow.new 1024
    usage := { s.usage with send := {},recv := {} }
    sendSeq := 0 }

inductive Reachable (sdk : Sdk Key) : RatchetedSession Key → Prop where
  | new (keys : RatchetKeys Key) (limits : AeadLimits) : Reachable sdk (new keys limits)
  | encrypt (s : RatchetedSession Key) (plaintext : Bytes) (h : Reachable sdk s) :
      Reachable sdk (s.encrypt sdk plaintext).2
  | decrypt (s : RatchetedSession Key) (msg : ChannelMessage) (h : Reachable sdk s) :
      Reachable sdk (s.decrypt sdk msg).2
  | rotate (s : RatchetedSession Key) (newKeys : RatchetKeys Key) (h : Reachable sdk s) :
      Reachable sdk (s.rotate newKeys)

theorem encrypt_replay (sdk) (s : RatchetedSession Key) (plaintext) :
    (s.encrypt sdk plaintext).2.replay=s.replay := by
  unfold encrypt
  repeat' split
  all_goals rfl

theorem decrypt_replay (sdk : Sdk Key) (s : RatchetedSession Key) (msg : ChannelMessage) :
    (s.decrypt sdk msg).2.replay=(s.replay.accept msg.seq).2 := by
  unfold decrypt
  repeat' split
  all_goals simp_all

variable {sdk : Sdk Key} {s : RatchetedSession Key}

theorem Reachable.tracks (h : Reachable sdk s) : ∃ accepted,s.replay.Tracks 1024 accepted := by
  induction h with
  | new | rotate => exact ⟨[],ReplayWindow.tracks_new 1024⟩
  | encrypt s plaintext _ ih =>
    rw [encrypt_replay]
    exact ih
  | decrypt s msg _ ih =>
    obtain ⟨accepted,htracks⟩ := ih
    rw [decrypt_replay]
    rcases htracks.accept (by omega) msg.seq with ⟨_,_,hnext⟩ | ⟨_,_,hsame⟩
    · exact ⟨_,hnext⟩
    · rw [hsame]
      exact ⟨_,htracks⟩

theorem decrypt_of_refused (sdk) (s : RatchetedSession Key) (msg : ChannelMessage) (e)
    (haccept : s.replay.accept msg.seq=(.error e,s.replay)) :
    s.decrypt sdk msg=(.error e,s) := by
  unfold decrypt
  rw [haccept]

variable {msg : ChannelMessage} {plaintext : Bytes}

theorem decrypt_of_taken {replay} (haccept : s.replay.accept msg.seq=(.ok (),replay)) {usage}
    (husage : s.usage.checkRecv msg.ciphertext.length=.ok usage) {recvKey nextChain}
    (hderive : deriveMessageKey sdk s.keys.recvChain=.ok (recvKey,nextChain))
    (hopen : sdk.decrypt recvKey msg.nonce msg.ciphertext=.ok plaintext) :
    s.decrypt sdk msg=(.ok plaintext,{ s with
      replay := replay,usage := usage,keys := { s.keys with recvChain := nextChain } }) := by
  unfold decrypt
  simp only [haccept,husage,hderive,hopen]

theorem decrypt_ok (h : (s.decrypt sdk msg).1=.ok plaintext) :
    ∃ replay usage recvKey nextChain,s.replay.accept msg.seq=(.ok (),replay) ∧
      s.usage.checkRecv msg.ciphertext.length=.ok usage ∧
      deriveMessageKey sdk s.keys.recvChain=.ok (recvKey,nextChain) ∧
      sdk.decrypt recvKey msg.nonce msg.ciphertext=.ok plaintext := by
  unfold decrypt at h
  split at h
  · cases h
  next replay haccept =>
    split at h
    · cases h
    next usage husage =>
      split at h
      · cases h
      next recvKey nextChain hderive =>
        split at h
        · cases h
        next opened hopen =>
          cases h
          exact ⟨replay,usage,recvKey,nextChain,haccept,husage,hderive,hopen⟩

theorem encrypt_ok (h : (s.encrypt sdk plaintext).1=.ok msg) :
    ∃ msgKey nextChain,deriveMessageKey sdk s.keys.sendChain=.ok (msgKey,nextChain) ∧
      sdk.encrypt msgKey msg.nonce plaintext=.ok msg.ciphertext ∧ msg.seq=s.sendSeq ∧
      (s.encrypt sdk plaintext).2.keys.sendChain=nextChain ∧
      (s.encrypt sdk plaintext).2.sendSeq=s.sendSeq+1 := by
  unfold encrypt at h ⊢
  split at h
  · cases h
  next usage husage =>
    split at h
    · cases h
    next msgKey nextChain hderive =>
      split at h
      · cases h
      next nonce tracker hnonce =>
        split at h
        · cases h
        next ciphertext hseal =>
          cases h
          exact ⟨msgKey,nextChain,hderive,hseal,rfl,rfl,rfl⟩

def encryptAll (sdk : Sdk Key) (s : RatchetedSession Key) :
    List Bytes → Except ChannelError (List ChannelMessage)
  | [] => .ok []
  | p::ps =>
    match s.encrypt sdk p with
    | (.error e,_) => .error e
    | (.ok msg,s') => (encryptAll sdk s' ps).map fun msgs => msg::msgs

def outcomes (sdk : Sdk Key) (s : RatchetedSession Key) : List ChannelMessage → List (Option Bytes)
  | [] => []
  | msg::msgs => (s.decrypt sdk msg).1.toOption::outcomes sdk (s.decrypt sdk msg).2 msgs

def keyAt (sdk : Sdk Key) (chain : Key) : ℕ → Option Key
  | 0 => (deriveMessageKey sdk chain).toOption.map Prod.fst
  | i+1 => (deriveMessageKey sdk chain).toOption.bind fun step => keyAt sdk step.2 i

theorem keyAt_succ {chain msgKey nextChain}
    (h : deriveMessageKey sdk chain=.ok (msgKey,nextChain)) (i : ℕ) :
    keyAt sdk chain (i+1)=keyAt sdk nextChain i := by
  simp only [keyAt,h,Except.toOption,Option.bind_some]

theorem keyAt_zero {chain msgKey nextChain}
    (h : deriveMessageKey sdk chain=.ok (msgKey,nextChain)) :
    keyAt sdk chain 0=some msgKey := by
  simp only [keyAt,h,Except.toOption,Option.map_some]

theorem getElem?_encryptAll (s : RatchetedSession Key) {ps} (msgs)
    (h : encryptAll sdk s ps=.ok msgs) (i) {p} (hp : ps[i]? = some p) :
    ∃ msg msgKey,msgs[i]? = some msg ∧ keyAt sdk s.keys.sendChain i=some msgKey ∧
      sdk.encrypt msgKey msg.nonce p=.ok msg.ciphertext ∧ msg.seq=s.sendSeq+i := by
  induction ps generalizing s msgs i with
  | nil => simp at hp
  | cons q ps ih =>
    unfold encryptAll at h
    split at h
    · cases h
    next msg s' hstep =>
      obtain ⟨msgKey,nextChain,hderive,hseal,hseq,hchain,hnext⟩ := encrypt_ok (by rw [hstep])
      rw [hstep] at hchain hnext
      cases hrest : encryptAll sdk s' ps with
      | error e =>
        rw [hrest] at h
        cases h
      | ok rest =>
        rw [hrest] at h
        cases h
        cases i with
        | zero =>
          simp only [List.getElem?_cons_zero,Option.some.injEq] at hp
          exact ⟨msg,msgKey,rfl,keyAt_zero hderive,hp ▸ hseal,hseq⟩
        | succ i =>
          simp only [List.getElem?_cons_succ] at hp
          obtain ⟨m,k,hm,hk,hs,hq⟩ := ih s' rest hrest i hp
          refine ⟨m,k,hm,?_,hs,?_⟩
          · rw [keyAt_succ hderive,← hchain]
            exact hk
          · rw [hq,hnext]
            omega

inductive Call where
  | send (plaintext : Bytes)
  | receive (msg : ChannelMessage)

/-- The messages that go out in a run of calls between two rotations. -/
def sent (sdk : Sdk Key) : List Call → RatchetedSession Key → List ChannelMessage
  | [],_ => []
  | .send p::calls,s => (s.encrypt sdk p).1.toOption.toList++sent sdk calls (s.encrypt sdk p).2
  | .receive msg::calls,s => sent sdk calls (s.decrypt sdk msg).2

/-- A failed encryption may use a nonce up. -/
theorem encrypt_nonce (sdk) (s : RatchetedSession Key) (p) :
    ((s.encrypt sdk p).1.toOption=none ∧ (s.encrypt sdk p).2.sendNonce=s.sendNonce) ∨
    s.sendNonce.next≠2^64-1 ∧ (s.encrypt sdk p).2.sendNonce.next=s.sendNonce.next+1 ∧
      ((s.encrypt sdk p).1.toOption.toList.map (·.nonce)).Sublist
        [counterToNonce s.sendNonce.next] := by
  unfold encrypt NonceTracker.nextNonce
  rcases s.usage.checkSend p.length with e | usage
  · exact .inl ⟨rfl,rfl⟩
  rcases deriveMessageKey sdk s.keys.sendChain with e | ⟨msgKey,nextChain⟩
  · exact .inl ⟨rfl,rfl⟩
  by_cases hlast : s.sendNonce.next=2^64-1
  · rw [if_pos hlast]
    exact .inl ⟨rfl,rfl⟩
  rw [if_neg hlast]
  right
  dsimp only
  rcases sdk.encrypt msgKey (counterToNonce s.sendNonce.next) p with e | ciphertext
  · exact ⟨hlast,rfl,List.nil_sublist _⟩
  · exact ⟨hlast,rfl,List.Sublist.refl _⟩

theorem decrypt_sendNonce (sdk) (s : RatchetedSession Key) (msg) :
    (s.decrypt sdk msg).2.sendNonce=s.sendNonce := by
  unfold decrypt
  repeat' split
  all_goals rfl

theorem counterToNonce_inj {x y} (hx : x<2^64) (hy : y<2^64)
    (h : counterToNonce x=counterToNonce y) : x=y := by
  have hbytes:=List.reverse_injective (List.append_cancel_right h)
  have hvalue:=congrArg beValue hbytes
  rw [beValue_beBytes,beValue_beBytes] at hvalue
  omega

theorem sent_nonces {n} (hn : s.sendNonce.next+n=2^64-1) (calls) :
    ((sent sdk calls s).map (·.nonce)).Sublist
      ((List.range' s.sendNonce.next n).map counterToNonce) := by
  induction calls generalizing s n with
  | nil => exact List.nil_sublist _
  | cons call calls ih =>
    cases call with
    | receive msg =>
      have hsame:=decrypt_sendNonce sdk s msg
      rw [sent,← hsame]
      exact ih (hsame ▸ hn)
    | send p =>
      rw [sent,List.map_append]
      rcases encrypt_nonce sdk s p with ⟨hnone,hsame⟩ | ⟨hlast,hnext,hmsg⟩
      · rw [hnone,← hsame]
        exact ih (hsame ▸ hn)
      · obtain ⟨m,rfl⟩ : ∃ m,n=m+1 := ⟨n-1,by omega⟩
        rw [List.range'_succ,List.map_cons,← hnext]
        exact hmsg.append (ih (by omega))

theorem sent_nonces_nodup (h : s.sendNonce.next=0) (calls) :
    ((sent sdk calls s).map (·.nonce)).Nodup := by
  have hstart : s.sendNonce.next+(2^64-1)=2^64-1 := by omega
  refine List.Nodup.sublist (sent_nonces hstart calls) ?_
  refine List.Nodup.map_on (fun x hx y hy => ?_) List.nodup_range'
  rw [List.mem_range'_1] at hx hy
  exact counterToNonce_inj (by omega) (by omega)

theorem session_nonces_unique (sdk : Sdk Key) (keys : RatchetKeys Key) (limits : AeadLimits)
    (calls : List Call) : ((sent sdk calls (new keys limits)).map (·.nonce)).Nodup ∧
      ∀ s,((sent sdk calls (rotate s keys)).map (·.nonce)).Nodup :=
  ⟨sent_nonces_nodup rfl calls,fun _ => sent_nonces_nodup rfl calls⟩

end RatchetedSession
end OriginTools.Channel
