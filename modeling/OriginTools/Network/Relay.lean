import OriginTools.Network.Wire

/-!
# Relay state

`origin-network/src/relay.rs`: who is online, the session tokens, the forwarding pairs,
the bounded inboxes and the adverts of one relay.
-/

namespace OriginTools.Network

def defaultMaxForwardings : ℕ := 1000
def defaultMaxInboxMessages : ℕ := 256
def defaultMaxInboxBytes : ℕ := 8*1024*1024
def defaultInboxTtlSecs : ℕ := 300
def defaultMaxFrameSize : ℕ := 1024*1024
def nanosPerSec : ℕ := 1000000000

structure TimestampedFrame where
  bytes : List UInt8
  enqueuedAt : ℕ
  deriving DecidableEq

structure ForwardPair where
  id : UInt64
  fromFp : Fingerprint
  toFp : Fingerprint
  deriving DecidableEq

namespace ForwardPair

def Involves (fp : Fingerprint) (p : ForwardPair) : Prop := p.fromFp=fp ∨ p.toFp=fp

instance (fp : Fingerprint) (p : ForwardPair) : Decidable (p.Involves fp) :=
  inferInstanceAs (Decidable (_ ∨ _))

end ForwardPair

structure RelayState where
  maxForwardings : ℕ
  maxInboxMessages : ℕ
  maxInboxBytes : ℕ
  inboxTtl : ℕ
  maxFrameSize : ℕ
  online : Finset Fingerprint
  tokens : String → Option Fingerprint
  forwarding : List ForwardPair
  nextPairId : UInt64
  inboxes : Fingerprint → Option (List TimestampedFrame × ℕ)
  adverts : Fingerprint → Option (Advert × ℕ)

inductive ForwardOutcome where
  | buffered
  | targetOffline
  deriving DecidableEq

/-- The drop-oldest loop of the byte cap: frames leave from the front until `need` more bytes
fit under `maxBytes`, or none is left. -/
def dropForBytes (maxBytes need : ℕ) : List TimestampedFrame → ℕ → List TimestampedFrame × ℕ
  | [],byteCount => ([],byteCount)
  | oldest::rest,byteCount =>
    if byteCount+need>maxBytes then
      dropForBytes maxBytes need rest (byteCount-oldest.bytes.length)
    else (oldest::rest,byteCount)

def dropForCount (maxMessages : ℕ) : List TimestampedFrame → ℕ → List TimestampedFrame × ℕ
  | [],byteCount => ([],byteCount)
  | oldest::rest,byteCount =>
    if (oldest::rest).length≥maxMessages then (rest,byteCount-oldest.bytes.length)
    else (oldest::rest,byteCount)

namespace RelayState

def withCaps (maxForwardings maxInboxMessages maxInboxBytes inboxTtlSecs : ℕ) : RelayState :=
  { maxForwardings := maxForwardings
    maxInboxMessages := maxInboxMessages
    maxInboxBytes := maxInboxBytes
    inboxTtl := inboxTtlSecs*nanosPerSec
    maxFrameSize := defaultMaxFrameSize
    online := ∅
    tokens := fun _ => none
    forwarding := []
    nextPairId := 1
    inboxes := fun _ => none
    adverts := fun _ => none }

def new (maxForwardings : ℕ) : RelayState :=
  withCaps maxForwardings defaultMaxInboxMessages defaultMaxInboxBytes defaultInboxTtlSecs

def register (s : RelayState) (eviction : Finset Fingerprint) (fp : Fingerprint) :
    Except NetworkError RelayState :=
  if fp∈eviction then .error (.evicted fp.toHex)
  else .ok { s with online := insert fp s.online }

def deregister (s : RelayState) (fp : Fingerprint) : RelayState :=
  { s with
    online := s.online.erase fp
    tokens := fun token => (s.tokens token).filter (· ≠ fp)
    forwarding := s.forwarding.filter (fun p => p.fromFp≠fp ∧ p.toFp≠fp) }

def isOnline (s : RelayState) (fp : Fingerprint) : Bool := fp∈s.online

def issueToken (s : RelayState) (fp : Fingerprint) (token : String) : RelayState :=
  { s with tokens := Function.update s.tokens token (some fp) }

def openPair (s : RelayState) (eviction : Finset Fingerprint) (source target : Fingerprint) :
    Except NetworkError UInt64 × RelayState :=
  if source∈eviction then (.error (.evicted source.toHex),s)
  else if source∉s.online then (.error (.targetOffline source.toHex),s)
  else if target∉s.online then (.error (.targetOffline target.toHex),s)
  else if s.forwarding.length≥s.maxForwardings then
    (.error (.relayFull s!"at capacity {s.maxForwardings}"),s)
  else
    (.ok s.nextPairId,{ s with
        nextPairId := s.nextPairId+1
        forwarding := s.forwarding++[⟨s.nextPairId,source,target⟩] })

def lookupPair (s : RelayState) (pairId : UInt64) : Option ForwardPair :=
  s.forwarding.find? (fun p => p.id=pairId)

def closePair (s : RelayState) (pairId : UInt64) : Option ForwardPair × RelayState :=
  match s.lookupPair pairId with
  | none => (none,s)
  | some pair =>
    (some pair,{ s with forwarding := s.forwarding.eraseP (fun p => p.id=pairId) })

def box (s : RelayState) (fp : Fingerprint) : List TimestampedFrame × ℕ :=
  (s.inboxes fp).getD ([],0)

/-- The drops happen before the last size check, so a push refused there has already changed
the inbox. -/
def inboxPush (s : RelayState) (eviction : Finset Fingerprint) (now : ℕ)
    (source target : Fingerprint) (frame : List UInt8) :
    Except NetworkError ForwardOutcome × RelayState :=
  if source∈eviction then (.error (.evicted source.toHex),s)
  else if frame.length>s.maxFrameSize then
    (.error (.codec s!"frame {frame.length} exceeds relay cap {s.maxFrameSize}"),s)
  else if target∉s.online then (.ok .targetOffline,s)
  else
    let counted:=dropForCount s.maxInboxMessages (s.box target).1 (s.box target).2
    let fitted:=dropForBytes s.maxInboxBytes frame.length counted.1 counted.2
    if fitted.2+frame.length>s.maxInboxBytes then
      (.error (.relayFull "frame exceeds inbox byte cap"),
        { s with inboxes := Function.update s.inboxes target (some fitted) })
    else
      (.ok .buffered,{ s with
          inboxes := Function.update s.inboxes target
            (some (fitted.1++[⟨frame,now⟩],fitted.2+frame.length)) })

def inboxPull (s : RelayState) (now : ℕ) (fp : Fingerprint) : List (List UInt8) × RelayState :=
  match s.inboxes fp with
  | none => ([],s)
  | some (frames,_) =>
    ((frames.filter (fun f => now-f.enqueuedAt<s.inboxTtl)).map (·.bytes),
      { s with inboxes := Function.update s.inboxes fp none })

def advertPublish (s : RelayState) (now : ℕ) (fp : Fingerprint) (advert : Advert) :
    Except NetworkError RelayState :=
  if fp∉s.online then .error (.targetOffline fp.toHex)
  else .ok { s with adverts := Function.update s.adverts fp (some (advert,now)) }

def advertFetch (s : RelayState) (now : ℕ) (fp : Fingerprint) : Option Advert × RelayState :=
  match s.adverts fp with
  | none => (none,s)
  | some (advert,published) =>
    if now-published<advert.ttlSecs.toNat*nanosPerSec then (some advert,s)
    else (none,{ s with adverts := Function.update s.adverts fp none })

theorem openPair_writes (s : RelayState) (eviction source target) :
    ∃ forwarding nextPairId,(s.openPair eviction source target).2=
      { s with forwarding := forwarding,nextPairId := nextPairId } := by
  unfold openPair
  split_ifs
  · exact ⟨_,_,rfl⟩
  · exact ⟨_,_,rfl⟩
  · exact ⟨_,_,rfl⟩
  · exact ⟨_,_,rfl⟩
  · exact ⟨_,_,rfl⟩

theorem closePair_writes (s : RelayState) (pairId : UInt64) :
    ∃ forwarding,(s.closePair pairId).2={ s with forwarding := forwarding } := by
  unfold closePair
  split
  · exact ⟨_,rfl⟩
  · exact ⟨_,rfl⟩

theorem inboxPush_writes (s : RelayState) (eviction now source target frame) :
    ∃ inboxes,(s.inboxPush eviction now source target frame).2= { s with inboxes := inboxes } := by
  unfold inboxPush
  split
  · exact ⟨_,rfl⟩
  · split
    · exact ⟨_,rfl⟩
    · split
      · exact ⟨_,rfl⟩
      · simp only
        split
        · exact ⟨_,rfl⟩
        · exact ⟨_,rfl⟩

theorem inboxPull_writes (s : RelayState) (now fp) :
    ∃ inboxes,(s.inboxPull now fp).2={ s with inboxes := inboxes } := by
  unfold inboxPull
  split
  · exact ⟨_,rfl⟩
  · exact ⟨_,rfl⟩

variable {s : RelayState} {fp : Fingerprint}

theorem advertPublish_writes {s' now advert} (h : s.advertPublish now fp advert=.ok s') :
    ∃ adverts,s'={ s with adverts := adverts } := by
  unfold advertPublish at h
  split at h
  · cases h
  · cases h
    exact ⟨_,rfl⟩

theorem advertFetch_writes (s : RelayState) (now fp) :
    ∃ adverts,(s.advertFetch now fp).2={ s with adverts := adverts } := by
  unfold advertFetch
  split
  · exact ⟨_,rfl⟩
  · split_ifs
    · exact ⟨_,rfl⟩
    · exact ⟨_,rfl⟩

theorem register_forwarding {s' eviction} (h : s.register eviction fp=.ok s') :
    s'.forwarding=s.forwarding := by
  unfold register at h
  split at h
  · cases h
  · cases h
    rfl

theorem openPair_forwarding (s : RelayState) (eviction source target) :
    (s.openPair eviction source target).2.forwarding=s.forwarding ∨
      (s.openPair eviction source target).2.forwarding=
        s.forwarding++[⟨s.nextPairId,source,target⟩] := by
  unfold openPair
  split
  · exact .inl rfl
  · split
    · exact .inl rfl
    · split
      · exact .inl rfl
      · split
        · exact .inl rfl
        · exact .inr rfl

theorem inboxPush_forwarding (s : RelayState) (eviction now source target frame) :
    (s.inboxPush eviction now source target frame).2.forwarding=s.forwarding := by
  obtain ⟨_,hwrites⟩ := s.inboxPush_writes eviction now source target frame
  rw [hwrites]

theorem inboxPull_forwarding (s : RelayState) (now fp) :
    (s.inboxPull now fp).2.forwarding=s.forwarding := by
  obtain ⟨_,hwrites⟩ := s.inboxPull_writes now fp
  rw [hwrites]

theorem advertPublish_forwarding {s' now advert} (h : s.advertPublish now fp advert=.ok s') :
    s'.forwarding=s.forwarding := by
  obtain ⟨_,hwrites⟩ := advertPublish_writes h
  rw [hwrites]

theorem advertFetch_forwarding (s : RelayState) (now fp) :
    (s.advertFetch now fp).2.forwarding=s.forwarding := by
  obtain ⟨_,hwrites⟩ := s.advertFetch_writes now fp
  rw [hwrites]

variable {pairId : UInt64}

theorem mem_of_lookupPair {pair} (h : s.lookupPair pairId=some pair) :
    pair∈s.forwarding ∧ pair.id=pairId := by
  have hid:=List.find?_some h
  exact ⟨List.mem_of_find?_eq_some h,of_decide_eq_true hid⟩

theorem closePair_of_lookup {pair} (h : s.lookupPair pairId=some pair) :
    ∃ before after,s.forwarding=before++pair::after ∧ pair.id=pairId ∧
      (s.closePair pairId).2.forwarding=before++after := by
  obtain ⟨hmem,hid⟩ := mem_of_lookupPair h
  obtain ⟨found,before,after,hbefore,hfound,hlist,herase⟩ :=
    List.exists_of_eraseP (p := fun p : ForwardPair => p.id=pairId) hmem (decide_eq_true hid)
  have hfind : s.lookupPair pairId=some found := by
    unfold lookupPair
    have hnone : before.find? (fun p => p.id=pairId)=none := List.find?_eq_none.2 hbefore
    rw [hlist,List.find?_append,hnone,Option.none_or]
    exact List.find?_cons_of_pos (p := fun p : ForwardPair => p.id=pairId) hfound
  have hpair : found=pair := by
    rw [hfind] at h
    exact Option.some.inj h
  subst hpair
  refine ⟨before,after,hlist,hid,?_⟩
  unfold closePair
  rw [h]
  exact herase

theorem closePair_of_lookup_none (h : s.lookupPair pairId=none) : (s.closePair pairId).2=s := by
  unfold closePair
  rw [h]

end RelayState
end OriginTools.Network
