import OriginTools.Channel.Session

/-!
# What a session makes of late, lost and forged messages

A receiver opens the messages of its peer when they come in order.
-/

namespace OriginTools.Channel
namespace RatchetedSession
variable {Key : Type}

structure Aead (sdk : Sdk Key) : Prop where
  opens : ∀ k nonce p c,sdk.encrypt k nonce p=.ok c → sdk.decrypt k nonce c=.ok p
  size : ∀ k nonce p c,sdk.encrypt k nonce p=.ok c → c.length=p.length+16

/-- The first `n` message keys of a chain differ, and none of them opens what another sealed. -/
structure IdealChain (sdk : Sdk Key) (chain : Key) (n : ℕ) : Prop where
  distinct : ∀ i j k,i<n → j<n → keyAt sdk chain i=some k → keyAt sdk chain j=some k → i=j
  committing : ∀ i j k k',i<n → j<n → keyAt sdk chain i=some k →
    keyAt sdk chain j=some k' → k≠k' → ∀ nonce p c q,sdk.encrypt k nonce p=.ok c →
    sdk.decrypt k' nonce c≠.ok q

def sampleTag (k : UInt8) : Bytes := List.replicate 15 0++[k]

def sampleSdk : Sdk UInt8 where
  hkdf k info := .ok (if info=chainAdvanceLabel then k+1 else k)
  encrypt k _ p := .ok (sampleTag k++p)
  decrypt k _ c := if c.take 16=sampleTag k then .ok (c.drop 16) else .error "tag mismatch"

theorem length_sampleTag (k : UInt8) : (sampleTag k).length=16 := by
  simp [sampleTag]

theorem sampleSdk_aead : Aead sampleSdk where
  opens := by
    intro k nonce p c h
    cases h
    have htake : (sampleTag k++p).take 16=sampleTag k := List.take_left' (length_sampleTag k)
    have hdrop : (sampleTag k++p).drop 16=p := List.drop_left' (length_sampleTag k)
    simp only [sampleSdk,htake,hdrop,if_true]
  size := by
    intro k nonce p c h
    cases h
    rw [List.length_append,length_sampleTag]
    omega

theorem sampleTag_inj {k k'} (h : sampleTag k=sampleTag k') : k=k' := by
  simpa [sampleTag] using h

theorem sampleSdk_ideal : IdealChain sampleSdk 0 2 where
  distinct := by
    intro i j k hi hj hki hkj
    have h0 : keyAt sampleSdk 0 0=some 0 := by decide
    have h1 : keyAt sampleSdk 0 1=some 1 := by decide
    interval_cases i <;> interval_cases j <;> simp_all
  committing := by
    intro i j k k' _ _ _ _ hne nonce p c q hseal hopen
    cases hseal
    have htake : (sampleTag k++p).take 16=sampleTag k := List.take_left' (length_sampleTag k)
    simp only [sampleSdk,htake] at hopen
    split at hopen
    next htag => exact hne (sampleTag_inj htag)
    · cases hopen

def sampleAlice : RatchetKeys UInt8 := { root := 9,sendChain := 0,recvChain := 100 }
def sampleBob : RatchetKeys UInt8 := { root := 9,sendChain := 100,recvChain := 0 }

def sampleMsgs : List ChannelMessage :=
  [{ msgType := msgData,seq := 0,nonce := counterToNonce 0,ciphertext := sampleTag 0++[7] },
    { msgType := msgData,seq := 1,nonce := counterToNonce 1,ciphertext := sampleTag 1++[8] }]

def deliveries (msgs : List ChannelMessage) (order : List ℕ) : List ChannelMessage :=
  order.filterMap fun i => msgs[i]?

def expected (ps : List Bytes) (seen : List ℕ) : List ℕ → List (Option Bytes)
  | [] => []
  | i::rest => (if i∈seen then none else ps[i]?)::expected ps (i::seen) rest

def InOrder (next : ℕ) : List ℕ → Prop
  | [] => True
  | i::rest => if i=next then InOrder (next+1) rest else i<next ∧ InOrder next rest

def WithinLimits (limits : AeadLimits) (ps : List Bytes) (delivered : Finset ℕ) : Prop :=
  delivered.card≤limits.maxMessages ∧ ∑ i∈delivered,(ps.getD i []).length≤limits.maxBytes

instance (limits : AeadLimits) (ps : List Bytes) (delivered : Finset ℕ) :
    Decidable (WithinLimits limits ps delivered) := instDecidableAnd

theorem WithinLimits.mono {limits ps few many} (h : WithinLimits limits ps many) (hsub : few ⊆ many) :
    WithinLimits limits ps few :=
  ⟨(Finset.card_le_card hsub).trans h.1,(Finset.sum_le_sum_of_subset hsub).trans h.2⟩

structure InSync (sdk : Sdk Key) (chain : Key) (limits : AeadLimits) (ps : List Bytes)
    (next : ℕ) (s : RatchetedSession Key) : Prop where
  chain : ∀ i,keyAt sdk s.keys.recvChain i=keyAt sdk chain (next+i)
  window : ∃ accepted,s.replay.Tracks 1024 accepted ∧ ∀ a,a∈accepted ↔ a<next
  limits : s.usage.limits=limits
  messages : s.usage.recv.messages=next
  bytes : s.usage.recv.bytes = ∑ i∈Finset.range next,(ps.getD i []).length

theorem inSync_new (sdk) (keys : RatchetKeys Key) (limits ps) :
    InSync sdk keys.recvChain limits ps 0 (new keys limits) where
  chain := by
    intro i
    rw [Nat.zero_add]
    rfl
  window := ⟨[],ReplayWindow.tracks_new 1024,by simp⟩
  limits := rfl
  messages := rfl
  bytes := rfl

section Delivery
variable {sdk : Sdk Key} {chain : Key} {limits : AeadLimits} {ps : List Bytes} {next : ℕ}
  {s : RatchetedSession Key}

theorem InSync.decrypt_repeat (h : InSync sdk chain limits ps next s) (msg : ChannelMessage)
    (hold : msg.seq<next) : s.decrypt sdk msg=(.error (.replay msg.seq),s) := by
  obtain ⟨accepted,htracks,hmem⟩ := h.window
  apply decrypt_of_refused
  rcases htracks.accept (by omega) msg.seq with ⟨hfresh,_,_⟩ | ⟨_,herr,hsame⟩
  · exact absurd ((hmem msg.seq).mpr hold) hfresh.1
  · exact Prod.ext herr hsame

theorem InSync.fresh_next (h : InSync sdk chain limits ps next s) :
    ∃ replay,s.replay.accept next=(.ok (),replay) ∧
      ∃ accepted,replay.Tracks 1024 accepted ∧ ∀ a,a∈accepted ↔ a<next+1 := by
  obtain ⟨accepted,htracks,hmem⟩ := h.window
  have hfresh : ReplayWindow.Fresh 1024 accepted next := by
    refine ⟨fun hin => ?_,?_⟩
    · have hlt:=(hmem next).mp hin
      omega
    · by_cases hnil : accepted=[]
      · exact .inl hnil
      · have hgreatest:=htracks.isGreatest hnil
        have hlt:=(hmem s.replay.highest).mp hgreatest.1
        exact .inr ⟨s.replay.highest,hgreatest,by omega⟩
  rcases htracks.accept (by omega) next with ⟨_,hok,hnext⟩ | ⟨hno,_,_⟩
  · refine ⟨(s.replay.accept next).2,Prod.ext hok rfl,next::accepted,hnext,?_⟩
    intro a
    rw [List.mem_cons,hmem a]
    omega
  · exact absurd hfresh hno

theorem InSync.decrypt_next (h : InSync sdk chain limits ps next s) (haead : Aead sdk)
    {msg p msgKey} (hp : ps[next]? = some p) (hseq : msg.seq=next)
    (hkey : keyAt sdk chain next=some msgKey)
    (hseal : sdk.encrypt msgKey msg.nonce p=.ok msg.ciphertext)
    (hlimits : WithinLimits limits ps (Finset.range (next+1))) :
    (s.decrypt sdk msg).1=.ok p ∧ InSync sdk chain limits ps (next+1) (s.decrypt sdk msg).2 := by
  obtain ⟨replay,haccept,hwindow⟩ := h.fresh_next
  have hlen : (ps.getD next []).length=p.length := by
    rw [List.getD_eq_getElem?_getD,hp]
    rfl
  have hsize : msg.ciphertext.length-16=p.length := by
    rw [haead.size _ _ _ _ hseal]
    omega
  have hmessages : s.usage.recv.messages+1 ≤ s.usage.limits.maxMessages := by
    rw [h.messages,h.limits]
    simpa using hlimits.1
  have hbytes : s.usage.recv.bytes+p.length ≤ s.usage.limits.maxBytes := by
    rw [h.bytes,h.limits,← hlen,← Finset.sum_range_succ]
    exact hlimits.2
  have husage : s.usage.checkRecv msg.ciphertext.length=.ok { s.usage with
      recv := { messages := next+1,bytes := s.usage.recv.bytes+p.length } } := by
    unfold AeadUsageTracker.checkRecv
    rw [hsize,checkAndRecord_ok _ _ _ _ hmessages hbytes,h.messages]
    rfl
  have hcurrent : keyAt sdk s.keys.recvChain 0=some msgKey := by rw [h.chain 0]; exact hkey
  rcases hderive : deriveMessageKey sdk s.keys.recvChain with e | step
  · simp [keyAt,hderive,Except.toOption] at hcurrent
  obtain ⟨recvKey,nextChain⟩ := step
  have hsame : recvKey=msgKey := by
    rw [keyAt_zero hderive] at hcurrent
    exact Option.some.inj hcurrent
  subst hsame
  have hopen:=haead.opens _ _ _ _ hseal
  rw [decrypt_of_taken (by rw [hseq]; exact haccept) husage hderive hopen]
  refine ⟨rfl,?_,hwindow,h.limits,rfl,?_⟩
  · intro i
    have hstep:=h.chain (i+1)
    rw [keyAt_succ hderive] at hstep
    rw [hstep]
    congr 1
    omega
  · rw [Finset.sum_range_succ,hlen,← h.bytes]

theorem InSync.decrypt_ahead (h : InSync sdk chain limits ps next s)
    (hideal : IdealChain sdk chain ps.length) {msg i p msgKey} (hahead : next < i)
    (hi : i<ps.length) (hkey : keyAt sdk chain i=some msgKey)
    (hseal : sdk.encrypt msgKey msg.nonce p=.ok msg.ciphertext) :
    (s.decrypt sdk msg).1.toOption=none := by
  rcases hresult : (s.decrypt sdk msg).1 with e | q
  · rfl
  obtain ⟨_,_,recvKey,nextChain,_,_,hderive,hopen⟩ := decrypt_ok hresult
  have hcurrent : keyAt sdk chain next=some recvKey := by
    rw [← keyAt_zero hderive,h.chain 0]
    rfl
  have hne : msgKey≠recvKey := by
    intro heq
    have hsame:=hideal.distinct i next msgKey hi (by omega) hkey (heq ▸ hcurrent)
    omega
  exact absurd hopen (hideal.committing i next _ _ hi (by omega) hkey hcurrent hne _ _ _ q hseal)

theorem InSync.outcomes_iff (msgs) (order : List ℕ) (seen) (haead : Aead sdk)
    (hideal : IdealChain sdk chain ps.length)
    (hmsgs : ∀ i p,ps[i]? = some p → ∃ msg msgKey,msgs[i]? = some msg ∧
      keyAt sdk chain i=some msgKey ∧ sdk.encrypt msgKey msg.nonce p=.ok msg.ciphertext ∧
      msg.seq=i) (h : InSync sdk chain limits ps next s) (hseen : ∀ i,i∈seen ↔ i<next)
    (hvalid : ∀ i∈order,i<ps.length)
    (hlimits : WithinLimits limits ps (Finset.range next ∪ order.toFinset)) :
    outcomes sdk s (deliveries msgs order)=expected ps seen order ↔ InOrder next order := by
  induction order generalizing s next seen with
  | nil => exact iff_of_true rfl trivial
  | cons i rest ih =>
    have hi : i<ps.length := hvalid i (.head _)
    have hrest : ∀ j∈rest,j<ps.length := fun j hj => hvalid j (.tail _ hj)
    obtain ⟨msg,msgKey,hmsg,hkey,hseal,hseq⟩ := hmsgs i ps[i] (List.getElem?_eq_getElem hi)
    have hdeliver : deliveries msgs (i::rest)=msg::deliveries msgs rest := by
      simp only [deliveries,List.filterMap_cons,hmsg]
    rw [hdeliver]
    simp only [outcomes,expected,InOrder,List.cons.injEq]
    rcases lt_trichotomy i next with hold | hnow | hahead
    · -- a repeat
      have hdecrypt:=h.decrypt_repeat msg (by omega)
      have hmem : i∈seen := (hseen i).mpr hold
      have hseen' : ∀ j,j∈i::seen ↔ j<next := by
        intro j
        rw [List.mem_cons,hseen j]
        omega
      have hsub : Finset.range next ∪ rest.toFinset ⊆ Finset.range next ∪ (i::rest).toFinset := by
        apply Finset.union_subset_union_right
        simp [Finset.subset_insert]
      rw [if_pos hmem,if_neg (by omega),hdecrypt,ih (i::seen) h hseen' hrest (hlimits.mono hsub)]
      simp only [Except.toOption,true_and,hold]
    · -- the message the chain is at
      subst hnow
      have hmem : i∉seen := by
        rw [hseen i]
        omega
      have hseen' : ∀ j,j∈i::seen ↔ j < i+1 := by
        intro j
        rw [List.mem_cons,hseen j]
        omega
      have hsame : Finset.range (i+1) ∪ rest.toFinset=Finset.range i ∪ (i::rest).toFinset := by
        ext j
        simp only [Finset.mem_union,Finset.mem_range,List.mem_toFinset,List.mem_cons,
          Nat.lt_succ_iff_lt_or_eq,or_assoc]
      have hroom : WithinLimits limits ps (Finset.range (i+1)) := by
        apply hlimits.mono
        rw [← hsame]
        exact Finset.subset_union_left
      obtain ⟨hok,hnext⟩ := h.decrypt_next haead (List.getElem?_eq_getElem hi) hseq hkey hseal hroom
      rw [if_neg hmem,if_pos rfl,hok,ih (i::seen) hnext hseen' hrest (hsame ▸ hlimits),
        List.getElem?_eq_getElem hi]
      simp only [Except.toOption,true_and]
    · -- a message from further along
      have hnone:=h.decrypt_ahead hideal hahead hi hkey hseal
      have hmem : i∉seen := by
        rw [hseen i]
        omega
      rw [if_neg hmem,if_neg (by omega),hnone,List.getElem?_eq_getElem hi]
      constructor
      · intro hboth
        cases hboth.1
      · intro hboth
        omega

end Delivery

theorem delivered_once_iff (sdk : Sdk Key) (alice bob : RatchetKeys Key)
    (aliceLimits bobLimits : AeadLimits) (ps : List Bytes) (msgs : List ChannelMessage)
    (order : List ℕ) (hcrossed : alice.sendChain=bob.recvChain)
    (hsent : encryptAll sdk (new alice aliceLimits) ps=.ok msgs)
    (haead : Aead sdk) (hideal : IdealChain sdk alice.sendChain ps.length)
    (hvalid : ∀ i∈order,i<ps.length)
    (hlimits : WithinLimits bobLimits ps order.toFinset) :
    outcomes sdk (new bob bobLimits) (deliveries msgs order)=expected ps [] order ↔
      InOrder 0 order := by
  have hsync : InSync sdk alice.sendChain bobLimits ps 0 (new bob bobLimits) := by
    rw [hcrossed]
    exact inSync_new sdk bob bobLimits ps
  apply hsync.outcomes_iff msgs order [] haead hideal
  · intro i p hp
    obtain ⟨msg,msgKey,hmsg,hkey,hseal,hseq⟩ :=
      getElem?_encryptAll (new alice aliceLimits) msgs hsent i hp
    refine ⟨msg,msgKey,hmsg,hkey,hseal,?_⟩
    rw [hseq]
    exact Nat.zero_add i
  · simp
  · exact hvalid
  · simpa using hlimits

theorem delivered_once_repeats :
    outcomes sampleSdk (new sampleBob {}) (deliveries sampleMsgs [0,0,1])=
      [some [7],none,some [8]] :=
  (delivered_once_iff sampleSdk sampleAlice sampleBob {} {} [[7],[8]] sampleMsgs [0,0,1] rfl
    (by rfl) sampleSdk_aead sampleSdk_ideal (by decide) (by decide)).mpr (by simp [InOrder])

/-- Two messages that overtake each other inside the window are both lost. -/
theorem overtaking_lost : Aead sampleSdk ∧ IdealChain sampleSdk sampleAlice.sendChain 2 ∧
      encryptAll sampleSdk (new sampleAlice {}) [[7],[8]]=.ok sampleMsgs ∧
      [1,0].Pairwise (fun h i => h ≤ i+1023) ∧
      WithinLimits {} [[7],[8]] [1,0].toFinset ∧
      outcomes sampleSdk (new sampleBob {}) (deliveries sampleMsgs [1,0])=[none,none] ∧
      expected [[7],[8]] [] [1,0]=[some [8],some [7]] :=
  ⟨sampleSdk_aead,sampleSdk_ideal,by rfl,by decide,by decide,by decide +kernel,by decide⟩

/-- Whatever a peer in step with `bob` encrypts, and however it is delivered, `bob` makes the
same of it after `forged` as before. -/
def Undisturbed (sdk : Sdk Key) (bob : RatchetedSession Key) (forged : ChannelMessage) : Prop :=
  ∀ (alice : RatchetedSession Key) (ps : List Bytes) (msgs delivered : List ChannelMessage),
    alice.keys.sendChain=bob.keys.recvChain → encryptAll sdk alice ps=.ok msgs →
    (∀ m∈delivered,m∈msgs) →
    outcomes sdk (bob.decrypt sdk forged).2 delivered=outcomes sdk bob delivered

theorem decrypt_of_spent (sdk) {s : RatchetedSession Key} (msg) (h : s.usage.Spent) :
    (s.decrypt sdk msg).1.toOption=none ∧ (s.decrypt sdk msg).2.usage=s.usage := by
  obtain ⟨e,hrecv⟩ := s.usage.checkRecv_of_spent h msg.ciphertext.length
  unfold decrypt
  split
  · exact ⟨rfl,rfl⟩
  · simp only [hrecv,Except.toOption,and_self]

theorem outcomes_of_spent (sdk : Sdk Key) (s : RatchetedSession Key) (msgs : List ChannelMessage)
    (h : s.usage.Spent) : outcomes sdk s msgs=msgs.map fun _ => none := by
  induction msgs generalizing s with
  | nil => rfl
  | cons msg msgs ih =>
    obtain ⟨hnone,husage⟩ := decrypt_of_spent sdk msg h
    simp only [outcomes,List.map_cons,hnone,ih _ (husage ▸ h)]

theorem decrypt_of_room (sdk : Sdk Key) (s : RatchetedSession Key) (msg : ChannelMessage)
    (replay recvKey nextChain) (haead : Aead sdk)
    (haccept : s.replay.accept msg.seq=(.ok (),replay)) (hroom : ¬ s.usage.Spent)
    (hderive : deriveMessageKey sdk s.keys.recvChain=.ok (recvKey,nextChain))
    (hseal : sdk.encrypt recvKey msg.nonce []=.ok msg.ciphertext) :
    (s.decrypt sdk msg).1=.ok [] := by
  unfold AeadUsageTracker.Spent at hroom
  have hsize : msg.ciphertext.length-16=0 := by
    rw [haead.size _ _ _ _ hseal]
    rfl
  have husage:=checkAndRecord_ok s.usage.recv s.usage.limits 0 "recv" (by omega) (by omega)
  have hrecv : ∃ usage,s.usage.checkRecv msg.ciphertext.length=.ok usage := by
    unfold AeadUsageTracker.checkRecv
    rw [hsize,husage]
    exact ⟨_,rfl⟩
  obtain ⟨usage,hrecv⟩ := hrecv
  rw [decrypt_of_taken haccept hrecv hderive (haead.opens _ _ _ _ hseal)]

def peerAt (bob : RatchetedSession Key) (seq : ℕ) : RatchetedSession Key :=
  { new { bob.keys with sendChain := bob.keys.recvChain } {} with sendSeq := seq }

def peerMsg (seq : ℕ) (ciphertext : Bytes) : ChannelMessage :=
  { msgType := msgData,seq := seq,nonce := counterToNonce 0,ciphertext := ciphertext }

theorem encrypt_peerAt {sdk : Sdk Key} {bob : RatchetedSession Key} (seq : ℕ)
    {msgKey nextChain ciphertext}
    (hderive : deriveMessageKey sdk bob.keys.recvChain=.ok (msgKey,nextChain))
    (hseal : sdk.encrypt msgKey (counterToNonce 0) []=.ok ciphertext) :
    encryptAll sdk (peerAt bob seq) [[]]=.ok [peerMsg seq ciphertext] := by
  have hsend : (peerAt bob seq).usage.checkSend 0=
      .ok { limits := {},send := { messages := 1,bytes := 0 } } := by rfl
  have hnonce : (peerAt bob seq).sendNonce.nextNonce=
      .ok (counterToNonce 0,{ next := 1,label := "send" }) := by rfl
  have hchain : (peerAt bob seq).keys.sendChain=bob.keys.recvChain := rfl
  simp only [encryptAll,encrypt,List.length_nil,hsend,hchain,hderive,hnonce,hseal,Except.map]
  rfl

theorem accept_again {sdk} {s : RatchetedSession Key} (h : Reachable sdk s) {seq}
    {replay : ReplayWindow} (haccept : s.replay.accept seq=(.ok (),replay)) :
    replay.accept seq=(.error (.replay seq),replay) := by
  obtain ⟨accepted,htracks⟩ := h.tracks
  rcases htracks.accept (by omega) seq with ⟨_,_,hnext⟩ | ⟨_,herr,_⟩
  · rw [haccept] at hnext
    rcases hnext.accept (by omega) seq with ⟨hfresh,_,_⟩ | ⟨_,herr,hsame⟩
    · exact absurd (.head _) hfresh.1
    · exact Prod.ext herr hsame
  · rw [haccept] at herr
    cases herr

theorem undisturbed_iff (sdk : Sdk Key) (haead : Aead sdk)
    (hseals : ∀ k nonce p,∃ c,sdk.encrypt k nonce p=.ok c)
    (hderives : ∀ k info,∃ k',sdk.hkdf k info=.ok k')
    (bob : RatchetedSession Key) (hbob : Reachable sdk bob) (forged : ChannelMessage) :
    Undisturbed sdk bob forged ↔ (bob.replay.accept forged.seq).1≠.ok () ∨
        bob.usage.recv.messages≥bob.usage.limits.maxMessages ∨
        bob.usage.recv.bytes>bob.usage.limits.maxBytes := by
  constructor
  · intro hsame
    by_contra hcond
    push Not at hcond
    obtain ⟨htaken,hmessages,hbytes⟩ := hcond
    have hroom : ¬ bob.usage.Spent := by
      unfold AeadUsageTracker.Spent
      omega
    obtain ⟨msgKey,hkey⟩ := hderives bob.keys.recvChain messageKeyLabel
    obtain ⟨nextChain,hchain⟩ := hderives bob.keys.recvChain chainAdvanceLabel
    have hderive : deriveMessageKey sdk bob.keys.recvChain=.ok (msgKey,nextChain) := by
      simp only [deriveMessageKey,hkey,hchain]
    obtain ⟨ciphertext,hseal⟩ := hseals msgKey (counterToNonce 0) []
    have hsent:=encrypt_peerAt forged.seq hderive hseal
    have hout:=hsame (peerAt bob forged.seq) [[]] _ _ rfl hsent (fun m hm => hm)
    have haccept : bob.replay.accept forged.seq=
        (.ok (),(bob.replay.accept forged.seq).2) := Prod.ext htaken rfl
    -- before: opened; after: a replay
    have hbefore:=decrypt_of_room sdk bob (peerMsg forged.seq ciphertext) _ msgKey nextChain
      haead haccept hroom hderive hseal
    have hagain : (bob.decrypt sdk forged).2.replay.accept forged.seq=
        (.error (.replay forged.seq),(bob.decrypt sdk forged).2.replay) := by
      rw [decrypt_replay]
      exact accept_again hbob haccept
    have hafter:=decrypt_of_refused sdk (bob.decrypt sdk forged).2
      (peerMsg forged.seq ciphertext) _ hagain
    simp only [outcomes,hbefore,hafter,Except.toOption,List.cons.injEq,reduceCtorEq,
      false_and] at hout
  · intro hcond alice ps msgs delivered _ _ _
    rcases hcond with hrefused | hspent
    · obtain ⟨accepted,htracks⟩ := hbob.tracks
      rcases htracks.accept (by omega) forged.seq with ⟨_,hok,_⟩ | ⟨_,herr,hstay⟩
      · exact absurd hok hrefused
      · rw [decrypt_of_refused sdk bob forged _ (Prod.ext herr hstay)]
    · have husage:=(decrypt_of_spent sdk forged hspent).2
      rw [outcomes_of_spent sdk bob delivered hspent,
        outcomes_of_spent sdk _ delivered (by rw [husage]; exact hspent)]

def forgedMsg (seq : ℕ) : ChannelMessage :=
  { msgType := msgData,seq := seq,nonce := counterToNonce 0,ciphertext := [] }

/-- Once message `0` is taken, a forgery under its number does nothing. -/
theorem undisturbed_repeat :
    Undisturbed sampleSdk ((new sampleBob {}).decrypt sampleSdk (sampleMsgs.head (by decide))).2
      (forgedMsg 0) :=
  (undisturbed_iff sampleSdk sampleSdk_aead (fun _ _ _ => ⟨_,rfl⟩) (fun _ _ => ⟨_,rfl⟩) _
    (.decrypt _ _ (.new _ _)) (forgedMsg 0)).mpr (.inl (by decide +kernel))

/-- A forgery under number `5` makes the messages the peer sends next undecryptable. -/
theorem forgery_disturbs :
    Aead sampleSdk ∧ sampleSdk.decrypt 0 (forgedMsg 5).nonce (forgedMsg 5).ciphertext=.error "tag mismatch" ∧
      encryptAll sampleSdk (new sampleAlice {}) [[7],[8]]=.ok sampleMsgs ∧
      outcomes sampleSdk (new sampleBob {}) sampleMsgs=[some [7],some [8]] ∧
      outcomes sampleSdk ((new sampleBob {}).decrypt sampleSdk (forgedMsg 5)).2 sampleMsgs=
        [none,none] :=
  ⟨sampleSdk_aead,by decide,by rfl,by decide +kernel,by decide +kernel⟩

end RatchetedSession
end OriginTools.Channel
