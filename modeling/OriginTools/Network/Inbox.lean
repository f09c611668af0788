import OriginTools.Network.Relay

/-!
# The bounded inboxes

What pushes, pulls and expiry sweeps do to the frames and the byte counter of an inbox.
-/

namespace OriginTools.Network
open List

def total (frames : List TimestampedFrame) : ℕ := (frames.map fun f => f.bytes.length).sum

def TimestampedFrame.fresh (ttl now : ℕ) (f : TimestampedFrame) : Bool :=
  decide (now-f.enqueuedAt<ttl)

/-- The `retain` of `cleanup_expired`, which takes the expired frames off the counter. -/
def retainFresh (ttl now : ℕ) : List TimestampedFrame → ℕ → List TimestampedFrame × ℕ
  | [],byteCount => ([],byteCount)
  | f::rest,byteCount =>
    if f.fresh ttl now then
      let kept:=retainFresh ttl now rest byteCount
      (f::kept.1,kept.2)
    else retainFresh ttl now rest (byteCount-f.bytes.length)

namespace RelayState

def cleanupExpired (s : RelayState) (now : ℕ) : RelayState :=
  { s with
    inboxes := fun fp =>
      ((s.inboxes fp).map fun inbox => retainFresh s.inboxTtl now inbox.1 inbox.2).filter
        fun inbox => !inbox.1.isEmpty }

/-- The inbox after both drops, as a push leaves it for its last size check. -/
def fitted (s : RelayState) (target : Fingerprint) (frame : List UInt8) :
    List TimestampedFrame × ℕ :=
  let counted:=dropForCount s.maxInboxMessages (s.box target).1 (s.box target).2
  dropForBytes s.maxInboxBytes frame.length counted.1 counted.2

def TurnedAway (s : RelayState) (eviction : Finset Fingerprint) (source target : Fingerprint)
    (frame : List UInt8) : Prop :=
  source∈eviction ∨ frame.length>s.maxFrameSize ∨ target∉s.online

/-- With an exact counter: the frame alone exceeds the byte cap. -/
def TooLarge (s : RelayState) (target : Fingerprint) (frame : List UInt8) : Prop :=
  (s.box target).2-total (s.box target).1+frame.length>s.maxInboxBytes

end RelayState

@[simp]
theorem total_cons (f : TimestampedFrame) (rest) : total (f::rest)=f.bytes.length+total rest :=
  sum_cons

theorem total_append (a b) : total (a++b)=total a+total b := by
  rw [total,map_append,sum_append]
  rfl

/-- What a drop-oldest step leaves of an inbox. -/
structure Dropped (before after : List TimestampedFrame × ℕ) : Prop where
  suffix : after.1 <:+ before.1
  spare : after.2-total after.1=before.2-total before.1
  le : after.2≤before.2
  exact : before.2=total before.1 → after.2=total after.1

theorem Dropped.refl (inbox) : Dropped inbox inbox := ⟨suffix_rfl,rfl,le_rfl,id⟩

theorem Dropped.trans {a b c} (h₁ : Dropped a b) (h₂ : Dropped b c) : Dropped a c :=
  ⟨h₂.suffix.trans h₁.suffix,h₂.spare.trans h₁.spare,h₂.le.trans h₁.le,
    fun h => h₂.exact (h₁.exact h)⟩

theorem Dropped.oldest (oldest : TimestampedFrame) (rest byteCount) :
    Dropped (oldest::rest,byteCount) (rest,byteCount-oldest.bytes.length) := by
  refine ⟨suffix_cons _ _,?_,Nat.sub_le _ _,fun h => ?_⟩
  · rw [total_cons,Nat.sub_sub]
  · rw [total_cons] at h
    dsimp only at h ⊢
    omega

theorem dropForCount_dropped (maxMessages frames byteCount) :
    Dropped (frames,byteCount) (dropForCount maxMessages frames byteCount) := by
  cases frames with
  | nil => exact .refl _
  | cons oldest rest =>
    rw [dropForCount]
    split_ifs
    · exact .oldest oldest rest byteCount
    · exact .refl _

theorem dropForCount_length {maxMessages frames byteCount} (h : frames.length ≤ maxMessages)
    (hcap : 1 ≤ maxMessages) :
    (dropForCount maxMessages frames byteCount).1.length < maxMessages := by
  cases frames with
  | nil => exact hcap
  | cons oldest rest =>
    rw [dropForCount]
    split_ifs with hfull
    · exact h
    · exact not_le.mp hfull

theorem dropForBytes_dropped (maxBytes need frames byteCount) :
    Dropped (frames,byteCount) (dropForBytes maxBytes need frames byteCount) := by
  induction frames generalizing byteCount with
  | nil => exact .refl _
  | cons oldest rest ih =>
    rw [dropForBytes]
    split_ifs
    · exact (Dropped.oldest oldest rest byteCount).trans (ih _)
    · exact .refl _

theorem dropForBytes_full {maxBytes need frames byteCount}
    (h : (dropForBytes maxBytes need frames byteCount).2+need>maxBytes) :
    (dropForBytes maxBytes need frames byteCount).1=[] := by
  induction frames generalizing byteCount with
  | nil => rfl
  | cons oldest rest ih =>
    rw [dropForBytes] at h ⊢
    split_ifs at h ⊢ with hover
    · exact ih h
    · exact absurd h hover

namespace RelayState
variable {s : RelayState} {fp target : Fingerprint}

theorem box_update (inbox) : { s with inboxes := Function.update s.inboxes target (some inbox) }.box
    fp=if fp=target then inbox else s.box fp := by
  simp only [box,Function.update_apply]
  split_ifs
  · rfl
  · rfl

variable {eviction : Finset Fingerprint} {source : Fingerprint} {frame : List UInt8}

theorem inboxPush_away (h : s.TurnedAway eviction source target frame) (now) :
    (s.inboxPush eviction now source target frame).1≠.ok .buffered ∧
      (s.inboxPush eviction now source target frame).2=s := by
  unfold inboxPush
  split_ifs with hevicted hlong honline
  · exact ⟨nofun,rfl⟩
  · exact ⟨nofun,rfl⟩
  · exact absurd h (by simp [TurnedAway,hevicted,hlong,honline])
  · exact ⟨nofun,rfl⟩

theorem inboxPush_let_in (h : ¬ s.TurnedAway eviction source target frame) (now) :
    s.inboxPush eviction now source target frame=
      if (s.fitted target frame).2+frame.length>s.maxInboxBytes then
        (.error (.relayFull "frame exceeds inbox byte cap"),
          { s with inboxes := Function.update s.inboxes target (some (s.fitted target frame)) })
      else (.ok .buffered,{ s with
        inboxes := Function.update s.inboxes target (some ((s.fitted target frame).1++
          [⟨frame,now⟩],(s.fitted target frame).2+frame.length)) }) := by
  simp only [TurnedAway,not_or,not_not] at h
  rw [inboxPush,if_neg h.1,if_neg h.2.1,if_neg (not_not.mpr h.2.2)]
  rfl

theorem fitted_dropped (s : RelayState) (target frame) :
    Dropped (s.box target) (s.fitted target frame) :=
  (dropForCount_dropped _ _ _).trans (dropForBytes_dropped _ _ _ _)

theorem fitted_full_iff :
    (s.fitted target frame).2+frame.length>s.maxInboxBytes ↔ s.TooLarge target frame := by
  have hspare:=(s.fitted_dropped target frame).spare
  unfold TooLarge
  constructor
  · intro h
    have hnil:=dropForBytes_full h
    rw [fitted,hnil] at hspare
    rw [← hspare]
    exact h
  · intro h
    omega

theorem refused_push_keeps_iff (s : RelayState) (eviction : Finset Fingerprint) (now : ℕ)
    (source target : Fingerprint) (frame : List UInt8) :
    ((s.inboxPush eviction now source target frame).1≠.ok .buffered →
      ∀ fp,((s.inboxPush eviction now source target frame).2.box fp).1=(s.box fp).1) ↔
    s.TurnedAway eviction source target frame ∨ ¬ s.TooLarge target frame ∨
      (s.box target).1=[] := by
  by_cases haway : s.TurnedAway eviction source target frame
  · simp [haway,inboxPush_away]
  rw [inboxPush_let_in haway,← fitted_full_iff]
  simp only [haway,false_or]
  split_ifs with hlarge
  · have hnil : (s.fitted target frame).1=[] := dropForBytes_full hlarge
    constructor
    · intro h
      have hkept:=h nofun target
      rw [box_update,if_pos rfl,hnil] at hkept
      exact .inr hkept.symm
    · rintro (h | h) - fp
      · exact absurd hlarge h
      · rw [box_update]
        split_ifs with hfp
        · rw [hnil,hfp,h]
        · rfl
  · simp [hlarge]

end RelayState

def Sample.fullInbox : RelayState :=
  { RelayState.withCaps 1 4 8 60 with
    online := {⟨List.Vector.replicate 32 0⟩}
    inboxes := fun _ => some ([⟨[1,2,3],0⟩],3) }

/-- A frame of nine bytes is refused under a cap of eight, after the frame that was there
has been dropped. -/
theorem refused_push_drops :
    ∃ source target frame,(Sample.fullInbox.inboxPush ∅ 0 source target frame).1≠.ok .buffered ∧
      (Sample.fullInbox.box target).1=[⟨[1,2,3],0⟩] ∧
      ((Sample.fullInbox.inboxPush ∅ 0 source target frame).2.box target).1=[] := by
  refine ⟨⟨List.Vector.replicate 32 0⟩,⟨List.Vector.replicate 32 0⟩,replicate 9 0,?_⟩
  decide +kernel

inductive InboxEvent where
  | push (eviction : Finset Fingerprint) (source target : Fingerprint) (frame : List UInt8)
  | pull (fp : Fingerprint)
  | sweep
  | presence (online : Finset Fingerprint)

/-- The relay and, for each inbox, the frames accepted since the previous pull. -/
structure InboxLog where
  state : RelayState
  accepted : Fingerprint → List TimestampedFrame

def InboxLog.step (log : InboxLog) (now : ℕ) : InboxEvent → InboxLog
  | .push eviction source target frame =>
    match log.state.inboxPush eviction now source target frame with
    | (.ok .buffered,s) => ⟨s,Function.update log.accepted target
        (log.accepted target++[⟨frame,now⟩])⟩
    | (_,s) => ⟨s,log.accepted⟩
  | .pull fp => ⟨(log.state.inboxPull now fp).2,Function.update log.accepted fp []⟩
  | .sweep => ⟨log.state.cleanupExpired now,log.accepted⟩
  | .presence online => ⟨{ log.state with online := online },log.accepted⟩

def InboxLog.run (log : InboxLog) (events : List (ℕ × InboxEvent)) : InboxLog :=
  events.foldl (fun log event => log.step event.1 event.2) log

structure Booked (caps : RelayState) (clock : ℕ) (inbox : List TimestampedFrame × ℕ)
    (accepted : List TimestampedFrame) : Prop where
  counter : inbox.2=total inbox.1
  bytes : inbox.2≤caps.maxInboxBytes
  messages : inbox.1.length≤caps.maxInboxMessages
  suffix : inbox.1 <:+ accepted
  ordered : accepted.Pairwise fun a b => a.enqueuedAt≤b.enqueuedAt
  past : ∀ f∈accepted,f.enqueuedAt≤clock

namespace Booked
variable {caps : RelayState} {clock : ℕ} {inbox : List TimestampedFrame × ℕ}
  {accepted : List TimestampedFrame}

theorem empty (caps : RelayState) (clock) : Booked caps clock ([],0) [] :=
  ⟨rfl,Nat.zero_le _,Nat.zero_le _,suffix_rfl,.nil,nofun⟩

theorem later {now} (h : Booked caps clock inbox accepted) (hle : clock≤now) :
    Booked caps now inbox accepted :=
  { h with past := fun f hf => (h.past f hf).trans hle }

theorem shrink {kept} (h : Booked caps clock inbox accepted) (hkept : kept.1 <:+ inbox.1)
    (hcounter : kept.2=total kept.1) : Booked caps clock kept accepted := by
  have htotal : total kept.1≤total inbox.1 := by
    obtain ⟨gone,hgone⟩ := hkept
    rw [← hgone,total_append]
    omega
  refine { h with counter := hcounter,bytes := ?_,messages := ?_,suffix := ?_ }
  · rw [hcounter]
    exact htotal.trans (h.counter ▸ h.bytes)
  · exact hkept.length_le.trans h.messages
  · exact hkept.trans h.suffix

theorem push {frame} (h : Booked caps clock inbox accepted)
    (hbytes : inbox.2+frame.length≤caps.maxInboxBytes)
    (hmessages : inbox.1.length<caps.maxInboxMessages) :
    Booked caps clock (inbox.1++[⟨frame,clock⟩],inbox.2+frame.length)
      (accepted++[⟨frame,clock⟩]) := by
  refine ⟨?_,hbytes,?_,?_,?_,?_⟩
  · rw [total_append,← h.counter]
    rfl
  · rw [length_append]
    exact hmessages
  · exact suffix_append_self_iff.mpr h.suffix
  · refine pairwise_append.mpr ⟨h.ordered,pairwise_singleton _ _,fun f hf g hg => ?_⟩
    rw [mem_singleton.mp hg]
    exact h.past f hf
  · intro f hf
    rcases mem_append.mp hf with hf | hf
    · exact h.past f hf
    · rw [mem_singleton.mp hf]

end Booked

theorem filter_fresh_suffix {frames : List TimestampedFrame} (ttl now)
    (h : frames.Pairwise fun a b => a.enqueuedAt≤b.enqueuedAt) :
    frames.filter (TimestampedFrame.fresh ttl now) <:+ frames := by
  induction frames with
  | nil => exact suffix_rfl
  | cons f rest ih =>
    obtain ⟨hfirst,hrest⟩ := pairwise_cons.mp h
    by_cases hfresh : f.fresh ttl now=true
    · -- everything behind a fresh frame is fresh
      have hall : ∀ g∈f::rest,g.fresh ttl now=true := by
        intro g hg
        rcases mem_cons.mp hg with rfl | hg
        · exact hfresh
        have hle:=hfirst g hg
        simp only [TimestampedFrame.fresh,decide_eq_true_eq] at hfresh ⊢
        omega
      rw [filter_eq_self.mpr hall]
    · rw [filter_cons_of_neg hfresh]
      exact (ih hrest).trans (suffix_cons f rest)

theorem retainFresh_eq (ttl now frames) (spare : ℕ) :
    retainFresh ttl now frames (spare+total frames)=(frames.filter (TimestampedFrame.fresh ttl now),
        spare+total (frames.filter (TimestampedFrame.fresh ttl now))) := by
  induction frames generalizing spare with
  | nil => rfl
  | cons f rest ih =>
    rw [retainFresh,total_cons]
    split_ifs with hfresh
    · rw [← Nat.add_assoc,ih,filter_cons_of_pos hfresh,total_cons,Nat.add_assoc]
    · have hspare : spare+(f.bytes.length+total rest)-f.bytes.length=spare+total rest := by omega
      rw [hspare,ih,filter_cons_of_neg hfresh]

namespace RelayState
variable {s : RelayState} {fp : Fingerprint} {now : ℕ}

theorem inboxPull_eq : (s.inboxPull now fp).1=
    ((s.box fp).1.filter (TimestampedFrame.fresh s.inboxTtl now)).map (·.bytes) := by
  unfold inboxPull box
  cases s.inboxes fp with
  | none => rfl
  | some inbox => rfl

theorem box_inboxPull (fp') :
    (s.inboxPull now fp).2.box fp'=if fp'=fp then ([],0) else s.box fp' := by
  unfold inboxPull
  split
  · rename_i hnone
    split_ifs with h
    · rw [box,h,hnone]
      rfl
    · rfl
  · simp only [box,Function.update_apply]
    split_ifs
    · rfl
    · rfl

theorem box_cleanupExpired (h : (s.box fp).2=total (s.box fp).1) : (s.cleanupExpired now).box fp=
      ((s.box fp).1.filter (TimestampedFrame.fresh s.inboxTtl now),
        total ((s.box fp).1.filter (TimestampedFrame.fresh s.inboxTtl now))) := by
  unfold cleanupExpired box at *
  cases hbox : s.inboxes fp with
  | none => simp [hbox,total]
  | some inbox =>
    rw [hbox,Option.getD_some] at h
    have hretain:=retainFresh_eq s.inboxTtl now inbox.1 0
    rw [Nat.zero_add,← h] at hretain
    cases hkept : inbox.1.filter (TimestampedFrame.fresh s.inboxTtl now) with
    | nil => simp [hbox,hretain,hkept,total,Option.filter]
    | cons f rest => simp [hbox,hretain,hkept,Option.filter]

end RelayState

structure InboxLog.Exact (caps : RelayState) (clock : ℕ) (log : InboxLog) : Prop where
  same : ∃ online inboxes,log.state={ caps with online := online,inboxes := inboxes }
  booked : ∀ fp,Booked caps clock (log.state.box fp) (log.accepted fp)

theorem RelayState.fitted_length {s : RelayState} {target} {frame : List UInt8}
    (h : (s.box target).1.length ≤ s.maxInboxMessages) (hcap : 1 ≤ s.maxInboxMessages) :
    (s.fitted target frame).1.length<s.maxInboxMessages :=
  (dropForBytes_dropped _ _ _ _).suffix.length_le.trans_lt (dropForCount_length h hcap)

theorem InboxLog.Exact.push {caps : RelayState} {now : ℕ} {log : InboxLog}
    (h : log.Exact caps now) (hcap : 1≤caps.maxInboxMessages) (eviction source target frame) :
    (log.step now (.push eviction source target frame)).Exact caps now := by
  obtain ⟨online,inboxes,hsame⟩ := h.same
  have hdrop:=log.state.fitted_dropped target frame
  have hbox:=(h.booked target).shrink hdrop.suffix (hdrop.exact (h.booked target).counter)
  rw [step]
  by_cases haway : log.state.TurnedAway eviction source target frame
  · obtain ⟨hrefused,hstate⟩ := RelayState.inboxPush_away haway now
    generalize log.state.inboxPush eviction now source target frame=pushed at *
    split
    · exact absurd rfl hrefused
    · dsimp only at hstate
      rw [hstate]
      exact h
  rw [RelayState.inboxPush_let_in haway]
  split_ifs with hfull
  · refine ⟨⟨online,_,by rw [hsame]⟩,fun fp => ?_⟩
    rw [RelayState.box_update]
    split_ifs with hfp
    · exact hfp ▸ hbox
    · exact h.booked fp
  · refine ⟨⟨online,_,by rw [hsame]⟩,fun fp => ?_⟩
    simp only [RelayState.box_update,Function.update_apply]
    split_ifs with hfp
    · refine hbox.push ?_ ?_
      · rw [hsame] at hfull ⊢
        exact not_lt.mp hfull
      · have hlength:=(h.booked target).messages
        rw [hsame] at hlength ⊢
        exact RelayState.fitted_length hlength hcap
    · exact h.booked fp

theorem InboxLog.Exact.step {caps : RelayState} {clock now : ℕ} {log : InboxLog}
    (h : log.Exact caps clock) (hcap : 1≤caps.maxInboxMessages) (hle : clock≤now) (event) :
    (log.step now event).Exact caps now := by
  have hlater : log.Exact caps now := ⟨h.same,fun fp => (h.booked fp).later hle⟩
  obtain ⟨online,inboxes,hsame⟩ := h.same
  cases event with
  | push eviction source target frame => exact hlater.push hcap eviction source target frame
  | pull fp =>
    refine ⟨⟨online,?_⟩,fun fp' => ?_⟩
    · obtain ⟨inboxes',hwrites⟩ := log.state.inboxPull_writes now fp
      exact ⟨inboxes',by rw [InboxLog.step,hwrites,hsame]⟩
    · simp only [InboxLog.step,RelayState.box_inboxPull,Function.update_apply]
      split_ifs
      · exact .empty caps now
      · exact hlater.booked fp'
  | sweep =>
    refine ⟨⟨online,_,by rw [InboxLog.step,RelayState.cleanupExpired,hsame]⟩,fun fp => ?_⟩
    have hbooked:=hlater.booked fp
    rw [InboxLog.step,RelayState.box_cleanupExpired hbooked.counter]
    exact hbooked.shrink (filter_fresh_suffix _ _ (hbooked.ordered.sublist
      hbooked.suffix.sublist)) rfl
  | presence online' => exact ⟨⟨online',inboxes,by rw [InboxLog.step,hsame]⟩,hlater.booked⟩

theorem InboxLog.Exact.run {caps : RelayState} {clock : ℕ} {log : InboxLog}
    (h : log.Exact caps clock) (hcap : 1≤caps.maxInboxMessages) {events}
    (hclock : (clock::events.map Prod.fst).Pairwise (· ≤ ·)) :
    ∃ clock',(log.run events).Exact caps clock' := by
  induction events generalizing log clock with
  | nil => exact ⟨clock,h⟩
  | cons event events ih =>
    obtain ⟨hfirst,hrest⟩ := pairwise_cons.mp hclock
    exact ih (h.step hcap (hfirst _ (.head _)) event.2) hrest

theorem inbox_bookkeeping (maxForwardings maxInboxMessages maxInboxBytes inboxTtlSecs : ℕ)
    (hcap : 1 ≤ maxInboxMessages) (events : List (ℕ × InboxEvent))
    (hclock : (events.map Prod.fst).Pairwise (· ≤ ·)) (fp : Fingerprint) :
    let log:=InboxLog.run ⟨.withCaps maxForwardings maxInboxMessages maxInboxBytes inboxTtlSecs,
      fun _ => []⟩ events
    (log.state.box fp).2=total (log.state.box fp).1 ∧
      (log.state.box fp).2 ≤ maxInboxBytes ∧ (log.state.box fp).1.length ≤ maxInboxMessages ∧
      (log.state.box fp).1 <:+ log.accepted fp ∧
      ∀ now,(log.state.inboxPull now fp).1=((log.state.box fp).1.filter
        (TimestampedFrame.fresh (inboxTtlSecs*nanosPerSec) now)).map (·.bytes) := by
  intro log
  have hstart : InboxLog.Exact (.withCaps maxForwardings maxInboxMessages maxInboxBytes
      inboxTtlSecs) 0 ⟨.withCaps maxForwardings maxInboxMessages maxInboxBytes inboxTtlSecs,
        fun _ => []⟩ := ⟨⟨∅,fun _ => none,rfl⟩,fun fp => .empty _ _⟩
  obtain ⟨clock,⟨online,inboxes,hsame⟩,hbooked⟩ := hstart.run hcap
    (pairwise_cons.mpr ⟨fun _ _ => Nat.zero_le _,hclock⟩)
  obtain ⟨hcounter,hbytes,hmessages,hsuffix,-,-⟩ := hbooked fp
  refine ⟨hcounter,hbytes,hmessages,hsuffix,fun now => ?_⟩
  rw [RelayState.inboxPull_eq]
  congr 3
  exact congrArg RelayState.inboxTtl hsame

def Sample.inboxEvents : List (ℕ × InboxEvent) :=
  [(0,.presence {⟨List.Vector.replicate 32 0⟩}),
    (1,.push ∅ ⟨List.Vector.replicate 32 1⟩ ⟨List.Vector.replicate 32 0⟩ [1,2,3]),(2,.sweep)]

theorem inbox_bookkeeping_one_frame :
    let s:=(InboxLog.run ⟨.withCaps 1 4 8 60,fun _ => []⟩ Sample.inboxEvents).state
    s.box ⟨List.Vector.replicate 32 0⟩=([⟨[1,2,3],1⟩],3) ∧
      (s.inboxPull 3 ⟨List.Vector.replicate 32 0⟩).1=[[1,2,3]] := by
  intro s
  have hbox : s.box ⟨List.Vector.replicate 32 0⟩=([⟨[1,2,3],1⟩],3) := by decide +kernel
  have hpull:=(inbox_bookkeeping 1 4 8 60 (by decide) Sample.inboxEvents (by decide)
    ⟨List.Vector.replicate 32 0⟩).2.2.2.2 3
  refine ⟨hbox,hpull.trans ?_⟩
  rw [show (InboxLog.run _ Sample.inboxEvents).state.box _=_ from hbox]
  decide +kernel

end OriginTools.Network
