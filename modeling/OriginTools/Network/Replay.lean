import OriginTools.Network.Wire

/-!
# Replayed handshake frames

`origin-network/src/replay.rs`: the first 8 bytes of every fresh frame are kept in a set and
in a queue, and the oldest is forgotten when the queue is full. Only the set is written to
disk; a loaded queue has the order of the file.
-/

namespace OriginTools.Network
open List

abbrev ReplayNonce := List.Vector UInt8 8

def replayCap : ℕ := 2^20

structure HandshakeReplayTracker where
  seen : Finset ReplayNonce
  order : List ReplayNonce
  cap : ℕ
  deriving DecidableEq

namespace HandshakeReplayTracker

def new : HandshakeReplayTracker := ⟨∅,[],replayCap⟩

def nonceOf (frame : List UInt8) : Option ReplayNonce :=
  if h : 8≤frame.length then some ⟨frame.take 8,by rw [length_take,min_eq_left h]⟩ else none

/-- A nonce that stands in the queue once more stays in the set. -/
def evict (cap : ℕ) (seen : Finset ReplayNonce) :
    List ReplayNonce → Finset ReplayNonce × List ReplayNonce
  | [] => (seen,[])
  | old::order =>
    if cap<(old::order).length then
      evict cap (if old∈order then seen else seen.erase old) order
    else (seen,old::order)

def checkAndTrack (t : HandshakeReplayTracker) (frame : List UInt8) :
    Bool × HandshakeReplayTracker :=
  match nonceOf frame with
  | none => (true,t)
  | some nonce =>
    if nonce∈t.seen then (false,t)
    else
      let kept:=evict t.cap (insert nonce t.seen) (t.order++[nonce])
      (true,{ t with seen := kept.1,order := kept.2 })

def magic : List UInt8 := [79,78,82,80]

/-- What `save` writes when the set is walked through in the order `written`. -/
def save (written : List ReplayNonce) : List UInt8 :=
  magic++[1]++written.flatMap List.Vector.toList

def readNonces : List UInt8 → List ReplayNonce
  | a::b::c::d::e::f::g::h::rest => ⟨[a,b,c,d,e,f,g,h],rfl⟩::readNonces rest
  | _ => []

def load (cap : ℕ) : Option (List UInt8) → Except NetworkError HandshakeReplayTracker
  | none => .ok ⟨∅,[],cap⟩
  | some bytes =>
    if bytes.length<5 then .error (.transport "replay state truncated")
    else if bytes.take 4≠magic then .error (.transport "bad replay state magic")
    else if bytes[4]?≠some 1 then
      .error (.transport s!"unknown replay state version {(bytes[4]?.getD 0).toNat}")
    else if (bytes.drop 5).length%8≠0 then .error (.transport "replay state body misaligned")
    else .ok ⟨(readNonces (bytes.drop 5)).toFinset,readNonces (bytes.drop 5),cap⟩

end HandshakeReplayTracker

open HandshakeReplayTracker

inductive ReplayEvent where
  | check (frame : List UInt8)
  | save (written : List ReplayNonce)
  | load

/-- The tracker, its file, and the nonces of the fresh frames so far, the newest last. -/
structure ReplayGuard where
  tracker : HandshakeReplayTracker
  file : Option (List UInt8)
  recorded : List ReplayNonce

namespace ReplayGuard

def new (cap : ℕ) : ReplayGuard := ⟨⟨∅,[],cap⟩,none,[]⟩

def step (cap : ℕ) (s : ReplayGuard) : ReplayEvent → ReplayGuard
  | .check frame =>
    let (fresh,tracker) := s.tracker.checkAndTrack frame
    { s with
      tracker := tracker
      recorded := s.recorded++if fresh then (nonceOf frame).toList else [] }
  | .save written => { s with file := some (HandshakeReplayTracker.save written) }
  | .load =>
    match HandshakeReplayTracker.load cap s.file with
    | .ok tracker => { s with tracker := tracker }
    | .error _ => s

/-- A save writes the nonces in the order of the queue; a load finds the queue as it is now. -/
def Orderly (s : ReplayGuard) : ReplayEvent → Prop
  | .check _ => True
  | .save written => written=s.tracker.order
  | .load => s.file=some (HandshakeReplayTracker.save s.tracker.order) ∨
      s.file=none ∧ s.recorded=[]

def OrderlyRun (cap : ℕ) : ReplayGuard → List ReplayEvent → Prop
  | _,[] => True
  | s,e::events => s.Orderly e ∧ OrderlyRun cap (s.step cap e) events

def run (cap : ℕ) (events : List ReplayEvent) : ReplayGuard := events.foldl (step cap) (new cap)

end ReplayGuard

theorem readNonces_flatMap (nonces : List ReplayNonce) :
    readNonces (nonces.flatMap List.Vector.toList)=nonces := by
  induction nonces with
  | nil => rfl
  | cons nonce nonces ih =>
    match nonce with
    | ⟨[a,b,c,d,e,f,g,h],hlen⟩ => exact congrArg (cons _) ih

theorem load_save (cap nonces) :
    load cap (some (save nonces))=.ok ⟨nonces.toFinset,nonces,cap⟩ := by
  have hlen : (nonces.flatMap List.Vector.toList).length%8=0 := by
    rw [length_flatMap]
    simp
  have hdrop : (save nonces).drop 5=nonces.flatMap List.Vector.toList := rfl
  have hlong : ¬ (save nonces).length<5 := by
    simp [save,magic]
  rw [load,if_neg hlong,if_neg (by simp [save,magic]),if_neg (by simp [save,magic]),hdrop,
    if_neg (not_not.mpr hlen),readNonces_flatMap]

theorem evict_eq (cap) {seen order} (hnodup : order.Nodup) (hseen : ∀ n,n∈seen ↔ n∈order) :
    (evict cap seen order).2=order.drop (order.length-cap) ∧
      ∀ n,n∈(evict cap seen order).1 ↔ n∈(evict cap seen order).2 := by
  induction order generalizing seen with
  | nil => exact ⟨drop_nil.symm,hseen⟩
  | cons old order ih =>
    obtain ⟨hold,hnodup⟩ := nodup_cons.mp hnodup
    rw [evict]
    split_ifs with hcap
    · rw [length_cons] at hcap ⊢
      rw [Nat.succ_sub (by omega),drop_succ_cons]
      apply ih hnodup
      intro n
      rw [Finset.mem_erase,hseen,mem_cons]
      constructor
      · rintro ⟨hne,hn⟩
        exact hn.resolve_left hne
      · intro hn
        exact ⟨ne_of_mem_of_not_mem hn hold,.inr hn⟩
    · rw [Nat.sub_eq_zero_of_le (not_lt.mp hcap)]
      exact ⟨rfl,hseen⟩

/-- What stands behind an entry of a duplicate-free end of the list was recorded after it. -/
theorem suffix_after {α : Type} {before after l r : List α} {n : α}
    (h : l++r <:+ before++n::after) (hnodup : (l++r).Nodup) (hn : n∈l) : r <:+ after := by
  have hnr : n∉r := fun hr => disjoint_of_nodup_append hnodup hn hr
  rcases suffix_or_suffix_of_suffix ((suffix_append l r).trans h) (suffix_append before _) with
    hle | hge
  · rcases suffix_cons_iff.mp hle with rfl | hle
    · exact absurd (.head _) hnr
    · exact hle
  · exact absurd (hge.subset (.head _)) hnr

/-- The queue is the end of what was recorded, and what has left it is `cap` nonces back. -/
structure ReplayGuard.Windowed (cap : ℕ) (s : ReplayGuard) : Prop where
  capacity : s.tracker.cap=cap
  seen : ∀ n,n∈s.tracker.seen ↔ n∈s.tracker.order
  nodup : s.tracker.order.Nodup
  recent : s.tracker.order <:+ s.recorded
  window : ∀ before n after,s.recorded=before++n::after →
    n∈s.tracker.order ∨ cap≤after.toFinset.card

namespace ReplayGuard.Windowed
variable {cap : ℕ} {s : ReplayGuard}

theorem record (hs : s.Windowed cap) {nonce} (hfresh : nonce∉s.tracker.seen) {kept}
    (hkept : kept=evict s.tracker.cap (insert nonce s.tracker.seen)
      (s.tracker.order++[nonce])) :
    { s with
      tracker := { s.tracker with seen := kept.1,order := kept.2 }
      recorded := s.recorded++[nonce] }.Windowed cap := by
  have hnodup : (s.tracker.order++[nonce]).Nodup := by
    rw [← concat_eq_append]
    exact hs.nodup.concat (mt (hs.seen nonce).mpr hfresh)
  have hseen : ∀ n,n∈insert nonce s.tracker.seen ↔ n∈s.tracker.order++[nonce] := by
    intro n
    simp [hs.seen,or_comm]
  obtain ⟨horder,hsame⟩ := evict_eq s.tracker.cap hnodup hseen
  rw [← hkept,hs.capacity] at horder
  have hrecent : s.tracker.order++[nonce] <:+ s.recorded++[nonce] := by
    obtain ⟨t,ht⟩ := hs.recent
    exact ⟨t,by rw [← append_assoc,ht]⟩
  refine ⟨hs.capacity,by rw [hkept]; exact hsame,?_,?_,?_⟩
  · exact horder ▸ hnodup.sublist (drop_sublist _ _)
  · exact horder ▸ (drop_suffix _ _).trans hrecent
  intro before n after (hrec : s.recorded++[nonce]=before++n::after)
  have hn : n∈s.tracker.order++[nonce] ∨ cap≤after.toFinset.card := by
    rcases eq_nil_or_concat after with rfl | ⟨after,m,rfl⟩
    · exact .inl (mem_append_right _ (by simpa using congrArg getLast? hrec.symm))
    · have hold : s.recorded=before++n::after := by
        rw [concat_eq_append,← cons_append,← append_assoc] at hrec
        exact (append_inj' hrec rfl).1
      rcases hs.window before n after hold with hin | hcap
      · exact .inl (mem_append_left _ hin)
      · exact .inr (hcap.trans (Finset.card_le_card (by simp)))
  rcases hn with hn | hcap
  · set k := (s.tracker.order++[nonce]).length-cap with hk
    rw [← take_append_drop k (s.tracker.order++[nonce])] at hn hnodup hrecent
    rcases mem_append.mp hn with htake | hdrop
    · right
      have hafter:=suffix_after (hrec ▸ hrecent) hnodup htake
      have hlen : (drop k (s.tracker.order++[nonce])).length=cap := by
        have hpos:=length_pos_of_mem htake
        rw [length_take] at hpos
        rw [length_drop]
        omega
      rw [← hlen,← toFinset_card_of_nodup (hnodup.sublist (sublist_append_right _ _))]
      exact Finset.card_le_card fun x hx =>
        mem_toFinset.mpr (hafter.subset (mem_toFinset.mp hx))
    · exact .inl (horder ▸ hdrop)
  · exact .inr hcap

theorem step (hs : s.Windowed cap) {e} (he : s.Orderly e) : (s.step cap e).Windowed cap := by
  cases e with
  | check frame =>
    unfold ReplayGuard.step checkAndTrack
    dsimp only
    rcases hnonce : nonceOf frame with _ | nonce
    · simpa using hs
    · dsimp only
      by_cases hseen : nonce∈s.tracker.seen
      · simpa [hseen] using hs
      · simpa [hseen] using hs.record hseen rfl
  | save written => exact ⟨hs.capacity,hs.seen,hs.nodup,hs.recent,hs.window⟩
  | load =>
    rcases he with hfile | ⟨hfile,hnone⟩
    · simp only [ReplayGuard.step,hfile,load_save]
      exact ⟨rfl,fun n => mem_toFinset,hs.nodup,hs.recent,hs.window⟩
    · have hempty : s.tracker.order=[] := suffix_nil.mp (hnone ▸ hs.recent)
      simp only [ReplayGuard.step,hfile,load]
      exact ⟨rfl,by simp,.nil,nil_suffix,hempty ▸ hs.window⟩

theorem run {events} (hs : s.Windowed cap) (h : OrderlyRun cap s events) :
    (events.foldl (ReplayGuard.step cap) s).Windowed cap := by
  induction events generalizing s with
  | nil => exact hs
  | cons e events ih => exact ih (hs.step h.1) h.2

theorem new (cap : ℕ) : (ReplayGuard.new cap).Windowed cap :=
  ⟨rfl,by simp [ReplayGuard.new],.nil,nil_suffix,by simp [ReplayGuard.new]⟩

end ReplayGuard.Windowed

open ReplayGuard

end OriginTools.Network
