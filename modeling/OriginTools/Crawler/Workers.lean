import Mathlib

/-!
# The crawler's workers and their queue

Each worker pops a URL, counts it as in flight, processes it, enqueues the links it
found and counts it out again, one step after the other; the steps of different workers
interleave in any order.
-/

namespace OriginTools.Crawler
open List
variable {U : Type} [DecidableEq U]

structure Item (U : Type) where
  url : U
  depth : ℕ
  deriving DecidableEq

structure Entry (U : Type) where
  foreign : Bool
  seq : ℕ
  item : Item U
  deriving DecidableEq

def Entry.key (e : Entry U) : ℕ ×ₗ (Bool ×ₗ ℕ) := toLex (e.item.depth,toLex (e.foreign,e.seq))

/-- The queue, and the URLs ever accepted with the depths they got. -/
structure Frontier (U : Type) where
  heap : List (Entry U) := []
  seq : ℕ := 0
  seen : List (Item U) := []

inductive Phase (U : Type) where
  | idle
  | starved
  | popped (i : Item U)
  | counted (i : Item U)
  | working (i : Item U) (todo : List U)
  | returned
  deriving DecidableEq

structure Crawl (U : Type) (n : ℕ) where
  frontier : Frontier U
  workers : Fin (n+1) → Phase U
  inflight : ℕ
  processed : List (Item U)

section
variable (foreign fits : U → Bool)

def Frontier.push (f : Frontier U) (u : U) (depth : ℕ) : Frontier U :=
  if fits u ∧ u∉f.seen.map Item.url then
    { heap := ⟨foreign u,f.seq,⟨u,depth⟩⟩::f.heap
      seq := f.seq+1
      seen := ⟨u,depth⟩::f.seen }
  else f

def Frontier.pop (f : Frontier U) : Option (Item U × Frontier U) :=
  (f.heap.argmin Entry.key).map fun e => (e.item,{ f with heap := f.heap.erase e })

namespace Crawl
variable {n : ℕ}

def setPhase (s : Crawl U n) (w : Fin (n+1)) (p : Phase U) : Crawl U n :=
  { s with workers := Function.update s.workers w p }

def step (discover : Item U → List U) (s : Crawl U n) (w : Fin (n+1)) : Crawl U n :=
  match s.workers w with
  | .idle =>
      match s.frontier.pop with
      | some (i,f) => { s with frontier := f }.setPhase w (.popped i)
      | none => s.setPhase w .starved
  | .starved => s.setPhase w (if s.inflight=0 then .returned else .idle)
  | .popped i => { s with inflight := s.inflight+1 }.setPhase w (.counted i)
  | .counted i => { s with processed := i::s.processed }.setPhase w (.working i (discover i))
  | .working i (u::todo) =>
      { s with frontier := s.frontier.push foreign fits u (i.depth+1) }.setPhase w
        (.working i todo)
  | .working _ [] => { s with inflight := s.inflight - 1 }.setPhase w .idle
  | .returned => s

def start (initial : List (Item U)) : Crawl U n where
  frontier := initial.foldl (fun f i => f.push foreign fits i.url i.depth) {}
  workers := fun _ => .idle
  inflight := 0
  processed := []

/-- A turn names the worker and what processing finds if it is its turn to process. -/
def run (s : Crawl U n) (turns : List (Fin (n+1) × (Item U → List U))) : Crawl U n :=
  turns.foldl (fun s t => s.step foreign fits t.2 t.1) s

end Crawl

end
namespace Phase

def held (i : Item U) : Phase U → ℕ
  | .popped j | .counted j => if j=i then 1 else 0
  | _ => 0

def active : Phase U → Prop
  | .starved | .returned => False
  | _ => True

end Phase

variable {foreign fits : U → Bool} {n : ℕ}

/-- Every accepted URL is queued, held by one worker or processed, and a queue that is not
empty has a worker that will look at it. -/
structure Crawl.Whole (s : Crawl U n) : Prop where
  once : ∀ i, (s.frontier.heap.map Entry.item).count i + ∑ w, (s.workers w).held i+
    s.processed.count i=s.frontier.seen.count i
  fresh : (s.frontier.seen.map Item.url).Nodup
  watched : s.frontier.heap≠[] → ∃ w, (s.workers w).active

theorem sum_held_update (workers : Fin (n+1) → Phase U) (w : Fin (n+1)) (p : Phase U)
    (i : Item U) :
    ∑ v, (Function.update workers w p v).held i+(workers w).held i=
      ∑ v, (workers v).held i+p.held i := by
  have hrest : ∑ v∈Finset.univ.erase w, (Function.update workers w p v).held i=
      ∑ v∈Finset.univ.erase w, (workers v).held i :=
    Finset.sum_congr rfl fun v hv => by rw [Function.update_of_ne (Finset.ne_of_mem_erase hv)]
  rw [← Finset.add_sum_erase _ _ (Finset.mem_univ w),← Finset.add_sum_erase _ _ (Finset.mem_univ w),
    hrest,Function.update_self]
  omega

namespace Crawl
variable {s : Crawl U n}

theorem Whole.update (h : s.Whole) {w p f inflight processed}
    (honce : ∀ i, (f.heap.map Entry.item).count i+p.held i+processed.count i+
        s.frontier.seen.count i=
      (s.frontier.heap.map Entry.item).count i+(s.workers w).held i+s.processed.count i+
        f.seen.count i) (hfresh : (f.seen.map Item.url).Nodup)
    (hwatched : f.heap≠[] → p.active ∨ ∃ v≠w, (s.workers v).active) :
    Whole ⟨f,Function.update s.workers w p,inflight,processed⟩ where
  once i := by
    have hsum:=sum_held_update s.workers w p i
    have hbefore:=h.once i
    have hstep:=honce i
    simp only
    omega
  fresh := hfresh
  watched hheap := by
    rcases hwatched hheap with hp | ⟨v,hv,hactive⟩
    · exact ⟨w,by simpa using hp⟩
    · exact ⟨v,by simpa [hv] using hactive⟩

theorem push_whole {f : Frontier U} (hfresh : (f.seen.map Item.url).Nodup) (u : U) (depth : ℕ) :
    ((f.push foreign fits u depth).seen.map Item.url).Nodup ∧
      ∀ i, ((f.push foreign fits u depth).heap.map Entry.item).count i+f.seen.count i=
        (f.heap.map Entry.item).count i+(f.push foreign fits u depth).seen.count i := by
  unfold Frontier.push
  split_ifs with h
  · refine ⟨nodup_cons.2 ⟨h.2,hfresh⟩,fun i => ?_⟩
    simp only [map_cons,count_cons]
    omega
  · exact ⟨hfresh,fun i => rfl⟩

theorem pop_eq_some {f f' : Frontier U} {i : Item U} (h : f.pop=some (i,f')) :
    f'.seen=f.seen ∧ (f.heap.map Entry.item).Perm (i::f'.heap.map Entry.item) ∧
      ∀ e∈f.heap, i.depth≤e.item.depth := by
  obtain ⟨e,he,h⟩ := Option.map_eq_some_iff.1 h
  cases h
  refine ⟨rfl,(perm_cons_erase (argmin_mem he)).map Entry.item,fun e' he' => ?_⟩
  have hle:=le_of_mem_argmin he' he
  rcases Prod.Lex.toLex_le_toLex.1 hle with hlt | ⟨heq,-⟩
  · exact hlt.le
  · exact heq.le

theorem pop_eq_none {f : Frontier U} (h : f.pop=none) : f.heap=[] :=
  argmin_eq_none.1 (Option.map_eq_none_iff.1 h)

theorem whole_step (h : s.Whole) (discover : Item U → List U) (w : Fin (n+1)) :
    (s.step foreign fits discover w).Whole := by
  unfold step
  split
  next hw =>
    cases hpop : s.frontier.pop with
    | none =>
      refine h.update (fun i => by simp [hw,Phase.held]) h.fresh fun hheap => ?_
      exact absurd (pop_eq_none hpop) hheap
    | some popped =>
      obtain ⟨i,f⟩ := popped
      obtain ⟨hseen,hperm,-⟩ := pop_eq_some hpop
      refine h.update (fun j => ?_) (hseen ▸ h.fresh) fun _ => .inl trivial
      rw [hperm.count_eq,count_cons,hseen,hw]
      simp only [Phase.held,beq_iff_eq]
      omega
  next hw =>
    refine h.update (fun i => by split_ifs <;> simp [hw,Phase.held]) h.fresh fun hheap => ?_
    obtain ⟨v,hv⟩ := h.watched hheap
    exact .inr ⟨v,fun he => by simp [he,hw,Phase.active] at hv,hv⟩
  next i hw =>
    exact h.update (fun j => by simp [hw,Phase.held]) h.fresh fun _ => .inl trivial
  next i hw =>
    refine h.update (fun j => ?_) h.fresh fun _ => .inl trivial
    simp only [hw,Phase.held,count_cons,beq_iff_eq]
    omega
  next i u todo hw =>
    have hpush:=@push_whole U _ foreign fits _ h.fresh u (i.depth+1)
    refine h.update (fun j => ?_) hpush.1 fun _ => .inl trivial
    have hj:=hpush.2 j
    simp only [hw,Phase.held]
    omega
  next i hw =>
    exact h.update (fun j => by simp [hw,Phase.held]) h.fresh fun _ => .inl trivial
  next => exact h

theorem whole_start (initial : List (Item U)) :
    (start foreign fits initial : Crawl U n).Whole := by
  have hpushes : ∀ f : Frontier U, (f.seen.map Item.url).Nodup →
      (∀ i, (f.heap.map Entry.item).count i=f.seen.count i) →
      let f':=initial.foldl (fun f i => f.push foreign fits i.url i.depth) f
      (f'.seen.map Item.url).Nodup ∧ ∀ i, (f'.heap.map Entry.item).count i=f'.seen.count i := by
    induction initial with
    | nil => exact fun f hfresh hcount => ⟨hfresh,hcount⟩
    | cons i initial ih =>
      intro f hfresh hcount
      have hpush:=@push_whole U _ foreign fits _ hfresh i.url i.depth
      refine ih _ hpush.1 fun j => ?_
      have hj:=hpush.2 j
      rw [hcount j,Nat.add_comm] at hj
      exact Nat.add_left_cancel hj
  obtain ⟨hfresh,hcount⟩ := hpushes {} nodup_nil fun _ => rfl
  exact ⟨fun i => by simp [start,Phase.held,hcount i],hfresh,fun _ => ⟨0,trivial⟩⟩

theorem whole_run (h : s.Whole) (turns : List (Fin (n+1) × (Item U → List U))) :
    (s.run foreign fits turns).Whole := by
  induction turns generalizing s with
  | nil => exact h
  | cons t turns ih => exact ih (whole_step h t.2 t.1)

theorem Whole.drained (h : s.Whole) (hreturned : ∀ w, s.workers w=.returned) :
    s.frontier.heap=[] ∧ s.processed.Perm s.frontier.seen := by
  have hheap : s.frontier.heap=[] := by
    by_contra hne
    obtain ⟨w,hw⟩ := h.watched hne
    rw [hreturned w] at hw
    exact hw
  refine ⟨hheap,perm_iff_count.2 fun i => ?_⟩
  have honce:=h.once i
  simpa [hheap,hreturned,Phase.held] using honce

end Crawl

namespace Sample

def home (_ : ℕ) : Bool := false

def short (_ : ℕ) : Bool := true

end Sample

open Sample

end OriginTools.Crawler
