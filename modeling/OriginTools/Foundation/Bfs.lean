import Mathlib

/-!
# Breadth-first search with parent links

The search keeps the visited nodes, the node each of them was reached from, and a queue.
-/

namespace OriginTools.Bfs

structure Search (α : Type) where
  visited : List α
  parent : List (α × α)
  queue : List α

def Search.start {α : Type} (source : α) : Search α where
  visited := [source]
  parent := []
  queue := [source]

section

variable {α : Type} [DecidableEq α]

def walkUp (parent : List (α × α)) : ℕ → α → List α
  | 0,x => [x]
  | n+1,x =>
    match parent.lookup x with
    | none => [x]
    | some p => walkUp parent n p++[x]

def scan (target current : α) : List α → Search α → Except (List α) (Search α)
  | [],s => .ok s
  | y::ys,s =>
    if y∈s.visited then scan target current ys s
    else if y=target then
      .error (walkUp ((y,current)::s.parent) (s.parent.length+1) y)
    else
      scan target current ys
        { visited := y::s.visited,parent := (y,current)::s.parent,queue := s.queue++[y] }

def search (next : α → List α) (target : α) : ℕ → Search α → Option (List α)
  | 0,_ => none
  | n+1,s =>
    match s.queue with
    | [] => none
    | current::queue =>
      match scan target current (next current) { s with queue := queue } with
      | .error path => some path
      | .ok s' => search next target n s'

inductive Path (edge : α → α → Prop) (source : α) : List α → α → Prop
  | single : Path edge source [source] source
  | snoc {l b c} : Path edge source l b → edge b c → Path edge source (l++[c]) c

/-- `pending` are the visited nodes whose neighbours may not be visited yet, and `level` counts
the steps from the source. -/
structure Layered (next : α → List α) (source : α) (s : Search α) (pending : List α)
    (level : α → ℕ) : Prop where
  root : source∈s.visited ∧ level source=0 ∧ s.parent.lookup source=none
  up : ∀ x∈s.visited,x≠source →
    ∃ p∈s.visited,s.parent.lookup x=some p ∧ x∈next p ∧ level x=level p+1
  short : ∀ x∈s.visited,level x ≤ s.parent.length
  known : ∀ x∈pending,x∈s.visited
  closed : ∀ x∈s.visited,x∉pending → ∀ z∈next x,z∈s.visited ∧ level z≤level x+1
  sorted : pending.Pairwise fun x y => level x≤level y
  near : ∀ x∈s.visited,∀ y∈pending.head?,level x≤level y+1

namespace Layered

variable {next : α → List α} {source target current y : α} {s : Search α} {pending : List α}
  {level : α → ℕ}

/-- A path leads to a visited node, or out of the visited nodes through a pending one. -/
theorem walk (h : Layered next source s pending level) {l x}
    (hpath : Path (fun a b => b∈next a) source l x) :
    (x∈s.visited ∧ level x<l.length) ∨ ∃ y∈pending,level y+1<l.length := by
  induction hpath with
  | single => exact .inl ⟨h.root.1,by simp [h.root.2.1]⟩
  | @snoc l b c _ hc ih =>
    rw [List.length_append,List.length_singleton]
    rcases ih with ⟨hb,hlevel⟩ | ⟨y,hy,hlevel⟩
    · by_cases hpending : b∈pending
      · exact .inr ⟨b,hpending,by omega⟩
      · obtain ⟨hvisited,hle⟩ := h.closed b hb hpending c hc
        exact .inl ⟨hvisited,by omega⟩
    · exact .inr ⟨y,hy,by omega⟩

theorem close (h : Layered next source s (current::s.queue) level)
    (hall : ∀ y∈next current,y∈s.visited) : Layered next source s s.queue level := by
  have hcurrent:=h.known current (.head _)
  refine ⟨h.root,h.up,h.short,fun x hx => h.known x (.tail _ hx),?_,h.sorted.of_cons,?_⟩
  · intro x hx hqueue z hz
    by_cases hxc : x=current
    · subst hxc
      exact ⟨hall z hz,h.near z (hall z hz) x rfl⟩
    · exact h.closed x hx (by simp [hxc,hqueue]) z hz
  · intro x hx y hy
    have hle:=List.rel_of_pairwise_cons h.sorted (List.mem_of_mem_head? hy)
    have hnear:=h.near x hx current rfl
    omega

end Layered

variable {next : α → List α} {source target current : α} {nodes : List α}

end

end OriginTools.Bfs
