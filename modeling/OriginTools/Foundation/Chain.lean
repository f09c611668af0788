import Mathlib

/-!
# Following a chain of single successors

The loop `while not stop x { x = next x }` over a partial successor function whose reads
may fail.
-/

namespace OriginTools.Chain
open Relation.ReflTransGen
variable {α ε : Type}

inductive Halt (α ε : Type) where
  | hit (x : α)
  | root (x : α)
  | stuck (x : α) (e : ε)
  deriving DecidableEq,Repr

def follow (stop : α → Bool) (next : α → Except ε (Option α)) : ℕ → α → Option (Halt α ε)
  | 0,_ => none
  | n+1,x =>
    if stop x then some (.hit x)
    else match next x with
      | .error e => some (.stuck x e)
      | .ok none => some (.root x)
      | .ok (some y) => follow stop next n y

def Next (next : α → Except ε (Option α)) (x y : α) : Prop := next x=.ok (some y)

abbrev OnChain (next : α → Except ε (Option α)) (x y : α) : Prop :=
  Relation.ReflTransGen (Next next) x y

def Ends (stop : α → Bool) (next : α → Except ε (Option α)) (x : α) : Halt α ε → Prop
  | .hit y => OnChain next x y ∧ stop y=true
  | .root y => OnChain next x y ∧ stop y=false ∧ next y=.ok none
  | .stuck y e => OnChain next x y ∧ stop y=false ∧ next y=.error e

variable {stop : α → Bool} {next : α → Except ε (Option α)} {r : Halt α ε}

theorem ends_head {x y} (h : Next next x y) (hr : Ends stop next y r) : Ends stop next x r := by
  cases r with
  | hit | root | stuck => exact ⟨head h hr.1,hr.2⟩

theorem follow_ends {n} (x : α) (h : follow stop next n x=some r) : Ends stop next x r := by
  induction n generalizing x with
  | zero => simp [follow] at h
  | succ n ih =>
    simp only [follow] at h
    split_ifs at h with hs
    · cases h
      exact ⟨refl,hs⟩
    have hs : stop x=false := by simpa using hs
    rcases hn : next x with e | y
    · simp only [hn] at h
      cases h
      exact ⟨refl,hs,hn⟩
    · cases y with
      | none =>
        simp only [hn] at h
        cases h
        exact ⟨refl,hs,hn⟩
      | some y =>
        simp only [hn] at h
        exact ends_head hn (ih y h)

theorem follow_first {n} (x z : α) (h : follow stop next n x=some r) (hz : OnChain next x z)
    (hs : stop z=true) : ∃ y,r=.hit y ∧ OnChain next y z := by
  induction n generalizing x with
  | zero => simp [follow] at h
  | succ n ih =>
    simp only [follow] at h
    split_ifs at h with hx
    · cases h
      exact ⟨x,rfl,hz⟩
    rcases cases_head hz with he | ⟨y,hy,hrest⟩
    · exact absurd (he ▸ hs) hx
    · simp only [show next x=.ok (some y) from hy] at h
      exact ih y h hrest

/-- On an acyclic chain whose inner nodes come from a list, one step more than
the list is long is enough. `past` collects the nodes already left behind. -/
theorem follow_returns_past (stop : α → Bool) {dom} (hdom : ∀ x y,Next next x y → x∈dom)
    (hacyc : ∀ x,¬Relation.TransGen (Next next) x x) {n} (x : α) (past : List α)
    (hnodup : past.Nodup) (hsub : past ⊆ dom)
    (hpast : ∀ p∈past,Relation.TransGen (Next next) p x) (hn : dom.length<n+past.length) :
    ∃ r,follow stop next n x=some r := by
  induction n generalizing x past with
  | zero =>
    have hle : past.length≤dom.length := (hnodup.subperm hsub).length_le
    omega
  | succ n ih =>
    simp only [follow]
    split_ifs with hs
    · exact ⟨_,rfl⟩
    rcases hx : next x with e | y
    · exact ⟨_,rfl⟩
    rcases y with _ | y
    · exact ⟨_,rfl⟩
    have hstep : Next next x y := hx
    have hfresh : x∉past := fun hm => hacyc x (hpast x hm)
    refine ih y (x::past) (List.nodup_cons.mpr ⟨hfresh,hnodup⟩) ?_ ?_ ?_
    · exact List.cons_subset.mpr ⟨hdom x y hstep,hsub⟩
    · intro p hp
      rcases List.mem_cons.mp hp with he | hp
      · exact he ▸ Relation.TransGen.single hstep
      · exact (hpast p hp).tail hstep
    · simp only [List.length_cons]
      omega

theorem follow_returns (stop : α → Bool) (next : α → Except ε (Option α)) (dom : List α)
    (hdom : ∀ x y,Next next x y → x∈dom)
    (hacyc : ∀ x,¬Relation.TransGen (Next next) x x) (x : α) :
    ∃ r,follow stop next (dom.length+1) x=some r :=
  follow_returns_past stop hdom hacyc x [] List.nodup_nil (List.nil_subset _) (by simp) (by simp)

end OriginTools.Chain
