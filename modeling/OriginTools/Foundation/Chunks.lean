import Mathlib

/-!
# Cutting a list into chunks

`chunks n l` cuts `l` into pieces of `n` elements, the last of which may be shorter; the
empty list has no chunks.
-/

namespace OriginTools
open List
variable {α : Type}

def chunksFrom (n : ℕ) : ℕ → List α → List (List α)
  | 0,_ => []
  | _+1,[] => []
  | fuel+1,x::xs => (x::xs).take n::chunksFrom n fuel ((x::xs).drop n)

def chunks (n : ℕ) (l : List α) : List (List α) := chunksFrom n l.length l

theorem chunksFrom_fuel (n : ℕ) (hn : 0<n) (f g : ℕ) (l : List α) (hf : l.length≤f)
    (hg : l.length≤g) : chunksFrom n f l=chunksFrom n g l := by
  induction f generalizing g l with
  | zero =>
    have hl : l=[] := length_eq_zero_iff.mp (by omega)
    subst hl
    cases g with
    | zero | succ => rfl
  | succ f ih =>
    cases l with
    | nil =>
      cases g with
      | zero | succ => rfl
    | cons x xs =>
      rcases g with _ | g
      · simp at hg
      simp only [length_cons] at hf hg
      have hdrop : ((x::xs).drop n).length≤xs.length := by
        simp only [length_drop,length_cons]
        omega
      simp only [chunksFrom]
      rw [ih g ((x::xs).drop n) (by omega) (by omega)]

@[simp] theorem chunks_nil (n : ℕ) : chunks n ([] : List α)=[] := rfl

variable {n : ℕ} {l : List α}

theorem chunks_cons (hn : 0<n) (hl : l≠[]) : chunks n l=l.take n::chunks n (l.drop n) := by
  rcases l with _ | ⟨x,xs⟩
  · exact absurd rfl hl
  have hdrop : ((x::xs).drop n).length≤xs.length := by
    simp only [length_drop,length_cons]
    omega
  simp only [chunks,length_cons,chunksFrom]
  rw [chunksFrom_fuel n hn xs.length _ ((x::xs).drop n) hdrop le_rfl]

theorem chunks_of_le (hn : 0<n) (hl : l≠[]) (hle : l.length≤n) : chunks n l=[l] := by
  rw [chunks_cons hn hl,take_of_length_le hle,drop_eq_nil_of_le hle,chunks_nil]

theorem chunks_ne_nil (n : ℕ) (hn : 0<n) (l : List α) (hl : l≠[]) : chunks n l≠[] := by
  rw [chunks_cons hn hl]
  exact cons_ne_nil _ _

/-- The argument that follows the cuts: a property of the empty list that passes
from the rest of a list to the list holds of every list. -/
theorem chunks_induction (hn : 0<n) (P : List α → Prop) (hnil : P [])
    (hcut : ∀ l,l≠[] → P (l.drop n) → P l) (l : List α) : P l := by
  induction h : l.length using Nat.strong_induction_on generalizing l with
  | _ k ih =>
    by_cases hl : l=[]
    · exact hl ▸ hnil
    have hpos : 0<l.length := length_pos_iff.mpr hl
    have hlt : (l.drop n).length<k := by
      rw [length_drop]
      omega
    exact hcut l hl (ih _ hlt (l.drop n) rfl)

theorem flatten_chunks (hn : 0<n) (l : List α) : (chunks n l).flatten=l := by
  induction l using chunks_induction hn with
  | hnil => rfl
  | hcut l hl ih => rw [chunks_cons hn hl,flatten_cons,ih,take_append_drop]

theorem chunk_ne_nil (hn : 0<n) (l c : List α) (hc : c∈chunks n l) : c≠[] := by
  induction l using chunks_induction hn with
  | hnil => simp at hc
  | hcut l hl ih =>
    rw [chunks_cons hn hl,mem_cons] at hc
    rcases hc with hc | hc
    · rw [hc]
      simp only [ne_eq,take_eq_nil_iff,hl,or_false]
      omega
    · exact ih hc

theorem chunk_length_le (hn : 0<n) {c} (hc : c∈chunks n l) : c.length≤n := by
  induction l using chunks_induction hn with
  | hnil => simp at hc
  | hcut l hl ih =>
    rw [chunks_cons hn hl,mem_cons] at hc
    rcases hc with hc | hc
    · rw [hc,length_take]
      omega
    · exact ih hc

theorem chunks_length_le (hn : 0<n) (l : List α) : (chunks n l).length≤l.length := by
  have hsum : ((chunks n l).map List.length).sum=l.length := by
    rw [← length_flatten,flatten_chunks hn]
  have hle : ((chunks n l).map List.length).length≤((chunks n l).map List.length).sum := by
    apply length_le_sum_of_one_le
    intro i hi
    obtain ⟨c,hc,rfl⟩ := mem_map.mp hi
    exact length_pos_iff.mpr (chunk_ne_nil hn l c hc)
  rw [length_map,hsum] at hle
  exact hle

end OriginTools
