import Mathlib

/-!
# Rolling windows

A counter for the current window of a clock: it starts again whenever the window
changes, and it saturates at `max`.
-/

namespace OriginTools

structure RollingWindow where
  key : ℕ
  spent : ℕ

structure WindowUse where
  checked : ℕ
  recorded : ℕ
  amount : ℕ

namespace RollingWindow

def roll (w : RollingWindow) (key : ℕ) : RollingWindow :=
  if key≠w.key then ⟨key,0⟩ else w

def add (max : ℕ) (w : RollingWindow) (amount : ℕ) : RollingWindow :=
  { w with spent := min (w.spent+amount) max }

def recordedIn (key : ℕ) (uses : List WindowUse) : ℕ :=
  ((uses.filter fun u => u.recorded=key).map (·.amount)).sum

def within (key : ℕ) (uses : List WindowUse) : ℕ :=
  ((uses.filter fun u => u.checked=key ∧ u.recorded=key).map (·.amount)).sum

@[simp] theorem roll_key (w : RollingWindow) (key : ℕ) : (w.roll key).key=key := by
  unfold roll
  split
  · rfl
  case isFalse h =>
    rw [not_not] at h
    exact h.symm

@[simp] theorem add_key (max) (w : RollingWindow) (amount) : (w.add max amount).key=w.key := rfl

variable {w : RollingWindow} {key : ℕ}

theorem roll_of_eq (h : w.key=key) : w.roll key=w := by
  unfold roll
  rw [if_neg (not_not.2 h.symm)]

theorem recordedIn_concat (key uses) (u : WindowUse) : recordedIn key (uses++[u])=
      recordedIn key uses+if u.recorded=key then u.amount else 0 := by
  unfold recordedIn
  by_cases h : u.recorded=key
  · simp [List.filter_append,h]
  · simp [List.filter_append,h]

theorem within_concat (key uses) (u : WindowUse) : within key (uses++[u])=
      within key uses+if u.checked=key ∧ u.recorded=key then u.amount else 0 := by
  unfold within
  by_cases h : u.checked=key ∧ u.recorded=key
  · simp [List.filter_append,h]
  · rw [List.filter_append,List.filter_cons_of_neg (by simpa using h)]
    simp [h]

theorem within_le_recordedIn (key uses) : within key uses≤recordedIn key uses := by
  induction uses using List.reverseRecOn with
  | nil => exact Nat.le_refl _
  | append_singleton uses u ih =>
    rw [within_concat,recordedIn_concat]
    by_cases h : u.recorded=key
    · simp only [h,and_true,if_true]
      split <;> omega
    · simp only [h,and_false,if_false]
      omega

structure Accounts (max : ℕ) (w : RollingWindow) (last : ℕ) (uses : List WindowUse) : Prop where
  recorded_le : ∀ u∈uses,u.recorded≤last
  current : uses=[] ∨ w.key=last
  spent : min (recordedIn w.key uses) max≤w.spent

theorem accounts_nil (max w last) : Accounts max w last [] where
  recorded_le := fun _ h => by cases h
  current := .inl rfl
  spent := by simp [recordedIn]

variable {uses : List WindowUse}

theorem recordedIn_eq_zero (h : ∀ u∈uses,u.recorded≠key) : recordedIn key uses=0 := by
  unfold recordedIn
  rw [List.filter_eq_nil_iff.2 fun u hu => by simpa using h u hu]
  rfl

/-- A later window starts from nothing because nothing was recorded in it yet. -/
theorem Accounts.roll {max last} (h : Accounts max w last uses) (hkey : last≤key) :
    Accounts max (w.roll key) key uses where
  recorded_le := fun u hu => Nat.le_trans (h.recorded_le u hu) hkey
  current := .inr (roll_key w key)
  spent := by
    by_cases hsame : w.key=key
    · rw [roll_of_eq hsame]
      exact h.spent
    have hnone : recordedIn key uses=0 := by
      apply recordedIn_eq_zero
      intro u hu heq
      rcases h.current with hnil | hlast
      · rw [hnil] at hu
        cases hu
      · have hle:=h.recorded_le u hu
        omega
    rw [roll_key,hnone]
    simp

theorem Accounts.add {max} (h : Accounts max w key uses) (hkey : w.key=key) (checked amount : ℕ) :
    Accounts max (w.add max amount) key (uses++[⟨checked,key,amount⟩]) where
  recorded_le := by
    intro u hu
    rw [List.mem_append,List.mem_singleton] at hu
    rcases hu with hu | hu
    · exact h.recorded_le u hu
    · rw [hu]
  current := .inr hkey
  spent := by
    have hspent:=h.spent
    rw [add_key,recordedIn_concat]
    simp only [RollingWindow.add,hkey,if_true]
    rw [hkey] at hspent
    omega

theorem within_le_of_check {max cap} (hcap : cap < max) {checked} (h : Accounts max w checked uses)
    (hkey : w.key=checked) {amount} (hcheck : min (w.spent+amount) max≤cap)
    (hbefore : ∀ k,within k uses≤cap) (recorded : ℕ) :
    ∀ k,within k (uses++[⟨checked,recorded,amount⟩])≤cap := by
  intro k
  have hk:=hbefore k
  rw [within_concat]
  by_cases hsame : checked=k ∧ recorded=k
  · have hspent:=h.spent
    have hle:=within_le_recordedIn k uses
    rw [hkey,hsame.1] at hspent
    rw [if_pos hsame]
    simp only
    omega
  · rw [if_neg hsame]
    omega

end RollingWindow
end OriginTools
