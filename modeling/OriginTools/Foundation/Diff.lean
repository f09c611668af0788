import Mathlib

/-!
# Alignments of two sequences

The longest-common-subsequence recurrence on suffixes, and the alignment that a
backtrace from the start follows: a target element equal to the current base element is
matched; otherwise the step goes to the side whose remaining common subsequence is not
shorter, the target first.
-/

namespace OriginTools.Diff
variable {α : Type} [DecidableEq α]

/-- One line of the table: the suffix that starts with `x`, given the line of the
suffix below it. -/
def lcsRow (x : α) (below : List α → ℕ) : List α → ℕ
  | [] => 0
  | y::ys => if x=y then below ys+1 else max (below (y::ys)) (lcsRow x below ys)

def lcs : List α → List α → ℕ
  | [],_ => 0
  | x::xs,ys => lcsRow x (lcs xs) ys

theorem lcs_cons_self (x : α) (xs ys : List α) : lcs (x::xs) (x::ys)=lcs xs ys+1 := by
  simp [lcs,lcsRow]

structure Row (α : Type) where
  before : List α
  line : α
  kept : Bool
  deriving DecidableEq,Repr

def Row.consumed (r : Row α) : List α := r.before++if r.kept then [r.line] else []

/-- The row of `line`, which stands before `below` in the base, and the rows
after it; `held` are the target elements skipped so far. -/
def scanRow (line : α) (below : List α) (next : List α → List (Row α) × List α) :
    List α → List α → List (Row α) × List α
  | [],held => (⟨held,line,false⟩::(next []).1,(next []).2)
  | y::ys,held =>
    if line=y then (⟨held,line,true⟩::(next ys).1,(next ys).2)
    else if lcs below (y::ys)≤lcs (line::below) ys then scanRow line below next ys (held++[y])
    else (⟨held,line,false⟩::(next (y::ys)).1,(next (y::ys)).2)

def scan : List α → List α → List (Row α) × List α
  | [],target => ([],target)
  | line::base,target => scanRow line base (scan base) target []

theorem scanRow_lines (line : α) {below next} (hnext : ∀ ys,(next ys).1.map Row.line=below)
    (ys held : List α) : (scanRow line below next ys held).1.map Row.line=line::below := by
  induction ys generalizing held with
  | nil => simp [scanRow,hnext]
  | cons y ys ih =>
    simp only [scanRow]
    split_ifs
    · simp [hnext]
    · exact ih (held++[y])
    · simp [hnext]

theorem scan_lines (base target : List α) : (scan base target).1.map Row.line=base := by
  induction base generalizing target with
  | nil => rfl
  | cons line base ih => exact scanRow_lines line ih target []

theorem scanRow_consumed (line below) {next}
    (hnext : ∀ ys,(next ys).1.flatMap Row.consumed++(next ys).2=ys) (ys held : List α) :
    (scanRow line below next ys held).1.flatMap Row.consumed++
      (scanRow line below next ys held).2=held++ys := by
  induction ys generalizing held with
  | nil => simp [scanRow,Row.consumed,hnext]
  | cons y ys ih =>
    simp only [scanRow]
    split_ifs with hy hle
    · simp [Row.consumed,hnext,hy]
    · simp [ih (held++[y])]
    · simp [Row.consumed,hnext]

theorem scan_consumed (base target : List α) :
    (scan base target).1.flatMap Row.consumed++(scan base target).2=target := by
  induction base generalizing target with
  | nil => rfl
  | cons line base ih =>
    have h:=scanRow_consumed line base ih target []
    simpa [scan] using h

structure Alignment (base target : List α) where
  rows : List (Row α)
  tail : List α
  lines : rows.map Row.line=base
  consumed : rows.flatMap Row.consumed++tail=target

def align (base target : List α) : Alignment base target where
  rows := (scan base target).1
  tail := (scan base target).2
  lines := scan_lines base target
  consumed := scan_consumed base target

/-- The target elements that stand before some base element without matching. -/
def Alignment.inserted {base target : List α} (a : Alignment base target) : List α :=
  a.rows.flatMap Row.before

omit [DecidableEq α] in
theorem Alignment.length_rows {base target : List α} (a : Alignment base target) :
    a.rows.length=base.length := by
  have h:=congrArg List.length a.lines
  rwa [List.length_map] at h

omit [DecidableEq α] in
theorem Alignment.mem_of_not_mem_base {base target} (a : Alignment base target) (x : α)
    (hx : x∈target) (hb : x∉base) : x∈a.inserted ∨ x∈a.tail := by
  rw [← a.consumed,List.mem_append,List.mem_flatMap] at hx
  rcases hx with ⟨r,hr,hin⟩ | ht
  · left
    rw [Row.consumed,List.mem_append] at hin
    rcases hin with hin | hin
    · exact List.mem_flatMap.mpr ⟨r,hr,hin⟩
    exfalso
    -- the row keeps `x`, so `x` is a base element
    have hline : x=r.line := by
      cases hk : r.kept <;> simp_all
    apply hb
    rw [← a.lines,hline]
    exact List.mem_map_of_mem hr
  · exact .inr ht

omit [DecidableEq α] in
theorem Alignment.inserted_sub {base target} (a : Alignment base target) (x : α)
    (hx : x∈a.inserted) : x∈target := by
  obtain ⟨r,hr,hin⟩ := List.mem_flatMap.mp hx
  rw [← a.consumed,List.mem_append,List.mem_flatMap]
  exact .inl ⟨r,hr,List.mem_append_left _ hin⟩

omit [DecidableEq α] in
theorem Alignment.tail_sub {base target} (a : Alignment base target) (x : α) (hx : x∈a.tail) :
    x∈target := by
  rw [← a.consumed]
  exact List.mem_append_right _ hx

end OriginTools.Diff
