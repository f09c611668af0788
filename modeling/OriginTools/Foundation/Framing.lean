import Mathlib

/-!
# Texts made of parts

A message is the concatenation of its fields, without their lengths; the names of a path
are joined with slashes.
-/

namespace OriginTools.Framing
open List
variable {α β : Type}

def frame (fields : α → List (List β)) (a : α) : List ℕ := (fields a).map List.length
def message (fields : α → List (List β)) (a : α) : List β := (fields a).flatten

theorem eq_iff_frame_eq {fields : α → List (List β)} {a b : α}
    (hinj : fields a=fields b → a=b) (h : message fields a=message fields b) :
    a=b ↔ frame fields a=frame fields b := by
  constructor
  · intro hab
    rw [hab]
  · intro hframe
    exact hinj (List.eq_iff_flatten_eq.2 ⟨h,hframe⟩)

def segments (s : String) : List String := (s.toList.splitOn '/').map String.ofList

theorem slash_notMem_splitOn (cs l : List Char) (h : l∈cs.splitOn '/') : '/'∉l := by
  induction cs generalizing l with
  | nil =>
    simp only [splitOn_nil,mem_singleton] at h
    simp [h]
  | cons c cs ih =>
    simp only [List.splitOn,splitOnP_cons_eq_if_modifyHead,beq_iff_eq] at h ih
    split_ifs at h with hc
    · rcases mem_cons.mp h with rfl | hl
      · simp
      · exact ih l hl
    · rcases hsplit : cs.splitOnP (· == '/') with - | ⟨first,rest⟩
      · exact absurd hsplit (splitOnP_ne_nil _ _)
      rw [hsplit,modifyHead_cons,mem_cons] at h
      rw [hsplit] at ih
      rcases h with rfl | hl
      · simp [ih first (.head _),Ne.symm hc]
      · exact ih l (.tail _ hl)

theorem segments_intercalate {names} (hne : names≠[]) (hnames : ∀ name∈names,'/'∉name.toList) :
    segments (String.intercalate "/" names)=names := by
  have hslash : ∀ l∈names.map String.toList,'/'∉l := by
    intro l hl
    obtain ⟨name,hname,rfl⟩ := mem_map.mp hl
    exact hnames name hname
  have hlist : (String.intercalate "/" names).toList=
      ['/'].intercalate (names.map String.toList) := by
    simp
  unfold segments
  rw [hlist,splitOn_intercalate '/' hslash (by simpa using hne),map_map]
  simp [Function.comp_def]

end OriginTools.Framing
