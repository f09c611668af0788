import Mathlib.Data.List.Basic
import Mathlib.Tactic

/-!
# Chains of records by hashes

Every record of a log names the hash of the one before it; the first names a
fixed start value.
-/

namespace OriginTools
section
variable {α H : Type} (prevOf hashOf : α → H)

def Linked : H → List α → Prop
  | _,[] => True
  | prev,e::es => prevOf e=prev ∧ Linked (hashOf e) es

def headFrom (start : H) (es : List α) : H :=
  match es.getLast? with
  | some e => hashOf e
  | none => start

end
section
variable {α H : Type} {prevOf hashOf : α → H}

theorem headFrom_append (start es e) : headFrom hashOf start (es++[e])=hashOf e := by
  simp [headFrom]

theorem headFrom_cons (start e es) :
    headFrom hashOf start (e::es)=headFrom hashOf (hashOf e) es := by
  induction es using List.reverseRecOn with
  | nil => rfl
  | append_singleton es e' _ => rw [← List.cons_append,headFrom_append,headFrom_append]

theorem headFrom_map {K : Type} (f : H → K) (start es) :
    headFrom (fun e => f (hashOf e)) (f start) es=f (headFrom hashOf start es) := by
  unfold headFrom
  cases es.getLast? with
  | none | some => rfl

theorem linked_append (start es fs) : Linked prevOf hashOf start (es++fs) ↔
      Linked prevOf hashOf start es ∧ Linked prevOf hashOf (headFrom hashOf start es) fs := by
  induction es generalizing start with
  | nil => simp [Linked,headFrom]
  | cons e es ih =>
    rw [List.cons_append,headFrom_cons]
    show _ ∧ _ ↔ (_ ∧ _) ∧ _
    rw [ih,and_assoc]

theorem linked_snoc (start es e) : Linked prevOf hashOf start (es++[e]) ↔
      Linked prevOf hashOf start es ∧ prevOf e=headFrom hashOf start es := by
  rw [linked_append]
  simp [Linked]

theorem map_eq_of_headFrom_eq {κ : Type} {key : α → κ} {P : α → Prop} {start : H}
    (hstart : ∀ e,P e → hashOf e≠start)
    (hkey : ∀ e f,P e → P f → hashOf e=hashOf f → key e=key f)
    (hprev : ∀ e f,key e=key f → prevOf e=prevOf f) (es fs : List α)
    (hes : Linked prevOf hashOf start es) (hfs : Linked prevOf hashOf start fs)
    (hP : ∀ e∈es,P e) (hQ : ∀ f∈fs,P f)
    (h : headFrom hashOf start es=headFrom hashOf start fs) : es.map key=fs.map key := by
  induction es using List.reverseRecOn generalizing fs with
  | nil =>
    rcases List.eq_nil_or_concat' fs with rfl | ⟨fs,f,rfl⟩
    · rfl
    · rw [headFrom_append] at h
      exact absurd h.symm (hstart f (hQ f (by simp)))
  | append_singleton es e ih =>
    rw [headFrom_append] at h
    rcases List.eq_nil_or_concat' fs with rfl | ⟨fs,f,rfl⟩
    · exact absurd h (hstart e (hP e (by simp)))
    rw [headFrom_append] at h
    have hef:=hkey e f (hP e (by simp)) (hQ f (by simp)) h
    rw [linked_snoc] at hes hfs
    have hheads : headFrom hashOf start es=headFrom hashOf start fs := by
      rw [← hes.2,← hfs.2,hprev e f hef]
    rw [List.map_append,List.map_append,List.map_singleton,List.map_singleton,hef,
      ih fs hes.1 hfs.1 (fun x hx => hP x (by simp [hx])) (fun x hx => hQ x (by simp [hx])) hheads]

end
end OriginTools
