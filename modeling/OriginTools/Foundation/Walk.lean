import Mathlib

/-!
# Stack-driven graph walks

A walk keeps a stack of nodes to visit and a list of visited nodes. `Ancestry` is about
the common ancestors in such a graph.
-/

namespace OriginTools.Walk
open List
variable {α ε : Type} [DecidableEq α]

def Edge (succ : α → Except ε (List α)) (x y : α) : Prop := ∃ ys,succ x=.ok ys ∧ y∈ys

abbrev Reach (succ : α → Except ε (List α)) (x y : α) : Prop :=
  Relation.ReflTransGen (Edge succ) x y

def isClosed (succ : α → Except ε (List α)) (xs : List α) : Bool :=
  xs.all fun x => (succ x).toOption.all fun ys => ys.all (· ∈ xs)

theorem reach_mem {succ : α → Except ε (List α)} {xs} (hclosed : isClosed succ xs=true) {r x}
    (hr : r∈xs) (h : Reach succ r x) : x∈xs := by
  induction h with
  | refl => exact hr
  | tail _ hedge ih =>
    obtain ⟨ys,hys,hy⟩ := hedge
    have hall:=all_eq_true.1 hclosed _ ih
    rw [hys] at hall
    exact of_decide_eq_true (all_eq_true.1 hall _ hy)

/-- The loop: `n` bounds the number of pops, `seen` is newest first. -/
def walk (succ : α → Except ε (List α)) : ℕ → List α → List α → Option (Except ε (List α))
  | _,[],seen => some (.ok seen)
  | 0,_::_,_ => none
  | n+1,x::stack,seen =>
    if x∈seen then walk succ n stack seen
    else match succ x with
      | .error e => some (.error e)
      | .ok ys => walk succ n (ys.reverse++stack) (x::seen)

def outDegree (succ : α → Except ε (List α)) (x : α) : ℕ :=
  match succ x with
  | .ok ys => ys.length
  | .error _ => 0

def pending (succ : α → Except ε (List α)) : List α → List α → ℕ
  | [],_ => 0
  | x::dom,seen => (if x∈seen then 0 else outDegree succ x)+pending succ dom seen

def Supported (succ : α → Except ε (List α)) (dom : List α) : Prop :=
  ∀ x ys,succ x=.ok ys → ys≠[] → x∈dom

theorem pending_visit_le (succ : α → Except ε (List α)) (dom seen x) :
    pending succ dom (x::seen)≤pending succ dom seen := by
  induction dom with
  | nil => exact le_rfl
  | cons d dom ih =>
    simp only [pending,mem_cons]
    split_ifs with h1 h2 h2
    · omega
    · omega
    · exact absurd (.inr h2) h1
    · omega

theorem pending_visit (succ : α → Except ε (List α)) {dom seen x} (hx : x∈dom) (hs : x∉seen) :
    pending succ dom (x::seen)+outDegree succ x≤pending succ dom seen := by
  induction dom with
  | nil => simp at hx
  | cons d dom ih =>
    have hle:=pending_visit_le succ dom seen x
    by_cases hd : d=x
    · subst hd
      simp only [pending,mem_cons,true_or,if_true,hs,if_false]
      omega
    · have ht : x∈dom := by
        rcases mem_cons.mp hx with h | h
        · exact absurd h.symm hd
        · exact h
      have hrec:=ih ht
      simp only [pending,mem_cons,hd,false_or]
      omega

/-- A bound of the stack plus the pending pushes is enough: every pop uses up
one stack slot, and the slots a visit adds were counted as pending. -/
theorem walk_returns (succ : α → Except ε (List α)) (dom) (hdom : Supported succ dom) (n)
    (stack seen : List α) (hn : stack.length+pending succ dom seen≤n) :
    ∃ r,walk succ n stack seen=some r := by
  induction n generalizing stack seen with
  | zero =>
    cases stack with
    | nil => exact ⟨.ok seen,by simp [walk]⟩
    | cons x stack =>
      simp only [length_cons] at hn
      omega
  | succ n ih =>
    rcases stack with _ | ⟨x,stack⟩
    · exact ⟨.ok seen,by simp [walk]⟩
    simp only [length_cons] at hn
    simp only [walk]
    split_ifs with hx
    · exact ih stack seen (by omega)
    rcases hy : succ x with e | ys
    · exact ⟨.error e,rfl⟩
    have hpend : pending succ dom (x::seen)+ys.length≤pending succ dom seen := by
      by_cases hnil : ys=[]
      · subst hnil
        simpa using pending_visit_le succ dom seen x
      · have h:=pending_visit succ (hdom x ys hy hnil) hx
        simpa only [outDegree,hy] using h
    refine ih (ys.reverse++stack) (x::seen) ?_
    simp only [length_append,length_reverse]
    omega

def Frontier (succ : α → Except ε (List α)) (stack seen : List α) : Prop :=
  ∀ x∈seen,∃ ys,succ x=.ok ys ∧ ∀ y∈ys,y∈seen ∨ y∈stack

omit [DecidableEq α] in
theorem frontier_skip (succ : α → Except ε (List α)) (stack seen x) (hx : x∈seen)
    (h : Frontier succ (x::stack) seen) : Frontier succ stack seen := by
  intro z hz
  obtain ⟨ys,hy,hm⟩ := h z hz
  refine ⟨ys,hy,fun y hin => ?_⟩
  rcases hm y hin with hs | hs
  · exact .inl hs
  · rcases mem_cons.mp hs with he | hs
    · exact .inl (he ▸ hx)
    · exact .inr hs

omit [DecidableEq α] in
theorem frontier_visit (succ : α → Except ε (List α)) (stack seen ys : List α) (x : α)
    (hy : succ x=.ok ys) (h : Frontier succ (x::stack) seen) :
    Frontier succ (ys.reverse++stack) (x::seen) := by
  intro z hz
  rcases mem_cons.mp hz with he | hz
  · subst he
    exact ⟨ys,hy,fun y hin => .inr (by simp [hin])⟩
  obtain ⟨zs,hzs,hm⟩ := h z hz
  refine ⟨zs,hzs,fun y hin => ?_⟩
  rcases hm y hin with hs | hs
  · exact .inl (mem_cons_of_mem x hs)
  · rcases mem_cons.mp hs with he | hs
    · exact .inl (he ▸ .head _)
    · exact .inr (mem_append_right _ hs)

variable {succ : α → Except ε (List α)} {n : ℕ}

theorem walk_frontier (stack seen out : List α) (h : walk succ n stack seen=some (.ok out))
    (hf : Frontier succ stack seen) :
    Frontier succ [] out ∧ (∀ x∈seen,x∈out) ∧ ∀ x∈stack,x∈out := by
  induction n generalizing stack seen with
  | zero =>
    cases stack with
    | nil =>
      simp only [walk,Option.some.injEq,Except.ok.injEq] at h
      subst h
      exact ⟨hf,fun x hx => hx,by simp⟩
    | cons x stack => simp [walk] at h
  | succ n ih =>
    cases stack with
    | nil =>
      simp only [walk,Option.some.injEq,Except.ok.injEq] at h
      subst h
      exact ⟨hf,fun x hx => hx,by simp⟩
    | cons x stack =>
      simp only [walk] at h
      split_ifs at h with hx
      · obtain ⟨h1,h2,h3⟩ := ih stack seen h (frontier_skip succ stack seen x hx hf)
        refine ⟨h1,h2,fun y hy => ?_⟩
        rcases mem_cons.mp hy with he | hy
        · exact h2 y (he ▸ hx)
        · exact h3 y hy
      · rcases hy : succ x with e | ys
        · simp [hy] at h
        simp only [hy] at h
        obtain ⟨h1,h2,h3⟩ := ih _ _ h (frontier_visit succ stack seen ys x hy hf)
        refine ⟨h1,fun y hin => h2 y (mem_cons_of_mem x hin),fun y hin => ?_⟩
        rcases mem_cons.mp hin with he | hin
        · exact h2 y (he ▸ .head _)
        · exact h3 y (mem_append_right _ hin)

theorem walk_sound (stack seen out : List α) (h : walk succ n stack seen=some (.ok out)) :
    ∀ x∈out,x∈seen ∨ ∃ r∈stack,Reach succ r x := by
  induction n generalizing stack seen with
  | zero =>
    cases stack with
    | nil =>
      simp only [walk,Option.some.injEq,Except.ok.injEq] at h
      exact fun x hx => .inl (h ▸ hx)
    | cons x stack => simp [walk] at h
  | succ n ih =>
    cases stack with
    | nil =>
      simp only [walk,Option.some.injEq,Except.ok.injEq] at h
      exact fun x hx => .inl (h ▸ hx)
    | cons x stack =>
      simp only [walk] at h
      intro z hz
      split_ifs at h with hx
      · rcases ih stack seen h z hz with hs | ⟨r,hr,hp⟩
        · exact .inl hs
        · exact .inr ⟨r,mem_cons_of_mem x hr,hp⟩
      · rcases hy : succ x with e | ys
        · simp [hy] at h
        simp only [hy] at h
        rcases ih _ _ h z hz with hs | ⟨r,hr,hp⟩
        · rcases mem_cons.mp hs with he | hs
          · exact .inr ⟨x,.head _,he ▸ Relation.ReflTransGen.refl⟩
          · exact .inl hs
        · rcases mem_append.mp hr with hr | hr
          · -- a successor of `x`: one edge, then the rest of the path
            have he : Edge succ x r := ⟨ys,hy,mem_reverse.mp hr⟩
            exact .inr ⟨x,.head _,Relation.ReflTransGen.head he hp⟩
          · exact .inr ⟨r,mem_cons_of_mem x hr,hp⟩

theorem walk_error (stack seen : List α) {e} (h : walk succ n stack seen=some (.error e)) :
    ∃ r∈stack,∃ x,Reach succ r x ∧ succ x=.error e := by
  induction n generalizing stack seen with
  | zero => cases stack <;> simp [walk] at h
  | succ n ih =>
    rcases stack with _ | ⟨x,stack⟩
    · simp [walk] at h
    simp only [walk] at h
    split_ifs at h with hx
    · obtain ⟨r,hr,z,hz⟩ := ih stack seen h
      exact ⟨r,mem_cons_of_mem x hr,z,hz⟩
    cases hy : succ x with
    | error e' =>
      simp only [hy,Option.some.injEq,Except.error.injEq] at h
      exact ⟨x,.head _,x,Relation.ReflTransGen.refl,h ▸ hy⟩
    | ok ys =>
      simp only [hy] at h
      obtain ⟨r,hr,z,hp,hz⟩ := ih _ _ h
      rcases mem_append.mp hr with hr | hr
      · have he : Edge succ x r := ⟨ys,hy,mem_reverse.mp hr⟩
        exact ⟨x,.head _,z,Relation.ReflTransGen.head he hp,hz⟩
      · exact ⟨r,mem_cons_of_mem x hr,z,hp,hz⟩

def explore (succ : α → Except ε (List α)) (dom queue : List α) : Except ε (List α) :=
  (walk succ (queue.length+pending succ dom []) queue.reverse []).getD (.ok [])

theorem walk_explore (succ : α → Except ε (List α)) (dom queue : List α)
    (hdom : Supported succ dom) :
    walk succ (queue.length+pending succ dom []) queue.reverse []=
      some (explore succ dom queue) := by
  obtain ⟨r,hr⟩ := walk_returns succ dom hdom (queue.length+pending succ dom [])
    queue.reverse [] (by simp)
  simp only [explore,hr,Option.getD_some]

omit [DecidableEq α] in
theorem frontier_start (succ : α → Except ε (List α)) (stack) : Frontier succ stack [] := by
  intro x hx
  simp at hx

theorem mem_explore {dom queue out} (hdom : Supported succ dom)
    (h : explore succ dom queue=.ok out) (x : α) : x∈out ↔ ∃ r∈queue,Reach succ r x := by
  have hw:=walk_explore succ dom queue hdom
  rw [h] at hw
  obtain ⟨hclosed,_,hroots⟩ := walk_frontier _ _ _ hw (frontier_start succ _)
  constructor
  · intro hx
    rcases walk_sound _ _ _ hw x hx with hs | ⟨r,hr,hp⟩
    · simp at hs
    · exact ⟨r,mem_reverse.mp hr,hp⟩
  · rintro ⟨r,hr,hp⟩
    induction hp with
    | refl => exact hroots r (mem_reverse.mpr hr)
    | tail _ hstep ih =>
      obtain ⟨ys,hy,hin⟩ := hstep
      obtain ⟨zs,hz,hm⟩ := hclosed _ ih
      rw [hy] at hz
      cases hz
      rcases hm _ hin with hs | hs
      · exact hs
      · simp at hs

theorem explore_readable {dom queue out} (hdom : Supported succ dom)
    (h : explore succ dom queue=.ok out) {x} (hx : x∈out) : ∃ ys,succ x=.ok ys := by
  have hw:=walk_explore succ dom queue hdom
  rw [h] at hw
  obtain ⟨hclosed,_,_⟩ := walk_frontier _ _ _ hw (frontier_start succ _)
  obtain ⟨ys,hy,_⟩ := hclosed x hx
  exact ⟨ys,hy⟩

theorem explore_succeeds {dom queue} (hdom : Supported succ dom)
    (hread : ∀ r∈queue,∀ x,Reach succ r x → ∃ ys,succ x=.ok ys) :
    ∃ out,explore succ dom queue=.ok out := by
  cases h : explore succ dom queue with
  | ok out => exact ⟨out,rfl⟩
  | error e =>
    have hw:=walk_explore succ dom queue hdom
    rw [h] at hw
    obtain ⟨r,hr,x,hp,hx⟩ := walk_error _ _ hw
    obtain ⟨ys,hy⟩ := hread r (mem_reverse.mp hr) x hp
    rw [hy] at hx
    cases hx

end OriginTools.Walk

namespace OriginTools.Ancestry
variable {α : Type}

/-! `r x y` says that `y` is a parent of `x`; ancestors are the elements reachable along
`r`, the start included. -/

def Acyclic (r : α → α → Prop) : Prop := ∀ x,¬ Relation.TransGen r x x

def Common (r : α → α → Prop) (a b x : α) : Prop :=
  Relation.ReflTransGen r a x ∧ Relation.ReflTransGen r b x

def LowestCommon (r : α → α → Prop) (a b x : α) : Prop :=
  Common r a b x ∧ ∀ y,Common r a b y → y≠x → ¬ Relation.ReflTransGen r y x

variable {r : α → α → Prop}

theorem LowestCommon.eq_of_reach {a b x y} (h : LowestCommon r a b x) (hy : Common r a b y)
    (hyx : Relation.ReflTransGen r y x) : y=x := by
  by_contra hne
  exact h.2 y hy hne hyx

theorem LowestCommon.eq_left_iff {a b x} (h : LowestCommon r a b x) :
    x=a ↔ Relation.ReflTransGen r b a := by
  constructor
  · rintro rfl
    exact h.1.2
  · intro hba
    exact (h.eq_of_reach ⟨Relation.ReflTransGen.refl,hba⟩ h.1.1).symm

theorem LowestCommon.eq_right_iff {a b x} (h : LowestCommon r a b x) :
    x=b ↔ Relation.ReflTransGen r a b := by
  constructor
  · rintro rfl
    exact h.1.1
  · intro hab
    exact (h.eq_of_reach ⟨hab,Relation.ReflTransGen.refl⟩ h.1.2).symm

theorem lowestCommon_self (hr : Acyclic r) {a b} (hba : Relation.ReflTransGen r b a) :
    LowestCommon r a b a := by
  refine ⟨⟨Relation.ReflTransGen.refl,hba⟩,fun y hy hne hya => ?_⟩
  rcases Relation.reflTransGen_iff_eq_or_transGen.mp hya with he | hpath
  · exact hne he.symm
  · exact hr y (hpath.trans_left hy.1)

end OriginTools.Ancestry
