import OriginTools.Foundation.Walk

/-!
# Stack-driven walks with levels

A walk whose stack entries carry a level, which the pushes of a node depend on.
-/

namespace OriginTools.LevelWalk
open List
section Paths
variable {β : Type} {roots : List β} {next : β → List β}

/-- A path leads to an entry: first a root, then an entry pushed by the one before. -/
inductive Leads (roots : List β) (next : β → List β) : List ℕ → β → Prop
  | root (i : ℕ) (x : β) (h : roots[i]? = some x) : Leads roots next [i] x
  | step (p : List ℕ) (i : ℕ) (x y : β) (hp : Leads roots next p x)
      (h : (next x)[i]? = some y) : Leads roots next (p++[i]) y

theorem leads_ne_nil {p x} (h : Leads roots next p x) : p≠[] := by
  cases h <;> simp

theorem leads_cases (p i y) (h : Leads roots next (p++[i]) y) :
    (p=[] ∧ roots[i]? = some y) ∨ ∃ x,Leads roots next p x ∧ (next x)[i]? = some y := by
  generalize hq : p++[i]=q at h
  cases h with
  | root j _ hj =>
    have hp : p++[i]=[]++[j] := hq
    obtain ⟨hnil,hlast⟩ := append_inj' hp rfl
    left
    simp only [List.cons.injEq,and_true] at hlast
    exact ⟨hnil,hlast ▸ hj⟩
  | step p' j x _ hp' hj =>
    obtain ⟨hinit,hlast⟩ := append_inj' hq rfl
    simp only [List.cons.injEq,and_true] at hlast
    right
    exact ⟨x,hinit ▸ hp',hlast ▸ hj⟩

theorem leads_unique (p x y) (hx : Leads roots next p x) (hy : Leads roots next p y) : x=y := by
  induction hx generalizing y with
  | root i x h =>
    rcases leads_cases [] i y hy with ⟨-,hroot⟩ | ⟨z,hz,-⟩
    · rw [h] at hroot
      exact Option.some.inj hroot
    · exact absurd rfl (leads_ne_nil hz)
  | step p i x x' hp h ih =>
    rcases leads_cases p i y hy with ⟨hnil,-⟩ | ⟨z,hz,hnext⟩
    · exact absurd hnil (leads_ne_nil hp)
    · rw [ih z hz,hnext] at h
      exact (Option.some.inj h).symm

abbrev Pushes (next : β → List β) (x y : β) : Prop := y∈next x

theorem leads_split {p q} (y : β) (hp : p≠[]) (h : Leads roots next (p++q) y) :
    ∃ x,Leads roots next p x ∧ Relation.ReflTransGen (Pushes next) x y ∧
      (q≠[] → Relation.TransGen (Pushes next) x y) := by
  induction q using List.reverseRecOn generalizing y with
  | nil =>
    rw [append_nil] at h
    exact ⟨y,h,Relation.ReflTransGen.refl,fun hq => absurd rfl hq⟩
  | append_singleton q i ih =>
    rw [← append_assoc] at h
    rcases leads_cases (p++q) i y h with ⟨hnil,-⟩ | ⟨z,hz,hnext⟩
    · exact absurd (append_eq_nil_iff.mp hnil).1 hp
    · obtain ⟨x,hx,hreach,-⟩ := ih z hz
      have hlast : Pushes next z y := mem_of_getElem? hnext
      exact ⟨x,hx,hreach.tail hlast,fun _ => Relation.TransGen.tail' hreach hlast⟩

theorem eq_of_leading (hacyc : Ancestry.Acyclic (Pushes next)) {p q x} (hp : Leads roots next p x)
    (hq : Leads roots next q x) (h : p <+: q) : p=q := by
  obtain ⟨r,rfl⟩ := h
  obtain ⟨y,hy,-,htrans⟩ := leads_split x (leads_ne_nil hp) hq
  rw [leads_unique p y x hy hp] at htrans
  by_cases hr : r=[]
  · rw [hr,append_nil]
  · exact absurd (htrans hr) (hacyc x)

end Paths

theorem lt_append (p : List ℕ) (i : ℕ) (q : List ℕ) : p<p++i::q := by
  simpa using @append_left_lt ℕ _ p _ _ (nil_lt_cons i q)

/-- The first difference decides, so that the order is that of all extensions. -/
def Diverges (p q : List ℕ) : Prop := p<q ∧ ¬ p <+: q

theorem diverges_append (p q a b : List ℕ) (h : Diverges p q) : Diverges (p++a) (q++b) := by
  induction p generalizing q with
  | nil => exact absurd nil_prefix h.2
  | cons x p ih =>
    rcases q with _ | ⟨y,q⟩
    · exact absurd h.1 (not_lt_nil _)
    obtain ⟨hlt,hpre⟩ := h
    rcases cons_lt_cons_iff.mp hlt with hxy | ⟨hxy,htail⟩
    · refine ⟨cons_lt_cons_iff.mpr (.inl hxy),fun hp => ?_⟩
      have hhead:=(cons_prefix_cons.mp hp).1
      omega
    · have hpre' : ¬ p <+: q := fun hp => hpre (cons_prefix_cons.mpr ⟨hxy,hp⟩)
      obtain ⟨hlt',hnot⟩ := ih q ⟨htail,hpre'⟩
      exact ⟨cons_lt_cons_iff.mpr (.inr ⟨hxy,hlt'⟩),fun hp => hnot (cons_prefix_cons.mp hp).2⟩

theorem diverges_siblings (p : List ℕ) {i j} (h : i<j) : Diverges (p++[i]) (p++[j]) := by
  induction p with
  | nil =>
    refine ⟨cons_lt_cons_iff.mpr (.inl h),fun hp => ?_⟩
    have hhead:=(cons_prefix_cons.mp hp).1
    omega
  | cons a p ih =>
    exact ⟨cons_lt_cons_iff.mpr (.inr ⟨rfl,ih.1⟩),fun hp => ih.2 (cons_prefix_cons.mp hp).2⟩

theorem append_le_append {p q} (i : ℕ) (hle : p≤q) (h : p <+: q → p=q) : p++[i]≤q++[i] := by
  rcases hle.eq_or_lt with heq | hlt
  · rw [heq]
  · have hdiv : Diverges p q := ⟨hlt,fun hp => hlt.ne (h hp)⟩
    exact (diverges_append p q [i] [i] hdiv).1.le

section Loop
variable {α : Type} (step : α → ℕ → List (α × ℕ))

structure Visit (α : Type) where
  node : α
  level : ℕ
  path : List ℕ

def Visit.entry (v : Visit α) : α × ℕ := (v.node,v.level)
abbrev next (e : α × ℕ) : List (α × ℕ) := step e.1 e.2

/-- The node was recorded under a path that is not later, or waits under this path. -/
def Covered (stack seen : List (Visit α)) (x : α) (p : List ℕ) : Prop :=
  (∃ v∈seen,v.node=x ∧ v.path≤p) ∨ ∃ u∈stack,u.node=x ∧ u.path=p

structure Invariant (roots : List (α × ℕ)) (stack seen : List (Visit α)) : Prop where
  leads : ∀ v,v∈stack ∨ v∈seen → Leads roots (next step) v.path v.entry
  sorted : stack.Pairwise fun u v => Diverges u.path v.path
  earlier : ∀ v∈seen,∀ u∈stack,v.path<u.path
  nodup : (seen.map Visit.node).Nodup
  roots : ∀ i r,roots[i]? = some r → Covered stack seen r.1 [i]
  closed : ∀ v∈seen,∀ i z,(step v.node v.level)[i]? = some z → Covered stack seen z.1 (v.path++[i])

theorem covered_skip (stack seen) (u v : Visit α) (hv : v∈seen) (hnode : v.node=u.node)
    (hpath : v.path<u.path) (x p) (h : Covered (u::stack) seen x p) :
    Covered stack seen x p := by
  rcases h with hseen | ⟨w,hw,hx,hp⟩
  · exact .inl hseen
  · rcases mem_cons.mp hw with rfl | hw
    · exact .inl ⟨v,hv,hnode.trans hx,hp ▸ hpath.le⟩
    · exact .inr ⟨w,hw,hx,hp⟩

theorem covered_visit (stack seen pushed : List (Visit α)) (u : Visit α) (x : α) (p : List ℕ)
    (h : Covered (u::stack) seen x p) : Covered (pushed++stack) (u::seen) x p := by
  rcases h with ⟨v,hv,hx,hp⟩ | ⟨w,hw,hx,hp⟩
  · exact .inl ⟨v,.tail _ hv,hx,hp⟩
  · rcases mem_cons.mp hw with rfl | hw
    · exact .inl ⟨w,.head _,hx,hp.le⟩
    · exact .inr ⟨w,mem_append_right _ hw,hx,hp⟩

def pushedBy (u : Visit α) : List (Visit α) :=
  (step u.node u.level).mapIdx fun i e => ⟨e.1,e.2,u.path++[i]⟩

/-- Entries on the stack below a path: the roots below `[]`, the pushes of a node below its own. -/
def stacked (p : List ℕ) (es : List (α × ℕ)) : List (Visit α) :=
  es.mapIdx fun i e => ⟨e.1,e.2,p++[i]⟩

theorem mem_stacked {p es} {w : Visit α} :
    w∈stacked p es ↔ ∃ i,es[i]? = some w.entry ∧ w.path=p++[i] := by
  rw [stacked,mem_mapIdx]
  constructor
  · rintro ⟨i,hi,rfl⟩
    exact ⟨i,getElem?_eq_getElem hi,rfl⟩
  · rintro ⟨i,hget,hpath⟩
    obtain ⟨hi,hw⟩ := List.getElem?_eq_some_iff.mp hget
    exact ⟨i,hi,by rw [hw,← hpath]; rfl⟩

theorem stacked_entries (p : List ℕ) (es : List (α × ℕ)) : (stacked p es).map Visit.entry=es := by
  apply ext_getElem?
  intro i
  simp only [stacked,getElem?_map,getElem?_mapIdx,Option.map_map]
  cases es[i]? <;> rfl

theorem stacked_sorted (p : List ℕ) (es : List (α × ℕ)) :
    (stacked p es).Pairwise fun v w => Diverges v.path w.path := by
  rw [pairwise_iff_getElem]
  intro i j hi hj hij
  simp only [stacked,getElem_mapIdx]
  exact diverges_siblings p hij

theorem invariant_skip (roots) (stack seen : List (Visit α)) (u : Visit α)
    (hu : u.node∈seen.map Visit.node) (h : Invariant step roots (u::stack) seen) :
    Invariant step roots stack seen := by
  obtain ⟨v,hv,hnode⟩ := mem_map.mp hu
  have hpath : v.path<u.path := h.earlier v hv u (.head _)
  constructor
  · rintro w (hw | hw)
    · exact h.leads w (.inl (.tail _ hw))
    · exact h.leads w (.inr hw)
  · exact (pairwise_cons.mp h.sorted).2
  · exact fun w hw x hx => h.earlier w hw x (.tail _ hx)
  · exact h.nodup
  · exact fun i r hr => covered_skip stack seen u v hv hnode hpath _ _ (h.roots i r hr)
  · exact fun w hw i z hz => covered_skip stack seen u v hv hnode hpath _ _ (h.closed w hw i z hz)

theorem invariant_visit (roots : List (α × ℕ)) (stack seen : List (Visit α)) (u : Visit α)
    (hu : u.node∉seen.map Visit.node) (h : Invariant step roots (u::stack) seen) :
    Invariant step roots (pushedBy step u++stack) (u::seen) := by
  have hlead:=h.leads u (.inl (.head _))
  obtain ⟨hdiv,hsorted⟩ := pairwise_cons.mp h.sorted
  constructor
  · rintro w (hw | hw)
    · rcases mem_append.mp hw with hw | hw
      · obtain ⟨i,hget,hpath⟩ := mem_stacked.mp hw
        rw [hpath]
        exact Leads.step u.path i u.entry w.entry hlead hget
      · exact h.leads w (.inl (.tail _ hw))
    · rcases mem_cons.mp hw with rfl | hw
      · exact hlead
      · exact h.leads w (.inr hw)
  · -- the paths of the pushes extend the path popped, which diverges from the others
    refine pairwise_append.mpr ⟨stacked_sorted _ _,hsorted,?_⟩
    intro w hw x hx
    obtain ⟨i,-,hpath⟩ := mem_stacked.mp hw
    have hext:=diverges_append u.path x.path [i] [] (hdiv x hx)
    rw [append_nil] at hext
    rw [hpath]
    exact hext
  · intro v hv x hx
    have hux : ∀ y∈stack,u.path<y.path := fun y hy => (hdiv y hy).1
    rcases mem_cons.mp hv with rfl | hv
    · rcases mem_append.mp hx with hx | hx
      · obtain ⟨i,-,hpath⟩ := mem_stacked.mp hx
        rw [hpath]
        exact lt_append v.path i []
      · exact hux x hx
    · have hvu : v.path<u.path := h.earlier v hv u (.head _)
      rcases mem_append.mp hx with hx | hx
      · obtain ⟨i,-,hpath⟩ := mem_stacked.mp hx
        rw [hpath]
        exact hvu.trans (lt_append u.path i [])
      · exact hvu.trans (hux x hx)
  · exact nodup_cons.mpr ⟨hu,h.nodup⟩
  · exact fun i r hr => covered_visit stack seen _ u _ _ (h.roots i r hr)
  · intro v hv i z hz
    rcases mem_cons.mp hv with rfl | hv
    · right
      exact ⟨⟨z.1,z.2,v.path++[i]⟩,mem_append_left _ (mem_stacked.mpr ⟨i,hz,rfl⟩),rfl,rfl⟩
    · exact covered_visit stack seen _ u _ _ (h.closed v hv i z hz)

theorem invariant_start (roots : List (α × ℕ)) : Invariant step roots (stacked [] roots) [] := by
  constructor
  · rintro v (hv | hv)
    · obtain ⟨i,hget,hpath⟩ := mem_stacked.mp hv
      rw [hpath]
      exact Leads.root i _ hget
    · simp at hv
  · exact stacked_sorted [] roots
  · simp
  · simp
  · exact fun i r hr => .inr ⟨⟨r.1,r.2,[i]⟩,mem_stacked.mpr ⟨i,hr,rfl⟩,rfl,rfl⟩
  · simp

/-- What a finished walk has recorded: every node once, under a path that leads to it,
and under a path not later than any it was pushed under. -/
structure Visited (roots : List (α × ℕ)) (vs : List (Visit α)) : Prop where
  leads : ∀ v∈vs,Leads roots (next step) v.path v.entry
  nodup : (vs.map Visit.node).Nodup
  roots : ∀ i r,roots[i]? = some r → ∃ v∈vs,v.node=r.1 ∧ v.path≤[i]
  closed : ∀ v∈vs,∀ i z,(step v.node v.level)[i]? = some z → ∃ w∈vs,w.node=z.1 ∧ w.path≤v.path++[i]

theorem map_node (vs : List (Visit α)) : (vs.map Visit.entry).map Prod.fst=vs.map Visit.node := by
  rw [map_map]
  rfl

variable [DecidableEq α]

/-- `n` bounds the number of pops, `seen` is newest first; `step` lists the pushes of
a node in the order they are popped. -/
def walk : ℕ → List (α × ℕ) → List (α × ℕ) → Option (List (α × ℕ))
  | _,[],seen => some seen
  | 0,_::_,_ => none
  | n+1,(x,level)::stack,seen =>
    if x∈seen.map Prod.fst then walk n stack seen
    else walk n (step x level++stack) ((x,level)::seen)

theorem walk_returns {ε : Type} (succ : α → Except ε (List α)) (dom)
    (hdom : Walk.Supported succ dom)
    (hstep : ∀ x level,∃ ys,succ x=.ok ys ∧ (step x level).length≤ys.length) (n)
    (stack seen : List (α × ℕ)) (hn : stack.length+Walk.pending succ dom (seen.map Prod.fst)≤n) :
    ∃ out,walk step n stack seen=some out := by
  induction n generalizing stack seen with
  | zero =>
    cases stack with
    | nil => exact ⟨seen,rfl⟩
    | cons e stack =>
      simp only [length_cons] at hn
      omega
  | succ n ih =>
    rcases stack with _ | ⟨e,stack⟩
    · exact ⟨seen,rfl⟩
    obtain ⟨x,level⟩ := e
    simp only [length_cons] at hn
    simp only [walk]
    split_ifs with hx
    · exact ih stack seen (by omega)
    obtain ⟨ys,hys,hlen⟩ := hstep x level
    have hpend : Walk.pending succ dom (x::seen.map Prod.fst)+ys.length≤
        Walk.pending succ dom (seen.map Prod.fst) := by
      by_cases hnil : ys=[]
      · subst hnil
        simpa using Walk.pending_visit_le succ dom (seen.map Prod.fst) x
      · have h:=Walk.pending_visit succ (hdom x ys hys hnil) hx
        simpa only [Walk.outDegree,hys] using h
    refine ih (step x level++stack) ((x,level)::seen) ?_
    simp only [length_append,map_cons]
    omega

theorem walk_visited {roots} (n : ℕ) (stack seen : List (Visit α)) {out}
    (hinv : Invariant step roots stack seen)
    (h : walk step n (stack.map Visit.entry) (seen.map Visit.entry)=some out) :
    ∃ vs,out=vs.map Visit.entry ∧ Visited step roots vs := by
  have hdone (seen : List (Visit α)) (hinv : Invariant step roots [] seen) :
      Visited step roots seen := by
    constructor
    · exact fun v hv => hinv.leads v (.inr hv)
    · exact hinv.nodup
    · intro i r hr
      rcases hinv.roots i r hr with hv | ⟨u,hu,-⟩
      · exact hv
      · simp at hu
    · intro v hv i z hz
      rcases hinv.closed v hv i z hz with hw | ⟨u,hu,-⟩
      · exact hw
      · simp at hu
  induction n generalizing stack seen with
  | zero =>
    cases stack with
    | nil =>
      simp only [map_nil,walk,Option.some.injEq] at h
      exact ⟨seen,h.symm,hdone seen hinv⟩
    | cons u stack => simp [walk,Visit.entry] at h
  | succ n ih =>
    cases stack with
    | nil =>
      simp only [map_nil,walk,Option.some.injEq] at h
      exact ⟨seen,h.symm,hdone seen hinv⟩
    | cons u stack =>
      simp only [map_cons,Visit.entry,walk] at h
      rw [map_node] at h
      split_ifs at h with hu
      · exact ih stack seen (invariant_skip step roots stack seen u hu hinv) h
      refine ih (pushedBy step u++stack) (u::seen)
        (invariant_visit step roots stack seen u hu hinv) ?_
      rw [map_append,pushedBy,← stacked,stacked_entries]
      exact h

theorem walk_start (roots : List (α × ℕ)) (n : ℕ) (out : List (α × ℕ))
    (h : walk step n roots []=some out) :
    ∃ vs,out=vs.map Visit.entry ∧ Visited step roots vs := by
  refine walk_visited step n (stacked [] roots) [] (invariant_start step roots) ?_
  rw [stacked_entries]
  exact h

end Loop
section Search
variable {α : Type} (tips : List α) (parents : α → List α) (d : ℕ)

/-- What a search recorded that follows the parents of a node only from a path of fewer
than `d` nodes: every node once, under a path not later than any it was found by. -/
structure Search (vs : List (α × List ℕ)) : Prop where
  leads : ∀ x p,(x,p)∈vs → Leads tips parents p x ∧ p.length≤d
  tips : ∀ i t,tips[i]? = some t → ∃ p,(t,p)∈vs ∧ p≤[i]
  closed : ∀ x p,(x,p)∈vs → p.length<d → ∀ i y,(parents x)[i]? = some y → ∃ q,(y,q)∈vs ∧ q≤p++[i]
  unique : ∀ x p q,(x,p)∈vs → (x,q)∈vs → p=q

def Shorter (x : α) : Prop := ∃ q,Leads tips parents q x ∧ q.length<d
def Within (x : α) : Prop := ∃ q,Leads tips parents q x ∧ q.length≤d

def InTime : Prop :=
  ∀ p x,Leads tips parents p x → p.length=d → Shorter tips parents d x →
    ∃ q,Leads tips parents q x ∧ q.length<d ∧ q<p

def EndsOpen : Prop :=
  ∀ p x,Leads tips parents p x → p.length=d → ¬ Shorter tips parents d x →
    ∃ y∈parents x,¬ Within tips parents d y

def NoneLate (vs : List (α × List ℕ)) : Prop :=
  ∀ x p,(x,p)∈vs → p.length=d → ¬ Shorter tips parents d x

variable {tips parents d}
variable {vs : List (α × List ℕ)} {p : List ℕ}

theorem follow_path (hs : Search tips parents d vs) (hacyc : Ancestry.Acyclic (Pushes parents)) {x}
    (hp : Leads tips parents p x)
    (hopen : ∀ r y q,r <+: p → r≠p → Leads tips parents r y → (y,q)∈vs → q≤r →
      q.length<d) : ∃ q,(x,q)∈vs ∧ q≤p := by
  induction hp with
  | root i x h => exact hs.tips i x h
  | step p i x y hp hget ih =>
    have hpre : p <+: p++[i] := prefix_append p [i]
    have hne : p≠p++[i] := (lt_append p i []).ne
    obtain ⟨q,hq,hqp⟩ := ih fun r z q hr hrp hz hzq hle =>
      hopen r z q (hr.trans hpre) (fun heq => hrp (hr.eq_of_length_le (by rw [heq]; simp))) hz hzq
        hle
    have hshort : q.length<d := hopen p x q hpre hne hp hq hqp
    obtain ⟨q',hq',hle⟩ := hs.closed x q hq hshort i y hget
    refine ⟨q',hq',hle.trans ?_⟩
    exact append_le_append i hqp (eq_of_leading hacyc (hs.leads x q hq).1 hp)

theorem length_lt_of_leading {r} (h : r <+: p) (hne : r≠p) : r.length<p.length := by
  rcases Nat.lt_or_ge r.length p.length with hlt | hge
  · exact hlt
  · exact absurd (h.eq_of_length_le hge) hne

theorem follow_of_noneLate (hs : Search tips parents d vs)
    (hacyc : Ancestry.Acyclic (Pushes parents)) (hnone : NoneLate tips parents d vs) {x}
    (hp : Leads tips parents p x) (hlen : p.length≤d) : ∃ q,(x,q)∈vs ∧ q≤p := by
  apply follow_path hs hacyc hp
  intro r y q hr hrp hy hq _
  have hlt:=length_lt_of_leading hr hrp
  have hle:=(hs.leads y q hq).2
  have hne : q.length≠d := fun heq => hnone y q hq heq ⟨r,hy,by omega⟩
  omega

theorem inTime_of_noneLate (hs : Search tips parents d vs)
    (hacyc : Ancestry.Acyclic (Pushes parents)) (hnone : NoneLate tips parents d vs) :
    InTime tips parents d := by
  intro p x hp hlen hshort
  obtain ⟨q,hq,hqp⟩ := follow_of_noneLate hs hacyc hnone hp hlen.le
  obtain ⟨hqx,hle⟩ := hs.leads x q hq
  have hne : q.length≠d := fun heq => hnone x q hq heq hshort
  refine ⟨q,hqx,by omega,hqp.lt_of_ne ?_⟩
  intro heq
  rw [heq] at hne
  exact hne hlen

open Classical in
theorem noneLate_of_inTime (vs : List (α × List ℕ)) (hs : Search tips parents d vs)
    (hacyc : Ancestry.Acyclic (Pushes parents)) (hin : InTime tips parents d) :
    NoneLate tips parents d vs := by
  intro x₀ p₀ hmem₀ hlen₀ hshort₀
  let late : Finset (List ℕ) := (vs.map Prod.snd).toFinset.filter fun p =>
    ∃ x,(x,p)∈vs ∧ p.length=d ∧ Shorter tips parents d x
  have hlate (x : α) (p : List ℕ) (hmem : (x,p)∈vs) (hlen : p.length=d)
      (hshort : Shorter tips parents d x) : p∈late := by
    refine Finset.mem_filter.mpr ⟨?_,x,hmem,hlen,hshort⟩
    exact mem_toFinset.mpr (mem_map_of_mem hmem)
  obtain ⟨p,hp,hfirst⟩ := Finset.exists_min_image late id ⟨p₀,hlate x₀ p₀ hmem₀ hlen₀ hshort₀⟩
  obtain ⟨-,x,hmem,hlen,hshort⟩ := Finset.mem_filter.mp hp
  obtain ⟨r,hr,hrlen,hrp⟩ := hin p x (hs.leads x p hmem).1 hlen hshort
  obtain ⟨q,hq,hqr⟩ : ∃ q,(x,q)∈vs ∧ q≤r := by
    apply follow_path hs hacyc hr
    intro t y q ht htr hy hq hqt
    have hlt:=length_lt_of_leading ht htr
    have hle:=(hs.leads y q hq).2
    have hne : q.length≠d := by
      intro heq
      have hpq : p≤q := hfirst q (hlate y q hq heq ⟨t,hy,by omega⟩)
      have htr' : t≤r := by
        obtain ⟨u,rfl⟩ := ht
        cases u with
        | nil => rw [append_nil]
        | cons i u => exact (lt_append t i u).le
      exact absurd (hpq.trans (hqt.trans htr')) (not_le.mpr hrp)
    omega
  have heq : q=p := hs.unique x q p hq hmem
  rw [heq] at hqr
  exact absurd hqr (not_le.mpr hrp)

theorem search_exact_iff (hs : Search tips parents d vs) (hacyc : Ancestry.Acyclic (Pushes parents))
    :
    ((∀ x,(∃ p,(x,p)∈vs) ↔ Within tips parents d x) ∧ ∀ x,(∃ p,(x,p)∈vs ∧ p.length=d) ↔
        (∃ p,(x,p)∈vs) ∧ ∃ y∈parents x,¬ ∃ q,(y,q)∈vs) ↔
    InTime tips parents d ∧ EndsOpen tips parents d := by
  constructor
  · rintro ⟨hwithin,hbound⟩
    have hnone : NoneLate tips parents d vs := by
      rintro x p hmem hlen ⟨q,hq,hqlen⟩
      obtain ⟨-,y,hy,habsent⟩ := (hbound x).mp ⟨p,hmem,hlen⟩
      obtain ⟨i,hi⟩ := mem_iff_getElem?.mp hy
      apply habsent
      apply (hwithin y).mpr
      refine ⟨q++[i],Leads.step q i x y hq hi,?_⟩
      rw [length_append,length_singleton]
      omega
    refine ⟨inTime_of_noneLate hs hacyc hnone,?_⟩
    intro p x hp hlen hshort
    obtain ⟨q,hq⟩ := (hwithin x).mpr ⟨p,hp,hlen.le⟩
    obtain ⟨hqx,hqlen⟩ := hs.leads x q hq
    have hfull : q.length=d := by
      by_contra hne
      exact hshort ⟨q,hqx,by omega⟩
    obtain ⟨-,y,hy,habsent⟩ := (hbound x).mp ⟨q,hq,hfull⟩
    exact ⟨y,hy,fun hw => habsent ((hwithin y).mpr hw)⟩
  · rintro ⟨hin,hopen⟩
    have hnone:=noneLate_of_inTime vs hs hacyc hin
    have hwithin (x : α) : (∃ p,(x,p)∈vs) ↔ Within tips parents d x := by
      constructor
      · rintro ⟨p,hp⟩
        exact ⟨p,hs.leads x p hp⟩
      · rintro ⟨p,hp,hlen⟩
        obtain ⟨q,hq,-⟩ := follow_of_noneLate hs hacyc hnone hp hlen
        exact ⟨q,hq⟩
    refine ⟨hwithin,fun x => ⟨?_,?_⟩⟩
    · rintro ⟨p,hp,hlen⟩
      obtain ⟨y,hy,hfar⟩ := hopen p x (hs.leads x p hp).1 hlen (hnone x p hp hlen)
      exact ⟨⟨p,hp⟩,y,hy,fun hvisited => hfar ((hwithin y).mp hvisited)⟩
    · rintro ⟨⟨p,hp⟩,y,hy,habsent⟩
      have hle:=(hs.leads x p hp).2
      refine ⟨p,hp,?_⟩
      by_contra hne
      obtain ⟨i,hi⟩ := mem_iff_getElem?.mp hy
      obtain ⟨q,hq,-⟩ := hs.closed x p hp (by omega) i y hi
      exact habsent ⟨q,hq⟩

end Search
end OriginTools.LevelWalk
