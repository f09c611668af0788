import OriginTools.Crawler.Workers

/-!
# Which pages a crawl records

All pages are fetched and no limit but the depth binds; then a crawl records each page
within that depth of a seed at its distance, as long as no page is taken from the queue
while a shallower one is in flight.
-/

namespace OriginTools.Crawler
open List
variable {U : Type} {n : ℕ}

section
variable (links : U → List U) (seeds : List U) (maxDepth : ℕ)

def children (i : Item U) : List U := if i.depth≥maxDepth then [] else links i.url

inductive Reach : ℕ → U → Prop
  | seed {u} (h : u∈seeds) : Reach 0 u
  | link {k p u} (hp : Reach k p) (h : u∈links p) : Reach (k+1) u

structure IsDistance (d : ℕ) (u : U) : Prop where
  reach : Reach links seeds d u
  least : ∀ k, Reach links seeds k u → d≤k

def Phase.item : Phase U → Option (Item U)
  | .popped i | .counted i | .working i _ => some i
  | _ => none

def seedItems (us : List U) : List (Item U) := us.map (⟨·,0⟩)

def Crawl.urls (s : Crawl U n) : List U := s.frontier.seen.map Item.url

structure Crawl.Wave (s : Crawl U n) : Prop where
  seeded : ∀ u∈seeds, u∈s.urls
  exact : ∀ i∈s.frontier.seen, IsDistance links seeds i.depth i.url ∧ i.depth ≤ maxDepth
  held : ∀ w i, (s.workers w).item=some i → i∈s.frontier.seen ∧
    ∀ k q, Reach links seeds k q → k < i.depth → links q ⊆ s.urls
  work : ∀ w i todo, s.workers w=.working i todo →
    todo ⊆ children links maxDepth i ∧ children links maxDepth i ⊆ todo++s.urls
  done : ∀ i∈s.processed, (∃ w todo, s.workers w=.working i todo) ∨
    children links maxDepth i ⊆ s.urls

end

variable {links : U → List U} {seeds : List U} {maxDepth : ℕ} {s : Crawl U n}

namespace Crawl

theorem Wave.update (h : s.Wave links seeds maxDepth) {w p f inflight processed}
    (hsub : s.frontier.seen ⊆ f.seen)
    (hexact : ∀ i∈f.seen, IsDistance links seeds i.depth i.url ∧ i.depth ≤ maxDepth)
    (hheld : ∀ i, p.item=some i → i∈s.frontier.seen ∧
      ∀ k q, Reach links seeds k q → k < i.depth → links q ⊆ s.urls)
    (hwork : ∀ i todo, p=.working i todo → todo ⊆ children links maxDepth i ∧
      children links maxDepth i ⊆ todo++f.seen.map Item.url)
    (hdone : ∀ i∈processed, i∈s.processed ∨ ∃ todo, p=.working i todo)
    (hleft : ∀ i todo, s.workers w=.working i todo → (∃ todo', p=.working i todo') ∨
      children links maxDepth i ⊆ f.seen.map Item.url) :
    Wave links seeds maxDepth ⟨f,Function.update s.workers w p,inflight,processed⟩ := by
  have hurls : s.urls ⊆ f.seen.map Item.url := map_subset _ hsub
  refine ⟨fun u hu => hurls (h.seeded u hu),hexact,
    fun v i (hv : (Function.update s.workers w p v).item=some i) => ?_,
    fun v i todo (hv : Function.update s.workers w p v=.working i todo) => ?_,fun i hi => ?_⟩
  · have hold : i∈s.frontier.seen ∧
        ∀ k q, Reach links seeds k q → k < i.depth → links q ⊆ s.urls := by
      by_cases hvw : v=w
      · rw [hvw,Function.update_self] at hv
        exact hheld i hv
      · rw [Function.update_of_ne hvw] at hv
        exact h.held v i hv
    exact ⟨hsub hold.1,fun k q hq hk => Subset.trans (hold.2 k q hq hk) hurls⟩
  · by_cases hvw : v=w
    · rw [hvw,Function.update_self] at hv
      exact hwork i todo hv
    · rw [Function.update_of_ne hvw] at hv
      obtain ⟨htodo,hrest⟩ := h.work v i todo hv
      exact ⟨htodo,fun u hu => mem_append.2 ((mem_append.1 (hrest hu)).imp_right (@hurls u))⟩
  · have hworks : ∀ todo, p=.working i todo → ∃ v todo,
        Function.update s.workers w p v=.working i todo :=
      fun todo hp => ⟨w,todo,by rw [Function.update_self,hp]⟩
    rcases hdone i hi with hold | ⟨todo,hp⟩
    · rcases h.done i hold with ⟨v,todo,hv⟩ | hall
      · by_cases hvw : v=w
        · rcases hleft i todo (hvw ▸ hv) with ⟨todo',hp⟩ | hall
          · exact .inl (hworks todo' hp)
          · exact .inr hall
        · exact .inl ⟨v,todo,(Function.update_of_ne hvw p s.workers).trans hv⟩
      · exact .inr (Subset.trans hall hurls)
    · exact .inl (hworks todo hp)

/-- A link found by a page in flight that nobody saw before leads to a page one further
from the seeds. -/
theorem Wave.isDistance_child (h : s.Wave links seeds maxDepth) {w i}
    (hw : (s.workers w).item=some i) {u} (hu : u∈children links maxDepth i) (hnew : u∉s.urls) :
    IsDistance links seeds (i.depth+1) u ∧ i.depth+1 ≤ maxDepth := by
  obtain ⟨hi,habove⟩ := h.held w i hw
  unfold children at hu
  split_ifs at hu with hdepth
  · cases hu
  refine ⟨⟨.link (h.exact i hi).1.reach hu,fun k hk => ?_⟩,by omega⟩
  by_contra hlt
  cases hk with
  | seed hseed => exact hnew (h.seeded u hseed)
  | link hp hlink => exact hnew (habove _ _ hp (by omega) hlink)

variable [DecidableEq U]

theorem held_eq_zero {p : Phase U} {i} (h : p.item≠some i) : p.held i=0 := by
  cases p with
  | popped j | counted j => exact if_neg fun he => h (congrArg some he)
  | idle | starved | working | returned => rfl

theorem Whole.cases_of_seen (h : s.Whole) {i : Item U} (hi : i∈s.frontier.seen) :
    i∈s.frontier.heap.map Entry.item ∨ (∃ w, (s.workers w).item=some i) ∨
      i∈s.processed := by
  by_contra hno
  push Not at hno
  have honce:=h.once i
  rw [count_eq_zero.2 hno.1,count_eq_zero.2 hno.2.2,
    Finset.sum_eq_zero fun w _ => held_eq_zero (hno.2.1 w)] at honce
  have hpos:=count_pos_iff.2 hi
  omega

theorem Whole.seen_of_heap (h : s.Whole) {i} (hi : i∈s.frontier.heap.map Entry.item) :
    i∈s.frontier.seen := by
  have honce:=h.once i
  have hpos:=count_pos_iff.2 hi
  exact count_pos_iff.1 (by omega)

/-- Where neither the queue nor a worker has anything above depth `d`, all pages above it
have been searched for links. -/
theorem Wave.searched (h : s.Wave links seeds maxDepth) (hwhole : s.Whole) {d} (hd : d ≤ maxDepth)
    (hheap : ∀ i∈s.frontier.heap.map Entry.item, d ≤ i.depth)
    (hcalm : ∀ w i, (s.workers w).item=some i → d ≤ i.depth) {k q} (hq : Reach links seeds k q)
    (hk : k < d) : links q ⊆ s.urls := by
  have hsearched : ∀ {k q}, Reach links seeds k q → k < d → q∈s.urls → links q ⊆ s.urls := by
    intro k q hq hk hmem
    obtain ⟨i,hi,rfl⟩ := mem_map.1 hmem
    have hdepth:=(h.exact i hi).1.least k hq
    rcases hwhole.cases_of_seen hi with hqueued | ⟨w,hw⟩ | hprocessed
    · have := hheap i hqueued
      omega
    · have := hcalm w i hw
      omega
    · rcases h.done i hprocessed with ⟨w,todo,hw⟩ | hall
      · have := hcalm w i (by rw [hw]; rfl)
        omega
      · rwa [children,if_neg (by omega)] at hall
  induction hq with
  | seed hu => exact hsearched (.seed hu) hk (h.seeded _ hu)
  | link hp hu ih => exact hsearched (.link hp hu) hk (ih (by omega) hu)

/-- Nothing is taken from the queue while a shallower page is in flight. -/
def Calm (s : Crawl U n) (w : Fin (n+1)) : Prop :=
  s.workers w=.idle → ∀ i f, s.frontier.pop=some (i,f) →
    ∀ v j, (s.workers v).item=some j → i.depth≤j.depth

theorem push_seen (foreign : U → Bool) {fits} (hfits : ∀ u, fits u=true) (f : Frontier U) (u : U)
    (depth : ℕ) :
    f.seen ⊆ (f.push foreign fits u depth).seen ∧
      u∈(f.push foreign fits u depth).seen.map Item.url ∧
      ∀ i∈(f.push foreign fits u depth).seen, i∈f.seen ∨
        i=⟨u,depth⟩ ∧ u∉f.seen.map Item.url := by
  by_cases hu : u∈f.seen.map Item.url
  · rw [Frontier.push,if_neg fun h => h.2 hu]
    exact ⟨Subset.refl _,hu,fun i => .inl⟩
  · rw [Frontier.push,if_pos ⟨hfits u,hu⟩]
    exact ⟨subset_cons_self _ _,mem_cons_self,fun i hi => (mem_cons.1 hi).symm.imp_right (⟨·,hu⟩)⟩

theorem wave_step {foreign fits} (hfits : ∀ u, fits u=true) (h : s.Wave links seeds maxDepth)
    (hwhole : s.Whole) {w} (hcalm : s.Calm w) :
    (s.step foreign fits (children links maxDepth) w).Wave links seeds maxDepth := by
  unfold step
  split
  next hw =>
    cases hpop : s.frontier.pop with
    | none => exact h.update (Subset.refl _) h.exact nofun nofun (fun i => .inl) (by simp [hw])
    | some popped =>
      obtain ⟨i,f⟩ := popped
      obtain ⟨hseen,hperm,hmin⟩ := pop_eq_some hpop
      have hi:=hwhole.seen_of_heap (hperm.mem_iff.2 mem_cons_self)
      refine h.update (hseen ▸ Subset.refl _) (hseen ▸ h.exact) ?_ nofun (fun i => .inl)
        (by simp [hw])
      rintro _ ⟨⟩
      exact ⟨hi,fun k q hq hk => h.searched hwhole (h.exact i hi).2 (forall_mem_map.2 hmin)
        (hcalm hw i f hpop) hq hk⟩
  next hw =>
    refine h.update (Subset.refl _) h.exact ?_ ?_ (fun i => .inl) (by simp [hw])
    all_goals split_ifs <;> nofun
  next i hw =>
    exact h.update (Subset.refl _) h.exact (fun j hj => h.held w j (by rw [hw]; exact hj)) nofun
      (fun i => .inl) (by simp [hw])
  next i hw =>
    refine h.update (Subset.refl _) h.exact (fun j hj => h.held w j (by rw [hw]; exact hj)) ?_ ?_
      (by simp [hw])
    · rintro _ _ ⟨⟩
      exact ⟨Subset.refl _,subset_append_left _ _⟩
    · intro j hj
      rcases mem_cons.1 hj with rfl | hj
      · exact .inr ⟨_,rfl⟩
      · exact .inl hj
  next i u todo hw =>
    have hitem : (s.workers w).item=some i := by rw [hw]; rfl
    obtain ⟨htodo,hrest⟩ := h.work w i (u::todo) hw
    obtain ⟨hsub,hu,hseen⟩ := push_seen foreign hfits s.frontier u (i.depth+1)
    refine h.update hsub (fun j hj => ?_) ?_ ?_ (fun j => .inl) fun j todo' hj => ?_
    · rcases hseen j hj with hj | ⟨rfl,hnew⟩
      · exact h.exact j hj
      · exact h.isDistance_child hitem (htodo mem_cons_self) hnew
    · rintro _ ⟨⟩
      exact h.held w i hitem
    · rintro _ _ ⟨⟩
      refine ⟨subset_of_cons_subset htodo,fun v hv => mem_append.2 ?_⟩
      rcases mem_append.1 (hrest hv) with hv | hv
      · rcases mem_cons.1 hv with rfl | hv
        · exact .inr hu
        · exact .inl hv
      · exact .inr (map_subset _ hsub hv)
    · rw [hw] at hj
      cases hj
      exact .inl ⟨_,rfl⟩
  next i hw =>
    refine h.update (Subset.refl _) h.exact nofun nofun (fun i => .inl) fun j todo hj => ?_
    rw [hw] at hj
    cases hj
    exact .inr (h.work w i [] hw).2
  next => exact h

/-- Every pop of the run meets `Calm`. -/
def CalmRun (foreign fits : U → Bool) (discover : Item U → List U) :
    Crawl U n → List (Fin (n+1)) → Prop
  | _, [] => True
  | s, w::ws => s.Calm w ∧ CalmRun foreign fits discover (s.step foreign fits discover w) ws

theorem calmRun_single (foreign fits : U → Bool) (discover : Item U → List U) (s : Crawl U 0)
    (turns : List (Fin 1)) : CalmRun foreign fits discover s turns := by
  induction turns generalizing s with
  | nil => trivial
  | cons w turns ih =>
    refine ⟨fun hw i f _ v j hv => ?_,ih _⟩
    rw [show v=w by omega,hw] at hv
    cases hv

theorem wave_start (foreign : U → Bool) {fits} (hfits : ∀ u, fits u=true) :
    (start foreign fits (seedItems seeds) : Crawl U n).Wave links seeds maxDepth := by
  have hpushes : ∀ us ⊆ seeds, ∀ f : Frontier U, (∀ i∈f.seen, i.depth=0 ∧ i.url∈seeds) →
      let f':=(seedItems us).foldl (fun f i => f.push foreign fits i.url i.depth) f
      (∀ u∈f.seen.map Item.url++us, u∈f'.seen.map Item.url) ∧
        ∀ i∈f'.seen, i.depth=0 ∧ i.url∈seeds := by
    intro us
    induction us with
    | nil => exact fun _ f hf => ⟨fun u hu => by rwa [append_nil] at hu,hf⟩
    | cons u us ih =>
      intro hus f hf
      obtain ⟨hsub,hmem,hseen⟩ := push_seen foreign hfits f u 0
      obtain ⟨hall,hzero⟩ := ih (subset_of_cons_subset hus) (f.push foreign fits u 0) (by
        intro i hi
        rcases hseen i hi with hi | ⟨rfl,-⟩
        · exact hf i hi
        · exact ⟨rfl,hus mem_cons_self⟩)
      refine ⟨fun v hv => hall v (mem_append.2 ?_),hzero⟩
      rcases mem_append.1 hv with hv | hv
      · exact .inl (map_subset _ hsub hv)
      · rcases mem_cons.1 hv with rfl | hv
        · exact .inl hmem
        · exact .inr hv
  obtain ⟨hall,hzero⟩ := hpushes seeds (Subset.refl _) {} (by simp)
  refine ⟨hall,fun i hi => ?_,nofun,nofun,nofun⟩
  obtain ⟨hdepth,hseed⟩ := hzero i hi
  rw [hdepth]
  exact ⟨⟨.seed hseed,fun k _ => Nat.zero_le k⟩,Nat.zero_le _⟩

theorem wave_run {foreign fits} (hfits : ∀ u, fits u=true) {turns}
    (h : s.Wave links seeds maxDepth) (hwhole : s.Whole)
    (hcalm : CalmRun foreign fits (children links maxDepth) s turns) :
    (s.run foreign fits (turns.map (·,children links maxDepth))).Wave links seeds maxDepth := by
  induction turns generalizing s with
  | nil => exact h
  | cons w turns ih =>
    exact ih (wave_step hfits h hwhole hcalm.1) (whole_step hwhole _ w) hcalm.2

theorem crawl_records_by_distance (foreign : U → Bool) {fits} (hfits : ∀ u, fits u=true)
    (links : U → List U) (seeds : List U) (maxDepth : ℕ) (turns : List (Fin (n+1)))
    (hcalm : CalmRun foreign fits (children links maxDepth)
      (start foreign fits (seedItems seeds)) turns)
    (hreturned : ∀ w, ((start foreign fits (seedItems seeds)).run foreign fits
      (turns.map (·,children links maxDepth))).workers w=.returned) :
    let s:=(start foreign fits (seedItems seeds)).run foreign fits
      (turns.map (·,children links maxDepth))
    (s.processed.map Item.url).Nodup ∧
      ∀ i, i∈s.processed ↔ IsDistance links seeds i.depth i.url ∧ i.depth ≤ maxDepth := by
  intro s
  have hwhole : s.Whole := whole_run (whole_start _) _
  have hwave : s.Wave links seeds maxDepth :=
    wave_run hfits (wave_start foreign hfits) (whole_start _) hcalm
  obtain ⟨hheap,hperm⟩ := hwhole.drained hreturned
  refine ⟨(hperm.map Item.url).nodup_iff.2 hwhole.fresh,fun i => hperm.mem_iff.trans ?_⟩
  refine ⟨hwave.exact i,fun ⟨hdist,hdepth⟩ => ?_⟩
  have hsearched : ∀ {k q}, Reach links seeds k q → k < maxDepth → links q ⊆ s.urls :=
    hwave.searched hwhole le_rfl (by simp [hheap]) fun w j hj => by
      rw [hreturned w] at hj
      cases hj
  have hmem : ∀ {k u}, Reach links seeds k u → k ≤ maxDepth → u∈s.urls := by
    intro k u hreach hk
    cases hreach with
    | seed hu => exact hwave.seeded u hu
    | link hp hu => exact hsearched hp hk hu
  obtain ⟨j,hj,hurl⟩ := mem_map.1 (hmem hdist.reach hdepth)
  have hother:=(hwave.exact j hj).1
  rw [hurl] at hother
  have heq : j=i := by
    cases i
    cases j
    exact congr (congrArg Item.mk hurl)
      (le_antisymm (hother.least _ hdist.reach) (hdist.least _ hother.reach))
  exact heq ▸ hj

end Crawl

open Sample

theorem crawl_records_one_page :
    let s:=(Crawl.start home short (seedItems [7])).run home short
      ((replicate 6 (0 : Fin 1)).map (·,children (fun _ => []) 3))
    (s.processed.map Item.url).Nodup ∧
      ∀ i, i∈s.processed ↔ IsDistance (fun _ => []) [7] i.depth i.url ∧ i.depth≤3 := by
  exact Crawl.crawl_records_by_distance home (fun _ => rfl) _ _ _ _
    (Crawl.calmRun_single home short _ _ _) (by decide)

namespace Sample

def web : ℕ → List ℕ
  | 0 => [3]
  | 1 => [2]
  | 2 => [3]
  | 3 => [4]
  | _ => []

/-- The worker 0 is slow with page 0 while the worker 1 goes on to page 2. -/
def overtaking : List (Fin 2) :=
  [0]++replicate 10 1++replicate 10 0++replicate 2 1

end Sample

theorem overtaken_page_too_deep :
    let s:=(Crawl.start home short (seedItems [0,1])).run home short
      (overtaking.map (·,children web 2))
    (∀ w, s.workers w=.returned) ∧ s.processed=[⟨3,2⟩,⟨0,0⟩,⟨2,1⟩,⟨1,0⟩] ∧
      Reach web [0,1] 1 3 ∧ Reach web [0,1] 2 4 := by
  refine ⟨by decide +kernel,by decide +kernel,?_⟩
  have hthree : Reach web [0,1] 1 3 := .link (.seed (u := 0) (by decide)) (by decide)
  exact ⟨hthree,.link hthree (by decide)⟩

end OriginTools.Crawler
