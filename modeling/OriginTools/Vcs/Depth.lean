import OriginTools.Foundation.LevelWalk
import OriginTools.Vcs.Reachability
import OriginTools.Vcs.Sample

/-!
# Depth-limited reachability

`depth_reachable` (`store.rs`): a walk from the ref tips that follows the parents of a
commit only while its level is below the depth, and lists the commits it stopped at.
-/

namespace OriginTools.Vcs.Store
open Ancestry LevelWalk List
variable (sdk : Sdk)

structure DepthWalk where
  seen : List ObjectId
  objects : Std.ExtTreeSet ObjectId compare
  boundary : List ObjectId

def depthPushes (s : Store) (depth : ℕ) (id : ObjectId) (level : ℕ) : List (ObjectId × ℕ) :=
  match s.readCommitRecord sdk id with
  | .ok record =>
    (record.commit.tree,level)::
      if depth≤level then [] else record.commit.parents.map fun p => (p,level+1)
  | .error _ =>
    match s.readTag sdk id with
    | .ok tag => [(tag.target,level+1)]
    | .error _ =>
      match s.treeObjectChildren sdk id with
      | .ok children => children.map fun child => (child,level)
      | .error _ => []

def depthVisit (s : Store) (depth : ℕ) (id : ObjectId) (level : ℕ) (w : DepthWalk) : DepthWalk :=
  match s.readCommitRecord sdk id with
  | .ok record =>
    { seen := id::w.seen
      objects := (w.objects.insert id).insert record.commit.tree
      boundary := if depth≤level then w.boundary++[id] else w.boundary }
  | .error _ => { w with seen := id::w.seen,objects := w.objects.insert id }

def depthLoop (s : Store) (depth : ℕ) : ℕ → List (ObjectId × ℕ) → DepthWalk → Option DepthWalk
  | _,[],w => some w
  | 0,_::_,_ => none
  | n+1,(id,level)::stack,w =>
    if id∈w.seen then depthLoop s depth n stack w
    else depthLoop s depth n ((depthPushes sdk s depth id level).reverse++stack)
      (depthVisit sdk s depth id level w)

/-- The objects and the boundary; the step bound is always large enough
(`depthReachable_run`). -/
def depthReachable (s : Store) (branches tags extra : List ObjectId) (depth : ℕ) :
    Except String (Std.ExtTreeSet ObjectId compare × List ObjectId) :=
  let queue:=(branches++tags++extra++okOrNil s.stashes).map fun id => (id,1)
  let bound:=queue.length+
    Walk.pending (fun id => (.ok (s.links sdk true id) : Except String _)) s.objects.keys []
  match depthLoop sdk s (max depth 1) bound queue.reverse ⟨[],∅,[]⟩ with
  | some w => .ok (w.objects,w.boundary)
  | none => .ok (∅,[])

def depthStep (s : Store) (depth : ℕ) (id : ObjectId) (level : ℕ) : List (ObjectId × ℕ) :=
  (depthPushes sdk s depth id level).reverse

def collected (s : Store) (depth : ℕ) : List (ObjectId × ℕ) → DepthWalk
  | [] => ⟨[],∅,[]⟩
  | (id,level)::rest => depthVisit sdk s depth id level (collected s depth rest)

theorem collected_seen (s depth) (vs : List (ObjectId × ℕ)) :
    (collected sdk s depth vs).seen=vs.map Prod.fst := by
  induction vs with
  | nil => rfl
  | cons v vs ih =>
    obtain ⟨id,level⟩ := v
    simp only [collected,depthVisit,map_cons]
    cases s.readCommitRecord sdk id with
    | ok | error => simp [ih]

theorem depthLoop_eq (s depth n stack seen) :
    depthLoop sdk s depth n stack (collected sdk s depth seen)=
      (LevelWalk.walk (depthStep sdk s depth) n stack seen).map (collected sdk s depth) := by
  induction n generalizing stack seen with
  | zero =>
    cases stack with
    | nil | cons => rfl
  | succ n ih =>
    rcases stack with _ | ⟨e,stack⟩
    · rfl
    obtain ⟨id,level⟩ := e
    simp only [depthLoop,LevelWalk.walk,collected_seen]
    split_ifs with hid
    · exact ih stack seen
    · exact ih (depthStep sdk s depth id level++stack) ((id,level)::seen)

theorem depthPushes_length (s : Store) (depth id level) :
    (depthStep sdk s depth id level).length≤(s.links sdk true id).length := by
  simp only [depthStep,length_reverse,depthPushes,links]
  rcases s.readCommitRecord sdk id with e | record
  · rcases s.readTag sdk id with e | tag
    · rcases s.treeObjectChildren sdk id with e | children
      · simp
      · simp
    · simp
  · split_ifs <;> simp

theorem depthReachable_run (s : Store) (branches tags extra depth) :
    ∃ vs : List (Visit ObjectId),s.depthReachable sdk branches tags extra depth=
        .ok ((collected sdk s (max depth 1) (vs.map Visit.entry)).objects,
          (collected sdk s (max depth 1) (vs.map Visit.entry)).boundary) ∧
      Visited (depthStep sdk s (max depth 1))
        ((branches++tags++extra++okOrNil s.stashes).map fun id => (id,1)).reverse vs := by
  let queue:=(branches++tags++extra++okOrNil s.stashes).map fun id => (id,1)
  have hbound:=LevelWalk.walk_returns (depthStep sdk s (max depth 1))
    (fun id => (.ok (s.links sdk true id) : Except String _)) s.objects.keys
    (s.links_supported sdk true)
    (fun id level => ⟨_,rfl,depthPushes_length sdk s (max depth 1) id level⟩)
    (queue.length+
      Walk.pending (fun id => (.ok (s.links sdk true id) : Except String _)) s.objects.keys [])
    queue.reverse [] (by simp)
  obtain ⟨out,hout⟩ := hbound
  obtain ⟨vs,rfl,hvisited⟩ := walk_start (depthStep sdk s (max depth 1)) queue.reverse _ out hout
  refine ⟨vs,?_,hvisited⟩
  have hloop:=depthLoop_eq sdk s (max depth 1) (queue.length+
    Walk.pending (fun id => (.ok (s.links sdk true id) : Except String _)) s.objects.keys [])
    queue.reverse []
  rw [hout] at hloop
  simp only [collected,Option.map_some] at hloop
  simp only [depthReachable]
  rw [show ((branches++tags++extra++okOrNil s.stashes).map fun id => (id,1))=queue from
    rfl,hloop]

def IsCommit (s : Store) (x : ObjectId) : Prop := ∃ record,s.readCommitRecord sdk x=.ok record

theorem mem_collected_objects (s : Store) (depth) (vs : List (ObjectId × ℕ)) (x) :
    x∈(collected sdk s depth vs).objects ↔ x∈vs.map Prod.fst ∨
      ∃ y∈vs.map Prod.fst,∃ record,s.readCommitRecord sdk y=.ok record ∧ record.commit.tree=x := by
  induction vs with
  | nil => simp [collected]
  | cons v vs ih =>
    obtain ⟨id,level⟩ := v
    simp only [collected,depthVisit,map_cons,mem_cons,exists_eq_or_imp]
    rcases hrecord : s.readCommitRecord sdk id with e | record
    · simp only [Std.ExtTreeSet.mem_insert,Std.compare_eq_iff_eq,ih]
      simp [eq_comm,or_assoc]
    · simp only [Std.ExtTreeSet.mem_insert,Std.compare_eq_iff_eq,ih,Except.ok.injEq,
        exists_eq_left',eq_comm (b := x)]
      tauto

theorem mem_collected_boundary (s : Store) (depth vs x) :
    x∈(collected sdk s depth vs).boundary ↔
      ∃ level,(x,level)∈vs ∧ depth≤level ∧ s.IsCommit sdk x := by
  induction vs with
  | nil => simp [collected]
  | cons v vs ih =>
    obtain ⟨id,level⟩ := v
    have hsplit : (∃ l,(x,l)∈(id,level)::vs ∧ depth≤l ∧ s.IsCommit sdk x) ↔
        x∈(collected sdk s depth vs).boundary ∨ x=id ∧ depth≤level ∧ s.IsCommit sdk id := by
      rw [ih]
      grind
    rw [hsplit,collected,depthVisit]
    rcases hrecord : s.readCommitRecord sdk id with e | record
    · simp [IsCommit,hrecord]
    · by_cases hdeep : depth≤level
      · simp [IsCommit,hrecord,hdeep]
      · simp [hdeep]

def parentList (s : Store) (x : ObjectId) : List ObjectId := okOrNil (s.parents sdk x)

def Near (s : Store) (tips : List ObjectId) : ℕ → ObjectId → Prop
  | 0,x => x∈tips
  | n+1,x => Near s tips n x ∨ ∃ y,Near s tips n y ∧ x∈s.parentList sdk y

/-- An acyclic commit graph that is there: what a tip descends from are commits, and
what their trees lead to are neither commits nor tags. -/
structure CommitGraph (s : Store) (tips : List ObjectId) : Prop where
  acyclic : Acyclic (s.ParentLink sdk)
  present : ∀ t∈tips,s.HistoryPresent sdk t
  trees : ∀ x record y,s.readCommitRecord sdk x=.ok record →
    s.Reaches sdk record.commit.tree y →
      (∃ e,s.readCommitRecord sdk y=.error e) ∧ ∃ e,s.readTag sdk y=.error e

structure ByDistance (s : Store) (tips : List ObjectId) (d : ℕ)
    (objects : Std.ExtTreeSet ObjectId compare) (boundary : List ObjectId) : Prop where
  commits : ∀ x,s.IsCommit sdk x → (x∈objects ↔ s.Near sdk tips (d-1) x)
  trees : ∀ x record y,s.Near sdk tips (d-1) x → s.readCommitRecord sdk x=.ok record →
    s.Reaches sdk record.commit.tree y → y∈objects
  boundary : ∀ x,x∈boundary ↔ x∈objects ∧ s.IsCommit sdk x ∧ ∃ p∈s.parentList sdk x,p∉objects

/-- Paths through the commit graph name tips and parents in the order of the search:
the last one first. -/
abbrev CommitLeads (s : Store) (tips : List ObjectId) : List ℕ → ObjectId → Prop :=
  Leads tips.reverse fun x => (s.parentList sdk x).reverse

theorem mem_parentList (s : Store) (x p) : p∈s.parentList sdk x ↔ s.ParentLink sdk x p := by
  unfold parentList
  rcases hp : s.parents sdk x with e | ps
  · simp [okOrNil,Walk.Edge,hp]
  · simp [okOrNil,Walk.Edge,hp]

variable {x : ObjectId}

theorem parentList_commit {s : Store} {record : CommitRecord}
    (h : s.readCommitRecord sdk x=.ok record) : s.parentList sdk x=record.commit.parents := by
  simp [parentList,parents,readCommit,h,Except.map,okOrNil]

theorem near_mono {s : Store} {tips n m} (h : n ≤ m) (hx : s.Near sdk tips n x) :
    s.Near sdk tips m x := by
  induction m with
  | zero =>
    have hn : n=0 := by omega
    exact hn ▸ hx
  | succ m ih =>
    by_cases hnm : n=m+1
    · exact hnm ▸ hx
    · exact .inl (ih (by omega))

theorem near_iff_within (s : Store) (tips : List ObjectId) (n : ℕ) (x : ObjectId) :
    s.Near sdk tips n x ↔ Within tips.reverse (fun y => (s.parentList sdk y).reverse) (n+1) x := by
  constructor
  · intro h
    induction n generalizing x with
    | zero =>
      obtain ⟨i,hi⟩ := mem_iff_getElem?.mp (mem_reverse.mpr h)
      exact ⟨[i],Leads.root i x hi,le_rfl⟩
    | succ n ih =>
      rcases h with h | ⟨y,hy,hx⟩
      · obtain ⟨p,hp,hlen⟩ := ih x h
        exact ⟨p,hp,by omega⟩
      obtain ⟨p,hp,hlen⟩ := ih y hy
      obtain ⟨i,hi⟩ := mem_iff_getElem?.mp (mem_reverse.mpr hx)
      refine ⟨p++[i],Leads.step p i y x hp hi,?_⟩
      rw [List.length_append,List.length_singleton]
      omega
  · rintro ⟨p,hp,hlen⟩
    induction hp generalizing n with
    | root i x h =>
      exact near_mono sdk (Nat.zero_le n) (mem_reverse.mp (List.mem_of_getElem? h))
    | step p i x y hp h ih =>
      have hpos : 0<p.length := length_pos_iff.mpr (leads_ne_nil hp)
      rw [List.length_append,List.length_singleton] at hlen
      obtain ⟨m,rfl⟩ : ∃ m,n=m+1 := ⟨n-1,by omega⟩
      exact .inr ⟨x,ih m (by omega),mem_reverse.mp (List.mem_of_getElem? h)⟩

theorem leads_descends (s : Store) {tips p} (h : s.CommitLeads sdk tips p x) :
    ∃ t∈tips,s.Descends sdk t x := by
  induction h with
  | root i x h =>
    exact ⟨x,mem_reverse.mp (List.mem_of_getElem? h),Relation.ReflTransGen.refl⟩
  | step p i x y _ h ih =>
    obtain ⟨t,ht,hx⟩ := ih
    have hmem : y∈s.parentList sdk x := mem_reverse.mp (List.mem_of_getElem? h)
    exact ⟨t,ht,hx.tail ((s.mem_parentList sdk x y).mp hmem)⟩

theorem isCommit_of_leads (s : Store) {tips} (hg : s.CommitGraph sdk tips) {p}
    (h : s.CommitLeads sdk tips p x) : s.IsCommit sdk x := by
  obtain ⟨t,ht,hx⟩ := s.leads_descends sdk h
  obtain ⟨c,hc⟩ := hg.present t ht x hx
  unfold readCommit at hc
  rcases hrecord : s.readCommitRecord sdk x with e | record
  · simp [hrecord,Except.map] at hc
  · exact ⟨record,hrecord⟩

def InTree (s : Store) (x : ObjectId) : Prop :=
  ∃ y record,s.readCommitRecord sdk y=.ok record ∧ s.Reaches sdk record.commit.tree x

theorem not_commit_of_inTree (s : Store) {tips} (hg : s.CommitGraph sdk tips) (h : s.InTree sdk x) :
    ¬ s.IsCommit sdk x := by
  obtain ⟨y,record,hy,hreach⟩ := h
  obtain ⟨⟨e,he⟩,-⟩ := hg.trees y record x hy hreach
  rintro ⟨record',hok⟩
  rw [he] at hok
  cases hok

theorem depthStep_inTree (s : Store) {tips} (hg : s.CommitGraph sdk tips) (d level)
    (h : s.InTree sdk x) :
    depthStep sdk s d x level=(s.links sdk true x).reverse.map fun y => (y,level) := by
  obtain ⟨y,record,hy,hreach⟩ := h
  obtain ⟨⟨e,he⟩,⟨e',he'⟩⟩ := hg.trees y record x hy hreach
  simp only [depthStep,depthPushes,links,he,he']
  rcases s.treeObjectChildren sdk x with e | children
  · rfl
  · simp [map_reverse]

theorem depthStep_commit (s : Store) (d level) {record : CommitRecord}
    (h : s.readCommitRecord sdk x=.ok record) :
    depthStep sdk s d x level=(if d≤level then []
        else (s.parentList sdk x).reverse.map fun p => (p,level+1))++
        [(record.commit.tree,level)] := by
  rw [parentList_commit sdk h]
  simp only [depthStep,depthPushes,h,reverse_cons]
  split_ifs with hdeep
  · rfl
  · rw [map_reverse]

theorem leads_walk_cases (s : Store) {tips} (hg : s.CommitGraph sdk tips) {d} (hd : 1≤d) {p e}
    (h : Leads (tips.map fun id => (id,1)).reverse (LevelWalk.next (depthStep sdk s d)) p e) :
    (s.CommitLeads sdk tips p e.1 ∧ e.2=p.length ∧ p.length≤d) ∨ s.InTree sdk e.1 := by
  induction h with
  | root i e h =>
    left
    rw [← map_reverse,List.getElem?_map,Option.map_eq_some_iff] at h
    obtain ⟨t,ht,rfl⟩ := h
    exact ⟨Leads.root i t ht,rfl,hd⟩
  | step p i e e' _ h ih =>
    obtain ⟨x,level⟩ := e
    obtain ⟨y,level'⟩ := e'
    rcases ih with ⟨hx,hlevel,hlen⟩ | hx
    · obtain ⟨record,hrecord⟩ := s.isCommit_of_leads sdk hg hx
      have hpush : (depthStep sdk s d x level)[i]? = some (y,level') := h
      rw [s.depthStep_commit sdk d level hrecord] at hpush
      have htree : (y,level')=(record.commit.tree,level) → s.InTree sdk y := by
        intro heq
        rw [Prod.mk.injEq] at heq
        exact ⟨x,record,hrecord,heq.1 ▸ Relation.ReflTransGen.refl⟩
      rcases mem_append.mp (List.mem_of_getElem? hpush) with hparent | hlast
      · split_ifs at hparent hpush with hdeep
        · simp at hparent
        by_cases hi : i<(s.parentList sdk x).reverse.length
        · left
          rw [List.getElem?_append_left (by simpa using hi),List.getElem?_map,
            Option.map_eq_some_iff] at hpush
          obtain ⟨q,hq,hqy⟩ := hpush
          rw [Prod.mk.injEq] at hqy
          obtain ⟨rfl,rfl⟩ := hqy
          have hlevel' : level=p.length := hlevel
          refine ⟨Leads.step p i x q hx hq,?_,?_⟩
          · rw [List.length_append,List.length_singleton,hlevel']
          · rw [List.length_append,List.length_singleton]
            omega
        · right
          rw [getElem?_append_right (by simpa using hi)] at hpush
          exact htree (mem_singleton.mp (List.mem_of_getElem? hpush))
      · right
        exact htree (mem_singleton.mp hlast)
    · right
      have hpush : (depthStep sdk s d x level)[i]? = some (y,level') := h
      rw [s.depthStep_inTree sdk hg d level hx] at hpush
      obtain ⟨z,hz,hzy⟩ := mem_map.mp (List.mem_of_getElem? hpush)
      rw [Prod.mk.injEq] at hzy
      obtain ⟨c,record,hc,hreach⟩ := hx
      have hlink : y∈s.links sdk true x := hzy.1 ▸ mem_reverse.mp hz
      exact ⟨c,record,hc,hreach.tail hlink⟩

def commitVisits (s : Store) (vs : List (Visit ObjectId)) : List (ObjectId × List ℕ) :=
  vs.filterMap fun v =>
    match s.readCommitRecord sdk v.node with
    | .ok _ => some (v.node,v.path)
    | .error _ => none

theorem mem_commitVisits (s : Store) (vs x p) : (x,p)∈commitVisits sdk s vs ↔
      s.IsCommit sdk x ∧ ∃ v∈vs,v.node=x ∧ v.path=p := by
  simp only [commitVisits,mem_filterMap]
  constructor
  · rintro ⟨v,hv,hsome⟩
    rcases hrecord : s.readCommitRecord sdk v.node with e | record
    · simp [hrecord] at hsome
    · simp only [hrecord,Option.some.injEq,Prod.mk.injEq] at hsome
      exact ⟨⟨record,hsome.1 ▸ hrecord⟩,v,hv,hsome⟩
  · rintro ⟨⟨record,hrecord⟩,v,hv,rfl,rfl⟩
    exact ⟨v,hv,by simp [hrecord]⟩

theorem visit_unique {vs : List (Visit ObjectId)} (hnodup : (vs.map Visit.node).Nodup)
    {v w : Visit ObjectId} (hv : v∈vs) (hw : w∈vs) (h : v.node=w.node) : v=w :=
  inj_on_of_nodup_map hnodup hv hw h

section Walk
variable {s : Store} {tips : List ObjectId} {d : ℕ} {vs : List (Visit ObjectId)}

theorem visit_commit (hg : s.CommitGraph sdk tips) (hd : 1≤d)
    (hvs : Visited (depthStep sdk s d) (tips.map fun id => (id,1)).reverse vs) {v} (hv : v∈vs)
    (hcommit : s.IsCommit sdk v.node) :
    s.CommitLeads sdk tips v.path v.node ∧ v.level=v.path.length ∧ v.path.length≤d := by
  rcases s.leads_walk_cases sdk hg hd (hvs.leads v hv) with h | h
  · exact h
  · exact absurd hcommit (s.not_commit_of_inTree sdk hg h)

theorem commitVisits_search (hg : s.CommitGraph sdk tips) (hd : 1≤d)
    (hvs : Visited (depthStep sdk s d) (tips.map fun id => (id,1)).reverse vs) :
    Search tips.reverse (fun x => (s.parentList sdk x).reverse) d (commitVisits sdk s vs) := by
  constructor
  · intro x p hmem
    obtain ⟨hcommit,v,hv,rfl,rfl⟩ := (s.mem_commitVisits sdk vs x p).mp hmem
    obtain ⟨hlead,-,hlen⟩ := visit_commit sdk hg hd hvs hv hcommit
    exact ⟨hlead,hlen⟩
  · intro i t ht
    have hroot : (tips.map fun id => (id,1)).reverse[i]? = some (t,1) := by
      rw [← map_reverse,List.getElem?_map,ht]
      rfl
    obtain ⟨v,hv,hnode,hpath⟩ := hvs.roots i (t,1) hroot
    have hcommit : s.IsCommit sdk t := s.isCommit_of_leads sdk hg (Leads.root i t ht)
    exact ⟨v.path,(s.mem_commitVisits sdk vs t v.path).mpr ⟨hcommit,v,hv,hnode,rfl⟩,hpath⟩
  · intro x p hmem hshort i y hy
    obtain ⟨hcommit,v,hv,rfl,rfl⟩ := (s.mem_commitVisits sdk vs x p).mp hmem
    obtain ⟨hlead,hlevel,-⟩ := visit_commit sdk hg hd hvs hv hcommit
    obtain ⟨record,hrecord⟩ := hcommit
    have hpush : (depthStep sdk s d v.node v.level)[i]? = some (y,v.level+1) := by
      have hi : i<(s.parentList sdk v.node).reverse.length := (List.getElem?_eq_some_iff.mp hy).1
      rw [s.depthStep_commit sdk d v.level hrecord,if_neg (by omega),
        List.getElem?_append_left (by simpa using hi),List.getElem?_map,hy]
      rfl
    obtain ⟨w,hw,hnode,hpath⟩ := hvs.closed v hv i (y,v.level+1) hpush
    have hcommit' : s.IsCommit sdk y :=
      s.isCommit_of_leads sdk hg (Leads.step v.path i v.node y hlead hy)
    exact ⟨w.path,(s.mem_commitVisits sdk vs y w.path).mpr ⟨hcommit',w,hw,hnode,rfl⟩,hpath⟩
  · intro x p q hp hq
    obtain ⟨-,v,hv,hvx,rfl⟩ := (s.mem_commitVisits sdk vs x p).mp hp
    obtain ⟨-,w,hw,hwx,rfl⟩ := (s.mem_commitVisits sdk vs x q).mp hq
    rw [visit_unique hvs.nodup hv hw (hvx.trans hwx.symm)]

theorem node_of_mem (x) : x∈(vs.map Visit.entry).map Prod.fst ↔ ∃ v∈vs,v.node=x := by
  rw [map_node,mem_map]

theorem mem_objects_commit (hg : s.CommitGraph sdk tips) {x} (hcommit : s.IsCommit sdk x) :
    x∈(collected sdk s d (vs.map Visit.entry)).objects ↔ ∃ p,(x,p)∈commitVisits sdk s vs := by
  rw [mem_collected_objects,node_of_mem]
  constructor
  · rintro (⟨v,hv,hnode⟩ | ⟨y,-,record,hrecord,rfl⟩)
    · exact ⟨v.path,(s.mem_commitVisits sdk vs x v.path).mpr ⟨hcommit,v,hv,hnode,rfl⟩⟩
    · exact absurd hcommit (s.not_commit_of_inTree sdk hg
        ⟨y,record,hrecord,Relation.ReflTransGen.refl⟩)
  · rintro ⟨p,hp⟩
    obtain ⟨-,v,hv,hnode,-⟩ := (s.mem_commitVisits sdk vs x p).mp hp
    exact .inl ⟨v,hv,hnode⟩

theorem mem_boundary_iff (hg : s.CommitGraph sdk tips) (hd : 1≤d)
    (hvs : Visited (depthStep sdk s d) (tips.map fun id => (id,1)).reverse vs) (x : ObjectId) :
    x∈(collected sdk s d (vs.map Visit.entry)).boundary ↔
      ∃ p,(x,p)∈commitVisits sdk s vs ∧ p.length=d := by
  rw [mem_collected_boundary]
  constructor
  · rintro ⟨level,hmem,hdeep,hcommit⟩
    obtain ⟨v,hv,hentry⟩ := mem_map.mp hmem
    simp only [Visit.entry,Prod.mk.injEq] at hentry
    obtain ⟨rfl,rfl⟩ := hentry
    obtain ⟨-,hlevel,hlen⟩ := visit_commit sdk hg hd hvs hv hcommit
    exact ⟨v.path,(s.mem_commitVisits sdk vs v.node v.path).mpr ⟨hcommit,v,hv,rfl,rfl⟩,by omega⟩
  · rintro ⟨p,hp,hlen⟩
    obtain ⟨hcommit,v,hv,rfl,rfl⟩ := (s.mem_commitVisits sdk vs x p).mp hp
    obtain ⟨-,hlevel,-⟩ := visit_commit sdk hg hd hvs hv hcommit
    exact ⟨v.level,mem_map_of_mem hv,by omega,hcommit⟩

theorem tree_recorded (hg : s.CommitGraph sdk tips)
    (hvs : Visited (depthStep sdk s d) (tips.map fun id => (id,1)).reverse vs) {v} (hv : v∈vs)
    {record} (hrecord : s.readCommitRecord sdk v.node=.ok record) {y}
    (hreach : s.Reaches sdk record.commit.tree y) : ∃ w∈vs,w.node=y := by
  have hpushed (w : Visit ObjectId) (hw : w∈vs) (e : ObjectId × ℕ)
      (he : e∈depthStep sdk s d w.node w.level) : ∃ w'∈vs,w'.node=e.1 := by
    obtain ⟨i,hi⟩ := mem_iff_getElem?.mp he
    obtain ⟨w',hw',hnode,-⟩ := hvs.closed w hw i e hi
    exact ⟨w',hw',hnode⟩
  induction hreach with
  | refl =>
    apply hpushed v hv (record.commit.tree,v.level)
    rw [s.depthStep_commit sdk d v.level hrecord]
    exact mem_append_right _ (mem_singleton.mpr rfl)
  | @tail x y hx hlink ih =>
    obtain ⟨w,hw,rfl⟩ := ih
    apply hpushed w hw (y,w.level)
    rw [s.depthStep_inTree sdk hg d w.level ⟨v.node,record,hrecord,hx⟩]
    exact mem_map.mpr ⟨y,mem_reverse.mpr hlink,rfl⟩

theorem collected_byDistance_iff (hg : s.CommitGraph sdk tips) (hd : 1≤d)
    (hvs : Visited (depthStep sdk s d) (tips.map fun id => (id,1)).reverse vs) :
    s.ByDistance sdk tips d (collected sdk s d (vs.map Visit.entry)).objects
        (collected sdk s d (vs.map Visit.entry)).boundary ↔
      (∀ x,(∃ p,(x,p)∈commitVisits sdk s vs) ↔
          Within tips.reverse (fun y => (s.parentList sdk y).reverse) d x) ∧
        ∀ x,(∃ p,(x,p)∈commitVisits sdk s vs ∧ p.length=d) ↔ (∃ p,(x,p)∈commitVisits sdk s vs) ∧
            ∃ y∈(s.parentList sdk x).reverse,¬ ∃ q,(y,q)∈commitVisits sdk s vs := by
  have hnear (x : ObjectId) : s.Near sdk tips (d-1) x ↔
      Within tips.reverse (fun y => (s.parentList sdk y).reverse) d x := by
    rw [near_iff_within,Nat.sub_add_cancel hd]
  have hsearch:=commitVisits_search sdk hg hd hvs
  have hrecorded (x : ObjectId) (p : List ℕ) (h : (x,p)∈commitVisits sdk s vs) :
      s.IsCommit sdk x := ((s.mem_commitVisits sdk vs x p).mp h).1
  -- a parent of a recorded commit is a commit
  have hparent (x p : ObjectId) (q : List ℕ) (hq : (x,q)∈commitVisits sdk s vs)
      (hp : p∈s.parentList sdk x) : s.IsCommit sdk p := by
    obtain ⟨i,hi⟩ := mem_iff_getElem?.mp (mem_reverse.mpr hp)
    exact s.isCommit_of_leads sdk hg (Leads.step q i x p (hsearch.leads x q hq).1 hi)
  have hopen (x : ObjectId) (q : List ℕ) (hq : (x,q)∈commitVisits sdk s vs) :
      (∃ p∈s.parentList sdk x,p∉(collected sdk s d (vs.map Visit.entry)).objects) ↔
        ∃ y∈(s.parentList sdk x).reverse,¬ ∃ q,(y,q)∈commitVisits sdk s vs := by
    simp only [mem_reverse]
    refine exists_congr fun p => and_congr_right fun hp => not_congr ?_
    exact mem_objects_commit sdk hg (hparent x p q hq hp)
  have hstops (x : ObjectId) : (x∈(collected sdk s d (vs.map Visit.entry)).objects ∧
      s.IsCommit sdk x ∧
        ∃ p∈s.parentList sdk x,p∉(collected sdk s d (vs.map Visit.entry)).objects) ↔
      (∃ p,(x,p)∈commitVisits sdk s vs) ∧
        ∃ y∈(s.parentList sdk x).reverse,¬ ∃ q,(y,q)∈commitVisits sdk s vs := by
    constructor
    · rintro ⟨hx,hcommit,hp⟩
      obtain ⟨q,hq⟩ := (mem_objects_commit sdk hg hcommit).mp hx
      exact ⟨⟨q,hq⟩,(hopen x q hq).mp hp⟩
    · rintro ⟨⟨q,hq⟩,hp⟩
      have hcommit:=hrecorded x q hq
      exact ⟨(mem_objects_commit sdk hg hcommit).mpr ⟨q,hq⟩,hcommit,(hopen x q hq).mpr hp⟩
  constructor
  · rintro ⟨hcommits,-,hboundary⟩
    refine ⟨fun x => ?_,fun x => ?_⟩
    · by_cases hcommit : s.IsCommit sdk x
      · rw [← mem_objects_commit sdk hg hcommit,hcommits x hcommit,hnear]
      · exact iff_of_false (fun ⟨p,hp⟩ => hcommit (hrecorded x p hp))
          fun ⟨p,hp,_⟩ => hcommit (s.isCommit_of_leads sdk hg hp)
    · rw [← mem_boundary_iff sdk hg hd hvs,hboundary,hstops]
  · rintro ⟨hwithin,hbound⟩
    constructor
    · intro x hcommit
      rw [mem_objects_commit sdk hg hcommit,hwithin,hnear]
    · intro x record y hx hrecord hreach
      obtain ⟨p,hp⟩ := (hwithin x).mpr ((hnear x).mp hx)
      obtain ⟨-,v,hv,rfl,-⟩ := (s.mem_commitVisits sdk vs x p).mp hp
      rw [mem_collected_objects,node_of_mem]
      exact .inl (tree_recorded sdk hg hvs hv hrecord hreach)
    · intro x
      rw [mem_boundary_iff sdk hg hd hvs,hbound,hstops]

end Walk

theorem depthReachable_byDistance_iff (s : Store) (tips : List ObjectId) (d : ℕ) (hd : 1≤d)
    (hg : s.CommitGraph sdk tips) (hstashes : okOrNil s.stashes=[]) :
    (∃ objects boundary,s.depthReachable sdk tips [] [] d=.ok (objects,boundary) ∧
        s.ByDistance sdk tips d objects boundary) ↔
      InTime tips.reverse (fun x => (s.parentList sdk x).reverse) d ∧
        EndsOpen tips.reverse (fun x => (s.parentList sdk x).reverse) d := by
  obtain ⟨vs,hrun,hvs⟩ := s.depthReachable_run sdk tips [] [] d
  rw [Nat.max_eq_left hd] at hrun hvs
  simp only [append_nil,hstashes] at hvs
  have hacyc : Acyclic (Pushes fun x => (s.parentList sdk x).reverse) := by
    have hlink : (Pushes fun x => (s.parentList sdk x).reverse)=s.ParentLink sdk := by
      funext x y
      exact propext (mem_reverse.trans (s.mem_parentList sdk x y))
    rw [hlink]
    exact hg.acyclic
  rw [← search_exact_iff (commitVisits_search sdk hg hd hvs) hacyc,
    ← collected_byDistance_iff sdk hg hd hvs]
  constructor
  · rintro ⟨objects,boundary,hok,hby⟩
    rw [hrun,Except.ok.injEq,Prod.mk.injEq] at hok
    rw [hok.1,hok.2]
    exact hby
  · intro hby
    exact ⟨_,_,hrun,hby⟩

def isCommitObject (s : Store) (x : ObjectId) : Bool :=
  match s.readCommitRecord sdk x with
  | .ok _ => true
  | .error _ => false

def isTagObject (s : Store) (x : ObjectId) : Bool :=
  match s.readTag sdk x with
  | .ok _ => true
  | .error _ => false

def smallGraph (s : Store) (tips : List ObjectId) : Bool :=
  tips.all (s.isCommitObject sdk)&&s.objects.keys.all fun x =>
      (s.parentList sdk x).all (fun p => p<x&&s.isCommitObject sdk p)&&
        match s.readCommitRecord sdk x with
        | .ok record =>
          (s.links sdk true record.commit.tree).isEmpty&&
            !s.isCommitObject sdk record.commit.tree && !s.isTagObject sdk record.commit.tree
        | .error _ => true

theorem readCommit_of_isCommitObject (s : Store) (h : s.isCommitObject sdk x=true) :
    ∃ c,s.readCommit sdk x=.ok c := by
  unfold isCommitObject at h
  rcases hrecord : s.readCommitRecord sdk x with e | record
  · simp [hrecord] at h
  · exact ⟨record.commit,by simp [readCommit,hrecord,Except.map]⟩

theorem commitGraph_of_smallGraph (s : Store) (tips) (h : s.smallGraph sdk tips=true) :
    s.CommitGraph sdk tips := by
  simp only [smallGraph,Bool.and_eq_true,all_eq_true,decide_eq_true_eq] at h
  obtain ⟨htips,hkeys⟩ := h
  have hlink (x y : ObjectId) (hxy : s.ParentLink sdk x y) : y<x ∧ s.isCommitObject sdk y=true := by
    obtain ⟨ps,hps,hy⟩ := hxy
    have hx:=s.parents_supported sdk x ps hps (ne_nil_of_mem hy)
    exact (hkeys x hx).1 y ((s.mem_parentList sdk x y).mpr ⟨ps,hps,hy⟩)
  have hpath (x y : ObjectId) (hxy : Relation.TransGen (s.ParentLink sdk) x y) : y<x := by
    induction hxy with
    | single h1 => exact (hlink _ _ h1).1
    | tail _ h1 ih => exact (hlink _ _ h1).1.trans ih
  constructor
  · exact fun x hx => lt_irrefl x (hpath x x hx)
  · intro t ht x hx
    induction hx with
    | refl => exact s.readCommit_of_isCommitObject sdk (htips t ht)
    | tail _ hstep _ => exact s.readCommit_of_isCommitObject sdk (hlink _ _ hstep).2
  · intro x record y hrecord hreach
    have hx : x∈s.objects.keys :=
      s.readCommit_mem sdk record.commit (by simp [readCommit,hrecord,Except.map])
    have htree:=(hkeys x hx).2
    simp only [hrecord,Bool.and_eq_true,Bool.not_eq_true',List.isEmpty_iff] at htree
    obtain ⟨⟨hempty,hcommit⟩,htag⟩ := htree
    have hy : y=record.commit.tree := by
      rcases Relation.ReflTransGen.cases_head hreach with heq | ⟨z,hz,-⟩
      · exact heq.symm
      · rw [hempty] at hz
        simp at hz
    rw [hy]
    constructor
    · unfold isCommitObject at hcommit
      rcases hc : s.readCommitRecord sdk record.commit.tree with e | r
      · exact ⟨e,rfl⟩
      · simp [hc] at hcommit
    · unfold isTagObject at htag
      rcases ht : s.readTag sdk record.commit.tree with e | t
      · exact ⟨e,rfl⟩
      · simp [ht] at htag

end OriginTools.Vcs.Store
namespace OriginTools.Vcs
open Store LevelWalk
namespace Sample

def historyStore (commits : List (ObjectId × List ObjectId)) : Store :=
  { Store.empty with
    objects := Std.ExtTreeMap.ofList
      ((9,Sample.sdk.treeObjectJson ⟨2,[]⟩)::
        commits.map fun c => (c.1,signedRecord { Commit.new with tree := 9,parents := c.2 }))
      compare }

def chain : Store := historyStore [(3,[2]),(2,[1]),(1,[])]

/-- Commit `2` is a parent of the tip `4` and, over `3`, a grandparent. -/
def shortcut : Store := historyStore [(4,[2,3]),(3,[2]),(2,[1]),(1,[])]

theorem chain_leads {p x} (h : chain.CommitLeads Sample.sdk [3] p x) :
    p.length+x.val=4 ∧ (x=3 ∨ x=2 ∨ x=1) := by
  have h3 : chain.parentList Sample.sdk 3=[2] := by decide +kernel
  have h2 : chain.parentList Sample.sdk 2=[1] := by decide +kernel
  have h1 : chain.parentList Sample.sdk 1=[] := by decide +kernel
  induction h with
  | root i x h =>
    obtain rfl : x=3 := by simpa using List.mem_of_getElem? h
    exact ⟨rfl,.inl rfl⟩
  | step p i x y _ h ih =>
    have hy:=List.mem_of_getElem? h
    rw [List.length_append,List.length_singleton]
    obtain ⟨hlen,rfl | rfl | rfl⟩ := ih
    · obtain rfl : y=2 := by simpa [h3] using hy
      exact ⟨hlen,by simp⟩
    · obtain rfl : y=1 := by simpa [h2] using hy
      exact ⟨hlen,by simp⟩
    · simp [h1] at hy

end Sample
open Sample in
theorem chain_byDistance :
    ∃ objects boundary,chain.depthReachable Sample.sdk [3] [] [] 2=.ok (objects,boundary) ∧
      chain.ByDistance Sample.sdk [3] 2 objects boundary := by
  have hg:=chain.commitGraph_of_smallGraph Sample.sdk [3] (by decide +kernel)
  refine (chain.depthReachable_byDistance_iff Sample.sdk [3] 2 (by decide) hg rfl).mpr ⟨?_,?_⟩
  · rintro p x hp hlen ⟨q,hq,hqlen⟩
    have hpx:=(chain_leads hp).1
    have hqx:=(chain_leads hq).1
    omega
  · intro p x hp hlen _
    have h2 : chain.parentList Sample.sdk 2=[1] := by decide +kernel
    have hpx:=(chain_leads hp).1
    have hx : x.val=2 := by omega
    obtain rfl : x=2 := Fin.ext hx
    refine ⟨1,by simp [h2],?_⟩
    rintro ⟨q,hq,hqlen⟩
    have hqx : q.length+1=4 := (chain_leads hq).1
    omega

open Sample in
/-- Commit `1` is two parent steps from the tip, but commit `2` is first popped at
level 3 and its parent is not followed. -/
theorem shortcut_misses_commit :
    shortcut.CommitGraph Sample.sdk [4] ∧ shortcut.Near Sample.sdk [4] 2 1 ∧
      ((shortcut.depthReachable Sample.sdk [4] [] [] 3).toOption.map fun r =>
        (r.1.toList,r.2))=some ([2,3,4,9],[2]) ∧
      ¬ ∃ objects boundary,shortcut.depthReachable Sample.sdk [4] [] [] 3=
        .ok (objects,boundary) ∧ shortcut.ByDistance Sample.sdk [4] 3 objects boundary := by
  have hg:=shortcut.commitGraph_of_smallGraph Sample.sdk [4] (by decide +kernel)
  have h4 : shortcut.parentList Sample.sdk 4=[2,3] := by decide +kernel
  have h2 : shortcut.parentList Sample.sdk 2=[1] := by decide +kernel
  have hnear : shortcut.Near Sample.sdk [4] 2 1 := by
    refine .inr ⟨2,.inr ⟨4,by simp [Near],?_⟩,?_⟩
    · rw [h4]
      simp
    · rw [h2]
      simp
  have hrun : ((shortcut.depthReachable Sample.sdk [4] [] [] 3).toOption.map fun r =>
      (r.1.toList,r.2))=some ([2,3,4,9],[2]) := by decide +kernel
  refine ⟨hg,hnear,hrun,?_⟩
  rintro ⟨objects,boundary,hok,hby⟩
  have hcommit : shortcut.isCommitObject Sample.sdk 1=true := by decide +kernel
  have hone : (1 : ObjectId)∈objects := by
    refine (hby.commits 1 ?_).mpr hnear
    unfold isCommitObject at hcommit
    rcases hrecord : shortcut.readCommitRecord Sample.sdk 1 with e | record
    · simp [hrecord] at hcommit
    · exact ⟨record,hrecord⟩
  simp only [hok,Except.toOption,Option.map_some,Option.some.injEq,Prod.mk.injEq] at hrun
  rw [← Std.ExtTreeSet.mem_toList,hrun.1] at hone
  exact absurd hone (by decide)

end OriginTools.Vcs
