import OriginTools.Foundation.Walk
import OriginTools.Vcs.Resolve
import OriginTools.Vcs.TreeStore

/-!
# Reachable objects

`walk_reachable` (`store.rs`) follows an object by what its bytes decode to: a
commit leads to its tree and its parents, else a tag to its target, else a tree
object to its children; what decodes to none of these, or is not there, is a
leaf.
-/

namespace OriginTools.Vcs.Store
variable (sdk : Sdk)

def links (s : Store) (followParents : Bool) (id : ObjectId) : List ObjectId :=
  match s.readCommitRecord sdk id with
  | .ok record =>
    record.commit.tree::if followParents then record.commit.parents else []
  | .error _ =>
    match s.readTag sdk id with
    | .ok tag => [tag.target]
    | .error _ =>
      match s.treeObjectChildren sdk id with
      | .ok children => children
      | .error _ => []

def walkReachable (s : Store) (branches tags extra : List ObjectId) (followParents : Bool) :
    Except String (List ObjectId) :=
  Walk.explore (fun id => .ok (s.links sdk followParents id)) s.objects.keys
    (branches++tags++extra++okOrNil s.stashes)

def reachableFromRefs (s : Store) (branches tags extra : List ObjectId) :
    Except String (List ObjectId) :=
  s.walkReachable sdk branches tags extra true

abbrev Reaches (s : Store) (root x : ObjectId) : Prop :=
  Relation.ReflTransGen (fun a b => b∈s.links sdk true a) root x

variable (s : Store) {id : ObjectId}

theorem links_missing (followParents : Bool) (h : id∉s.objects) :
    s.links sdk followParents id=[] := by
  have hread : s.read sdk id=.error s!"read {hex id}: {noSuchFile}" := by
    simp [read,h]
  simp [links,readCommitRecord,readTag,treeObjectChildren,hread]

theorem links_supported (followParents : Bool) :
    Walk.Supported (fun id => (.ok (s.links sdk followParents id) : Except String _))
      s.objects.keys := by
  intro x ys hx hne
  rw [Std.ExtTreeMap.mem_keys]
  by_contra hmem
  rw [Except.ok.injEq] at hx
  exact hne (hx ▸ s.links_missing sdk followParents hmem)

theorem edge_iff_links (x y : ObjectId) :
    Walk.Edge (fun id => (.ok (s.links sdk true id) : Except String _)) x y ↔
      y∈s.links sdk true x := by
  simp [Walk.Edge]

theorem reachableFromRefs_spec (branches tags extra) :
    ∃ out,s.reachableFromRefs sdk branches tags extra=.ok out ∧
      ∀ x,x∈out ↔ ∃ r∈branches++tags++extra++okOrNil s.stashes,s.Reaches sdk r x := by
  obtain ⟨out,hout⟩ := Walk.explore_succeeds (s.links_supported sdk true)
    (fun _ _ x _ => ⟨s.links sdk true x,rfl⟩)
  refine ⟨out,hout,fun x => ?_⟩
  have hrel : Walk.Edge (fun id => (.ok (s.links sdk true id) : Except String _))=
      fun a b => b∈s.links sdk true a := by
    funext a b
    exact propext (s.edge_iff_links sdk a b)
  have hmem:=Walk.mem_explore (s.links_supported sdk true) hout x
  simp only [Walk.Reach,hrel] at hmem
  exact hmem

theorem links_of_read (t : Store) (followParents : Bool) (h : s.read sdk id=t.read sdk id) :
    s.links sdk followParents id=t.links sdk followParents id := by
  simp only [links,readCommitRecord,readTag,treeObjectChildren,h]

theorem links_congr (t : Store) (followParents : Bool) (h : s.objects[id]? = t.objects[id]?) :
    s.links sdk followParents id=t.links sdk followParents id := by
  have hread : s.read sdk id=t.read sdk id := by
    simp only [read,h]
  exact s.links_of_read sdk t followParents hread

end OriginTools.Vcs.Store
