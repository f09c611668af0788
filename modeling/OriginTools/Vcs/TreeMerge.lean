import OriginTools.Vcs.Object

/-!
# Three-way merge of flat trees

`three_way` (`commands.rs`) decides every path on its own from the entries of the base
tree and of the two sides.
-/

namespace OriginTools.Vcs

/-- The decision at one path: the entry of the merged tree, and whether the path
is pushed on the conflict list. -/
def threeWayEntry (b o t : Option TreeEntry) : Option TreeEntry × Bool :=
  match b,o,t with
  | none,none,none => (none,false)
  | some be,oo,tt =>
    -- ids are compared, modes are not; a deleted entry counts as changed
    let oUnchanged:=oo.any fun e => e.id=be.id
    let tUnchanged:=tt.any fun e => e.id=be.id
    match oUnchanged,tUnchanged with
    | true,true => (b,false)
    -- where the changed side deleted the path, the base entry comes back
    | false,true => (o.or b,false)
    | true,false => (t.or b,false)
    | false,false =>
      match oo,tt with
      | none,none => (none,false)
      | some oe,some te => if oe.id=te.id then (some oe,false) else (some oe,true)
      | none,some te => (some te,true)
      | some oe,none => (some oe,true)
  | none,oo,tt =>
    match oo,tt with
    | none,none => (none,false)
    | some oe,some te => if oe.id=te.id then (some oe,false) else (some oe,true)
    | some oe,none => (some oe,false)
    | none,some te => (some te,false)

def mergePaths (base ours theirs : Tree) : List String :=
  (Std.ExtTreeSet.ofList (base.entries.keys++ours.entries.keys++theirs.entries.keys) compare).toList

def threeWayAt (base ours theirs : Tree) (p : String) : Option TreeEntry × Bool :=
  threeWayEntry base.entries[p]? ours.entries[p]? theirs.entries[p]?

def threeWayStep (base ours theirs : Tree) (acc : Tree × List String) (p : String) :
    Tree × List String :=
  let merged:=match (threeWayAt base ours theirs p).1 with
    | some e => { acc.1 with entries := acc.1.entries.insert p e }
    | none => acc.1
  (merged,if (threeWayAt base ours theirs p).2 then acc.2++[p] else acc.2)

def threeWay (base ours theirs : Tree) : Except String (Tree × List String) :=
  .ok ((mergePaths base ours theirs).foldl (threeWayStep base ours theirs) (Tree.new,[]))

theorem threeWayStep_kind (base ours theirs) (acc : Tree × List String) (p) :
    (threeWayStep base ours theirs acc p).1.kind=acc.1.kind := by
  unfold threeWayStep
  cases (threeWayAt base ours theirs p).1 <;> rfl

theorem threeWayStep_entries (base ours theirs) (acc : Tree × List String) (p q) :
    (threeWayStep base ours theirs acc p).1.entries[q]? =
      if p=q then (threeWayAt base ours theirs p).1.or acc.1.entries[q]?
      else acc.1.entries[q]? := by
  unfold threeWayStep
  cases (threeWayAt base ours theirs p).1 with
  | none => simp
  | some e =>
    simp only [Std.ExtTreeMap.getElem?_insert,Std.compare_eq_iff_eq,Option.some_or]

theorem threeWayFold_kind (base ours theirs : Tree) (ps : List String) (acc : Tree × List String) :
    (ps.foldl (threeWayStep base ours theirs) acc).1.kind=acc.1.kind := by
  induction ps generalizing acc with
  | nil => rfl
  | cons p ps ih => rw [List.foldl_cons,ih,threeWayStep_kind]

theorem threeWayFold_conflicts (base ours theirs : Tree) (ps : List String)
    (acc : Tree × List String) :
    (ps.foldl (threeWayStep base ours theirs) acc).2=
      acc.2++ps.filter fun p => (threeWayAt base ours theirs p).2 := by
  induction ps generalizing acc with
  | nil => simp
  | cons p ps ih =>
    rw [List.foldl_cons,ih,List.filter_cons]
    cases h : (threeWayAt base ours theirs p).2 <;> simp [threeWayStep,h]

theorem threeWayFold_entries (base ours theirs) (ps : List String) (hps : ps.Nodup)
    (acc : Tree × List String) (q) :
    (ps.foldl (threeWayStep base ours theirs) acc).1.entries[q]? =
      if q∈ps then (threeWayAt base ours theirs q).1.or acc.1.entries[q]?
      else acc.1.entries[q]? := by
  induction ps generalizing acc with
  | nil => simp
  | cons p ps ih =>
    obtain ⟨hp,hps⟩ := List.nodup_cons.mp hps
    rw [List.foldl_cons,ih hps,threeWayStep_entries]
    by_cases hq : p=q
    · subst hq
      simp [hp]
    · simp [hq,Ne.symm hq]

theorem mergePaths_nodup (base ours theirs : Tree) : (mergePaths base ours theirs).Nodup := by
  unfold mergePaths
  refine List.Pairwise.imp (fun {p q} h => ?_) Std.ExtTreeSet.distinct_toList
  intro he
  subst he
  exact h Std.compare_self

theorem mem_mergePaths (base ours theirs : Tree) (p : String) : p∈mergePaths base ours theirs ↔
      p∈base.entries ∨ p∈ours.entries ∨ p∈theirs.entries := by
  simp [mergePaths,Std.ExtTreeSet.mem_ofList]

theorem threeWayAt_outside {base ours theirs p} (h : p∉mergePaths base ours theirs) :
    threeWayAt base ours theirs p=(none,false) := by
  simp only [mem_mergePaths,not_or] at h
  simp [threeWayAt,threeWayEntry,h]

theorem threeWay_spec (base ours theirs : Tree) :
    ∃ merged conflicts,threeWay base ours theirs=.ok (merged,conflicts) ∧ merged.kind = "tree" ∧
      (∀ p,merged.entries[p]? = (threeWayAt base ours theirs p).1) ∧
      ∀ p,p∈conflicts ↔ (threeWayAt base ours theirs p).2=true := by
  refine ⟨_,_,rfl,?_,fun p => ?_,fun p => ?_⟩
  · exact threeWayFold_kind base ours theirs _ _
  · rw [threeWayFold_entries base ours theirs _ (mergePaths_nodup base ours theirs)]
    split_ifs with hp
    · simp [Tree.new]
    · simp [Tree.new,threeWayAt_outside hp]
  · rw [threeWayFold_conflicts]
    by_cases hp : p∈mergePaths base ours theirs
    · simp [hp]
    · simp [hp,threeWayAt_outside hp]

/-- A side's change from base entry `b` to `s` that the decision does not see:
the side removed the path, or changed its mode and kept its id. -/
def Dropped : Option TreeEntry → Option TreeEntry → Prop
  | none,_ => False
  | some _,none => True
  | some be,some se => se.id=be.id ∧ se.mode≠be.mode

def LosesOneSided (base ours theirs : Tree) (p : String) : Prop :=
  (theirs.entries[p]? = base.entries[p]? ∧ Dropped base.entries[p]? ours.entries[p]?) ∨
    (ours.entries[p]? = base.entries[p]? ∧ Dropped base.entries[p]? theirs.entries[p]?)

/-- At `p`, when one side is as in the base, the merge has the entry of the other
side (or none, when that side removed it) and no conflict. -/
def HonoursOneSided (base ours theirs merged : Tree) (conflicts : List String)
    (p : String) : Prop :=
  (theirs.entries[p]? = base.entries[p]? → merged.entries[p]? = ours.entries[p]? ∧ p∉conflicts) ∧
  (ours.entries[p]? = base.entries[p]? → merged.entries[p]? = theirs.entries[p]? ∧ p∉conflicts)

theorem threeWayEntry_ours_iff (b o) : threeWayEntry b o b=(o,false) ↔ ¬ Dropped b o := by
  rcases b with - | ⟨bm,bi⟩ <;> rcases o with - | ⟨om,oi⟩
  · simp [threeWayEntry,Dropped]
  · simp [threeWayEntry,Dropped]
  · simp [threeWayEntry,Dropped]
  · by_cases hi : oi=bi
    · subst hi
      simp [threeWayEntry,Dropped,eq_comm]
    · simp [threeWayEntry,Dropped,hi]

theorem threeWayEntry_theirs_iff (b t) : threeWayEntry b b t=(t,false) ↔ ¬ Dropped b t := by
  rcases b with - | ⟨bm,bi⟩ <;> rcases t with - | ⟨tm,ti⟩
  · simp [threeWayEntry,Dropped]
  · simp [threeWayEntry,Dropped]
  · simp [threeWayEntry,Dropped]
  · by_cases hi : ti=bi
    · subst hi
      simp [threeWayEntry,Dropped,eq_comm]
    · simp [threeWayEntry,Dropped,hi]

theorem honoursOneSided_iff {base ours theirs merged conflicts p}
    (he : merged.entries[p]? = (threeWayAt base ours theirs p).1)
    (hc : p∈conflicts ↔ (threeWayAt base ours theirs p).2=true) :
    HonoursOneSided base ours theirs merged conflicts p ↔ ¬ LosesOneSided base ours theirs p := by
  have hout (x : Option TreeEntry) : (merged.entries[p]? = x ∧ p∉conflicts) ↔
      threeWayAt base ours theirs p=(x,false) := by
    rw [he,hc,Bool.not_eq_true,Prod.ext_iff]
  have hours (h : theirs.entries[p]? = base.entries[p]?) :
      threeWayAt base ours theirs p=(ours.entries[p]?,false) ↔
        ¬ Dropped base.entries[p]? ours.entries[p]? := by
    rw [threeWayAt,h]
    exact threeWayEntry_ours_iff _ _
  have htheirs (h : ours.entries[p]? = base.entries[p]?) :
      threeWayAt base ours theirs p=(theirs.entries[p]?,false) ↔
        ¬ Dropped base.entries[p]? theirs.entries[p]? := by
    rw [threeWayAt,h]
    exact threeWayEntry_theirs_iff _ _
  simp only [HonoursOneSided,LosesOneSided,not_or,not_and,hout]
  exact and_congr (forall_congr' hours) (forall_congr' htheirs)

theorem threeWay_eq_iff (base ours theirs t : Tree) : threeWay base ours theirs=.ok (t,[]) ↔
      t.kind = "tree" ∧ ∀ p,threeWayAt base ours theirs p=(t.entries[p]?,false) := by
  obtain ⟨merged,conflicts,hrun,hkind,hentries,hconf⟩ := threeWay_spec base ours theirs
  rw [hrun]
  constructor
  · intro h
    cases h
    refine ⟨hkind,fun p => Prod.ext (hentries p).symm ?_⟩
    simpa using hconf p
  · rintro ⟨hk,hp⟩
    have htree : merged=t := by
      obtain ⟨mk,me⟩ := merged
      obtain ⟨tk,te⟩ := t
      have hme : me=te := Std.ExtTreeMap.ext_getElem? fun {p} => by rw [hentries p,hp p]
      rw [Tree.mk.injEq]
      exact ⟨hkind.trans hk.symm,hme⟩
    have hnil : conflicts=[] := by
      refine List.eq_nil_iff_forall_not_mem.mpr fun p hin => ?_
      have hbad:=(hconf p).mp hin
      rw [hp p] at hbad
      simp at hbad
    rw [htree,hnil]

theorem threeWay_honours_one_sided_iff (base ours theirs : Tree) :
    (∃ merged conflicts,threeWay base ours theirs=.ok (merged,conflicts) ∧
      ∀ p,HonoursOneSided base ours theirs merged conflicts p ↔
        ¬ LosesOneSided base ours theirs p) ∧
    (threeWay base base theirs=.ok (theirs,[]) ↔
      theirs.kind = "tree" ∧ ∀ p : String,¬ Dropped base.entries[p]? theirs.entries[p]?) ∧
    (threeWay base ours base=.ok (ours,[]) ↔
      ours.kind = "tree" ∧ ∀ p : String,¬ Dropped base.entries[p]? ours.entries[p]?) := by
  refine ⟨?_,?_,?_⟩
  · obtain ⟨merged,conflicts,hrun,-,hentries,hconf⟩ := threeWay_spec base ours theirs
    exact ⟨merged,conflicts,hrun,fun p => honoursOneSided_iff (hentries p) (hconf p)⟩
  · rw [threeWay_eq_iff]
    exact and_congr_right fun _ => forall_congr' fun p => threeWayEntry_theirs_iff _ _
  · rw [threeWay_eq_iff]
    exact and_congr_right fun _ => forall_congr' fun p => threeWayEntry_ours_iff _ _

def oneFile (path : String) (mode : FileMode) (id : ObjectId) : Tree :=
  { Tree.new with entries := Std.ExtTreeMap.ofList [(path,⟨mode,id⟩)] compare }

/-- A file that ours deleted and theirs left alone comes back, and an executable
bit that only ours set is lost; neither is a conflict. -/
theorem threeWay_loses_deletion_and_mode :
    threeWay (oneFile "f" .file 1) Tree.new (oneFile "f" .file 1)=.ok (oneFile "f" .file 1,[]) ∧
    threeWay (oneFile "f" .file 1) (oneFile "f" .executable 1) (oneFile "f" .file 1)=
      .ok (oneFile "f" .file 1,[]) ∧
    ¬ HonoursOneSided (oneFile "f" .file 1) Tree.new (oneFile "f" .file 1)
      (oneFile "f" .file 1) [] "f" := by
  refine ⟨by decide +kernel,by decide +kernel,?_⟩
  intro h
  have hent:=(h.1 rfl).1
  revert hent
  decide +kernel

end OriginTools.Vcs
