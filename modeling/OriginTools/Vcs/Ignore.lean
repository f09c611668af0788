import OriginTools.Foundation.Framing
import OriginTools.Vcs.Sample

/-!
# Ignore rules

`ignore.rs`: the patterns of `.gitignore` files and the test whether a path is ignored;
`walk` (`commands.rs`), which reads the files and asks.
-/

namespace OriginTools.Vcs.Ignore
open Store List
variable (sdk : Sdk)

structure IgnorePattern where
  text : String
  negate : Bool
  anchored : Bool
  dirOnly : Bool
  deriving DecidableEq,Repr

def smatch : List Char → List Char → Bool
  | [],c => c.isEmpty
  | '*'::s,c => c.tails.any (smatch s)
  | '?'::s,c =>
    match c with
    | [] => false
    | _::c => smatch s c
  | ['\\'],_ => false
  | '\\'::x::s,c =>
    match c with
    | [] => false
    | y::c => x=y&&smatch s c
  | x::s,c =>
    match c with
    | [] => false
    | y::c => x=y&&smatch s c

def segmentMatch (seg comp : String) : Bool := smatch seg.toList comp.toList

def dmatch : List String → List String → Bool
  | [],t => t.isEmpty
  | "**"::p,t => t.tails.any (dmatch p)
  | seg::p,t =>
    match t with
    | [] => false
    | comp::t => segmentMatch seg comp&&dmatch p t

def matchComponents (pat path : String) : Bool :=
  dmatch ((splitPath pat).filter (· ≠ "")) ((splitPath path).filter (· ≠ ""))

def globMatch (pat path : String) : Bool := matchComponents pat path

def IgnorePattern.matches (p : IgnorePattern) (relPath : List String) (isDir : Bool) : Bool :=
  if p.dirOnly && !isDir then false
  else if p.anchored then globMatch p.text (String.intercalate "/" relPath)
  else globMatch p.text (String.intercalate "/" relPath)||(List.range relPath.length).any fun i =>
      globMatch p.text (String.intercalate "/" (relPath.drop i))

def trimEnd (line : List Char) : List Char := (line.reverse.dropWhile isSpace).reverse
def trimEndSlashes (l : List Char) : List Char := (l.reverse.dropWhile (· = '/')).reverse

def parseLine (line : List Char) : Option IgnorePattern :=
  let raw:=trimEnd line
  if raw.isEmpty||raw.head? = some '#' then none
  else
    let negate:=raw.head? = some '!'
    let rest:=if negate then raw.tail else raw
    let dirOnly:=rest.getLast? = some '/'
    let anchored:=rest.head? = some '/'
    let text:=if anchored then rest.tail else rest
    some ⟨String.ofList (trimEndSlashes text),negate,anchored,dirOnly⟩

def parse (bytes : Bytes) : List IgnorePattern :=
  ((sdk.fromUtf8Lossy bytes).toList.splitOn '\n').filterMap parseLine

/-- The directories of the ignore files read so far with their patterns, in the order of
the walk. -/
abbrev IgnoreState : Type := List (List String × List IgnorePattern)

def IgnoreState.pushScope (st : IgnoreState) (scopeDir : List String) (bytes : Bytes) :
    IgnoreState :=
  if parse sdk bytes=[] then st else st++[(scopeDir,parse sdk bytes)]

def scopeVerdict (full : List String) (isDir : Bool) (scope : List String × List IgnorePattern) :
    Option Bool :=
  if scope.1.isPrefixOf full then
    (scope.2.find? fun p => p.matches (full.drop scope.1.length) isDir).map fun p => !p.negate
  else none

def IgnoreState.isIgnored (st : IgnoreState) (relPath : List String) (name : String)
    (isDir : Bool) : Bool :=
  (st.reverse.findSome? (scopeVerdict (relPath++[name]) isDir)).getD false

/-- The components that a pattern component matches: `*` stands for any run of characters,
`?` for one, a backslash quotes the next one and others stand for themselves. -/
inductive SegmentLang : List Char → List Char → Prop
  | done : SegmentLang [] []
  | run {s c : List Char} (skipped : List Char) (h : SegmentLang s c) :
      SegmentLang ('*'::s) (skipped++c)
  | single {s c : List Char} (y : Char) (h : SegmentLang s c) : SegmentLang ('?'::s) (y::c)
  | quoted {s c : List Char} (x : Char) (h : SegmentLang s c) : SegmentLang ('\\'::x::s) (x::c)
  | plain {s c : List Char} (x : Char) (hx : x∉['*','?','\\']) (h : SegmentLang s c) :
      SegmentLang (x::s) (x::c)

/-- The paths that the components of a pattern match: `**` takes any number of components
and every other component takes one. -/
inductive PathLang : List String → List String → Prop
  | done : PathLang [] []
  | deep {p t : List String} (skipped : List String) (h : PathLang p t) :
      PathLang ("**"::p) (skipped++t)
  | component {seg comp : String} {p t : List String} (hseg : seg ≠ "**")
      (hcomp : SegmentLang seg.toList comp.toList) (h : PathLang p t) :
      PathLang (seg::p) (comp::t)

theorem SegmentLang.of_smatch (s c : List Char) (h : smatch s c=true) : SegmentLang s c := by
  unfold smatch at h
  split at h
  · rw [isEmpty_iff.mp h]
    exact .done
  · rename_i s
    obtain ⟨d,hd,hmatch⟩ := any_eq_true.mp h
    obtain ⟨skipped,rfl⟩ := (mem_tails _ _).mp hd
    exact .run skipped (of_smatch s d hmatch)
  · rename_i s
    cases c with
    | nil => cases h
    | cons y c => exact .single y (of_smatch s c h)
  · cases h
  · rename_i x s
    rcases c with _ | ⟨y,c⟩
    · cases h
    obtain ⟨hxy,hmatch⟩ := (Bool.and_eq_true _ _).mp h
    rw [← of_decide_eq_true hxy]
    exact .quoted x (of_smatch s c hmatch)
  · rename_i x s hstar hone hlast hquote
    rcases c with _ | ⟨y,c⟩
    · cases h
    obtain ⟨hxy,hmatch⟩ := Bool.and_eq_true_iff.mp h
    rw [← of_decide_eq_true hxy]
    refine .plain x ?_ (of_smatch s c hmatch)
    have hslash : x ≠ '\\' := by
      rintro rfl
      cases s with
      | nil => exact hlast rfl rfl
      | cons z s => exact hquote z s rfl rfl
    simpa using ⟨hstar,hone,hslash⟩
termination_by s.length

theorem SegmentLang.smatch {s c} (h : SegmentLang s c) : smatch s c=true := by
  induction h with
  | done => rfl
  | @run s c skipped h ih =>
    exact any_eq_true.mpr ⟨c,(mem_tails _ _).mpr (suffix_append _ _),ih⟩
  | single y h ih => exact ih
  | quoted x h ih => simp [Ignore.smatch,ih]
  | plain x hx h ih =>
    simp only [mem_cons,not_mem_nil,or_false,not_or] at hx
    simp [Ignore.smatch,hx,ih]

theorem dmatch_iff (p t) : dmatch p t=true ↔ PathLang p t := by
  constructor
  · intro h
    induction p generalizing t with
    | nil =>
      rw [isEmpty_iff.mp h]
      exact .done
    | cons seg p ih =>
      by_cases hseg : seg = "**"
      · subst hseg
        obtain ⟨d,hd,hmatch⟩ := any_eq_true.mp h
        obtain ⟨skipped,rfl⟩ := (mem_tails _ _).mp hd
        exact .deep skipped (ih d hmatch)
      · cases t with
        | nil => simp [dmatch] at h
        | cons comp t =>
          simp only [dmatch,segmentMatch,Bool.and_eq_true] at h
          exact .component hseg (.of_smatch _ _ h.1) (ih t h.2)
  · intro h
    induction h with
    | done => rfl
    | @deep p t skipped h ih =>
      exact any_eq_true.mpr ⟨t,(mem_tails _ _).mpr (suffix_append _ _),ih⟩
    | component hseg hcomp h ih => simp [dmatch,segmentMatch,hcomp.smatch,ih]

variable {path : List String}

theorem pathParts_intercalate (hpath : ∀ name∈path,name ≠ "" ∧ '/'∉name.toList) :
    (splitPath (String.intercalate "/" path)).filter (· ≠ "")=path := by
  by_cases hne : path=[]
  · rw [hne]
    decide
  have hsplit : splitPath (String.intercalate "/" path)=path :=
    Framing.segments_intercalate hne fun name hname => (hpath name hname).2
  rw [hsplit,filter_eq_self]
  exact fun name hname => decide_eq_true (hpath name hname).1

def IgnorePattern.parts (p : IgnorePattern) : List String := (splitPath p.text).filter (· ≠ "")

theorem IgnorePattern.globMatch_iff (p : IgnorePattern)
    (hpath : ∀ name∈path,name ≠ "" ∧ '/'∉name.toList) :
    globMatch p.text (String.intercalate "/" path)=true ↔ PathLang p.parts path := by
  rw [globMatch,matchComponents,pathParts_intercalate hpath,dmatch_iff,parts]

theorem IgnorePattern.suffixMatch_iff (p : IgnorePattern)
    (hpath : ∀ name∈path,name ≠ "" ∧ '/'∉name.toList) :
    (globMatch p.text (String.intercalate "/" path)||(List.range path.length).any fun i =>
        globMatch p.text (String.intercalate "/" (path.drop i)))=true ↔
      ∃ suffix,suffix <:+ path ∧ (suffix=[] → path=[]) ∧ PathLang p.parts suffix := by
  have hdrop : ∀ i,globMatch p.text (String.intercalate "/" (path.drop i))=true ↔
      PathLang p.parts (path.drop i) := fun i =>
    p.globMatch_iff fun name hname => hpath name (mem_of_mem_drop hname)
  rw [Bool.or_eq_true,any_eq_true,p.globMatch_iff hpath]
  constructor
  · rintro (h | ⟨i,hi,h⟩)
    · exact ⟨path,suffix_rfl,id,h⟩
    refine ⟨path.drop i,drop_suffix i path,fun hnil => ?_,(hdrop i).mp h⟩
    have hlen:=drop_eq_nil_iff.mp hnil
    rw [mem_range] at hi
    omega
  · rintro ⟨suffix,⟨pre,hpre⟩,hne,h⟩
    by_cases hnil : suffix=[]
    · rw [hnil] at h
      rw [hne hnil]
      exact .inl h
    · have hlen:=length_pos_iff.mpr hnil
      refine .inr ⟨pre.length,?_,(hdrop _).mpr ?_⟩
      · rw [mem_range,← hpre,length_append]
        omega
      · rwa [← hpre,drop_left]

theorem matches_iff (p : IgnorePattern) (path : List String)
    (hpath : ∀ name∈path,name ≠ "" ∧ '/'∉name.toList) (isDir : Bool) :
    p.matches path isDir=true ↔ (p.dirOnly=true → isDir=true) ∧
      if p.anchored then PathLang p.parts path
      else ∃ suffix,suffix <:+ path ∧ (suffix=[] → path=[]) ∧ PathLang p.parts suffix := by
  have hgate : (p.dirOnly && !isDir)=true ↔ ¬ (p.dirOnly=true → isDir=true) := by
    cases p.dirOnly <;> cases isDir <;> simp
  by_cases hdir : p.dirOnly=true → isDir=true
  · rw [IgnorePattern.matches,if_neg (by rwa [hgate,not_not]),and_iff_right hdir]
    split_ifs
    · exact p.globMatch_iff hpath
    · exact p.suffixMatch_iff hpath
  · simp [IgnorePattern.matches,hgate,hdir]

theorem matches_subdirectory : let p : IgnorePattern := ⟨"a?/**/*.o",false,true,false⟩
    p.matches ["ab","c","d.o"] false=true ∧ PathLang p.parts ["ab","c","d.o"] := by
  intro p
  have hmatch : p.matches ["ab","c","d.o"] false=true := by decide
  exact ⟨hmatch,((matches_iff p _ (by decide) false).mp hmatch).2⟩

/-- A file does not match a pattern for directories, whatever its name, and a pattern
without components matches no path although it matches the empty end of each. -/
theorem directory_pattern_skips_file : let p : IgnorePattern := ⟨"build",false,true,true⟩
    let q : IgnorePattern := ⟨"",true,false,false⟩
    (p.matches ["build"] false=false ∧ PathLang p.parts ["build"]) ∧
      q.matches ["a"] false=false ∧ PathLang q.parts [] :=
  ⟨⟨by decide,(dmatch_iff _ _).mp (by decide)⟩,by decide,(dmatch_iff _ _).mp (by decide)⟩

/-- The ignore files of a working tree with their directories, in the order of the walk:
no file comes after one in a directory below it. -/
structure NestedFiles where
  files : List (List String × Bytes)
  downward : files.Pairwise fun f g => ¬ g.1 <+: f.1

def NestedFiles.rules (f : NestedFiles) : List (List String × List IgnorePattern) :=
  f.files.map fun file => (file.1,parse sdk file.2)

def NestedFiles.state (f : NestedFiles) : IgnoreState :=
  f.files.foldl (fun st file => st.pushScope sdk file.1 file.2) []

/-- A working tree as the walk sees it: what is listed in each directory, without the store
and hidden names, and whether it is a directory, and the `.gitignore` that can be read there. -/
structure WorkTree where
  entries : List String → List (String × Bool)
  nodup : ∀ dir,((entries dir).map Prod.fst).Nodup
  ignoreFile : List String → Option Bytes

section Walk
variable (tree : WorkTree)

def readIgnore (rel : List String) (st : IgnoreState) : IgnoreState :=
  match tree.ignoreFile rel with
  | none => st
  | some bytes => st.pushScope sdk rel bytes

def walkEntry (walk : List String → IgnoreState → List String × IgnoreState) (rel : List String)
    (acc : List String × IgnoreState) (entry : String × Bool) : List String × IgnoreState :=
  if acc.2.isIgnored rel entry.1 entry.2 then acc
  else if entry.2 then
    let below:=walk (rel++[entry.1]) acc.2
    (acc.1++below.1,below.2)
  else (acc.1++[String.intercalate "/" (rel++[entry.1])],acc.2)

/-- Links are not followed, so the depth of the tree bounds the recursion. -/
def walk : ℕ → List String → IgnoreState → List String × IgnoreState
  | 0,_,st => ([],st)
  | depth+1,rel,st =>
    (tree.entries rel).foldl (walkEntry (walk depth) rel) ([],readIgnore sdk tree rel st)

variable {tree} {rel : List String} {f : NestedFiles}

/-- The state is that of `f` with files at or below `rel` added. -/
def Deepens (f : NestedFiles) (rel : List String) (st : IgnoreState) : Prop :=
  ∃ f' : NestedFiles,st=f'.state sdk ∧ ∀ g∈f'.files,g∈f.files ∨ rel <+: g.1

theorem readIgnore_nested (hf : ∀ g∈f.files,¬ rel <+: g.1) :
    ∃ f' : NestedFiles,readIgnore sdk tree rel (f.state sdk)=f'.state sdk ∧
      ∀ g∈f'.files,g∈f.files ∨ g.1=rel := by
  unfold readIgnore
  cases tree.ignoreFile rel with
  | none => exact ⟨f,rfl,fun g hg => .inl hg⟩
  | some bytes =>
    refine ⟨⟨f.files++[(rel,bytes)],pairwise_append.mpr ⟨f.downward,pairwise_singleton ..,?_⟩⟩,?_,?_⟩
    · simpa using fun dir data hg => hf (dir,data) hg
    · simp [NestedFiles.state]
    · intro g hg
      exact (mem_append.mp hg).imp_right fun hg => by rw [mem_singleton.mp hg]

/-- The state in which the walk comes to the next entry of a directory. -/
theorem fold_nested {below : List String → IgnoreState → List String × IgnoreState}
    (hbelow : ∀ name (f₁ : NestedFiles),(∀ g∈f₁.files,¬ rel++[name] <+: g.1) →
      Deepens sdk f₁ (rel++[name]) (below (rel++[name]) (f₁.state sdk)).2)
    (hf : ∀ g∈f.files,¬ rel <+: g.1) (seen) (hseen : seen <+: tree.entries rel) :
    ∃ f' : NestedFiles,
      (seen.foldl (walkEntry below rel) ([],readIgnore sdk tree rel (f.state sdk))).2=f'.state sdk ∧
      ∀ g∈f'.files,g∈f.files ∨ g.1=rel ∨ ∃ entry∈seen,rel++[entry.1] <+: g.1 := by
  induction seen using reverseRecOn with
  | nil => simpa using readIgnore_nested sdk hf
  | append_singleton seen entry ih =>
    obtain ⟨f₁,hstate,hfiles⟩ := ih ((prefix_append ..).trans hseen)
    have hmore : ∀ g∈f₁.files,g∈f.files ∨ g.1=rel ∨ ∃ e∈seen++[entry],rel++[e.1] <+: g.1 :=
      fun g hg => (hfiles g hg).imp_right (Or.imp_right fun ⟨e,he,h⟩ => ⟨e,mem_append_left _ he,h⟩)
    rw [foldl_append,foldl_cons,foldl_nil]
    generalize seen.foldl _ _=acc at hstate
    unfold walkEntry
    split_ifs
    · exact ⟨f₁,hstate,hmore⟩
    · -- what was read so far is above the directory or in one with another name
      obtain ⟨f₂,hstate₂,hfiles₂⟩ := hbelow entry.1 f₁ fun g hg hpre => by
        rcases hfiles g hg with hg | hg | ⟨e,he,hg⟩
        · exact hf g hg ((prefix_append ..).trans hpre)
        · simpa [hg] using hpre.length_le
        · have hsame : rel++[entry.1]=rel++[e.1] :=
            (prefix_of_prefix_length_le hpre hg (by simp)).eq_of_length (by simp)
          have hnodup:=(tree.nodup rel).sublist (hseen.sublist.map Prod.fst)
          rw [append_cancel_left_eq,cons.injEq] at hsame
          rw [map_append] at hnodup
          exact disjoint_of_nodup_append hnodup (mem_map_of_mem he) (by simp [hsame.1])
      refine ⟨f₂,by rw [hstate,hstate₂],fun g hg => ?_⟩
      rcases hfiles₂ g hg with hg | hg
      · exact hmore g hg
      · exact .inr (.inr ⟨entry,by simp,hg⟩)
    · exact ⟨f₁,hstate,hmore⟩

theorem walk_nested (depth) (hf : ∀ g∈f.files,¬ rel <+: g.1) :
    Deepens sdk f rel (walk sdk tree depth rel (f.state sdk)).2 := by
  induction depth generalizing rel f with
  | zero => exact ⟨f,rfl,fun g hg => .inl hg⟩
  | succ depth ih =>
    obtain ⟨f',hstate,hfiles⟩ := fold_nested sdk (fun name f₁ hf₁ => ih hf₁) hf _ prefix_rfl
    refine ⟨f',hstate,fun g hg => (hfiles g hg).imp_right ?_⟩
    rintro (hrel | ⟨entry,-,hpre⟩)
    · exact hrel ▸ prefix_rfl
    · exact (prefix_append ..).trans hpre

/-- Whenever the walk asks if an entry is ignored, its state is that of nested files. -/
theorem asks_nested (depth) (hf : ∀ g∈f.files,¬ rel <+: g.1) {seen}
    (hseen : seen <+: tree.entries rel) :
    ∃ f' : NestedFiles,(seen.foldl (walkEntry (walk sdk tree depth) rel)
      ([],readIgnore sdk tree rel (f.state sdk))).2=f'.state sdk := by
  obtain ⟨f',hstate,-⟩ := fold_nested sdk (fun _ _ hf₁ => walk_nested sdk depth hf₁) hf seen hseen
  exact ⟨f',hstate⟩

end Walk

def matching (full : List String) (isDir : Bool) (r : List String × List IgnorePattern) :
    List IgnorePattern :=
  if r.1.isPrefixOf full then r.2.filter fun p => p.matches (full.drop r.1.length) isDir else []

def Deepest (rules : List (List String × List IgnorePattern)) (full : List String) (isDir : Bool)
    (r : List String × List IgnorePattern) : Prop :=
  r∈rules ∧ ∀ q∈rules,matching full isDir q≠[] → q.1.length≤r.1.length

structure LastMatchWins (rules : List (List String × List IgnorePattern)) (full : List String)
    (isDir ignored : Bool) : Prop where
  matched : ∀ r p,Deepest rules full isDir r → (matching full isDir r).getLast? = some p →
    ignored = !p.negate
  unmatched : (∀ r∈rules,matching full isDir r=[]) → ignored=false

variable (f : NestedFiles)

theorem NestedFiles.state_eq : f.state sdk=(f.rules sdk).filter fun r => r.2≠[] := by
  have hrun : ∀ (files : List (List String × Bytes)) (st : IgnoreState),
      files.foldl (fun st file => st.pushScope sdk file.1 file.2) st=
        st++(files.map fun file => (file.1,parse sdk file.2)).filter fun r => r.2≠[] := by
    intro files
    induction files with
    | nil => simp
    | cons file files ih =>
      intro st
      rw [foldl_cons,ih,map_cons,IgnoreState.pushScope]
      by_cases h : parse sdk file.2=[] <;> simp [h]
  exact hrun f.files []

theorem scopeVerdict_eq (full isDir r) :
    scopeVerdict full isDir r=(matching full isDir r).head?.map fun p => !p.negate := by
  unfold scopeVerdict matching
  split_ifs
  · rw [head?_filter]
  · rfl

theorem isIgnored_deepest (relPath name isDir) {r p}
    (hr : Deepest (f.rules sdk) (relPath++[name]) isDir r)
    (hp : (matching (relPath++[name]) isDir r).head? = some p) :
    (f.state sdk).isIgnored relPath name isDir = !p.negate := by
  have hmatch : ∀ {q : List String × List IgnorePattern},
      matching (relPath++[name]) isDir q≠[] → q.1 <+: relPath++[name] ∧ q.2≠[] := by
    intro q hq
    unfold matching at hq
    split_ifs at hq with hpre
    · refine ⟨?_,fun hnil => hq (by simp [hnil])⟩
      rwa [← isPrefixOf_iff_prefix]
    · exact absurd rfl hq
  have hne : matching (relPath++[name]) isDir r≠[] := by
    intro hnil
    simp [hnil] at hp
  have hmem : r∈(f.state sdk).reverse := by
    rw [f.state_eq,mem_reverse,mem_filter]
    exact ⟨hr.1,decide_eq_true (hmatch hne).2⟩
  have hdown : (f.state sdk).reverse.Pairwise fun q r => ¬ q.1 <+: r.1 := by
    rw [pairwise_reverse,f.state_eq]
    exact (pairwise_map.mpr f.downward).filter _
  obtain ⟨pre,post,hsplit⟩ := append_of_mem hmem
  -- a file asked before this one is in no directory above it, so none of its patterns match
  have hpre : ∀ q∈pre,scopeVerdict (relPath++[name]) isDir q=none := by
    intro q hq
    rw [scopeVerdict_eq,Option.map_eq_none_iff,head?_eq_none_iff]
    by_contra hqne
    have hqmem : q∈f.rules sdk := by
      have hin : q∈(f.state sdk).reverse := by
        rw [hsplit]
        exact mem_append_left _ hq
      rw [f.state_eq,mem_reverse] at hin
      exact (mem_filter.mp hin).1
    rw [hsplit,pairwise_append] at hdown
    exact hdown.2.2 q hq r mem_cons_self (prefix_of_prefix_length_le (hmatch hqne).1
      (hmatch hne).1 (hr.2 q hqmem hqne))
  rw [IgnoreState.isIgnored,hsplit,findSome?_append,
    findSome?_eq_none_iff.mpr hpre,findSome?_cons,scopeVerdict_eq,hp]
  rfl

theorem isIgnored_unmatched (relPath name isDir)
    (h : ∀ r∈f.rules sdk,matching (relPath++[name]) isDir r=[]) :
    (f.state sdk).isIgnored relPath name isDir=false := by
  have hnone : (f.state sdk).reverse.findSome? (scopeVerdict (relPath++[name]) isDir)=none := by
    refine findSome?_eq_none_iff.mpr fun r hr => ?_
    rw [f.state_eq,mem_reverse] at hr
    rw [scopeVerdict_eq,h r (mem_filter.mp hr).1]
    rfl
  rw [IgnoreState.isIgnored,hnone]
  rfl

theorem isIgnored_last_match_iff (f : NestedFiles) (relPath : List String) (name : String)
    (isDir : Bool) :
    LastMatchWins (f.rules sdk) (relPath++[name]) isDir
        ((f.state sdk).isIgnored relPath name isDir) ↔
      ∀ r p q,Deepest (f.rules sdk) (relPath++[name]) isDir r →
        (matching (relPath++[name]) isDir r).head? = some p →
        (matching (relPath++[name]) isDir r).getLast? = some q → p.negate=q.negate := by
  constructor
  · intro h r p q hr hp hq
    have hfirst:=isIgnored_deepest sdk f relPath name isDir hr hp
    rw [h.matched r q hr hq,Bool.not_eq_eq_eq_not,Bool.not_not] at hfirst
    exact hfirst.symm
  · refine fun h => ⟨fun r q hr hq => ?_,isIgnored_unmatched sdk f relPath name isDir⟩
    cases hp : (matching (relPath++[name]) isDir r).head? with
    | none =>
      rw [head?_eq_none_iff] at hp
      simp [hp] at hq
    | some p => rw [isIgnored_deepest sdk f relPath name isDir hr hp,h r p q hr hp hq]

/-- With the lines `*.o` and `!k.o`, the file `k.o` is ignored. -/
def Sample.keptObject : NestedFiles := ⟨[([],[42,46,111,10,33,107,46,111])],pairwise_singleton _ _⟩

theorem negated_pattern_unheeded :
    (Sample.keptObject.state Sample.sdk).isIgnored [] "k.o" false=true ∧
      ¬ LastMatchWins (Sample.keptObject.rules Sample.sdk) ["k.o"] false true := by
  refine ⟨by decide +kernel,fun h => ?_⟩
  have hdeep : Deepest (Sample.keptObject.rules Sample.sdk) ["k.o"] false
      ([],parse Sample.sdk [42,46,111,10,33,107,46,111]) :=
    ⟨mem_singleton_self _,by decide +kernel⟩
  exact absurd (h.matched _ ⟨"k.o",true,false,false⟩ hdeep (by decide +kernel)) (by decide)

end OriginTools.Vcs.Ignore
