import OriginTools.Foundation.Diff
import OriginTools.Vcs.Object

/-!
# Textual three-way merge

The line merge of `textmerge.rs`: both sides are diffed against the base (`myers`),
which gives one edit for each base line, and the two edit scripts are folded line by
line (`fold`).
-/

namespace OriginTools.Vcs
open Diff List

abbrev Line : Type := Bytes
def newline : UInt8 := 10

def cutLines : Bytes → Bytes → List Line
  | cur,[] => if cur=[] then [] else [cur]
  | cur,b::bytes =>
    if b=newline then (cur++[b])::cutLines [] bytes else cutLines (cur++[b]) bytes

def splitLines (bytes : Bytes) : List Line :=
  if bytes=[] then [[]] else cutLines [] bytes

inductive Edit
  | keep
  | replace (lines : List Line)
  deriving DecidableEq,Repr

/-- The `while` loop of `myers`. The lists are the rows from `i` and the columns
from `j` on, so `lcs` of two suffixes is the entry `dp[i][j]`. -/
def backtrace : ℕ → List Line → List Line → List Line → List Edit → List Edit × List Line
  | 0,_,_,held,edits => (edits,held)
  | _+1,[],_,held,edits => (edits,held)
  | fuel+1,_::base,[],held,edits =>
    backtrace fuel base [] [] (edits++[.replace held])
  | fuel+1,b::base,t::target,held,edits =>
    if b=t ∧ lcs (b::base) (t::target)=lcs base target+1 then
      -- lines held before a kept line take its place
      backtrace fuel base target [] (edits++[if held=[] then .keep else .replace held])
    else if lcs (b::base) target≥lcs base (t::target) then
      backtrace fuel (b::base) target (held++[t]) edits
    else
      backtrace fuel base (t::target) [] (edits++[.replace held])

def myers (base target : List Line) : List Edit :=
  if base=[] then [] else
    let (edits,held) := backtrace (base.length+target.length) base target [] []
    if held=[] then edits
    else match edits.getLast? with
      | some (.replace lines) => edits.dropLast++[.replace (lines++held)]
      -- an edit past the last base line, which `fold` does not read
      | _ => edits++[.replace held]

def foldRow (baseLine : Line) (oe te : Edit) : Bytes × Bool :=
  match oe,te with
  | .keep,.keep => (baseLine,false)
  | .replace ov,.keep => (ov.flatten,false)
  | .keep,.replace tv => (tv.flatten,false)
  | .replace ov,.replace tv =>
    if ov=tv then (ov.flatten,false)
    else (utf8 "<<<<<<< ours\n"++ov.flatten++utf8 "=======\n"++tv.flatten++
      utf8 ">>>>>>> theirs\n",true)

def foldLoop : List Line → List Edit → List Edit → Bytes → Bool → Bytes × Bool
  | [],_,_,out,conflicted => (out,conflicted)
  | baseLine::base,ours,theirs,out,conflicted =>
    let (bytes,conflict) := foldRow baseLine (ours.head?.getD .keep) (theirs.head?.getD .keep)
    foldLoop base ours.tail theirs.tail (out++bytes) (conflicted||conflict)

def fold (base : List Line) (ours theirs : List Edit) : Bytes × Bool :=
  foldLoop base ours theirs [] false

def mergeLines (base ours theirs : Bytes) : Bytes × Bool :=
  if base=ours then (theirs,false)
  else if base=theirs then (ours,false)
  else if ours=theirs then (ours,false)
  else
    let b:=splitLines base
    fold b (myers b (splitLines ours)) (myers b (splitLines theirs))

def Untouched (r : Row Line) : Prop := r.kept ∧ r.before=[]

instance (r : Row Line) : Decidable (Untouched r) :=
  inferInstanceAs (Decidable (r.kept ∧ r.before=[]))

def editOf (r : Row Line) : Edit :=
  if Untouched r then .keep else .replace r.before

/-- Rows from a loop state on: `held` belongs to the row of the first base line. -/
def rowsFrom : List Line → List Line → List Line → List (Row Line)
  | [],_,_ => []
  | b::base,target,held => (scanRow b base (scan base) target held).1

theorem rowsFrom_nil_held (base target) : rowsFrom base target []=(scan base target).1 := by
  cases base <;> rfl

theorem backtrace_eq (fuel) (base target held : List Line) (edits) (hheld : base=[] → held=[])
    (hfuel : base.length+target.length≤fuel) :
    backtrace fuel base target held edits=(edits++(rowsFrom base target held).map editOf,[]) := by
  induction fuel generalizing base target held edits with
  | zero =>
    have hb : base=[] := length_eq_zero_iff.mp (by omega)
    subst hb
    simp [backtrace,rowsFrom,hheld rfl]
  | succ fuel ih =>
    rcases base with _ | ⟨b,base⟩
    · simp [backtrace,rowsFrom,hheld rfl]
    cases target with
    | nil =>
      simp only [length_cons,length_nil] at hfuel
      rw [backtrace,ih base [] [] _ (fun _ => rfl) (by simpa using hfuel),rowsFrom_nil_held]
      simp [rowsFrom,scanRow,editOf,Untouched]
    | cons t target =>
      simp only [length_cons] at hfuel
      rw [backtrace]
      by_cases hmatch : b=t ∧ lcs (b::base) (t::target)=lcs base target+1
      · rw [if_pos hmatch,ih base target [] _ (fun _ => rfl) (by omega),rowsFrom_nil_held]
        obtain ⟨rfl,-⟩ := hmatch
        simp [rowsFrom,scanRow,editOf,Untouched]
      · have hne : b≠t := fun he => hmatch ⟨he,he ▸ lcs_cons_self b base target⟩
        rw [if_neg hmatch]
        by_cases hins : lcs (b::base) target≥lcs base (t::target)
        · rw [if_pos hins,ih (b::base) target (held++[t]) edits (by simp)
            (by simp only [length_cons]; omega)]
          simp [rowsFrom,scanRow,hne,hins]
        · rw [if_neg hins,ih base (t::target) [] _ (fun _ => rfl)
            (by simp only [length_cons]; omega),rowsFrom_nil_held]
          simp [rowsFrom,scanRow,editOf,Untouched,hne,hins]

theorem myers_eq (base target) : myers base target=(align base target).rows.map editOf := by
  unfold myers
  split_ifs with hb
  · subst hb
    rfl
  · rw [backtrace_eq _ base target [] [] (fun _ => rfl) le_rfl,rowsFrom_nil_held]
    simp [align]

def Clash (o t : Row Line) : Prop := ¬ Untouched o ∧ ¬ Untouched t ∧ o.before≠t.before

def mergedRow (o t : Row Line) : List Line :=
  if Untouched o then (if Untouched t then [o.line] else t.before) else o.before

def mergedLines (os ts : List (Row Line)) : List Line :=
  (os.zip ts).flatMap fun p => mergedRow p.1 p.2

inductive Chunk
  | agreed (bytes : Bytes)
  | conflict (ours theirs : Bytes)

namespace Chunk

def bytes : Chunk → Bytes
  | .agreed bytes => bytes
  | .conflict ours theirs => utf8 "<<<<<<< ours\n"++ours++utf8 "=======\n"++theirs++
      utf8 ">>>>>>> theirs\n"

def isConflict : Chunk → Bool
  | .agreed _ => false
  | .conflict _ _ => true

def swap : Chunk → Chunk
  | .agreed bytes => .agreed bytes
  | .conflict ours theirs => .conflict theirs ours

end Chunk

def chunkOf (baseLine : Line) : Edit → Edit → Chunk
  | .keep,.keep => .agreed baseLine
  | .replace ov,.keep => .agreed ov.flatten
  | .keep,.replace tv => .agreed tv.flatten
  | .replace ov,.replace tv =>
    if ov=tv then .agreed ov.flatten else .conflict ov.flatten tv.flatten

theorem foldRow_eq (l oe te) :
    foldRow l oe te=((chunkOf l oe te).bytes,(chunkOf l oe te).isConflict) := by
  cases oe with
  | keep => cases te <;> rfl
  | replace ov =>
    cases te with
    | keep => rfl
    | replace tv =>
      simp only [foldRow,chunkOf]
      split_ifs <;> rfl

def foldChunks : List Line → List Edit → List Edit → List Chunk
  | [],_,_ => []
  | baseLine::base,ours,theirs =>
    chunkOf baseLine (ours.head?.getD .keep) (theirs.head?.getD .keep)::
      foldChunks base ours.tail theirs.tail

theorem foldLoop_eq (base ours theirs out c) :
    foldLoop base ours theirs out c=(out++(foldChunks base ours theirs).flatMap Chunk.bytes,
      c||(foldChunks base ours theirs).any Chunk.isConflict) := by
  induction base generalizing ours theirs out c with
  | nil => simp [foldLoop,foldChunks]
  | cons l base ih =>
    simp only [foldLoop,foldRow_eq,ih]
    simp [foldChunks,Bool.or_assoc]

def rowChunk (p : Row Line × Row Line) : Chunk := chunkOf p.1.line (editOf p.1) (editOf p.2)

theorem foldChunks_rows (os ts : List (Row Line)) (hlen : os.length=ts.length) :
    foldChunks (os.map Row.line) (os.map editOf) (ts.map editOf)=(os.zip ts).map rowChunk := by
  induction os generalizing ts with
  | nil => rfl
  | cons o os ih =>
    cases ts with
    | nil => simp at hlen
    | cons t ts =>
      simp only [map_cons,foldChunks,tail_cons,ih ts (by simpa using hlen)]
      rfl

theorem rowChunk_clash {o t} (h : Clash o t) :
    rowChunk (o,t)=.conflict o.before.flatten t.before.flatten := by
  simp [rowChunk,editOf,h.1,h.2.1,chunkOf,h.2.2]

theorem rowChunk_merged {o t} (h : ¬ Clash o t) :
    rowChunk (o,t)=.agreed (mergedRow o t).flatten := by
  by_cases ho : Untouched o <;> by_cases ht : Untouched t
  · simp [rowChunk,editOf,mergedRow,ho,ht,chunkOf]
  · simp [rowChunk,editOf,mergedRow,ho,ht,chunkOf]
  · simp [rowChunk,editOf,mergedRow,ho,ht,chunkOf]
  · have he : o.before=t.before := by
      by_contra hne
      exact h ⟨ho,ht,hne⟩
    simp [rowChunk,editOf,mergedRow,ho,ht,he,chunkOf]

def mergeChunks (base ours theirs : Bytes) : List Chunk :=
  ((align (splitLines base) (splitLines ours)).rows.zip
    (align (splitLines base) (splitLines theirs)).rows).map rowChunk

theorem mergeLines_chunks {base ours theirs} (ho : base≠ours) (ht : base≠theirs)
    (hot : ours≠theirs) : mergeLines base ours theirs=
      ((mergeChunks base ours theirs).flatMap Chunk.bytes,
        (mergeChunks base ours theirs).any Chunk.isConflict) := by
  have hlines:=(align (splitLines base) (splitLines ours)).lines
  simp only [mergeLines,ho,ht,hot,if_false,fold,myers_eq,foldLoop_eq,mergeChunks]
  rw [← foldChunks_rows _ _ (by rw [Alignment.length_rows,Alignment.length_rows]),hlines]
  simp

def Overlap {base ours theirs : List Line} (a : Alignment base ours) (c : Alignment base theirs) :
    Prop :=
  ∃ p∈a.rows.zip c.rows,Clash p.1 p.2

theorem mergeLines_eq {base ours theirs} (ho : base≠ours) (ht : base≠theirs) (hot : ours≠theirs) :
    let a:=align (splitLines base) (splitLines ours)
    let c:=align (splitLines base) (splitLines theirs)
    ((mergeLines base ours theirs).2=true ↔ Overlap a c) ∧
      (¬ Overlap a c → (mergeLines base ours theirs).1=(mergedLines a.rows c.rows).flatten) := by
  intro a c
  rw [mergeLines_chunks ho ht hot,mergeChunks]
  refine ⟨?_,fun hclean => ?_⟩
  · simp only [any_map,any_eq_true,Overlap]
    refine exists_congr fun p => and_congr_right fun _ => ?_
    by_cases hp : Clash p.1 p.2
    · simp [rowChunk_clash hp,Chunk.isConflict,hp]
    · simp [rowChunk_merged hp,Chunk.isConflict,hp]
  · have hrows : ∀ p∈a.rows.zip c.rows,(rowChunk p).bytes=(mergedRow p.1 p.2).flatMap id := by
      intro p hp
      rw [rowChunk_merged fun h => hclean ⟨p,hp,h⟩,flatMap_id]
      rfl
    rw [mergedLines,← flatMap_id,flatMap_assoc,flatMap_map]
    exact flatMap_congr hrows

def Terminated (l : Line) : Prop := l.getLast? = some newline
def IsLine (l : Line) : Prop := newline∉l.dropLast
def Cut (ls : List Line) : Prop := ls.Pairwise fun a _ => Terminated a

theorem cutLines_spec (cur bytes : Bytes) (hcur : newline∉cur) :
    (∀ l∈cutLines cur bytes,l≠[] ∧ IsLine l) ∧ Cut (cutLines cur bytes) := by
  induction bytes generalizing cur with
  | nil =>
    by_cases hnil : cur=[]
    · simp [cutLines,hnil,Cut]
    · have hline : IsLine cur := fun h => hcur (mem_of_mem_dropLast h)
      simp [cutLines,hnil,Cut,hline]
  | cons b bytes ih =>
    simp only [cutLines]
    split_ifs with hb
    · obtain ⟨hlines,hcut⟩ := ih [] (by simp)
      have hline : IsLine (cur++[b]) := by simpa [IsLine] using hcur
      have hterm : Terminated (cur++[b]) := by simp [Terminated,hb]
      refine ⟨?_,pairwise_cons.mpr ⟨fun _ _ => hterm,hcut⟩⟩
      simpa [hline] using hlines
    · exact ih (cur++[b]) (by simp [hcur,Ne.symm hb])

theorem cutLines_terminated (cur body rest : Bytes) (h : newline∉body) :
    cutLines cur (body++newline::rest)=(cur++body++[newline])::cutLines [] rest := by
  induction body generalizing cur with
  | nil => simp [cutLines]
  | cons b body ih =>
    simp only [mem_cons,not_or] at h
    simp [cutLines,Ne.symm h.1,ih (cur++[b]) h.2]

theorem cutLines_unterminated (cur body : Bytes) (h : newline∉body) :
    cutLines cur body=if cur++body=[] then [] else [cur++body] := by
  induction body generalizing cur with
  | nil => simp [cutLines]
  | cons b body ih =>
    simp only [mem_cons,not_or] at h
    simp [cutLines,Ne.symm h.1,ih (cur++[b]) h.2]

theorem isLine_cases (l : Line) (h : IsLine l) :
    (∃ body,l=body++[newline] ∧ newline∉body) ∨ (¬ Terminated l ∧ newline∉l) := by
  rcases eq_nil_or_concat l with rfl | ⟨body,b,rfl⟩
  · simp [Terminated]
  simp only [IsLine,concat_eq_append,dropLast_concat] at h
  by_cases hb : b=newline
  · exact .inl ⟨body,by simp [hb],h⟩
  · refine .inr ⟨by simp [Terminated,hb],by simp [h,Ne.symm hb]⟩

variable {ls : List Line} {l : Line}

theorem mem_cutLines_flatten (hls : ∀ l∈ls,IsLine l) (hcut : Cut ls) (hl : l≠[]) :
    l∈cutLines [] ls.flatten ↔ l∈ls := by
  induction ls with
  | nil => simp [cutLines]
  | cons a ls ih =>
    obtain ⟨ha,hrest⟩ := forall_mem_cons.mp hls
    obtain ⟨hterm,hcutRest⟩ := pairwise_cons.mp hcut
    rcases isLine_cases a ha with ⟨body,rfl,hbody⟩ | ⟨hopen,hno⟩
    · rw [flatten_cons,append_assoc,singleton_append,cutLines_terminated [] body _ hbody]
      simp [ih hrest hcutRest]
    · -- nothing follows an unterminated line
      have hnil : ls=[] := eq_nil_iff_forall_not_mem.mpr fun b hb => hopen (hterm b hb)
      subst hnil
      rw [flatten_cons,flatten_nil,append_nil,cutLines_unterminated [] a hno]
      by_cases hanil : a=[]
      · simp [hanil,hl]
      · simp [hanil]

theorem mem_splitLines_flatten (hls : ∀ l∈ls,IsLine l) (hcut : Cut ls) (hl : l≠[]) :
    l∈splitLines ls.flatten ↔ l∈ls := by
  rw [← mem_cutLines_flatten hls hcut hl]
  unfold splitLines
  split_ifs with hnil
  · simp [hnil,cutLines,hl]
  · rfl

theorem splitLines_isLine (bytes : Bytes) : ∀ l∈splitLines bytes,IsLine l := by
  unfold splitLines
  split_ifs
  · simp [IsLine]
  · exact fun l hl => ((cutLines_spec [] bytes (by simp)).1 l hl).2

theorem splitLines_cut (bytes : Bytes) : Cut (splitLines bytes) := by
  unfold splitLines
  split_ifs
  · simp [Cut]
  · exact (cutLines_spec [] bytes (by simp)).2

theorem nil_mem_splitLines (bytes : Bytes) : []∈splitLines bytes ↔ bytes=[] := by
  unfold splitLines
  split_ifs with h
  · simp [h]
  · simp only [h,iff_false]
    exact fun hmem => ((cutLines_spec [] bytes (by simp)).1 [] hmem).1 rfl

theorem mergedLines_cons (o t os ts) :
    mergedLines (o::os) (t::ts)=mergedRow o t++mergedLines os ts := by
  simp [mergedLines]

theorem mem_mergedLines (os ts : List (Row Line)) (hlen : os.length=ts.length)
    (hclean : ∀ p∈os.zip ts,¬ Clash p.1 p.2) (l : Line) :
    l∈mergedLines os ts ↔ l∈os.flatMap Row.before ∨ l∈ts.flatMap Row.before ∨
      ∃ p∈os.zip ts,Untouched p.1 ∧ Untouched p.2 ∧ p.1.line=l := by
  induction os generalizing ts with
  | nil =>
    cases ts with
    | nil => simp [mergedLines]
    | cons t ts => simp at hlen
  | cons o os ih =>
    rcases ts with _ | ⟨t,ts⟩
    · simp at hlen
    simp only [zip_cons_cons,forall_mem_cons] at hclean
    have hrow : l∈mergedRow o t ↔ l∈o.before ∨ l∈t.before ∨
        (Untouched o ∧ Untouched t ∧ o.line=l) := by
      unfold mergedRow
      by_cases ho : Untouched o <;> by_cases ht : Untouched t
      · simp [ho,ht,ho.2,ht.2,eq_comm]
      · simp [ho,ht,ho.2]
      · simp [ho,ht.2]
      · have he : o.before=t.before := by
          by_contra hne
          exact hclean.1 ⟨ho,ht,hne⟩
        simp [ho,he]
    rw [mergedLines_cons,mem_append,hrow,ih ts (by simpa using hlen) hclean.2]
    simp only [flatMap_cons,mem_append,zip_cons_cons,exists_mem_cons_iff]
    tauto

theorem mergedLines_of_ours_done (os ts : List (Row Line))
    (h : os.flatMap Row.consumed=[]) : mergedLines os ts=[] := by
  refine flatMap_eq_nil_iff.mpr fun p hp => ?_
  have hcons : p.1.consumed=[] := flatMap_eq_nil_iff.mp h p.1 (of_mem_zip hp).1
  obtain ⟨hbefore,hkept⟩ : p.1.before=[] ∧ p.1.kept=false := by
    simpa [Row.consumed] using hcons
  simp [mergedRow,Untouched,hbefore,hkept]

theorem mergedLines_of_theirs_done {os ts} (hclean : ∀ p∈os.zip ts,¬ Clash p.1 p.2)
    (h : ts.flatMap Row.consumed=[]) : mergedLines os ts=[] := by
  refine flatMap_eq_nil_iff.mpr fun p hp => ?_
  have hcons : p.2.consumed=[] := flatMap_eq_nil_iff.mp h p.2 (of_mem_zip hp).2
  obtain ⟨hbefore,hkept⟩ : p.2.before=[] ∧ p.2.kept=false := by
    simpa [Row.consumed] using hcons
  have ht : ¬ Untouched p.2 := by simp [Untouched,hkept]
  by_cases ho : Untouched p.1
  · simp [mergedRow,ho,ht,hbefore]
  have he : p.1.before=p.2.before := by
    by_contra hne
    exact hclean p hp ⟨ho,ht,hne⟩
  simp [mergedRow,ho,he,hbefore]

theorem cut_done {rest} (hcut : Cut (ls++rest)) (hl : l∈ls) (hopen : ¬ Terminated l) : rest=[] := by
  have hcross:=(pairwise_append.mp hcut).2.2
  exact eq_nil_iff_forall_not_mem.mpr fun b hb => hopen (hcross l hl b hb)

/-- In a clean merge an unterminated line is the last one. By induction on the
rows: whichever text the line comes from, that text is used up with it, and then
the later rows emit nothing. -/
theorem mergedLines_cut (os ts : List (Row Line)) (otail ttail : List Line)
    (hlines : os.map Row.line=ts.map Row.line) (hb : Cut (os.map Row.line))
    (ho : Cut (os.flatMap Row.consumed++otail)) (ht : Cut (ts.flatMap Row.consumed++ttail))
    (hclean : ∀ p∈os.zip ts,¬ Clash p.1 p.2) : Cut (mergedLines os ts) := by
  induction os generalizing ts with
  | nil => simp [mergedLines,Cut]
  | cons o os ih =>
    rcases ts with _ | ⟨t,ts⟩
    · simp at hlines
    simp only [zip_cons_cons,forall_mem_cons] at hclean
    simp only [map_cons,List.cons.injEq] at hlines
    simp only [flatMap_cons,Row.consumed,append_assoc] at ho ht
    obtain ⟨hoBefore,hoRest,-⟩ := pairwise_append.mp ho
    obtain ⟨htBefore,htRest,-⟩ := pairwise_append.mp ht
    have hrest : Cut (mergedLines os ts) :=
      ih ts hlines.2 (pairwise_cons.mp hb).2 (pairwise_append.mp hoRest).2.1
        (pairwise_append.mp htRest).2.1 hclean.2
    rw [mergedLines_cons]
    refine pairwise_append.mpr ⟨?_,hrest,fun l hl b hbin => ?_⟩
    · unfold mergedRow
      split_ifs
      · simp
      · exact htBefore
      · exact hoBefore
    · by_contra hopen
      have hnil : mergedLines os ts=[] := by
        unfold mergedRow at hl
        split_ifs at hl with huo hut
        · -- a base line: it is terminated unless it is the last one
          have hlast : os.map Row.line=[] := by
            refine eq_nil_iff_forall_not_mem.mpr fun x hx => hopen ?_
            rw [mem_singleton.mp hl]
            exact (pairwise_cons.mp hb).1 x hx
          simp [mergedLines,map_eq_nil_iff.mp hlast]
        · have hdone:=cut_done ht hl hopen
          simp only [append_eq_nil_iff] at hdone
          exact mergedLines_of_theirs_done hclean.2 hdone.2.1
        · have hdone:=cut_done ho hl hopen
          simp only [append_eq_nil_iff] at hdone
          exact mergedLines_of_ours_done os ts hdone.2.1
      rw [hnil] at hbin
      simp at hbin

def UntouchedByBoth {base ours theirs : List Line} (a : Alignment base ours)
    (c : Alignment base theirs) (l : Line) : Prop :=
  ∃ p∈a.rows.zip c.rows,Untouched p.1 ∧ Untouched p.2 ∧ p.1.line=l

theorem mem_clean_merge {base ours theirs} (ho : base≠ours) (ht : base≠theirs)
    (hot : ours≠theirs) (hl : l≠[]) : let a := align (splitLines base) (splitLines ours)
    let c:=align (splitLines base) (splitLines theirs)
    ¬ Overlap a c → (l∈splitLines (mergeLines base ours theirs).1 ↔
      l∈a.inserted ∨ l∈c.inserted ∨ UntouchedByBoth a c l) := by
  intro a c hclean
  have hpairs : ∀ p∈a.rows.zip c.rows,¬ Clash p.1 p.2 := fun p hp hc => hclean ⟨p,hp,hc⟩
  have hlen : a.rows.length=c.rows.length := by rw [a.length_rows,c.length_rows]
  have hmem:=mem_mergedLines a.rows c.rows hlen hpairs
  have hcut : Cut (mergedLines a.rows c.rows) := by
    refine mergedLines_cut a.rows c.rows a.tail c.tail (by rw [a.lines,c.lines]) ?_ ?_ ?_ hpairs
    · rw [a.lines]
      exact splitLines_cut base
    · rw [a.consumed]
      exact splitLines_cut ours
    · rw [c.consumed]
      exact splitLines_cut theirs
  have hline : ∀ x∈mergedLines a.rows c.rows,IsLine x := by
    intro x hx
    rcases (hmem x).mp hx with hx | hx | ⟨p,hp,-,-,rfl⟩
    · exact splitLines_isLine ours x (a.inserted_sub x hx)
    · exact splitLines_isLine theirs x (c.inserted_sub x hx)
    · refine splitLines_isLine base p.1.line ?_
      rw [← a.lines]
      exact mem_map_of_mem (of_mem_zip hp).1
  rw [(mergeLines_eq ho ht hot).2 hclean,mem_splitLines_flatten hline hcut hl]
  exact hmem l

structure KeepsWork (base ours theirs out : Bytes) : Prop where
  new_lines : ∀ l,l≠[] → l∈splitLines ours ∨ l∈splitLines theirs →
    l∉splitLines base → l∈splitLines out
  common_lines : ∀ l,(splitLines base).count l=1 → (splitLines ours).count l=1 →
    (splitLines theirs).count l=1 → l∈splitLines out

structure NothingLost {base ours theirs : List Line} (a : Alignment base ours)
    (c : Alignment base theirs) : Prop where
  appended : ∀ l∈a.tail++c.tail,l≠[] → l∉base → l∈a.inserted ∨ l∈c.inserted
  common : ∀ l,base.count l=1 → ours.count l=1 → theirs.count l=1 →
    l∈a.inserted ∨ l∈c.inserted ∨ UntouchedByBoth a c l

theorem mem_of_count_eq_one (h : ls.count l=1) : l∈ls := count_pos_iff.mp (by omega)

theorem keepsWork_of_eq {base ours theirs} (h : base=ours ∨ base=theirs ∨ ours=theirs) :
    ∃ out,mergeLines base ours theirs=(out,false) ∧ KeepsWork base ours theirs out := by
  rcases h with rfl | rfl | rfl
  · refine ⟨theirs,by simp [mergeLines],fun l _ hl hb => ?_,fun l _ _ ht => ?_⟩
    · exact hl.resolve_left hb
    · exact mem_of_count_eq_one ht
  · refine ⟨ours,by simp +contextual [mergeLines],fun l _ hl hb => ?_,fun l _ ho _ => ?_⟩
    · exact hl.resolve_right hb
    · exact mem_of_count_eq_one ho
  · refine ⟨ours,by simp [mergeLines],fun l _ hl _ => ?_,fun l _ ho _ => ?_⟩
    · exact hl.elim id id
    · exact mem_of_count_eq_one ho

theorem keepsWork_iff_nothingLost {base ours theirs} (ho : base≠ours) (ht : base≠theirs)
    (hot : ours≠theirs) :
    let a:=align (splitLines base) (splitLines ours)
    let c:=align (splitLines base) (splitLines theirs)
    ¬ Overlap a c →
      (KeepsWork base ours theirs (mergeLines base ours theirs).1 ↔ NothingLost a c) := by
  intro a c hclean
  have hmem (l : Line) (hl : l≠[]) := mem_clean_merge ho ht hot hl hclean
  have hbase (l : Line) (hb : l∉splitLines base) : ¬ UntouchedByBoth a c l := by
    rintro ⟨p,hp,-,-,rfl⟩
    apply hb
    rw [← a.lines]
    exact mem_map_of_mem (of_mem_zip hp).1
  -- an empty line in two of the texts would make them equal
  have hnonempty (l : Line) (hb : (splitLines base).count l=1)
      (hours : (splitLines ours).count l=1) : l≠[] := by
    rintro rfl
    have h1:=(nil_mem_splitLines base).mp (mem_of_count_eq_one hb)
    have h2:=(nil_mem_splitLines ours).mp (mem_of_count_eq_one hours)
    exact ho (h1.trans h2.symm)
  constructor
  · intro hkeep
    refine ⟨fun l hl hne hb => ?_,fun l hb hours htheirs => ?_⟩
    · have hside : l∈splitLines ours ∨ l∈splitLines theirs :=
        (mem_append.mp hl).imp (a.tail_sub l) (c.tail_sub l)
      rcases (hmem l hne).mp (hkeep.new_lines l hne hside hb) with h | h | h
      · exact .inl h
      · exact .inr h
      · exact absurd h (hbase l hb)
    · exact (hmem l (hnonempty l hb hours)).mp (hkeep.common_lines l hb hours htheirs)
  · intro hlost
    refine ⟨fun l hne hside hb => (hmem l hne).mpr ?_,fun l hb hours htheirs => ?_⟩
    · have hplace : (l∈a.inserted ∨ l∈c.inserted) ∨ l∈a.tail++c.tail := by
        rcases hside with h | h
        · rcases a.mem_of_not_mem_base l h hb with h | h
          · exact .inl (.inl h)
          · exact .inr (mem_append_left _ h)
        · rcases c.mem_of_not_mem_base l h hb with h | h
          · exact .inl (.inr h)
          · exact .inr (mem_append_right _ h)
      rcases hplace with h | h
      · exact h.imp_right .inl
      · exact (hlost.appended l h hne hb).imp_right .inl
    · exact (hmem l (hnonempty l hb hours)).mpr (hlost.common l hb hours htheirs)

theorem mergeLines_keeps_work_iff (base ours theirs : Bytes) :
    (∀ out,mergeLines base ours theirs=(out,false) → KeepsWork base ours theirs out) ↔
      base=ours ∨ base=theirs ∨ ours=theirs ∨ Overlap (align (splitLines base) (splitLines ours))
          (align (splitLines base) (splitLines theirs)) ∨
        NothingLost (align (splitLines base) (splitLines ours))
          (align (splitLines base) (splitLines theirs)) := by
  by_cases heq : base=ours ∨ base=theirs ∨ ours=theirs
  · obtain ⟨out,hrun,hkeep⟩ := keepsWork_of_eq heq
    refine iff_of_true (fun out' h => ?_) (by tauto)
    rw [hrun] at h
    cases h
    exact hkeep
  · simp only [not_or] at heq
    obtain ⟨ho,ht,hot⟩ := heq
    simp only [ho,ht,hot,false_or]
    obtain ⟨hconf,-⟩ := mergeLines_eq ho ht hot
    by_cases hover : Overlap (align (splitLines base) (splitLines ours))
        (align (splitLines base) (splitLines theirs))
    · refine iff_of_true (fun out h => ?_) (.inl hover)
      have htrue:=hconf.mpr hover
      rw [h] at htrue
      cases htrue
    · have hfalse : (mergeLines base ours theirs).2=false := by
        rw [← Bool.not_eq_true,hconf]
        exact hover
      have hiff:=keepsWork_iff_nothingLost ho ht hot hover
      simp only [hover,false_or]
      rw [← hiff]
      constructor
      · exact fun h => h _ (Prod.ext rfl hfalse)
      · intro h out hout
        rw [hout] at h
        exact h

/-- Ours puts a line before the only base line and theirs appends one: the merge
is clean and has lost the base line and the appended line. -/
theorem mergeLines_loses_lines :
    mergeLines (utf8 "a\n") (utf8 "x\na\n") (utf8 "a\nb\n")=(utf8 "x\n",false) ∧
      utf8 "b\n"∈splitLines (utf8 "a\nb\n") ∧ utf8 "b\n"∉splitLines (utf8 "a\n") ∧
      utf8 "b\n"∉splitLines (utf8 "x\n") ∧
      (splitLines (utf8 "a\n")).count (utf8 "a\n")=1 ∧
      (splitLines (utf8 "x\na\n")).count (utf8 "a\n")=1 ∧
      (splitLines (utf8 "a\nb\n")).count (utf8 "a\n")=1 ∧
      utf8 "a\n"∉splitLines (utf8 "x\n") := by
  decide +kernel

theorem chunkOf_swap (l oe te) : chunkOf l te oe=(chunkOf l oe te).swap := by
  cases oe with
  | keep => cases te <;> rfl
  | replace ov =>
    cases te with
    | keep => rfl
    | replace tv =>
      by_cases h : ov=tv
      · simp [chunkOf,h,Chunk.swap]
      · simp [chunkOf,h,Ne.symm h,Chunk.swap]

theorem foldChunks_swap (base ours theirs) :
    foldChunks base theirs ours=(foldChunks base ours theirs).map Chunk.swap := by
  induction base generalizing ours theirs with
  | nil => rfl
  | cons l base ih =>
    rw [foldChunks,foldChunks,map_cons,ih ours.tail theirs.tail,← chunkOf_swap]

/-- Exchanging the sides gives the same flag, the same bytes where there is no conflict,
and the same output but for the halves of the conflict blocks where there is one. -/
theorem mergeLines_symmetric (base ours theirs : Bytes) :
    (mergeLines base theirs ours).2=(mergeLines base ours theirs).2 ∧
      ((mergeLines base ours theirs).2=false →
        (mergeLines base theirs ours).1=(mergeLines base ours theirs).1) ∧
      ∃ chunks : List Chunk,(mergeLines base ours theirs).1=chunks.flatMap Chunk.bytes ∧
        (mergeLines base theirs ours).1=(chunks.map Chunk.swap).flatMap Chunk.bytes ∧
        (mergeLines base ours theirs).2=chunks.any Chunk.isConflict := by
  obtain ⟨chunks,hrun,hswapped⟩ : ∃ chunks : List Chunk,mergeLines base ours theirs=
        (chunks.flatMap Chunk.bytes,chunks.any Chunk.isConflict) ∧
      mergeLines base theirs ours=
        ((chunks.map Chunk.swap).flatMap Chunk.bytes,chunks.any Chunk.isConflict) := by
    by_cases ho : base=ours
    · refine ⟨[.agreed theirs],by simp [mergeLines,ho,Chunk.bytes,Chunk.isConflict],?_⟩
      by_cases ht : base=theirs
      · simp [mergeLines,← ho,← ht,Chunk.bytes,Chunk.isConflict,Chunk.swap]
      · simp [mergeLines,ho,ho ▸ ht,Chunk.bytes,Chunk.isConflict,Chunk.swap]
    by_cases ht : base=theirs
    · refine ⟨[.agreed ours],?_,?_⟩
      · simp [mergeLines,ht,ht ▸ ho,Chunk.bytes,Chunk.isConflict]
      · simp [mergeLines,ht,Chunk.bytes,Chunk.isConflict,Chunk.swap]
    by_cases hot : ours=theirs
    · refine ⟨[.agreed ours],?_,?_⟩
      · simp [mergeLines,ho,← hot,Chunk.bytes,Chunk.isConflict]
      · simp [mergeLines,ho,← hot,Chunk.bytes,Chunk.isConflict,Chunk.swap]
    refine ⟨foldChunks (splitLines base) (myers (splitLines base) (splitLines ours))
      (myers (splitLines base) (splitLines theirs)),?_,?_⟩
    · simp [mergeLines,ho,ht,hot,fold,foldLoop_eq]
    · have hflag : Chunk.isConflict ∘ Chunk.swap=Chunk.isConflict := by
        funext x
        cases x <;> rfl
      simp [mergeLines,ho,ht,Ne.symm hot,fold,foldLoop_eq,foldChunks_swap _ (myers _ (splitLines ours)),hflag]
  rw [hrun,hswapped]
  refine ⟨rfl,fun hclean => ?_,chunks,rfl,rfl,rfl⟩
  -- without a conflict block there is nothing to exchange
  have hsame : chunks.map Chunk.swap=chunks := by
    rw [map_congr_left (g := id),map_id]
    intro x hx
    have hx':=any_eq_false.mp hclean x hx
    cases x with
    | agreed bytes => rfl
    | conflict ours theirs => exact absurd rfl hx'
  rw [hsame]

end OriginTools.Vcs
