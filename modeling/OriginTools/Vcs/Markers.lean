import OriginTools.Vcs.TextMerge

/-!
# Conflict markers

Where `fold` puts its markers, and what `has_conflict_markers` finds of them.
-/

namespace OriginTools.Vcs
open Diff List

def hasConflictMarkers (data : Bytes) : Bool :=
  (data.splitOnP (· == newline)).any fun line =>
    (utf8 "<<<<<<< ").isPrefixOf line||(utf8 ">>>>>>> ").isPrefixOf line

def AtLineStart (out : Bytes) : Prop := out=[] ∨ Terminated out

/-- Each marker of the blocks begins a line; `out` is what stands before them. -/
def MarkersAtLineStart : Bytes → List Chunk → Prop
  | _,[] => True
  | out,.agreed bytes::chunks => MarkersAtLineStart (out++bytes) chunks
  | out,.conflict ours theirs::chunks =>
    AtLineStart out ∧ AtLineStart (out++utf8 "<<<<<<< ours\n"++ours) ∧
      AtLineStart (out++utf8 "<<<<<<< ours\n"++ours++utf8 "=======\n"++theirs) ∧
      MarkersAtLineStart (out++(Chunk.conflict ours theirs).bytes) chunks

/-- A line without a line end comes at or before a base line where the sides clash. -/
def LooseBeforeClash : List (Row Line × Row Line) → Prop
  | [] => False
  | p::rows =>
    ((∃ l∈p.1.before++p.2.before,¬AtLineStart l) ∧ ∃ q∈p::rows,Clash q.1 q.2) ∨
      LooseBeforeClash rows

variable {a b out : Bytes} {o t : Row Line}

theorem atLineStart_append_iff (ha : Terminated a) : AtLineStart (a++b) ↔ AtLineStart b := by
  by_cases hne : b=[]
  · simp [hne,AtLineStart,ha]
  · simp [AtLineStart,Terminated,getLast?_append_of_ne_nil _ hne,hne]

theorem AtLineStart.of_append (h : AtLineStart (a++b)) : AtLineStart b := by
  by_cases hne : b=[]
  · exact .inl hne
  · simpa [AtLineStart,Terminated,getLast?_append_of_ne_nil _ hne,hne] using h

theorem terminated_append (h : b.getLast? = some newline) : Terminated (a++b) := by
  have hne : b≠[] := fun he => by simp [he] at h
  rwa [Terminated,getLast?_append_of_ne_nil _ hne]

theorem AtLineStart.append (ha : AtLineStart a) (hb : AtLineStart b) : AtLineStart (a++b) := by
  rcases ha with rfl | ha
  · exact hb
  · exact (atLineStart_append_iff ha).2 hb

theorem atLineStart_flatten {ls} (hcut : Cut ls) :
    AtLineStart ls.flatten ↔ ∀ l∈ls,AtLineStart l := by
  induction ls with
  | nil => simp [AtLineStart]
  | cons l ls ih =>
    obtain ⟨hl,hcut⟩ := pairwise_cons.1 hcut
    rcases ls with _ | ⟨l',ls⟩
    · simp
    have hterm:=hl l' (by simp)
    rw [flatten_cons,atLineStart_append_iff hterm,ih hcut,forall_mem_cons (a := l)]
    exact ⟨fun h => ⟨.inr hterm,h⟩,fun h => h.2⟩

/-- Once a text is used up with an open line, nothing is emitted up to the next clash. -/
theorem not_markers_of_done {rows : List (Row Line × Row Line)}
    (hdone : (∀ p∈rows,p.1.consumed=[]) ∨ ∀ p∈rows,p.2.consumed=[])
    (hclash : ∃ q∈rows,Clash q.1 q.2) (hout : ¬AtLineStart out) :
    ¬MarkersAtLineStart out (rows.map rowChunk) := by
  induction rows with
  | nil => simp at hclash
  | cons p rows ih =>
    obtain ⟨o,t⟩ := p
    rw [map_cons]
    by_cases hp : Clash o t
    · rw [rowChunk_clash hp]
      exact fun h => hout h.1
    have hnil : mergedRow o t=[] := by
      rcases hdone with h | h
      · simpa [mergedLines] using
          mergedLines_of_ours_done [o] [t] (by simpa using h (o,t) (by simp))
      · simpa [mergedLines] using @mergedLines_of_theirs_done [o] [t]
          (by simpa using hp) (by simpa using h (o,t) (by simp))
    rw [rowChunk_merged hp,hnil,MarkersAtLineStart,flatten_nil,append_nil]
    exact ih (hdone.imp (fun h q hq => h q (by simp [hq])) fun h q hq => h q (by simp [hq]))
      (by simpa [hp] using hclash)

theorem markers_of_clean {rows} (hclean : ¬∃ q∈rows,Clash q.1 q.2) :
    MarkersAtLineStart out (rows.map rowChunk) ∧ ¬LooseBeforeClash rows := by
  induction rows generalizing out with
  | nil => exact ⟨trivial,id⟩
  | cons p rows ih =>
    have hp : ¬Clash p.1 p.2 := fun h => hclean ⟨p,by simp,h⟩
    have hrest:=fun out => @ih out fun ⟨q,hq,h⟩ => hclean ⟨q,by simp [hq],h⟩
    rw [map_cons,rowChunk_merged hp]
    exact ⟨(hrest _).1,fun h => h.elim (fun h => hclean h.2) (hrest out).2⟩

/-- What a row without a clash emits is what one of the sides, or both, have there. -/
theorem mergedRow_before (h : ¬Clash o t) {l} (hl : l∈o.before++t.before) :
    (l∈o.before ∧ mergedRow o t=o.before) ∨ (l∈t.before ∧ mergedRow o t=t.before) := by
  by_cases ho : Untouched o <;> by_cases ht : Untouched t
  · simp [ho.2,ht.2] at hl
  · simpa [mergedRow,ho,ht,ho.2] using hl
  · simpa [mergedRow,ho,ht.2] using hl
  · have he : o.before=t.before := by
      by_contra hne
      exact h ⟨ho,ht,hne⟩
    simpa [mergedRow,ho,he] using hl

theorem markersAtLineStart_iff (os ts : List (Row Line)) (otail ttail : List Line)
    (hlines : os.map Row.line=ts.map Row.line) (hb : Cut (os.map Row.line))
    (ho : Cut (os.flatMap Row.consumed++otail)) (ht : Cut (ts.flatMap Row.consumed++ttail))
    (hout : AtLineStart out) :
    MarkersAtLineStart out ((os.zip ts).map rowChunk) ↔ ¬LooseBeforeClash (os.zip ts) := by
  induction os generalizing ts out with
  | nil => simp [MarkersAtLineStart,LooseBeforeClash]
  | cons o os ih =>
    rcases ts with _ | ⟨t,ts⟩
    · simp at hlines
    simp only [map_cons,List.cons.injEq] at hlines hb
    simp only [flatMap_cons,Row.consumed,append_assoc] at ho ht
    obtain ⟨hoBefore,hoRest,-⟩ := pairwise_append.mp ho
    obtain ⟨htBefore,htRest,-⟩ := pairwise_append.mp ht
    have hrest : ∀ out,AtLineStart out →
        (MarkersAtLineStart out ((os.zip ts).map rowChunk) ↔ ¬LooseBeforeClash (os.zip ts)) :=
      fun out hout => ih ts hlines.2 (pairwise_cons.mp hb).2
        (pairwise_append.mp hoRest).2.1 (pairwise_append.mp htRest).2.1 hout
    rw [zip_cons_cons,map_cons,LooseBeforeClash]
    by_cases hp : Clash o t
    · have hstart : Terminated (out++utf8 "<<<<<<< ours\n") := terminated_append (by decide)
      have hmiddle : Terminated (out++utf8 "<<<<<<< ours\n"++o.before.flatten++
        utf8 "=======\n") := terminated_append (by decide)
      have hend : AtLineStart (out++(Chunk.conflict o.before.flatten t.before.flatten).bytes) := by
        rw [Chunk.bytes,← append_assoc]
        exact .inr (terminated_append (by decide))
      have hclash : ∃ q∈(o,t)::os.zip ts,Clash q.1 q.2 := ⟨_,.head _,hp⟩
      rw [rowChunk_clash hp,MarkersAtLineStart,atLineStart_append_iff hstart,
        atLineStart_append_iff hmiddle,hrest _ hend,atLineStart_flatten hoBefore,
        atLineStart_flatten htBefore]
      simp only [hout,true_and,hclash,and_true,not_or,not_exists,not_and,not_not,
        mem_append,or_imp,forall_and,and_assoc]
    · rw [rowChunk_merged hp,MarkersAtLineStart]
      by_cases hloose : ∃ l∈o.before++t.before,¬AtLineStart l
      · obtain ⟨l,hl,hopen⟩ := hloose
        have hterm : ¬Terminated l := fun h => hopen (.inr h)
        have hdone : ((∀ p∈os.zip ts,p.1.consumed=[]) ∨ ∀ p∈os.zip ts,p.2.consumed=[]) ∧
            ¬AtLineStart (out++(mergedRow o t).flatten) := by
          rcases mergedRow_before hp hl with ⟨hl,heq⟩ | ⟨hl,heq⟩
          · have hend:=cut_done ho hl hterm
            simp only [append_eq_nil_iff,flatMap_eq_nil_iff] at hend
            rw [heq]
            exact ⟨.inl fun p hp => hend.2.1 p.1 (of_mem_zip hp).1,fun h =>
              hopen ((atLineStart_flatten hoBefore).1 h.of_append l hl)⟩
          · have hend:=cut_done ht hl hterm
            simp only [append_eq_nil_iff,flatMap_eq_nil_iff] at hend
            rw [heq]
            exact ⟨.inr fun p hp => hend.2.1 p.2 (of_mem_zip hp).2,fun h =>
              hopen ((atLineStart_flatten htBefore).1 h.of_append l hl)⟩
        by_cases hclash : ∃ q∈os.zip ts,Clash q.1 q.2
        · refine iff_of_false (not_markers_of_done hdone.1 hclash hdone.2) (not_not.2 (.inl ?_))
          exact ⟨⟨l,hl,hopen⟩,hclash.imp fun q h => ⟨.tail _ h.1,h.2⟩⟩
        · refine iff_of_true (markers_of_clean hclash).1 fun h =>
            h.elim (fun h => ?_) (@markers_of_clean out _ hclash).2
          exact ((exists_mem_cons_iff ..).1 h.2).elim hp hclash
      · have hsame : LooseBeforeClash (os.zip ts) ↔ ((∃ l∈o.before++t.before,¬AtLineStart l) ∧
              ∃ q∈(o,t)::os.zip ts,Clash q.1 q.2) ∨ LooseBeforeClash (os.zip ts) := by
          simp only [hloose,false_and,false_or]
        rw [← hsame]
        push Not at hloose
        by_cases hline : Untouched o ∧ Untouched t ∧ ¬AtLineStart o.line
        · have hlast : os=[] := by
            cases os with
            | nil => rfl
            | cons o' os =>
              exact absurd (.inr ((pairwise_cons.1 hb).1 o'.line (by simp))) hline.2.2
          simp [hlast,MarkersAtLineStart,LooseBeforeClash]
        · refine hrest _ (hout.append ?_)
          unfold mergedRow
          split_ifs with huo hut
          · simpa [huo,hut] using hline
          · exact (atLineStart_flatten htBefore).2 fun l hl => hloose l (by simp [hl])
          · exact (atLineStart_flatten hoBefore).2 fun l hl => hloose l (by simp [hl])

theorem hasConflictMarkers_of_markers {chunks} (h : MarkersAtLineStart out chunks)
    (hc : chunks.any Chunk.isConflict=true) :
    hasConflictMarkers (out++chunks.flatMap Chunk.bytes)=true := by
  induction chunks generalizing out with
  | nil => simp at hc
  | cons c chunks ih =>
    cases c with
    | agreed bytes =>
      rw [flatMap_cons,← append_assoc]
      exact ih h (by simpa [Chunk.isConflict] using hc)
    | conflict ours theirs =>
      obtain ⟨rest,hrest⟩ : ∃ rest,(Chunk.conflict ours theirs::chunks).flatMap Chunk.bytes=
          utf8 "<<<<<<< ours"++newline::rest := by
        have htext : utf8 "<<<<<<< ours\n"=utf8 "<<<<<<< ours"++[newline] := by decide
        simp only [flatMap_cons,Chunk.bytes,htext,append_assoc,singleton_append]
        exact ⟨_,rfl⟩
      have hsplit : (utf8 "<<<<<<< ours"++newline::rest).splitOnP (· == newline)=_ :=
        splitOnP_append_cons_of_forall_mem (by decide +kernel) newline (by decide) rest
      have hfound : (utf8 "<<<<<<< ").isPrefixOf (utf8 "<<<<<<< ours")=true := by decide
      rw [hasConflictMarkers,hrest]
      rcases h.1 with rfl | hout
      · rw [nil_append,hsplit,any_cons,hfound,Bool.true_or,Bool.true_or]
      obtain ⟨front,rfl⟩ := getLast?_eq_some_iff.1 hout
      rw [append_assoc,singleton_append,
        splitOnP_append_cons front _ (by decide),hsplit,any_append,any_cons,
        hfound,Bool.true_or,Bool.true_or,Bool.or_true]

theorem texts_differ_of_conflict {base ours theirs} (h : (mergeLines base ours theirs).2=true) :
    base≠ours ∧ base≠theirs ∧ ours≠theirs := by
  unfold mergeLines at h
  split_ifs at h with ho ht hot
  exact ⟨ho,ht,hot⟩

/-- The output is the blocks put together, each marker of which begins a line, and
`has_conflict_markers` sees them. -/
def ConflictRecognisable (base ours theirs : Bytes) : Prop :=
  (mergeLines base ours theirs).1=(mergeChunks base ours theirs).flatMap Chunk.bytes ∧
    MarkersAtLineStart [] (mergeChunks base ours theirs) ∧
    hasConflictMarkers (mergeLines base ours theirs).1=true

theorem conflict_markers_at_line_start_iff {base ours theirs : Bytes}
    (h : (mergeLines base ours theirs).2=true) :
    ConflictRecognisable base ours theirs ↔
      ¬LooseBeforeClash ((align (splitLines base) (splitLines ours)).rows.zip
        (align (splitLines base) (splitLines theirs)).rows) := by
  obtain ⟨ho,ht,hot⟩ := texts_differ_of_conflict h
  have hiff : MarkersAtLineStart [] (mergeChunks base ours theirs) ↔ _ :=
    markersAtLineStart_iff _ _ (align (splitLines base) (splitLines ours)).tail
      (align (splitLines base) (splitLines theirs)).tail
      (by rw [Alignment.lines,Alignment.lines])
      (by rw [Alignment.lines]; exact splitLines_cut base)
      (by rw [Alignment.consumed]; exact splitLines_cut ours)
      (by rw [Alignment.consumed]; exact splitLines_cut theirs) (.inl rfl)
  rw [ConflictRecognisable,mergeLines_chunks ho ht hot,← hiff]
  rw [mergeLines_chunks ho ht hot] at h
  exact ⟨fun h => h.2.1,fun hm => ⟨rfl,hm,hasConflictMarkers_of_markers hm h⟩⟩

theorem conflict_markers_closed_lines :
    (mergeLines (utf8 "a\n") (utf8 "b\n") (utf8 "c\n")).2=true ∧
      ConflictRecognisable (utf8 "a\n") (utf8 "b\n") (utf8 "c\n") := by
  have h : (mergeLines (utf8 "a\n") (utf8 "b\n") (utf8 "c\n")).2=true := by decide +kernel
  refine ⟨h,(conflict_markers_at_line_start_iff h).mpr ?_⟩
  have hrows : (align (splitLines (utf8 "a\n")) (splitLines (utf8 "b\n"))).rows.zip
      (align (splitLines (utf8 "a\n")) (splitLines (utf8 "c\n"))).rows=
      [(⟨[[98,10]],[97,10],false⟩,⟨[[99,10]],[97,10],false⟩)] := by decide +kernel
  rw [hrows]
  simp [LooseBeforeClash,AtLineStart,Terminated,newline]

theorem marker_after_open_line : mergeLines (utf8 "a\nb\n") (utf8 "x") (utf8 "a\ny")=
      (utf8 "x<<<<<<< ours\n=======\ny>>>>>>> theirs\n",true) ∧
    hasConflictMarkers (utf8 "x<<<<<<< ours\n=======\ny>>>>>>> theirs\n")=false := by
  decide +kernel

end OriginTools.Vcs
