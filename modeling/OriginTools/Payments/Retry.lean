import OriginTools.Payments.Executor

/-!
# The delay before the next attempt

The bounds of `next_backoff_ms`, and the hint of a facilitator on its way through the
reason text of a refusal.
-/

namespace OriginTools.Payments
open List

/-- The delay that `next_backoff_ms` starts from, before the jitter. -/
def backoffBase (policy : RetryPolicy) (attempt : ℕ) (retryAfterMs : Option ℕ) : ℕ :=
  min (retryAfterMs.getD
    (min (policy.baseMs*min (policy.factor^(attempt-1)) u64Max) u64Max)) policy.capMs

def jitterProduct (base raw : ℕ) : ℤ := wrap64 base*((raw%51 : ℕ)-25)
def InRange64 (x : ℤ) : Prop := -2^63≤x ∧ x<2^63

/-- The products and sums of `i64` stay in range, and the delay is within its bounds. -/
structure BackoffBounded (policy : RetryPolicy) (attempt : ℕ) (retryAfterMs : Option ℕ)
    (raw : ℕ) : Prop where
  product : InRange64 (jitterProduct (backoffBase policy attempt retryAfterMs) raw)
  sum : InRange64 (wrap64 (backoffBase policy attempt retryAfterMs)+
    (jitterProduct (backoffBase policy attempt retryAfterMs) raw).tdiv 100)
  returns : ∃ delay,nextBackoffMs policy attempt retryAfterMs raw=some delay ∧
    1≤delay ∧ delay≤policy.capMs ∧
    ((delay : ℤ)-backoffBase policy attempt retryAfterMs).natAbs≤
      max (25*backoffBase policy attempt retryAfterMs/100) 1

theorem wrap64_of_inRange {x : ℤ} (h : InRange64 x) : wrap64 x=x := by
  obtain ⟨hlo,hhi⟩ := h
  apply Int.bmod_eq_of_le
  · norm_num at hlo ⊢
    omega
  · norm_num at hhi ⊢
    omega

theorem wrap64_natCast {n : ℕ} (h : n<2^63) : wrap64 n=n :=
  wrap64_of_inRange (by unfold InRange64; omega)

theorem wrap64_natCast_neg {n : ℕ} (hlo : 2^63≤n) (hhi : n<2^64) : wrap64 n<1 := by
  have hwrap : wrap64 n=wrap64 (n-2^64) := by
    unfold wrap64
    rw [Int.bmod_eq_bmod_iff_bmod_sub_eq_zero]
    simp
  rw [hwrap,wrap64_of_inRange (by unfold InRange64; omega)]
  omega

theorem jitterProduct_abs {base : ℕ} (raw : ℕ) (h : base<2^63) :
    (jitterProduct base raw).natAbs≤25*base := by
  rw [jitterProduct,wrap64_natCast h,Int.natAbs_mul,Int.natAbs_natCast,Nat.mul_comm]
  exact Nat.mul_le_mul_right _ (by omega)

theorem clamp_near {base cap : ℕ} {delta : ℤ} (hpos : 1≤cap) (hbase : base≤cap)
    (hdelta : delta.natAbs≤25*base/100) :
    1≤(max 1 (min (base+delta) cap)).toNat ∧ (max 1 (min (base+delta) cap)).toNat≤cap ∧
      (((max 1 (min (base+delta) cap)).toNat : ℤ)-base).natAbs ≤ max (25*base/100) 1 := by
  omega

variable (policy : RetryPolicy) (attempt : ℕ) (retryAfterMs : Option ℕ)

theorem nextBackoffMs_eq (raw : ℕ) : nextBackoffMs policy attempt retryAfterMs raw=
      let base:=backoffBase policy attempt retryAfterMs
      let jittered:=wrap64 (wrap64 base+(wrap64 (jitterProduct base raw)).tdiv 100)
      if wrap64 policy.capMs<1 then none
      else some (max 1 (min jittered (wrap64 policy.capMs))).toNat := rfl

theorem backoffBase_le : backoffBase policy attempt retryAfterMs≤policy.capMs :=
  Nat.min_le_right _ _

theorem backoff_bounded_iff (hpos : 1≤policy.capMs) (hcap : policy.capMs<2^64) :
    (∀ raw,BackoffBounded policy attempt retryAfterMs raw) ↔
      policy.capMs<2^63 ∧ 25*backoffBase policy attempt retryAfterMs<2^63 := by
  have hbase:=backoffBase_le policy attempt retryAfterMs
  constructor
  · intro h
    have hlt : policy.capMs<2^63 := by
      obtain ⟨delay,hdelay,_⟩ := (h 0).returns
      by_contra hge
      rw [nextBackoffMs_eq,if_pos (wrap64_natCast_neg (by omega) hcap)] at hdelay
      cases hdelay
    have hmax:=(h 50).product.2
    rw [jitterProduct,wrap64_natCast (by omega)] at hmax
    exact ⟨hlt,by omega⟩
  · intro ⟨hlt,hprod⟩ raw
    suffices h : InRange64 _ ∧ InRange64 _ ∧ _ from ⟨h.1,h.2.1,h.2.2⟩
    rw [nextBackoffMs_eq]
    generalize backoffBase policy attempt retryAfterMs=base at hbase hprod ⊢
    have habs:=jitterProduct_abs raw (by omega : base<2^63)
    have hdelta : ((jitterProduct base raw).tdiv 100).natAbs≤25*base/100 := by
      rw [Int.natAbs_tdiv]
      exact Nat.div_le_div_right habs
    have hproduct : InRange64 (jitterProduct base raw) := by
      unfold InRange64
      omega
    have hsum : InRange64 (base+(jitterProduct base raw).tdiv 100) := by
      unfold InRange64
      omega
    simp only [wrap64_natCast (by omega : base<2^63),wrap64_natCast hlt,
      wrap64_of_inRange hproduct,wrap64_of_inRange hsum]
    rw [if_neg (by omega)]
    exact ⟨hproduct,hsum,_,rfl,clamp_near hpos hbase hdelta⟩

theorem backoff_bounded_default : let policy : RetryPolicy := ⟨1000,2,300000,5⟩
    1≤policy.capMs ∧ ∀ raw,BackoffBounded policy 3 none raw := by
  refine ⟨by decide,(backoff_bounded_iff _ 3 none (by decide) (by decide)).2 ?_⟩
  decide

theorem backoff_panics : nextBackoffMs ⟨1000,2,2^63,5⟩ 1 none 0=none := by
  decide

def rejectedText (texts : SplitTexts) (error : String) (secs : ℕ) : String :=
  texts.rejected++error ++ " (retry-after="++toString secs ++ "s)"

/-- The error text has a hint of its own: its first word with the mark is one. -/
def CarriesHint (error : String) (ms : ℕ) : Prop :=
  ∃ digits secs,(splitWhitespace error.toList).find? retryAfterMark.isPrefixOf=
    some (retryAfterMark++digits++['s']) ∧ parseU64 digits=some secs ∧
    secs*1000%2^64=ms

theorem extractRetryAfterMs_eq_some_iff (reason ms) :
    extractRetryAfterMs reason=some ms ↔ CarriesHint reason ms := by
  unfold extractRetryAfterMs CarriesHint
  rcases hfind : (splitWhitespace reason.toList).find? retryAfterMark.isPrefixOf with _ | word
  · simp
  obtain ⟨hint,rfl⟩ := isPrefixOf_iff_prefix.1 (find?_some hfind)
  simp only [Option.bind_eq_bind,Option.bind_some,drop_left,append_assoc,
    Option.some.injEq,append_cancel_left_eq]
  by_cases hlast : hint.getLast? = some 's'
  · obtain ⟨digits,rfl⟩ := getLast?_eq_some_iff.1 hlast
    simp [Option.bind_eq_some_iff]
  · simp only [if_neg hlast,Option.bind_none,reduceCtorEq,false_iff]
    rintro ⟨digits,_,rfl,_⟩
    simp at hlast

theorem splitWhitespace_append (a b) {c} (h : Vcs.Store.isSpace c=true) :
    splitWhitespace (a++c::b)=splitWhitespace a++splitWhitespace b := by
  rw [splitWhitespace,splitOnP_append_cons a b h,filter_append]
  rfl

theorem splitWhitespace_word {a : List Char} (h : ∀ c∈a,Vcs.Store.isSpace c=false)
    (hne : a≠[]) : splitWhitespace a=[a] := by
  simp [splitWhitespace,splitOnP_eq_singleton h,hne]

theorem splitOnP_infix {p : Char → Bool} (l : List Char) :
    ∃ w ws,l.splitOnP p=w::ws ∧ w <+: l ∧ ∀ w'∈ws,w' <:+: l := by
  induction l with
  | nil => exact ⟨[],[],rfl,prefix_rfl,by simp⟩
  | cons c l ih =>
    obtain ⟨w,ws,hs,hw,hws⟩ := ih
    rw [splitOnP_cons_eq_if_modifyHead,hs]
    split
    · refine ⟨[],w::ws,rfl,by simp,fun w' hw' => ?_⟩
      rcases mem_cons.1 hw' with rfl | hw'
      · exact hw.isInfix.trans (infix_cons infix_rfl)
      · exact infix_cons (hws w' hw')
    · exact ⟨c::w,ws,rfl,(prefix_cons_inj c).2 hw,fun w' hw' => infix_cons (hws w' hw')⟩

theorem find?_rejectedText {texts} (h : texts∈[http402Texts,achTexts]) (error : String) (secs) :
    (splitWhitespace (rejectedText texts error secs).toList).find? retryAfterMark.isPrefixOf=
      (splitWhitespace error.toList).find? retryAfterMark.isPrefixOf := by
  have hopen : " (retry-after=".toList = ' ' :: '('::retryAfterMark := by decide
  have hmark : ∀ c ∈ '('::retryAfterMark ++ "s)".toList,Vcs.Store.isSpace c=false := by
    have hall : ('('::retryAfterMark ++ "s)".toList).all (!Vcs.Store.isSpace ·)=true := by
      decide
    intro c hc
    simpa using all_eq_true.1 hall c hc
  have hno : ∀ t,retryAfterMark.isPrefixOf ('('::t)=false := fun t => rfl
  obtain ⟨pre,hpre,hnone⟩ : ∃ pre,texts.rejected.toList=pre++[' '] ∧
      (splitWhitespace pre).find? retryAfterMark.isPrefixOf=none := by
    rcases mem_pair.1 h with rfl | rfl
    · exact ⟨"facilitator /settle rejected:".toList,by decide,by decide⟩
    · exact ⟨"ACH facilitator /settle rejected:".toList,by decide,by decide⟩
  generalize retryAfterMark=mark at *
  generalize hclose : "s)".toList=close at hmark
  have hlast : ∀ c ∈ '('::(mark++(Nat.toDigits 10 secs++close)),Vcs.Store.isSpace c=false := by
    intro c hc
    simp only [mem_cons,mem_append] at hc hmark
    rcases hc with hc | hc | hc | hc
    · exact hmark c (.inl (.inl hc))
    · exact hmark c (.inl (.inr hc))
    · exact isSpace_of_isAsciiDigit (toDigits_isAsciiDigit _ c hc)
    · exact hmark c (.inr hc)
  have htext : (rejectedText texts error secs).toList=pre ++ ' '::
      (error.toList ++ ' ' :: '('::(mark++(Nat.toDigits 10 secs++close))) := by
    simp only [rejectedText,String.toList_append,hpre,hopen,hclose]
    simp
  rw [htext,splitWhitespace_append _ _ (by decide),splitWhitespace_append _ _ (by decide),
    splitWhitespace_word hlast (by simp),find?_append,find?_append,hnone]
  simp [hno]

variable (order : PaymentOrder) (settled : Bytes → Attempt PaymentOrder)

theorem rejected_hint_read_iff (error : String) (secs : ℕ) :
    ((∀ texts∈[http402Texts,achTexts],∃ reason,
      splitRefusal order texts (.rejected error (some secs)) settled=
        .fail (.retryable reason,order) ∧
      extractRetryAfterMs reason=some (secs*1000)) ↔ CarriesHint error (secs*1000)) ∧
    (¬retryAfterMark <:+: error.toList → ¬CarriesHint error (secs*1000)) := by
  have hiff : ∀ texts∈[http402Texts,achTexts],
      extractRetryAfterMs (rejectedText texts error secs)=some (secs*1000) ↔
        CarriesHint error (secs*1000) := by
    intro texts h
    rw [extractRetryAfterMs_eq_some_iff,CarriesHint,find?_rejectedText h,CarriesHint]
  refine ⟨⟨fun h => ?_,fun h texts htexts => ⟨_,rfl,(hiff texts htexts).2 h⟩⟩,?_⟩
  · obtain ⟨reason,hreason,hread⟩ := h http402Texts (by simp)
    cases hreason
    exact (hiff http402Texts (by simp)).1 hread
  · rintro hno ⟨digits,_,hfind,_⟩
    have hmem:=mem_of_find?_eq_some hfind
    obtain ⟨w,ws,hs,hw,hws⟩ := splitOnP_infix (p := Vcs.Store.isSpace) error.toList
    have hin : retryAfterMark++digits++['s'] <:+: error.toList := by
      have hmem:=(mem_filter.1 hmem).1
      rw [hs,mem_cons] at hmem
      rcases hmem with rfl | hmem
      · exact hw.isInfix
      · exact hws _ hmem
    refine hno (List.IsInfix.trans ?_ hin)
    rw [append_assoc]
    exact (prefix_append _ _).isInfix

theorem rejected_hint_unread : extractRetryAfterMs (rejectedText http402Texts "busy" 5)=none := by
  decide

end OriginTools.Payments
