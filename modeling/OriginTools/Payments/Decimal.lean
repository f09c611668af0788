import OriginTools.Payments.Order
import OriginTools.Vcs.Store

/-!
# Decimal amounts

Amounts are decimal strings, parsed to a 128-bit number of minor units. `exactDecimal` is
the number a string stands for, without the bounds of `i128`.
-/

namespace OriginTools.Payments

def amountScale : ℕ := 2
def rateScale : ℕ := 6
def wrap128 (x : ℤ) : ℤ := Int.bmod x (2^128)
def isAsciiDigit (c : Char) : Bool := '0'.toNat≤c.toNat&&c.toNat ≤ '9'.toNat

def digitsValue (digits : List Char) : ℕ := digits.foldl (fun n c => 10*n+(c.toNat - '0'.toNat)) 0

def parseDigits (digits : List Char) : Option ℤ :=
  if digitsValue digits<2^127 then some (digitsValue digits : ℤ) else none

def stripMinus : List Char → Bool × List Char
  | '-'::rest => (true,rest)
  | s => (false,s)

def decimalParts (digits : List Char) (scale : ℕ) : Option (List Char × List Char) :=
  match digits.splitOn '.' with
  | [whole] => if !whole.isEmpty&&whole.all isAsciiDigit then some (whole,[]) else none
  | [whole,frac] =>
      if !whole.isEmpty&&whole.all isAsciiDigit && !frac.isEmpty&&
          decide (frac.length ≤ scale)&&frac.all isAsciiDigit then some (whole,frac)
      else none
  | _ => none

def parseDecimal (s : String) (scale : ℕ) : Except Error ℤ :=
  let s:=Vcs.Store.trim s
  let refused : Except Error ℤ := .error (.invalidAmount s)
  let (neg,digits) := stripMinus s.toList
  match decimalParts digits scale with
  | none => refused
  | some (whole,frac) =>
      match parseDigits whole,parseDigits frac with
      | some wholeVal,some fracVal =>
          let padded:=wrap128 (fracVal*10^(scale-frac.length))
          let minor:=wrap128 (wrap128 (wholeVal*10^scale)+padded)
          .ok (if neg then wrap128 (-minor) else minor)
      | _,_ => refused

def parseAmount (s : String) : Except Error ℤ := parseDecimal s amountScale
def minorOf (amount : String) : ℤ := (parseAmount amount).toOption.getD 0
def parseRate (s : String) : Except Error ℤ := parseDecimal s rateScale
def twoDigits (n : ℕ) : String := if n<10 then "0"++toString n else toString n

def fmtAmount (minor : ℤ) : String :=
  (if minor<0 then "-" else "")++toString (minor.natAbs/100) ++ "."++ twoDigits (minor.natAbs%100)

open List

def InRange (x : ℤ) : Prop := -2^127≤x ∧ x<2^127

instance decidableInRange (x : ℤ) : Decidable (InRange x) := inferInstanceAs (Decidable (_ ∧ _))

theorem wrap128_inRange (x : ℤ) : InRange (wrap128 x) := by
  have hlo:=Int.le_bmod (x := x) (m := 2^128) (by norm_num)
  have hhi:=Int.bmod_lt (x := x) (m := 2^128) (by norm_num)
  unfold InRange wrap128
  norm_num at hlo hhi ⊢
  omega

theorem wrap128_of_inRange {x} (h : InRange x) : wrap128 x=x := by
  obtain ⟨hlo,hhi⟩ := h
  apply Int.bmod_eq_of_le
  · norm_num at hlo ⊢
    omega
  · norm_num at hhi ⊢
    omega

theorem wrap128_add_left (x y : ℤ) : wrap128 (wrap128 x+y)=wrap128 (x+y) := by
  simp [wrap128]

theorem wrap128_add_right (x y : ℤ) : wrap128 (x+wrap128 y)=wrap128 (x+y) := by
  simp [wrap128]

theorem wrap128_neg (x : ℤ) : wrap128 (-wrap128 x)=wrap128 (-x) := by
  simp [wrap128]

def partsValue (whole frac : List Char) (scale : ℕ) : ℤ :=
  digitsValue whole*10^scale+digitsValue frac*10^(scale-frac.length)

/-- The number that a decimal string stands for, in units of the scale. -/
def exactDecimal (s : String) (scale : ℕ) : Option ℤ :=
  let (neg,digits) := stripMinus (Vcs.Store.trim s).toList
  (decimalParts digits scale).map fun parts =>
    if neg then -partsValue parts.1 parts.2 scale else partsValue parts.1 parts.2 scale

def exactAmount (s : String) : Option ℤ := exactDecimal s amountScale
def exactRate (s : String) : Option ℤ := exactDecimal s rateScale

variable {digits : List Char}

theorem parseDigits_eq_some {n} (h : parseDigits digits=some n) : n=digitsValue digits := by
  unfold parseDigits at h
  split at h
  · exact (Option.some.inj h).symm
  · cases h

variable {m : ℤ}

theorem parseDecimal_exact {s scale} (h : parseDecimal s scale=.ok m) :
    ∃ x,exactDecimal s scale=some x ∧ m=wrap128 x := by
  unfold parseDecimal at h
  unfold exactDecimal
  cases hs : stripMinus (Vcs.Store.trim s).toList with
  | mk neg digits =>
    simp only [hs] at h ⊢
    rcases hp : decimalParts digits scale with _ | parts
    · simp only [hp,reduceCtorEq] at h
    obtain ⟨whole,frac⟩ := parts
    simp only [hp] at h
    rcases hw : parseDigits whole with _ | wholeVal
    · simp only [hw,reduceCtorEq] at h
    rcases hf : parseDigits frac with _ | fracVal
    · simp only [hw,hf,reduceCtorEq] at h
    simp only [hw,hf,Except.ok.injEq] at h
    have hwhole:=parseDigits_eq_some hw
    have hfrac:=parseDigits_eq_some hf
    have hminor : wrap128 (wrap128 (wholeVal*10^scale)+wrap128 (fracVal*10^(scale-frac.length)))=
          wrap128 (partsValue whole frac scale) := by
      rw [wrap128_add_left,wrap128_add_right,hwhole,hfrac,partsValue]
    rw [hminor,wrap128_neg] at h
    refine ⟨_,rfl,?_⟩
    rw [← h]
    cases neg with
    | false | true => simp

theorem parseAmount_exact {s} (h : parseAmount s=.ok m) : ∃ x,exactAmount s=some x ∧ m=wrap128 x :=
  parseDecimal_exact h

theorem parseRate_exact {s} (h : parseRate s=.ok m) : ∃ x,exactRate s=some x ∧ m=wrap128 x :=
  parseDecimal_exact h

theorem parseDecimal_inRange {s scale} (h : parseDecimal s scale=.ok m) : InRange m := by
  obtain ⟨x,_,rfl⟩ := parseDecimal_exact h
  exact wrap128_inRange x

theorem isAsciiDigit_of_isDigit {c} (h : c.isDigit=true) : isAsciiDigit c=true := by
  have hb:=Char.isDigit_iff_toNat.1 h
  simp only [isAsciiDigit,Bool.and_eq_true,decide_eq_true_eq]
  exact hb

theorem isSpace_of_isAsciiDigit {c} (h : isAsciiDigit c=true) : Vcs.Store.isSpace c=false := by
  simp only [isAsciiDigit,Bool.and_eq_true,decide_eq_true_eq,Char.reduceToNat] at h
  simp only [Vcs.Store.isSpace,decide_eq_false_iff_not,mem_cons,not_mem_nil,or_false]
  omega

theorem ne_of_isAsciiDigit {c d} (h : isAsciiDigit c=true) (hd : isAsciiDigit d=false) : c≠d := by
  intro he
  rw [he,hd] at h
  cases h

theorem trim_of_no_space {s} (h : ∀ c∈s,Vcs.Store.isSpace c=false) :
    Vcs.Store.trim (String.ofList s)=String.ofList s := by
  have hdrop : ∀ t : List Char,(∀ c∈t,Vcs.Store.isSpace c=false) →
      t.dropWhile Vcs.Store.isSpace=t := by
    intro t ht
    cases t with
    | nil => rfl
    | cons c t => rw [dropWhile_cons,if_neg (by simp [ht c])]
  have hrev : ∀ c∈s.reverse,Vcs.Store.isSpace c=false := by
    intro c hc
    exact h c (mem_reverse.1 hc)
  unfold Vcs.Store.trim
  rw [String.toList_ofList,hdrop s h,hdrop _ hrev,reverse_reverse]

theorem digitsValue_toDigits (n : ℕ) : digitsValue (Nat.toDigits 10 n)=n :=
  Nat.ofDigitChars_toDigits (by omega) (by omega)

theorem toDigits_isAsciiDigit (n : ℕ) : ∀ c∈Nat.toDigits 10 n,isAsciiDigit c=true :=
  fun _ hc => isAsciiDigit_of_isDigit (Nat.isDigit_of_mem_toDigits (by omega) (by omega) hc)

def centDigits (n : ℕ) : List Char :=
  if n<10 then '0'::Nat.toDigits 10 n else Nat.toDigits 10 n

theorem toList_twoDigits (n : ℕ) : (twoDigits n).toList=centDigits n := by
  unfold twoDigits centDigits
  split
  · simp
  · simp

theorem digitsValue_centDigits (n : ℕ) : digitsValue (centDigits n)=n := by
  unfold centDigits
  split
  · have h:=digitsValue_toDigits n
    simpa [digitsValue] using h
  · exact digitsValue_toDigits n

theorem centDigits_isAsciiDigit (n : ℕ) : ∀ c∈centDigits n,isAsciiDigit c=true := by
  intro c hc
  unfold centDigits at hc
  split at hc
  · rcases mem_cons.1 hc with rfl | hc
    · decide
    · exact toDigits_isAsciiDigit n c hc
  · exact toDigits_isAsciiDigit n c hc

theorem length_centDigits {n} (h : n<100) : (centDigits n).length=2 := by
  interval_cases n <;> decide

theorem toList_fmtAmount (m : ℤ) : (fmtAmount m).toList=(if m<0 then ['-'] else [])++
      (Nat.toDigits 10 (m.natAbs/100) ++ '.'::centDigits (m.natAbs%100)) := by
  unfold fmtAmount
  split
  · simp [toList_twoDigits]
  · simp [toList_twoDigits]

theorem decimalParts_printed {whole frac} (hwhole : whole≠[])
    (hw : ∀ c∈whole,isAsciiDigit c=true) (hf : ∀ c∈frac,isAsciiDigit c=true)
    (hlen : frac.length=2) :
    decimalParts (whole ++ '.'::frac) amountScale=some (whole,frac) := by
  have hdot : isAsciiDigit '.'=false := by decide
  have hsplit : (whole ++ '.'::frac).splitOn '.'=[whole,frac] := by
    have hno : ∀ l∈[whole,frac],'.'∉l := by
      intro l hl hc
      rcases mem_cons.1 hl with rfl | hl
      · exact ne_of_isAsciiDigit (hw _ hc) hdot rfl
      · rw [mem_singleton.1 hl] at hc
        exact ne_of_isAsciiDigit (hf _ hc) hdot rfl
    have h:=splitOn_intercalate '.' hno (by simp)
    simpa [List.intercalate] using h
  have hfrac : frac≠[] := by
    intro he
    rw [he] at hlen
    cases hlen
  unfold decimalParts
  rw [hsplit]
  simp [hwhole,hfrac,hlen,amountScale,all_eq_true.2 hw,all_eq_true.2 hf]

theorem stripMinus_digits {rest} (hne : digits≠[]) (h : ∀ c∈digits,isAsciiDigit c=true) :
    stripMinus (digits++rest)=(false,digits++rest) := by
  rcases digits with _ | ⟨c,digits⟩
  · exact absurd rfl hne
  have hc : c ≠ '-' := ne_of_isAsciiDigit (h c (.head _)) (by decide)
  unfold stripMinus
  split
  · rename_i heq
    rw [cons_append,List.cons.injEq] at heq
    exact absurd heq.1 hc
  · rfl

theorem fmtAmount_no_space (m : ℤ) : ∀ c∈(fmtAmount m).toList,Vcs.Store.isSpace c=false := by
  intro c hc
  rw [toList_fmtAmount,mem_append,mem_append,mem_cons] at hc
  rcases hc with hc | hc | rfl | hc
  · split at hc
    · rw [mem_singleton.1 hc]
      decide
    · cases hc
  · exact isSpace_of_isAsciiDigit (toDigits_isAsciiDigit _ c hc)
  · decide
  · exact isSpace_of_isAsciiDigit (centDigits_isAsciiDigit _ c hc)

theorem stripMinus_fmtAmount (m : ℤ) :
    stripMinus (Vcs.Store.trim (fmtAmount m)).toList=(decide (m<0),
      Nat.toDigits 10 (m.natAbs/100) ++ '.'::centDigits (m.natAbs%100)) := by
  have htrim : Vcs.Store.trim (fmtAmount m)=fmtAmount m := by
    have ht:=trim_of_no_space (fmtAmount_no_space m)
    rwa [String.ofList_toList] at ht
  rw [htrim,toList_fmtAmount]
  by_cases hm : m<0
  · rw [if_pos hm,decide_eq_true hm]
    rfl
  · rw [if_neg hm,decide_eq_false hm,nil_append]
    exact stripMinus_digits Nat.toDigits_ne_nil (toDigits_isAsciiDigit _)

theorem decimalParts_fmtAmount (m : ℤ) :
    decimalParts (Nat.toDigits 10 (m.natAbs/100) ++ '.'::centDigits (m.natAbs%100))
      amountScale=some (Nat.toDigits 10 (m.natAbs/100),centDigits (m.natAbs%100)) :=
  decimalParts_printed Nat.toDigits_ne_nil (toDigits_isAsciiDigit _) (centDigits_isAsciiDigit _)
    (length_centDigits (Nat.mod_lt _ (by omega)))

theorem partsValue_fmtAmount (m : ℤ) :
    partsValue (Nat.toDigits 10 (m.natAbs/100)) (centDigits (m.natAbs%100)) amountScale=
      m.natAbs := by
  have hlen:=length_centDigits (Nat.mod_lt m.natAbs (by omega : 0<100))
  rw [partsValue,digitsValue_toDigits,digitsValue_centDigits,hlen]
  simp only [amountScale]
  omega

theorem exactAmount_fmtAmount (m : ℤ) : exactAmount (fmtAmount m)=some m := by
  unfold exactAmount exactDecimal
  simp only [stripMinus_fmtAmount,decimalParts_fmtAmount,Option.map_some,partsValue_fmtAmount]
  by_cases hm : m<0
  · rw [decide_eq_true hm,if_pos rfl]
    congr 1
    omega
  · rw [decide_eq_false hm,if_neg (by simp)]
    congr 1
    omega

theorem parseDigits_of_lt {n} (h : digitsValue digits=n) (hn : n<2^127) :
    parseDigits digits=some (n : ℤ) := by
  rw [parseDigits,h,if_pos hn]

theorem parseAmount_fmtAmount (h : InRange m) : parseAmount (fmtAmount m)=.ok m := by
  obtain ⟨hlo,hhi⟩ := h
  have hwhole : parseDigits (Nat.toDigits 10 (m.natAbs/100))=some ((m.natAbs/100 : ℕ) : ℤ) := by
    apply parseDigits_of_lt (digitsValue_toDigits _)
    norm_num at hlo hhi ⊢
    omega
  have hfrac : parseDigits (centDigits (m.natAbs%100))=some ((m.natAbs%100 : ℕ) : ℤ) := by
    apply parseDigits_of_lt (digitsValue_centDigits _)
    norm_num
    omega
  have hok : ∃ x,parseAmount (fmtAmount m)=.ok x := by
    unfold parseAmount parseDecimal
    simp only [stripMinus_fmtAmount,decimalParts_fmtAmount,hwhole,hfrac]
    exact ⟨_,rfl⟩
  obtain ⟨x,hx⟩ := hok
  obtain ⟨y,hy,hxy⟩ := parseAmount_exact hx
  rw [exactAmount_fmtAmount] at hy
  rw [hx,hxy,← Option.some.inj hy,wrap128_of_inRange ⟨hlo,hhi⟩]

def checked (x : ℤ) : Option ℤ := if InRange x then some x else none

/-- The arithmetic of `parse_decimal`; `none` is an overflow of `i128`. -/
def checkedMinor (neg : Bool) (wholeVal fracVal : ℤ) (scale len : ℕ) : Option ℤ := do
  let unit ← checked (10^scale)
  let pad ← checked (10^(scale-len))
  let padded ← checked (fracVal*pad)
  let major ← checked (wholeVal*unit)
  let minor ← checked (major+padded)
  if neg then checked (-minor) else some minor

def parseDecimalChecked (s : String) (scale : ℕ) : Option (Except Error ℤ) :=
  let s:=Vcs.Store.trim s
  let refused : Option (Except Error ℤ) := some (.error (.invalidAmount s))
  let (neg,digits) := stripMinus s.toList
  match decimalParts digits scale with
  | none => refused
  | some (whole,frac) =>
      match parseDigits whole,parseDigits frac with
      | some wholeVal,some fracVal =>
          (checkedMinor neg wholeVal fracVal scale frac.length).map .ok
      | _,_ => refused

theorem inRange_pow {n} (h : n≤18) : InRange (10^n) := by
  have hlt : (10 : ℤ)^n≤10^18 := by gcongr; omega
  have hpos : (0 : ℤ)<10^n := by positivity
  norm_num [InRange] at hlt ⊢
  omega

theorem InRange.between {x y} (h : InRange y) (hlo : 0≤x) (hhi : x≤y) :
    InRange x ∧ InRange (-x) := by
  unfold InRange at *
  omega

theorem checked_of_inRange {x} (h : InRange x) : checked x=some x := if_pos h

theorem checked_of_not {x} (h : ¬InRange x) : checked x=none := if_neg h

theorem checkedMinor_of_units {neg w f unit pad scale len}
    (hunit : checked (10^scale)=some unit) (hpad : checked (10^(scale-len))=some pad)
    (hmajor : 0≤w*unit) (hpadded : 0≤f*pad) :
    checkedMinor neg w f scale len=
      (checked (w*unit+f*pad)).map fun minor => if neg then -minor else minor := by
  unfold checkedMinor
  rw [hunit,hpad]
  simp only [Option.bind_eq_bind,Option.bind_some]
  generalize w*unit=major at hmajor ⊢
  generalize f*pad=padded at hpadded ⊢
  by_cases hsum : InRange (major+padded)
  · have hneg:=checked_of_inRange (hsum.between (by omega) le_rfl).2
    simp only [checked_of_inRange (hsum.between hpadded (by omega)).1,
      checked_of_inRange (hsum.between hmajor (by omega)).1,checked_of_inRange hsum,hneg,
      Option.bind_some,Option.map_some]
    cases neg with
    | false | true => simp
  · have hnone:=checked_of_not hsum
    rw [hnone]
    by_cases hp : InRange padded
    · by_cases hm : InRange major
      · simp [checked_of_inRange hp,checked_of_inRange hm,hnone]
      · simp [checked_of_inRange hp,checked_of_not hm]
    · simp [checked_of_not hp]

theorem checkedMinor_eq (neg : Bool) (w f : ℕ) {scale} (len : ℕ) (h : scale≤18) :
    checkedMinor neg w f scale len=(checked (w*10^scale+f*10^(scale-len))).map
        fun minor => if neg then -minor else minor :=
  checkedMinor_of_units (checked_of_inRange (inRange_pow h))
    (checked_of_inRange (inRange_pow (by omega))) (by positivity) (by positivity)

theorem digitsValue_lt (h : ∀ c∈digits,isAsciiDigit c=true) :
    digitsValue digits<10^digits.length := by
  induction digits using List.reverseRecOn with
  | nil => decide
  | append_singleton digits c ih =>
    have hc:=h c (by simp)
    have hlt:=ih fun d hd => h d (by simp [hd])
    simp only [isAsciiDigit,Bool.and_eq_true,decide_eq_true_eq,Char.reduceToNat] at hc
    simp only [digitsValue,foldl_append,foldl_cons,foldl_nil,
      length_append,length_singleton,pow_succ,Char.reduceToNat] at hlt ⊢
    omega

theorem decimalParts_frac_lt {scale parts} (h : decimalParts digits scale=some parts) :
    digitsValue parts.2<10^scale := by
  unfold decimalParts at h
  split at h
  · split at h
    · rw [← Option.some.inj h]
      simp [digitsValue]
    · cases h
  · split at h
    · rename_i hfrac
      simp only [Bool.and_eq_true,decide_eq_true_eq,all_eq_true] at hfrac
      rw [← Option.some.inj h]
      exact (digitsValue_lt hfrac.2).trans_le (Nat.pow_le_pow_right (by omega) hfrac.1.2)
    · cases h
  · cases h

theorem parseDecimalChecked_eq {s scale neg parts} (h : scale≤18)
    (hs : stripMinus (Vcs.Store.trim s).toList=(neg,digits))
    (hp : decimalParts digits scale=some parts) (hw : digitsValue parts.1<2^127) :
    parseDecimalChecked s scale=(checked (partsValue parts.1 parts.2 scale)).map
        (fun minor => .ok (if neg then -minor else minor)) ∧
    parseDecimal s scale=.ok (wrap128 (if neg then -partsValue parts.1 parts.2 scale
        else partsValue parts.1 parts.2 scale)) := by
  have hf : digitsValue parts.2<2^127 := by
    have hlt:=decimalParts_frac_lt hp
    have hpow : 10^scale≤10^18 := Nat.pow_le_pow_right (by omega) h
    norm_num at hpow ⊢
    omega
  have hok : ∃ n,parseDecimal s scale=.ok n := by
    unfold parseDecimal
    simp only [hs,hp,parseDigits,if_pos hw,if_pos hf]
    exact ⟨_,rfl⟩
  constructor
  · unfold parseDecimalChecked
    simp only [hs,hp,parseDigits,if_pos hw,if_pos hf,checkedMinor_eq _ _ _ _ h,partsValue]
    rw [Option.map_map]
    rfl
  · obtain ⟨n,hn⟩ := hok
    obtain ⟨x,hx,rfl⟩ := parseDecimal_exact hn
    simp only [exactDecimal,hs,hp,Option.map_some,Option.some.injEq] at hx
    rw [hn,hx]

/-- No step of `parse_decimal` leaves `i128`, and a number it returns is the exact one. -/
def ParsesExactly (s : String) (scale : ℕ) : Prop :=
  parseDecimalChecked s scale=some (parseDecimal s scale) ∧
    ∀ n,parseDecimal s scale=.ok n → exactDecimal s scale=some n

theorem parsesExactly_iff (s : String) {scale : ℕ} (h : scale≤18) : ParsesExactly s scale ↔ ∀ parts,
      decimalParts (stripMinus (Vcs.Store.trim s).toList).2 scale=some parts →
        digitsValue parts.1<2^127 → InRange (partsValue parts.1 parts.2 scale) := by
  cases hs : stripMinus (Vcs.Store.trim s).toList with
  | mk neg digits =>
  rcases hp : decimalParts digits scale with _ | parts
  · simp [ParsesExactly,parseDecimalChecked,parseDecimal,hs,hp]
  by_cases hw : digitsValue parts.1<2^127
  · obtain ⟨hchecked,hparsed⟩ := parseDecimalChecked_eq h hs hp hw
    have hpos : 0≤partsValue parts.1 parts.2 scale := by unfold partsValue; positivity
    simp only [ParsesExactly,exactDecimal,hchecked,hparsed,hs,hp,Option.some.injEq,
      Except.ok.injEq,Option.map_some,forall_eq',hw,forall_const]
    by_cases hin : InRange (partsValue parts.1 parts.2 scale)
    · have hwrap:=(hin.between hpos le_rfl).2
      cases neg with
      | false => simp [checked_of_inRange hin,hin,wrap128_of_inRange hin]
      | true => simp [checked_of_inRange hin,hin,wrap128_of_inRange hwrap]
    · simp [checked_of_not hin,hin]
  · have hnone : parseDigits parts.1=none := if_neg hw
    simp only [ParsesExactly,parseDecimalChecked,parseDecimal,hs,hp,hnone]
    simp only [true_and,reduceCtorEq,false_implies,implies_true,true_iff]
    intro parts' h hlt
    rw [← Option.some.inj h] at hlt
    exact absurd hlt hw

theorem parsesExactly_one : 2≤18 ∧ ParsesExactly "1.5" 2 := by
  refine ⟨by decide,(parsesExactly_iff "1.5" (by decide)).2 ?_⟩
  have hp : decimalParts (stripMinus (Vcs.Store.trim "1.5").toList).2 2=some (['1'],['5']) := by
    decide
  intro parts h _
  rw [hp] at h
  rw [← Option.some.inj h]
  decide

theorem large_amount_overflows :
    parseDecimalChecked "2000000000000000000000000000000000000" 2=none := by
  decide

theorem parse_fmtAmount_checked (hlo : -2^127 < m) (hhi : m<2^127) :
    parseDecimalChecked (fmtAmount m) amountScale=some (.ok m) ∧
      parseAmount (fmtAmount m)=.ok m := by
  have habs : InRange m.natAbs := by
    unfold InRange
    omega
  have hw : digitsValue (Nat.toDigits 10 (m.natAbs/100))<2^127 := by
    rw [digitsValue_toDigits]
    have h:=habs.2
    norm_num at h ⊢
    omega
  have h:=(parseDecimalChecked_eq (by decide) (stripMinus_fmtAmount m)
    (decimalParts_fmtAmount m) hw).1
  refine ⟨?_,parseAmount_fmtAmount ⟨by omega,hhi⟩⟩
  simp only [partsValue_fmtAmount,checked_of_inRange habs,Option.map_some] at h
  rw [h]
  by_cases hm : m<0
  · rw [decide_eq_true hm,if_pos rfl,Int.ofNat_natAbs_of_nonpos (by omega),neg_neg]
  · rw [decide_eq_false hm,if_neg (by simp),Int.natAbs_of_nonneg (by omega)]

theorem parse_fmtAmount_cents : parseDecimalChecked (fmtAmount (-5)) amountScale=some (.ok (-5)) ∧
      parseAmount (fmtAmount (-5))=.ok (-5) :=
  parse_fmtAmount_checked (by norm_num) (by norm_num)

end OriginTools.Payments
