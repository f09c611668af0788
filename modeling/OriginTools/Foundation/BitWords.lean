import Mathlib

/-!
# Bits kept in 64-bit words

A set of small numbers kept as a list of 64-bit words: number `i` is bit `i % 64` of
word `i / 64`, and numbers past the last word are absent.
-/

namespace OriginTools
open List

/-- Overwrites entries `0, …, n - 1` in turn, each from the list as it then stands. -/
def sweep {α : Type*} (n : ℕ) (f : List α → ℕ → α) (xs : List α) : List α :=
  (List.range n).foldl (fun ys i => ys.set i (f ys i)) xs

theorem sweep_succ {α : Type*} (n) (f : List α → ℕ → α) (xs) :
    sweep (n+1) f xs=(sweep n f xs).set n (f (sweep n f xs) n) := by
  simp only [sweep,range_succ,foldl_append,foldl_cons,foldl_nil]

@[simp] theorem length_sweep {α : Type*} (n : ℕ) (f : List α → ℕ → α) (xs : List α) :
    (sweep n f xs).length=xs.length := by
  induction n with
  | zero => rfl
  | succ n ih => rw [sweep_succ,length_set,ih]

/-- Where the entry written at `i` depends on the entries from `i` on only, the loop
writes what it would have computed from the list it started with. -/
theorem getElem?_sweep {α : Type*} (f : List α → ℕ → α)
    (hf : ∀ ys zs i,(∀ j,i≤j → ys[j]? = zs[j]?) → f ys i=f zs i) (n) (xs : List α) (i) :
    (sweep n f xs)[i]? = if i<n ∧ i<xs.length then some (f xs i) else xs[i]? := by
  induction n generalizing i with
  | zero =>
    rw [if_neg (by omega)]
    rfl
  | succ n ih =>
    have hunread : f (sweep n f xs) n=f xs n := by
      apply hf
      intro j hj
      rw [ih j,if_neg (by omega)]
    rw [sweep_succ,hunread,getElem?_set,length_sweep,ih i]
    by_cases hin : n=i
    · subst hin
      by_cases hlen : n<xs.length
      · rw [if_pos rfl,if_pos hlen,if_pos ⟨by omega,hlen⟩]
      · rw [if_pos rfl,if_neg hlen,if_neg (by omega),getElem?_eq_none (by omega)]
    · rw [if_neg hin]
      by_cases hi : i<n ∧ i<xs.length
      · rw [if_pos hi,if_pos ⟨by omega,hi.2⟩]
      · rw [if_neg hi,if_neg (by omega)]

namespace BitWords

def bit (words : List (BitVec 64)) (i : ℕ) : Bool := (words.getD (i/64) 0).getLsbD (i%64)

def setBit (words : List (BitVec 64)) (i : ℕ) : List (BitVec 64) :=
  words.set (i/64) (words.getD (i/64) 0 ||| 1#64 <<< (i%64))

@[simp] theorem length_setBit (words : List (BitVec 64)) (i : ℕ) :
    (setBit words i).length=words.length := by
  simp only [setBit,length_set]

theorem bit_of_getElem? (words words' i) (h : words[i/64]? = words'[i/64]?) :
    bit words i=bit words' i := by
  simp only [bit,getD_eq_getElem?_getD,h]

theorem bit_of_length_le {words i} (h : words.length*64 ≤ i) : bit words i=false := by
  have hword : words.length ≤ i/64 := by omega
  simp only [bit,getD_eq_getElem?_getD,getElem?_eq_none hword,Option.getD_none]
  exact BitVec.getLsbD_zero

theorem bit_replicate_zero (n i : ℕ) : bit (List.replicate n 0) i=false := by
  have hzero : (List.replicate n (0 : BitVec 64)).getD (i/64) 0=0 := by
    rw [getD_eq_getElem?_getD,getElem?_replicate]
    split <;> rfl
  simp only [bit,hzero]
  exact BitVec.getLsbD_zero

theorem getLsbD_bitMask (j k : ℕ) (hj : j<64) : (1#64 <<< j).getLsbD k=decide (k=j) := by
  rw [← BitVec.twoPow_eq,BitVec.getLsbD_twoPow]
  by_cases hk : k=j
  · simp [hk,hj]
  · simp [hk,Ne.symm hk]

theorem and_one_beq_one (x : BitVec 64) : (x &&& 1#64==1#64)=x.getLsbD 0 := by
  rw [Bool.eq_iff_iff,beq_iff_eq]
  constructor
  · intro heq
    have hlow:=congrArg (fun y => y.getLsbD 0) heq
    simpa using hlow
  · intro hx
    apply BitVec.eq_of_getLsbD_eq
    intro i hi
    by_cases hi0 : i=0
    · subst hi0
      simpa using hx
    · simp [BitVec.getLsbD_one,hi0]

theorem bit_setBit {words} (i k : ℕ) (hi : i<words.length*64) :
    bit (setBit words i) k=(decide (k=i)||bit words k) := by
  have hword : i/64<words.length := by omega
  by_cases hsame : i/64=k/64
  · have hbits : k%64=i%64 ↔ k=i := by omega
    have hread : (setBit words i).getD (k/64) 0=words.getD (k/64) 0 ||| 1#64 <<< (i%64) := by
      simp only [setBit,getD_eq_getElem?_getD,hsame]
      rw [getElem?_set_self (hsame ▸ hword)]
      rfl
    simp only [bit,hread,BitVec.getLsbD_or,getLsbD_bitMask _ _ (Nat.mod_lt i (by omega)),hbits]
    exact Bool.or_comm _ _
  · have hne : k≠i := by
      intro h
      exact hsame (by rw [h])
    have hread : bit (setBit words i) k=bit words k := by
      apply bit_of_getElem?
      exact getElem?_set_ne hsame
    simp [hread,hne]

def moveWords (wordShift : ℕ) (words : List (BitVec 64)) : List (BitVec 64) :=
  sweep words.length (fun ys i => if i+wordShift<words.length then ys.getD (i+wordShift) 0
    else 0) words

def moveBits (bitShift : ℕ) (words : List (BitVec 64)) : List (BitVec 64) :=
  sweep words.length (fun ys i =>
    let word:=ys.getD i 0 >>> bitShift
    if i+1<words.length then word ||| ys.getD (i+1) 0 <<< (64-bitShift) else word) words

variable (wordShift : ℕ)

@[simp] theorem length_moveWords (words : List (BitVec 64)) :
    (moveWords wordShift words).length=words.length := length_sweep ..

variable (bitShift : ℕ)

@[simp] theorem length_moveBits (words : List (BitVec 64)) :
    (moveBits bitShift words).length=words.length := length_sweep ..

theorem getD_moveWords (words : List (BitVec 64)) (i : ℕ) :
    (moveWords wordShift words).getD i 0=words.getD (i+wordShift) 0 := by
  have hloop:=getElem?_sweep (fun (ys : List (BitVec 64)) i =>
      if i+wordShift<words.length then ys.getD (i+wordShift) 0 else 0) (by
    intro ys zs i h
    simp only [getD_eq_getElem?_getD,h (i+wordShift) (by omega)]) words.length words i
  rw [getD_eq_getElem?_getD,moveWords,hloop]
  by_cases hi : i<words.length
  · rw [if_pos ⟨hi,hi⟩]
    by_cases hmoved : i+wordShift<words.length
    · rw [if_pos hmoved]
      rfl
    · rw [if_neg hmoved,getD_eq_default _ _ (by omega)]
      rfl
  · rw [if_neg (by omega),getElem?_eq_none (by omega),getD_eq_default _ _ (by omega)]
    rfl

theorem getD_moveBits (words : List (BitVec 64)) (i : ℕ) : (moveBits bitShift words).getD i 0=
      words.getD i 0 >>> bitShift ||| words.getD (i+1) 0 <<< (64-bitShift) := by
  have hloop:=getElem?_sweep (fun (ys : List (BitVec 64)) i =>
      if i+1<words.length
      then ys.getD i 0 >>> bitShift ||| ys.getD (i+1) 0 <<< (64-bitShift)
      else ys.getD i 0 >>> bitShift) (by
    intro ys zs i h
    simp only [getD_eq_getElem?_getD,h i (by omega),h (i+1) (by omega)])
    words.length words i
  rw [getD_eq_getElem?_getD,moveBits,hloop]
  by_cases hi : i<words.length
  · rw [if_pos ⟨hi,hi⟩]
    by_cases hnext : i+1<words.length
    · rw [if_pos hnext]
      rfl
    · rw [if_neg hnext,getD_eq_default (n := i+1) _ _ (by omega)]
      simp
  · rw [if_neg (by omega),getElem?_eq_none (by omega),getD_eq_default _ _ (by omega),
      getD_eq_default _ _ (by omega)]
    simp

theorem bit_moveWords (words i) : bit (moveWords wordShift words) i=bit words (i+64*wordShift) := by
  have hword : (i+64*wordShift)/64=i/64+wordShift := by omega
  have hbit : (i+64*wordShift)%64=i%64 := by omega
  simp only [bit,getD_moveWords,hword,hbit]

theorem bit_moveBits (words i) (hpos : 0<bitShift) (hlt : bitShift<64) :
    bit (moveBits bitShift words) i=bit words (i+bitShift) := by
  simp only [bit,getD_moveBits,BitVec.getLsbD_or,BitVec.getLsbD_ushiftRight,
    BitVec.getLsbD_shiftLeft]
  have hmod : i%64<64 := Nat.mod_lt i (by omega)
  by_cases hcarry : i%64+bitShift<64
  · -- the bit comes from the same word
    have hword : (i+bitShift)/64=i/64 := by omega
    have hbit : (i+bitShift)%64=bitShift+i%64 := by omega
    have hlow : i%64<64-bitShift := by omega
    simp [hword,hbit,hlow]
  · -- the bit comes from the bottom of the next word
    have hword : (i+bitShift)/64=i/64+1 := by omega
    have hbit : (i+bitShift)%64=i%64-(64-bitShift) := by omega
    have hhigh : ¬ i%64<64-bitShift := by omega
    have hgone : (words.getD (i/64) 0).getLsbD (bitShift+i%64)=false :=
      BitVec.getLsbD_of_ge _ _ (by omega)
    simp only [hgone,hword,hbit,hhigh,hmod]
    simp

end BitWords
end OriginTools
