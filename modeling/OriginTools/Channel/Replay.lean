import OriginTools.Channel.Codec
import OriginTools.Foundation.BitWords

/-!
# The replay window

`origin-channel/src/replay.rs`: a receiver remembers the highest sequence number it
accepted and a bitmap over the `windowSize` numbers that end there.
-/

namespace OriginTools.Channel
open BitWords

structure ReplayWindow where
  highest : ℕ
  bitmap : List (BitVec 64)
  windowSize : ℕ
  initialized : Bool
  deriving DecidableEq,Repr

namespace ReplayWindow

def new (windowSize : ℕ) : ReplayWindow :=
  { highest := 0
    bitmap := List.replicate ((windowSize+63)/64) 0
    windowSize := windowSize
    initialized := false }

/-- The lowest number the window still covers, `highest.saturating_sub(window_size - 1)`. -/
def floor (win : ReplayWindow) : ℕ := win.highest-(win.windowSize-1)

def getBit (win : ReplayWindow) (offset : ℕ) : Bool :=
  if offset/64≥win.bitmap.length then false
  else (win.bitmap.getD (offset/64) 0 >>> (offset%64)) &&& 1#64==1#64

def setBit (win : ReplayWindow) (offset : ℕ) : ReplayWindow :=
  if offset/64<win.bitmap.length then
    { win with bitmap := BitWords.setBit win.bitmap offset }
  else win

def advance (win : ReplayWindow) (shift : ℕ) : ReplayWindow :=
  if shift≥win.windowSize then { win with bitmap := win.bitmap.map fun _ => 0 }
  else
    let moved:=if shift/64>0 then moveWords (shift/64) win.bitmap else win.bitmap
    { win with bitmap := if shift%64>0 then moveBits (shift%64) moved else moved }

/-- Moves the window up so that it ends at `seq`; the bitmap shifts by what the floor moves. -/
def slideTo (win : ReplayWindow) (seq : ℕ) : ReplayWindow :=
  let floorShift:=(seq-(win.windowSize-1))-win.floor
  let shifted:=if floorShift>0 then win.advance floorShift else win
  { shifted with highest := seq }

def accept (win : ReplayWindow) (seq : ℕ) : Except ChannelError Unit × ReplayWindow :=
  if !win.initialized then
    let started:={ win with initialized := true,highest := seq }
    (.ok (),started.setBit (seq-started.floor))
  else if seq<win.floor then (.error (.replay seq),win)
  else
    let slid:=if seq>win.highest then win.slideTo seq else win
    let offset:=seq-slid.floor
    if offset≥slid.windowSize then (.error (.replay seq),slid)
    else if slid.getBit offset then (.error (.replay seq),slid)
    else (.ok (),slid.setBit offset)

theorem getBit_eq_bit (win : ReplayWindow) (offset : ℕ) :
    win.getBit offset=bit win.bitmap offset := by
  unfold getBit
  by_cases hword : offset/64≥win.bitmap.length
  · rw [if_pos hword,bit_of_length_le (by omega)]
  · rw [if_neg hword,bit]
    rw [and_one_beq_one,BitVec.getLsbD_ushiftRight,Nat.add_zero]

@[simp] theorem setBit_highest (win : ReplayWindow) (i : ℕ) :
    (win.setBit i).highest=win.highest := by
  unfold setBit
  split <;> rfl

@[simp] theorem setBit_windowSize (win : ReplayWindow) (i : ℕ) :
    (win.setBit i).windowSize=win.windowSize := by
  unfold setBit
  split <;> rfl

@[simp] theorem setBit_initialized (win : ReplayWindow) (i : ℕ) :
    (win.setBit i).initialized=win.initialized := by
  unfold setBit
  split <;> rfl

@[simp] theorem setBit_length (win : ReplayWindow) (i : ℕ) :
    (win.setBit i).bitmap.length=win.bitmap.length := by
  unfold setBit
  split
  · exact length_setBit ..
  · rfl

theorem setBit_bit {win : ReplayWindow} (i k : ℕ) (hi : i<win.bitmap.length*64) :
    bit (win.setBit i).bitmap k=(decide (k=i)||bit win.bitmap k) := by
  unfold setBit
  rw [if_pos (by omega)]
  exact bit_setBit i k hi

@[simp] theorem advance_windowSize (win : ReplayWindow) (shift : ℕ) :
    (win.advance shift).windowSize=win.windowSize := by
  unfold advance
  split <;> rfl

@[simp] theorem advance_initialized (win : ReplayWindow) (shift : ℕ) :
    (win.advance shift).initialized=win.initialized := by
  unfold advance
  split <;> rfl

@[simp] theorem advance_length (win : ReplayWindow) (shift : ℕ) :
    (win.advance shift).bitmap.length=win.bitmap.length := by
  unfold advance
  split
  · simp
  · dsimp only
    split <;> split <;> simp

theorem advance_bit {win : ReplayWindow} (shift i : ℕ)
    (hpast : ∀ k,win.windowSize≤k → bit win.bitmap k=false) :
    bit (win.advance shift).bitmap i=bit win.bitmap (i+shift) := by
  unfold advance
  by_cases hstale : shift≥win.windowSize
  · rw [if_pos hstale,hpast (i+shift) (by omega)]
    have hzero : (win.bitmap.map fun _ => (0 : BitVec 64))=
        List.replicate win.bitmap.length 0 := List.map_const' ..
    simp only [hzero]
    exact bit_replicate_zero _ _
  · rw [if_neg hstale]
    have hmoved : ∀ k,bit (if shift/64>0 then moveWords (shift/64) win.bitmap
        else win.bitmap) k=bit win.bitmap (k+64*(shift/64)) := by
      intro k
      by_cases hwords : shift/64>0
      · rw [if_pos hwords,bit_moveWords]
      · have hnone : shift/64=0 := by omega
        rw [if_neg hwords,hnone]
        rfl
    by_cases hbits : shift%64>0
    · simp only [if_pos hbits]
      rw [bit_moveBits _ _ _ hbits (Nat.mod_lt _ (by omega)),hmoved]
      congr 1
      omega
    · simp only [if_neg hbits]
      rw [hmoved]
      congr 1
      omega

structure Tracks (w : ℕ) (win : ReplayWindow) (accepted : List ℕ) : Prop where
  size : win.windowSize=w
  room : w≤win.bitmap.length*64
  started : win.initialized=true ↔ accepted≠[]
  below : ∀ a∈accepted,a≤win.highest
  reached : accepted≠[] → win.highest∈accepted
  bits : ∀ i,bit win.bitmap i=true ↔ i<w ∧ win.floor+i∈accepted

theorem tracks_new (w : ℕ) : Tracks w (new w) [] where
  size := rfl
  room := by
    simp only [new,List.length_replicate]
    omega
  started := by simp [new]
  below := by simp
  reached := by simp
  bits := by
    intro i
    have hclear : bit (new w).bitmap i=false := bit_replicate_zero ..
    simp [hclear]

variable {w : ℕ} {win : ReplayWindow} {accepted : List ℕ}

theorem Tracks.past (h : Tracks w win accepted) (k : ℕ) (hk : win.windowSize≤k) :
    bit win.bitmap k=false := by
  rw [← Bool.not_eq_true,h.bits k,← h.size]
  omega

theorem slideTo_floor (win : ReplayWindow) (seq : ℕ) :
    (win.slideTo seq).floor=seq-(win.windowSize-1) := by
  unfold slideTo floor
  dsimp only
  split <;> simp

@[simp] theorem slideTo_highest (win : ReplayWindow) (seq : ℕ) :
    (win.slideTo seq).highest=seq := rfl

@[simp] theorem slideTo_windowSize (win : ReplayWindow) (seq : ℕ) :
    (win.slideTo seq).windowSize=win.windowSize := by
  unfold slideTo
  dsimp only
  split <;> simp

@[simp] theorem slideTo_initialized (win : ReplayWindow) (seq : ℕ) :
    (win.slideTo seq).initialized=win.initialized := by
  unfold slideTo
  dsimp only
  split <;> simp

@[simp] theorem slideTo_length (win : ReplayWindow) (seq : ℕ) :
    (win.slideTo seq).bitmap.length=win.bitmap.length := by
  unfold slideTo
  dsimp only
  split <;> simp

theorem slideTo_bit {win : ReplayWindow} (seq i : ℕ)
    (hpast : ∀ k,win.windowSize≤k → bit win.bitmap k=false) :
    bit (win.slideTo seq).bitmap i=
      bit win.bitmap (i+((seq-(win.windowSize-1))-win.floor)) := by
  unfold slideTo
  dsimp only
  split
  · exact advance_bit _ i hpast
  · rename_i hstill
    have hzero : seq-(win.windowSize-1)-win.floor=0 := by omega
    rw [hzero]
    rfl

/-- Sliding up to a number above all accepted ones loses no accepted number that the new
window covers: the bits still stand for the accepted numbers, from the new floor on. -/
theorem Tracks.slideTo_bits (h : Tracks w win accepted) (hw : 1≤w) {seq : ℕ}
    (hseq : win.highest<seq) (i : ℕ) :
    bit (win.slideTo seq).bitmap i=true ↔ i<w ∧ (win.slideTo seq).floor+i∈accepted := by
  have hsize : win.windowSize=w := h.size
  rw [slideTo_bit seq i h.past,h.bits,slideTo_floor,hsize]
  have hfloor : win.floor=win.highest-(w-1) := by rw [floor,hsize]
  have hsum : win.floor+(i+(seq-(w-1)-win.floor))=seq-(w-1)+i := by omega
  rw [hsum]
  constructor
  · intro ⟨hlt,hmem⟩
    exact ⟨by omega,hmem⟩
  · intro ⟨hlt,hmem⟩
    have hle : seq-(w-1)+i≤win.highest := h.below _ hmem
    exact ⟨by omega,hmem⟩

theorem tracks_mark (slid : ReplayWindow) (seq : ℕ) (hsize : slid.windowSize=w)
    (hroom : w ≤ slid.bitmap.length*64) (hinit : slid.initialized=true)
    (hbelow : ∀ a∈accepted,a ≤ slid.highest) (hseq : seq ≤ slid.highest)
    (hreached : slid.highest=seq ∨ slid.highest∈accepted)
    (hbits : ∀ i,bit slid.bitmap i=true ↔ i<w ∧ slid.floor+i∈accepted)
    (hfloor : slid.floor ≤ seq) (hoffset : seq-slid.floor<w) :
    Tracks w (slid.setBit (seq-slid.floor)) (seq::accepted) where
  size := by rw [setBit_windowSize,hsize]
  room := by rw [setBit_length]; exact hroom
  started := by simp [hinit]
  below := by
    rw [setBit_highest]
    exact List.forall_mem_cons.mpr ⟨hseq,hbelow⟩
  reached := by
    intro _
    rw [setBit_highest]
    exact List.mem_cons.mpr hreached
  bits := by
    intro i
    have hsame : (slid.setBit (seq-slid.floor)).floor=slid.floor := by
      simp only [floor,setBit_highest,setBit_windowSize]
    rw [setBit_bit _ i (by omega),hsame,Bool.or_eq_true,decide_eq_true_eq,hbits i,List.mem_cons]
    constructor
    · intro hor
      cases hor with
      | inl heq => exact ⟨by omega,.inl (by omega)⟩
      | inr hold => exact ⟨hold.1,.inr hold.2⟩
    · intro ⟨hlt,hor⟩
      cases hor with
      | inl heq => exact .inl (by omega)
      | inr hold => exact .inr ⟨hlt,hold⟩

def Fresh (w : ℕ) (accepted : List ℕ) (s : ℕ) : Prop :=
  s∉accepted ∧ (accepted=[] ∨ ∃ h,IsGreatest {a | a∈accepted} h ∧ s+w>h)

theorem Tracks.isGreatest (h : Tracks w win accepted) (hne : accepted≠[]) :
    IsGreatest {a | a∈accepted} win.highest :=
  ⟨h.reached hne,fun a ha => h.below a ha⟩

theorem Tracks.fresh_iff (h : Tracks w win accepted) (hw : 1≤w) (s : ℕ)
    (hne : accepted≠[]) : Fresh w accepted s ↔ s∉accepted ∧ win.floor ≤ s := by
  have hgreatest:=h.isGreatest hne
  have hfloor : win.floor=win.highest-(w-1) := by rw [floor,h.size]
  unfold Fresh
  constructor
  · intro ⟨hnew,hor⟩
    refine ⟨hnew,?_⟩
    cases hor with
    | inl hnil => exact absurd hnil hne
    | inr hex =>
      obtain ⟨top,htop,hlt⟩ := hex
      have heq : top=win.highest := htop.unique hgreatest
      omega
  · intro ⟨hnew,hle⟩
    exact ⟨hnew,.inr ⟨win.highest,hgreatest,by omega⟩⟩

theorem Tracks.accept (h : Tracks w win accepted) (hw : 1≤w) (s : ℕ) :
    (Fresh w accepted s ∧ (win.accept s).1=.ok () ∧ Tracks w (win.accept s).2 (s::accepted)) ∨
      (¬ Fresh w accepted s ∧ (win.accept s).1=.error (.replay s) ∧ (win.accept s).2=win) := by
  have hsize : win.windowSize=w := h.size
  by_cases hinit : win.initialized=true
  · have hne : accepted≠[] := h.started.mp hinit
    rw [h.fresh_iff hw s hne]
    unfold ReplayWindow.accept
    rw [if_neg (by simp [hinit])]
    by_cases hlow : s<win.floor
    · rw [if_pos hlow]
      exact .inr ⟨by omega,rfl,rfl⟩
    rw [if_neg hlow]
    have hfloor : win.floor=win.highest-(w-1) := by rw [floor,hsize]
    by_cases hhigh : s>win.highest
    · -- above everything accepted: the window slides, and the bit is still clear
      simp only [if_pos hhigh]
      have hslid : (win.slideTo s).floor=s-(w-1) := by rw [slideTo_floor,hsize]
      have hoffset : s-(win.slideTo s).floor<w := by omega
      have hnew : s∉accepted := by
        intro hmem
        have hle:=h.below s hmem
        omega
      have hclear : (win.slideTo s).getBit (s-(win.slideTo s).floor)=false := by
        rw [getBit_eq_bit,← Bool.not_eq_true,h.slideTo_bits hw hhigh]
        intro ⟨_,hmem⟩
        have hsum : (win.slideTo s).floor+(s-(win.slideTo s).floor)=s := by omega
        exact hnew (hsum ▸ hmem)
      rw [if_neg (by rw [slideTo_windowSize,hsize]; omega),hclear]
      refine .inl ⟨⟨hnew,by omega⟩,rfl,?_⟩
      apply tracks_mark
      · rw [slideTo_windowSize,hsize]
      · rw [slideTo_length]; exact h.room
      · rw [slideTo_initialized,hinit]
      · intro a ha
        have hle:=h.below a ha
        rw [slideTo_highest]
        omega
      · rw [slideTo_highest]
      · exact .inl rfl
      · exact h.slideTo_bits hw hhigh
      · omega
      · exact hoffset
    · -- inside the window: the bit tells whether the number was accepted
      simp only [if_neg hhigh]
      have hoffset : s-win.floor<w := by omega
      have hsum : win.floor+(s-win.floor)=s := by omega
      have hbit : win.getBit (s-win.floor)=true ↔ s∈accepted := by
        rw [getBit_eq_bit,h.bits,hsum]
        exact and_iff_right hoffset
      rw [if_neg (by rw [hsize]; omega)]
      by_cases hseen : s∈accepted
      · rw [if_pos (hbit.mpr hseen)]
        exact .inr ⟨fun hfresh => hfresh.1 hseen,rfl,rfl⟩
      rw [if_neg (fun hset => hseen (hbit.mp hset))]
      refine .inl ⟨⟨hseen,by omega⟩,rfl,?_⟩
      exact tracks_mark win s hsize h.room hinit h.below (by omega) (.inr (h.reached hne))
        h.bits (by omega) hoffset
  · -- nothing accepted yet: the window is placed so that it ends at the number
    have hnil : accepted=[] := by
      by_contra hne
      exact hinit (h.started.mpr hne)
    subst hnil
    have hempty : ∀ i,bit win.bitmap i=false := by
      intro i
      rw [← Bool.not_eq_true,h.bits i]
      simp
    unfold ReplayWindow.accept
    simp only [Bool.not_eq_true] at hinit
    rw [if_pos (by simp [hinit])]
    refine .inl ⟨⟨List.not_mem_nil,.inl rfl⟩,rfl,?_⟩
    have hfloor : floor { win with initialized := true,highest := s }=s-(w-1) := by
      rw [floor,← hsize]
    apply tracks_mark { win with initialized := true,highest := s } s hsize h.room rfl
    · simp
    · exact le_rfl
    · exact .inl rfl
    · intro i
      simp [hempty i]
    · omega
    · omega

def feed (win : ReplayWindow) : List ℕ → ReplayWindow × List ℕ
  | [] => (win,[])
  | s::rest =>
    let (result,next) := win.accept s
    let (final,accepted) := feed next rest
    match result with
    | .ok () => (final,s::accepted)
    | .error _ => (final,accepted)

theorem Tracks.feed (seqs : List ℕ) (h : Tracks w win accepted) (hw : 1≤w) :
    Tracks w (win.feed seqs).1 ((win.feed seqs).2.reverse++accepted) := by
  induction seqs generalizing win accepted with
  | nil => exact h
  | cons s rest ih =>
    rcases h.accept hw s with ⟨_,hok,hnext⟩ | ⟨_,herr,hsame⟩
    · have hrun:=ih hnext
      simp only [ReplayWindow.feed,hok]
      simpa using hrun
    · have hrun:=ih h
      simp only [ReplayWindow.feed,herr,hsame]
      exact hrun

theorem fresh_reverse (accepted : List ℕ) (s : ℕ) :
    Fresh w accepted.reverse s ↔ Fresh w accepted s := by
  unfold Fresh
  simp only [List.mem_reverse,List.reverse_eq_nil_iff]

theorem accept_exact (w : ℕ) (hw : 1≤w) (seqs : List ℕ) (s : ℕ) :
    (((new w).feed seqs).1.accept s).1=.ok () ↔ s∉((new w).feed seqs).2 ∧
        (((new w).feed seqs).2=[] ∨ ∃ h,IsGreatest {a | a∈((new w).feed seqs).2} h ∧ s+w>h) := by
  have htracks:=(tracks_new w).feed seqs hw
  rw [List.append_nil] at htracks
  have hfresh : Fresh w ((new w).feed seqs).2.reverse s ↔ Fresh w ((new w).feed seqs).2 s :=
    fresh_reverse _ s
  change _ ↔ Fresh w ((new w).feed seqs).2 s
  rw [← hfresh]
  rcases htracks.accept hw s with ⟨hyes,hok,_⟩ | ⟨hno,herr,_⟩
  · simp only [hyes,hok]
  · simp only [hno,herr,reduceCtorEq]

theorem accept_exact_after_jump :
    (((new 70).feed [3,100,3,31]).1.accept 32).1=.ok () :=
  (accept_exact 70 (by decide) [3,100,3,31] 32).mpr
    ⟨by decide,.inr ⟨100,by
      have hrun : ((new 70).feed [3,100,3,31]).2=[3,100,31] := by decide +kernel
      rw [hrun]
      exact ⟨by simp,by intro a ha; simp at ha; omega⟩,by decide⟩⟩

end ReplayWindow
end OriginTools.Channel
