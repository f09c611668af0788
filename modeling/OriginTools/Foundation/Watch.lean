import OriginTools.Foundation.Footprint

/-!
# Processes under an observer

An observer of a process sees each operation with its response and keeps a state of its
own.
-/

namespace OriginTools.Process
variable {Op : Type} {Resp : Op → Type} {ε ε' α β : Type} {τ : Type}
section
variable (step : τ → (op : Op) → Resp op → τ) (ok : τ → Op → Prop)

def Watched (Q : Outcome ε α → τ → Prop) : Process Op Resp ε α → τ → Prop
  | done a,g => Q (.done a) g
  | fail e,g => Q (.fail e) g
  | panic,g => Q .panic g
  | call op next,g => ok g op ∧ ∀ r,Watched Q (next r) (step g op r)

end
section Rules
variable {step : τ → (op : Op) → Resp op → τ} {ok : τ → Op → Prop}

theorem Watched.post {Q Q' : Outcome ε α → τ → Prop} {p g} (h : Watched step ok Q p g)
    (hQ : ∀ o g',Q o g' → Q' o g') : Watched step ok Q' p g := by
  induction p generalizing g with
  | done | fail | panic => exact hQ _ g h
  | call op next ih => exact ⟨h.1,fun r => ih r (h.2 r)⟩

variable {p : Process Op Resp ε α} {g : τ}

theorem Watched.bind {R : Outcome ε α → τ → Prop} {Q : Outcome ε β → τ → Prop}
    {f : α → Process Op Resp ε β} (h : Watched step ok R p g)
    (hdone : ∀ a g',R (.done a) g' → Watched step ok Q (f a) g')
    (hfail : ∀ e g',R (.fail e) g' → Q (.fail e) g') (hpanic : ∀ g',R .panic g' → Q .panic g') :
    Watched step ok Q (p.bind f) g := by
  induction p generalizing g with
  | done a => exact hdone a g h
  | fail e => exact hfail e g h
  | panic => exact hpanic g h
  | call op next ih => exact ⟨h.1,fun r => ih r (h.2 r)⟩

theorem Watched.mapErr {Q : Outcome ε' α → τ → Prop} {f : ε → ε'}
    (h : Watched step ok (fun o g' => Q (o.mapErr f) g') p g) :
    Watched step ok Q (p.mapErr f) g := by
  induction p generalizing g with
  | done | fail | panic => exact h
  | call op next ih => exact ⟨h.1,fun r => ih r (h.2 r)⟩

theorem Watched.attempt {Q : Outcome ε' (Except ε α) → τ → Prop}
    (h : Watched step ok (fun o g' => Q o.attempt g') p g) : Watched step ok Q p.attempt g := by
  induction p generalizing g with
  | done | fail | panic => exact h
  | call op next ih => exact ⟨h.1,fun r => ih r (h.2 r)⟩

theorem Emits.watched {P : Op → Prop} {R : α → Prop} {N : τ → Prop} (h : Emits P R p)
    (hok : ∀ g op,N g → P op → ok g op) (hN : ∀ g op r,N g → P op → N (step g op r)) (hg : N g) :
    Watched step ok (fun o g' => N g' ∧ ∀ a,o=.done a → R a) p g := by
  induction h generalizing g with
  | done ha =>
    refine ⟨hg,?_⟩
    intro a hd
    cases hd
    exact ha
  | fail | panic => exact ⟨hg,nofun⟩
  | call hop _ ih => exact ⟨hok g _ hg hop,fun r => ih r (hN g _ r hg hop)⟩

theorem Watched.safe {Ans : Op → Type} {σ : Type} {handle : (op : Op) → Ans op → σ → Resp op × σ}
    {allowed : σ → (op : Op) → Ans op → Prop} {Rel : σ → τ → Prop} {Q : Outcome ε α → τ → Prop}
    {s : σ} (h : Watched step ok Q p g) (hstep : ∀ s g op a,Rel s g → ok g op → allowed s op a →
      Rel (handle op a s).2 (step g op (handle op a s).1)) (hrel : Rel s g) :
    Safe handle allowed (fun s => ∃ g,Rel s g) (fun o s => ∃ g,Rel s g ∧ Q o g) p s := by
  induction p generalizing s g with
  | done | fail | panic => exact ⟨⟨g,hrel⟩,g,hrel,h⟩
  | call op next ih =>
    refine ⟨⟨g,hrel⟩,fun a ha => ?_⟩
    exact ih _ (h.2 _) (hstep s g op a hrel h.1 ha)

end Rules
namespace Pool
section
variable {ι : Type} [DecidableEq ι] {Ans : Op → Type} {σ : Type}
variable (handle : ι → (op : Op) → Ans op → σ → Resp op × σ)

def move (i : ι) (answer : (op : Op) → Ans op) (pool : ι → Process Op Resp ε α) (s : σ) :
    (ι → Process Op Resp ε α) × σ :=
  match pool i with
  | call op next =>
      (Function.update pool i (next (handle i op (answer op) s).1),(handle i op (answer op) s).2)
  | _ => (pool,s)

/-- The processes take turns as the schedule says, with the answers it gives. -/
def run : List (ι × ((op : Op) → Ans op)) → (ι → Process Op Resp ε α) → σ →
    (ι → Process Op Resp ε α) × σ
  | [],pool,s => (pool,s)
  | turn::rest,pool,s =>
      run rest (move handle turn.1 turn.2 pool s).1 (move handle turn.1 turn.2 pool s).2

variable (allowed : ι → σ → (op : Op) → Ans op → Prop)

def Permits (i : ι) (s : σ) (answer : (op : Op) → Ans op) : Process Op Resp ε α → Prop
  | call op _ => allowed i s op (answer op)
  | _ => True

def Obeys : List (ι × ((op : Op) → Ans op)) → (ι → Process Op Resp ε α) → σ → Prop
  | [],_,_ => True
  | turn::rest,pool,s =>
      Permits allowed turn.1 s turn.2 (pool turn.1) ∧
        Obeys rest (move handle turn.1 turn.2 pool s).1 (move handle turn.1 turn.2 pool s).2

instance decidablePermits [∀ i s op a,Decidable (allowed i s op a)] (i : ι) (s : σ)
    (answer : (op : Op) → Ans op) :
    (p : Process Op Resp ε α) → Decidable (Permits allowed i s answer p)
  | call op _ => inferInstanceAs (Decidable (allowed i s op (answer op)))
  | done _ => isTrue trivial
  | fail _ => isTrue trivial
  | panic => isTrue trivial

instance decidableObeys [∀ i s op a,Decidable (allowed i s op a)] :
    (schedule : List (ι × ((op : Op) → Ans op))) → (pool : ι → Process Op Resp ε α) → (s : σ) →
      Decidable (Obeys handle allowed schedule pool s)
  | [],_,_ => isTrue trivial
  | turn::rest,pool,s =>
      haveI := decidableObeys rest (move handle turn.1 turn.2 pool s).1
        (move handle turn.1 turn.2 pool s).2
      inferInstanceAs (Decidable (Permits allowed turn.1 s turn.2 (pool turn.1) ∧ _))

end
section
variable {ι : Type} [DecidableEq ι] {Ans : Op → Type} {σ : Type}
variable {handle : ι → (op : Op) → Ans op → σ → Resp op × σ}
variable {allowed : ι → σ → (op : Op) → Ans op → Prop}
variable {step : τ → (op : Op) → Resp op → τ} {ok : τ → Op → Prop}
variable {Inv : σ → Prop} {K : ι → σ → τ → Prop}

/-- The observers of all processes of a pool know what `K` says, and what is left of
each process is permitted by its observer. -/
def Watching (step : τ → (op : Op) → Resp op → τ) (ok : τ → Op → Prop) (Inv : σ → Prop)
    (K : ι → σ → τ → Prop) (pool : ι → Process Op Resp ε α) (s : σ) : Prop :=
  Inv s ∧ ∀ i,∃ g,Watched step ok (fun _ _ => True) (pool i) g ∧ K i s g

theorem Watching.move {pool : ι → Process Op Resp ε α} {s} (h : Watching step ok Inv K pool s) {i}
    {answer : (op : Op) → Ans op} (hallowed : Permits allowed i s answer (pool i))
    (hown : ∀ i s g op a,Inv s → K i s g → ok g op → allowed i s op a →
      Inv (handle i op a s).2 ∧ K i (handle i op a s).2 (step g op (handle i op a s).1))
    (hother : ∀ i j s g g' op a,j≠i → K j s g' → ok g op → K j (handle i op a s).2 g') :
    Watching step ok Inv K (Pool.move handle i answer pool s).1
      (Pool.move handle i answer pool s).2 := by
  obtain ⟨hinv,hall⟩ := h
  unfold Pool.move
  split
  · rename_i op next hi
    obtain ⟨g,hg,hk⟩ := hall i
    rw [hi] at hg hallowed
    obtain ⟨hinv',hk'⟩ := hown i s g op (answer op) hinv hk hg.1 hallowed
    refine ⟨hinv',fun j => ?_⟩
    dsimp only
    by_cases hj : j=i
    · subst hj
      rw [Function.update_self]
      exact ⟨_,hg.2 _,hk'⟩
    · rw [Function.update_of_ne hj]
      obtain ⟨g',hg',hkj⟩ := hall j
      exact ⟨g',hg',hother i j s g g' op (answer op) hj hkj hg.1⟩
  · exact ⟨hinv,hall⟩

theorem Watching.run {schedule : List (ι × ((op : Op) → Ans op))}
    {pool : ι → Process Op Resp ε α} {s : σ} (h : Watching step ok Inv K pool s)
    (hallowed : Obeys handle allowed schedule pool s)
    (hown : ∀ i s g op a,Inv s → K i s g → ok g op → allowed i s op a →
      Inv (handle i op a s).2 ∧ K i (handle i op a s).2 (step g op (handle i op a s).1))
    (hother : ∀ i j s g g' op a,j≠i → K j s g' → ok g op → K j (handle i op a s).2 g') :
    Inv (Pool.run handle schedule pool s).2 := by
  induction schedule generalizing pool s with
  | nil => exact h.1
  | cons turn rest ih => exact ih (h.move hallowed.1 hown hother) hallowed.2

end
end Pool
end OriginTools.Process
