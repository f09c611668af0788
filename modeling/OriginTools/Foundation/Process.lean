import Mathlib.Logic.Relation
import Mathlib.Tactic

/-!
# Programs that call operations of an outside world

A process is a program that asks the world for one operation after another and goes on
with each response.
-/

namespace OriginTools

inductive Process (Op : Type) (Resp : Op → Type) (ε α : Type) where
  | done (a : α)
  | fail (e : ε)
  | panic
  | call (op : Op) (next : Resp op → Process Op Resp ε α)

namespace Process
variable {Op : Type} {Resp : Op → Type} {ε ε' α β : Type}

def bind : Process Op Resp ε α → (α → Process Op Resp ε β) → Process Op Resp ε β
  | done a,f => f a
  | fail e,_ => fail e
  | panic,_ => panic
  | call op next,f => call op fun r => (next r).bind f

instance : Monad (Process Op Resp ε) where
  pure := done
  bind := bind

def ofExcept : Except ε α → Process Op Resp ε α
  | .ok a => done a
  | .error e => fail e

def mapErr (f : ε → ε') : Process Op Resp ε α → Process Op Resp ε' α
  | done a => done a
  | fail e => fail (f e)
  | panic => panic
  | call op next => call op fun r => (next r).mapErr f

def attempt : Process Op Resp ε α → Process Op Resp ε' (Except ε α)
  | done a => done (.ok a)
  | fail e => done (.error e)
  | panic => panic
  | call op next => call op fun r => (next r).attempt

@[simp] theorem bind_eq (p : Process Op Resp ε α) (f : α → Process Op Resp ε β) :
    p >>= f=p.bind f := rfl

@[simp] theorem done_bind (a : α) (f : α → Process Op Resp ε β) : (done a).bind f=f a := rfl

theorem bind_assoc {γ : Type} (p : Process Op Resp ε α) (f : α → Process Op Resp ε β)
    (g : β → Process Op Resp ε γ) : (p.bind f).bind g=p.bind fun a => (f a).bind g := by
  induction p with
  | done | fail | panic => rfl
  | call op next ih => exact congrArg (call op) (funext ih)

theorem bind_done (p : Process Op Resp ε α) : (p.bind fun a => done a)=p := by
  induction p with
  | done | fail | panic => rfl
  | call op next ih => exact congrArg (call op) (funext ih)

theorem mapErr_bind (p : Process Op Resp ε α) (f : α → Process Op Resp ε β) (g : ε → ε') :
    (p.bind f).mapErr g=(p.mapErr g).bind fun a => (f a).mapErr g := by
  induction p with
  | done | fail | panic => rfl
  | call op next ih => exact congrArg (call op) (funext ih)

inductive Outcome (ε α : Type) where
  | done (a : α)
  | fail (e : ε)
  | panic

def Outcome.value? : Outcome ε α → Option α
  | .done a => some a
  | _ => none

theorem Outcome.eq_done_of_value? {o : Outcome ε α} (h : o.value?.isSome=true) : ∃ a,o=.done a := by
  cases o with
  | done a => exact ⟨a,rfl⟩
  | fail | panic => cases h

theorem Outcome.fail_ne_done (e : ε) (a : α) : (Outcome.fail e : Outcome ε α)≠.done a := nofun

theorem Outcome.panic_ne_done (a : α) : (Outcome.panic : Outcome ε α)≠.done a := nofun

def ended : Process Op Resp ε α → Bool
  | done _ => true
  | fail _ => true
  | panic => false
  | call _ _ => false

def succeeded : Process Op Resp ε α → Bool
  | done _ => true
  | _ => false

section Execution
variable {Ans : Op → Type} {σ : Type}
variable (handle : (op : Op) → Ans op → σ → Resp op × σ)
variable (source : ℕ → (op : Op) → Ans op)

/-- At most `n` operations of the process, the first of them answered by
`source t`: what is left of it, and the state. -/
def run : ℕ → ℕ → Process Op Resp ε α → σ → Process Op Resp ε α × σ
  | 0,_,p,s => (p,s)
  | n+1,t,call op next,s =>
      let r:=handle op (source t op) s
      run n (t+1) (next r.1) r.2
  | _+1,_,p,s => (p,s)

variable (allowed : σ → (op : Op) → Ans op → Prop)

def Obeys : ℕ → ℕ → Process Op Resp ε α → σ → Prop
  | 0,_,_,_ => True
  | n+1,t,call op next,s =>
      allowed s op (source t op) ∧
        Obeys n (t+1) (next (handle op (source t op) s).1) (handle op (source t op) s).2
  | _+1,_,_,_ => True

@[simp] theorem run_zero (t : ℕ) (p : Process Op Resp ε α) (s : σ) :
    run handle source 0 t p s=(p,s) := by
  cases p <;> rfl

theorem obeys_mono (m n t : ℕ) (p : Process Op Resp ε α) (s : σ) (hmn : m≤n)
    (h : Obeys handle source allowed n t p s) : Obeys handle source allowed m t p s := by
  induction m generalizing n t p s with
  | zero => cases p <;> trivial
  | succ m ih =>
    rcases n with _ | n
    · omega
    cases p with
    | done | fail | panic => trivial
    | call op next => exact ⟨h.1,ih n (t+1) _ _ (by omega) h.2⟩

theorem obeys_imp {handle : (op : Op) → Ans op → σ → Resp op × σ}
    {source : ℕ → (op : Op) → Ans op} {allowed allowed' : σ → (op : Op) → Ans op → Prop}
    (h : ∀ s op a,allowed s op a → allowed' s op a) (n t : ℕ) (p : Process Op Resp ε α) (s : σ)
    (ho : Obeys handle source allowed n t p s) : Obeys handle source allowed' n t p s := by
  induction n generalizing t p s with
  | zero => cases p <;> trivial
  | succ n ih =>
    cases p with
    | done | fail | panic => trivial
    | call op next => exact ⟨h _ _ _ ho.1,ih _ _ _ ho.2⟩

theorem obeys_of_forall (h : ∀ t s op,allowed s op (source t op)) (n t : ℕ)
    (p : Process Op Resp ε α) (s : σ) : Obeys handle source allowed n t p s := by
  induction n generalizing t p s with
  | zero => cases p <;> trivial
  | succ n ih =>
    cases p with
    | done | fail | panic => trivial
    | call op next => exact ⟨h t s op,ih _ _ _⟩

instance decidableObeys [∀ s op a,Decidable (allowed s op a)] :
    (n t : ℕ) → (p : Process Op Resp ε α) → (s : σ) →
      Decidable (Obeys handle source allowed n t p s)
  | 0,_,_,_ => isTrue trivial
  | n+1,t,call op next,s =>
      haveI := decidableObeys n (t+1) (next (handle op (source t op) s).1)
        (handle op (source t op) s).2
      inferInstanceAs (Decidable (allowed s op (source t op) ∧ _))
  | _+1,_,done _,_ => isTrue trivial
  | _+1,_,fail _,_ => isTrue trivial
  | _+1,_,panic,_ => isTrue trivial

/-- The whole execution, the first operation answered by `source t`: how the process
ends, and the state then. -/
def exec : ℕ → Process Op Resp ε α → σ → Outcome ε α × σ
  | _,done a,s => (.done a,s)
  | _,fail e,s => (.fail e,s)
  | _,panic,s => (.panic,s)
  | t,call op next,s =>
      exec (t+1) (next (handle op (source t op) s).1) (handle op (source t op) s).2

theorem exec_bind_fail {p s t e} (h : (exec handle source t p s).1=.fail e)
    (f : α → Process Op Resp ε β) :
    exec handle source t (p.bind f) s=(.fail e,(exec handle source t p s).2) := by
  induction p generalizing t s with
  | done | panic => cases h
  | fail e' =>
    cases h
    rfl
  | call op next ih => exact ih _ h

def Obeyed : ℕ → Process Op Resp ε α → σ → Prop
  | t,call op next,s =>
      allowed s op (source t op) ∧
        Obeyed (t+1) (next (handle op (source t op) s).1) (handle op (source t op) s).2
  | _,done _,_ => True
  | _,fail _,_ => True
  | _,panic,_ => True

instance decidableObeyed [∀ s op a,Decidable (allowed s op a)] :
    (t : ℕ) → (p : Process Op Resp ε α) → (s : σ) → Decidable (Obeyed handle source allowed t p s)
  | t,call op next,s =>
      haveI := decidableObeyed (t+1) (next (handle op (source t op) s).1)
        (handle op (source t op) s).2
      inferInstanceAs (Decidable (allowed s op (source t op) ∧ _))
  | _,done _,_ => isTrue trivial
  | _,fail _,_ => isTrue trivial
  | _,panic,_ => isTrue trivial

theorem obeyed_of_forall (h : ∀ t s op,allowed s op (source t op)) (t : ℕ)
    (p : Process Op Resp ε α) (s : σ) : Obeyed handle source allowed t p s := by
  induction p generalizing t s with
  | done | fail | panic => trivial
  | call op next ih => exact ⟨h t s op,ih _ _ _⟩

/-- Every state the process passes through meets `I` and every end meets `Q`,
whatever the allowed answers are. -/
def Safe (I : σ → Prop) (Q : Outcome ε α → σ → Prop) : Process Op Resp ε α → σ → Prop
  | done a,s => I s ∧ Q (.done a) s
  | fail e,s => I s ∧ Q (.fail e) s
  | panic,s => I s ∧ Q .panic s
  | call op next,s =>
      I s ∧ ∀ ans,allowed s op ans → Safe I Q (next (handle op ans s).1) (handle op ans s).2

end Execution
section Rules
variable {Ans : Op → Type} {σ : Type}
variable {handle : (op : Op) → Ans op → σ → Resp op × σ}
variable {allowed : σ → (op : Op) → Ans op → Prop}
variable {I : σ → Prop}
variable {p : Process Op Resp ε α} {s : σ}

theorem Safe.inv {Q} (h : Safe handle allowed I Q p s) : I s := by
  cases p with
  | done | fail | panic | call => exact h.1

theorem Safe.ended {Q} (h : Safe handle allowed I Q p s) (hp : p.ended=true) :
    (∃ a,Q (.done a) s) ∨ ∃ e,Q (.fail e) s := by
  cases p with
  | done a => exact .inl ⟨a,h.2⟩
  | fail e => exact .inr ⟨e,h.2⟩
  | panic | call => cases hp

theorem Safe.succeeded {Q} (h : Safe handle allowed I Q p s) (hp : p.succeeded=true) :
    ∃ a,Q (.done a) s := by
  cases p with
  | done a => exact ⟨a,h.2⟩
  | fail | panic | call => cases hp

theorem Safe.run {Q source} (n : ℕ) :
    ∀ (t : ℕ) (p : Process Op Resp ε α) (s : σ),Safe handle allowed I Q p s →
      Obeys handle source allowed n t p s →
      Safe handle allowed I Q (Process.run handle source n t p s).1
        (Process.run handle source n t p s).2 := by
  induction n with
  | zero =>
    intro t p s h _
    rw [run_zero]
    exact h
  | succ n ih =>
    intro t p s h ho
    cases p with
    | done | fail | panic => exact h
    | call op next => exact ih (t+1) _ _ (h.2 _ ho.1) ho.2

theorem Safe.exec {Q source} (t : ℕ) (s : σ) (h : Safe handle allowed I Q p s)
    (ho : Obeyed handle source allowed t p s) :
    Q (Process.exec handle source t p s).1 (Process.exec handle source t p s).2 := by
  induction p generalizing t s with
  | done | fail | panic => exact h.2
  | call op next ih => exact ih _ (t+1) _ (h.2 _ ho.1) ho.2

theorem Safe.mono {I' Q Q'} (h : Safe handle allowed I Q p s) (hI : ∀ s,I s → I' s)
    (hQ : ∀ o s,I s → Q o s → Q' o s) : Safe handle allowed I' Q' p s := by
  induction p generalizing s with
  | done | fail | panic => exact ⟨hI s h.1,hQ _ s h.1 h.2⟩
  | call op next ih => exact ⟨hI s h.1,fun ans ha => ih _ (h.2 ans ha)⟩

theorem Safe.post {Q Q' : Outcome ε α → σ → Prop} {p s} (h : Safe handle allowed I Q p s)
    (hQ : ∀ o s,I s → Q o s → Q' o s) : Safe handle allowed I Q' p s :=
  h.mono (fun _ hs => hs) hQ

theorem Safe.and {I' Q Q'} (h : Safe handle allowed I Q p s) (h' : Safe handle allowed I' Q' p s) :
    Safe handle allowed (fun s => I s ∧ I' s) (fun o s => Q o s ∧ Q' o s) p s := by
  induction p generalizing s with
  | done | fail | panic => exact ⟨⟨h.1,h'.1⟩,h.2,h'.2⟩
  | call op next ih => exact ⟨⟨h.1,h'.1⟩,fun ans ha => ih _ (h.2 ans ha) (h'.2 ans ha)⟩

theorem Safe.narrow {allowed' Q} (h : Safe handle allowed I Q p s)
    (ha : ∀ s op a,allowed' s op a → allowed s op a) : Safe handle allowed' I Q p s := by
  induction p generalizing s with
  | done | fail | panic => exact h
  | call op next ih => exact ⟨h.1,fun ans hans => ih _ (h.2 ans (ha _ _ _ hans))⟩

def Then (handle : (op : Op) → Ans op → σ → Resp op × σ)
    (allowed : σ → (op : Op) → Ans op → Prop) (I : σ → Prop) (Q : Outcome ε β → σ → Prop)
    (f : α → Process Op Resp ε β) : Outcome ε α → σ → Prop
  | .done a,s => Safe handle allowed I Q (f a) s
  | .fail e,s => Q (.fail e) s
  | .panic,s => Q .panic s

theorem Safe.bind {Q : Outcome ε β → σ → Prop} {f : α → Process Op Resp ε β}
    (h : Safe handle allowed I (Then handle allowed I Q f) p s) :
    Safe handle allowed I Q (p.bind f) s := by
  induction p generalizing s with
  | done a => exact h.2
  | fail | panic => exact h
  | call op next ih => exact ⟨h.1,fun ans ha => ih _ (h.2 ans ha)⟩

def Outcome.mapErr (g : ε → ε') : Outcome ε α → Outcome ε' α
  | .done a => .done a
  | .fail e => .fail (g e)
  | .panic => .panic

theorem Safe.mapErr {Q : Outcome ε' α → σ → Prop} {g : ε → ε'}
    (h : Safe handle allowed I (fun o s => Q (o.mapErr g) s) p s) :
    Safe handle allowed I Q (p.mapErr g) s := by
  induction p generalizing s with
  | done | fail | panic => exact h
  | call op next ih => exact ⟨h.1,fun ans ha => ih _ (h.2 ans ha)⟩

def Outcome.attempt : Outcome ε α → Outcome ε' (Except ε α)
  | .done a => .done (.ok a)
  | .fail e => .done (.error e)
  | .panic => .panic

theorem Safe.attempt {Q : Outcome ε' (Except ε α) → σ → Prop}
    (h : Safe handle allowed I (fun o s => Q o.attempt s) p s) :
    Safe handle allowed I Q p.attempt s := by
  induction p generalizing s with
  | done | fail | panic => exact h
  | call op next ih => exact ⟨h.1,fun ans ha => ih _ (h.2 ans ha)⟩

/-- Every execution with allowed answers keeps `I` and ends with a value that meets `P`. -/
def Returns (handle : (op : Op) → Ans op → σ → Resp op × σ)
    (allowed : σ → (op : Op) → Ans op → Prop) (I : σ → Prop) (P : α → σ → Prop)
    (p : Process Op Resp ε α) (s : σ) : Prop :=
  Safe handle allowed I (fun o s' => ∃ a,o=.done a ∧ P a s') p s

theorem Returns.safe_bind {P : α → σ → Prop} {Q : Outcome ε β → σ → Prop}
    {g : α → Process Op Resp ε β} (h : Returns handle allowed I P p s)
    (hg : ∀ a s',P a s' → Safe handle allowed I Q (g a) s') :
    Safe handle allowed I Q (p.bind g) s := by
  apply Safe.bind
  apply Safe.post h
  rintro o s' _ ⟨a,rfl,ha⟩
  exact hg a s' ha

theorem Returns.mapErr {P : α → σ → Prop} {g : ε → ε'} (h : Returns handle allowed I P p s) :
    Returns handle allowed I P (p.mapErr g) s := by
  apply Safe.mapErr
  apply Safe.post h
  rintro o s' _ ⟨a,rfl,ha⟩
  exact ⟨a,rfl,ha⟩

/-- Along every execution with allowed answers `f` of the state is unchanged,
and every end meets `R`. -/
def Leaves {τ : Type} (handle : (op : Op) → Ans op → σ → Resp op × σ)
    (allowed : σ → (op : Op) → Ans op → Prop) (f : σ → τ) (R : Outcome ε α → Prop)
    (p : Process Op Resp ε α) : Prop :=
  ∀ s,Safe handle allowed (fun s' => f s'=f s) (fun o s' => R o ∧ f s'=f s) p s

variable {τ : Type} {f : σ → τ}

theorem Leaves.of_done {R} (a : α) (h : R (.done a)) :
    Leaves handle allowed f R (done a : Process Op Resp ε α) :=
  fun _ => ⟨rfl,h,rfl⟩

theorem Leaves.of_fail {R e} (h : R (.fail e)) :
    Leaves handle allowed f R (fail e : Process Op Resp ε α) :=
  fun _ => ⟨rfl,h,rfl⟩

theorem Leaves.of_panic {R} (h : R .panic) :
    Leaves handle allowed f R (panic : Process Op Resp ε α) :=
  fun _ => ⟨rfl,h,rfl⟩

theorem Leaves.mono {R R' : Outcome ε α → Prop} (h : Leaves handle allowed f R p)
    (hR : ∀ o,R o → R' o) : Leaves handle allowed f R' p :=
  fun s => (h s).post fun o _ _ hq => ⟨hR o hq.1,hq.2⟩

theorem Leaves.safe {R Q} (h : Leaves handle allowed f R p) (hI : ∀ s',f s'=f s → I s')
    (hQ : ∀ o s',R o → f s'=f s → Q o s') : Safe handle allowed I Q p s :=
  (h s).mono hI fun o s' _ hq => hQ o s' hq.1 hq.2

theorem Leaves.bind {R : Outcome ε α → Prop} {R' : Outcome ε β → Prop} {g : α → Process Op Resp ε β}
    (h : Leaves handle allowed f R p) (hdone : ∀ a,R (.done a) → Leaves handle allowed f R' (g a))
    (hfail : ∀ e,R (.fail e) → R' (.fail e)) (hpanic : R .panic → R' .panic) :
    Leaves handle allowed f R' (p.bind g) := by
  intro s
  apply Safe.bind
  apply h.safe (fun s' hs => hs)
  intro o s' ho hs
  cases o with
  | done a =>
    apply (hdone a ho s').mono
    · intro s'' h''
      exact h''.trans hs
    · intro o s'' _ h''
      exact ⟨h''.1,h''.2.trans hs⟩
  | fail e => exact ⟨hfail e ho,hs⟩
  | panic => exact ⟨hpanic ho,hs⟩

theorem Leaves.returns {P : α → Prop}
    (h : Leaves handle allowed f (fun o => ∃ a,o=.done a ∧ P a) p) (hI : ∀ s',f s'=f s → I s')
    :
    Returns handle allowed I (fun a s' => P a ∧ f s'=f s) p s := by
  apply h.safe hI
  rintro o s' ⟨a,ho,ha⟩ hs
  exact ⟨a,ho,ha,hs⟩

theorem Leaves.mapErr {R : Outcome ε' α → Prop} {g : ε → ε'}
    (h : Leaves handle allowed f (fun o => R (o.mapErr g)) p) :
    Leaves handle allowed f R (p.mapErr g) :=
  fun s => Safe.mapErr (h s)

theorem Leaves.safe_bind {R : Outcome ε α → Prop} {Q : Outcome ε β → σ → Prop}
    {g : α → Process Op Resp ε β} (h : Leaves handle allowed f R p) (hI : ∀ s',f s'=f s → I s')
    (hdone : ∀ a s',R (.done a) → f s'=f s → Safe handle allowed I Q (g a) s')
    (hfail : ∀ e s',R (.fail e) → f s'=f s → Q (.fail e) s')
    (hpanic : ∀ s',R .panic → f s'=f s → Q .panic s') :
    Safe handle allowed I Q (p.bind g) s := by
  apply Safe.bind
  apply h.safe hI
  intro o s' ho hs
  cases o with
  | done a => exact hdone a s' ho hs
  | fail e => exact hfail e s' ho hs
  | panic => exact hpanic s' ho hs

/-- Along every execution with allowed answers the state moves by `rel`, and every end
meets `R`. -/
def Moves (handle : (op : Op) → Ans op → σ → Resp op × σ)
    (allowed : σ → (op : Op) → Ans op → Prop) (rel : σ → σ → Prop) (R : Outcome ε α → Prop)
    (p : Process Op Resp ε α) : Prop :=
  ∀ s,Safe handle allowed (rel s) (fun o s' => R o ∧ rel s s') p s

variable {rel : σ → σ → Prop}

theorem Moves.of_done [Std.Refl rel] {R} (a : α) (h : R (.done a)) :
    Moves handle allowed rel R (done a : Process Op Resp ε α) :=
  fun s => ⟨Std.Refl.refl s,h,Std.Refl.refl s⟩

theorem Moves.of_fail [Std.Refl rel] {R} (e : ε) (h : R (.fail e)) :
    Moves handle allowed rel R (fail e : Process Op Resp ε α) :=
  fun s => ⟨Std.Refl.refl s,h,Std.Refl.refl s⟩

theorem Moves.mono {R R' : Outcome ε α → Prop} (h : Moves handle allowed rel R p)
    (hR : ∀ o,R o → R' o) : Moves handle allowed rel R' p :=
  fun s => (h s).post fun o _ _ hq => ⟨hR o hq.1,hq.2⟩

theorem Moves.and {R R' : Outcome ε α → Prop} (h : Moves handle allowed rel R p)
    (h' : ∀ s,Safe handle allowed (fun _ => True) (fun o _ => R' o) p s) :
    Moves handle allowed rel (fun o => R o ∧ R' o) p :=
  fun s => ((h s).and (h' s)).mono (fun _ hs => hs.1) fun _ _ _ hq => ⟨⟨hq.1.1,hq.2⟩,hq.1.2⟩

theorem Moves.attempt {R : Outcome ε' (Except ε α) → Prop}
    (h : Moves handle allowed rel (fun o => R o.attempt) p) :
    Moves handle allowed rel R p.attempt :=
  fun s => Safe.attempt (h s)

theorem Moves.bind [IsTrans σ rel] {R : Outcome ε α → Prop} {R' : Outcome ε β → Prop}
    {g : α → Process Op Resp ε β} (h : Moves handle allowed rel R p)
    (hdone : ∀ a,R (.done a) → Moves handle allowed rel R' (g a))
    (hfail : ∀ e,R (.fail e) → R' (.fail e)) (hpanic : R .panic → R' .panic) :
    Moves handle allowed rel R' (p.bind g) := by
  intro s
  apply Safe.bind
  apply (h s).post
  intro o s' _ hq
  cases o with
  | done a =>
    apply (hdone a hq.1 s').mono
    · intro s'' hs''
      exact IsTrans.trans s s' s'' hq.2 hs''
    · intro o' s'' _ hq'
      exact ⟨hq'.1,IsTrans.trans s s' s'' hq.2 hq'.2⟩
  | fail e => exact ⟨hfail e hq.1,hq.2⟩
  | panic => exact ⟨hpanic hq.1,hq.2⟩

end Rules
section Trace
variable {Ans : Op → Type} {σ : Type}
variable (handle : (op : Op) → Ans op → σ → Resp op × σ)

def traced (op : Op) (a : Ans op) (s : σ × List (Sigma Ans)) : Resp op × (σ × List (Sigma Ans)) :=
  ((handle op a s.1).1,(handle op a s.1).2,s.2++[⟨op,a⟩])

variable (source : ℕ → (op : Op) → Ans op)

/-- The operations of a whole execution with their answers. -/
def trace : ℕ → Process Op Resp ε α → σ → List (Sigma Ans)
  | t,call op next,s =>
      ⟨op,source t op⟩::
        trace (t+1) (next (handle op (source t op) s).1) (handle op (source t op) s).2
  | _,done _,_ => []
  | _,fail _,_ => []
  | _,panic,_ => []

theorem exec_traced (t : ℕ) (p : Process Op Resp ε α) (s : σ) (l : List (Sigma Ans)) :
    exec (traced handle) source t p (s,l)=
      ((exec handle source t p s).1,(exec handle source t p s).2,l++trace handle source t p s) := by
  induction p generalizing t s l with
  | done | fail | panic => simp [exec,trace]
  | call op next ih =>
    simp only [exec,trace,traced]
    rw [ih,List.append_assoc]
    rfl

theorem Safe.traced {handle : (op : Op) → Ans op → σ → Resp op × σ}
    {allowed : σ → (op : Op) → Ans op → Prop}
    {allowed' : σ × List (Sigma Ans) → (op : Op) → Ans op → Prop} {I : σ → Prop}
    {Q : Outcome ε α → σ → Prop} (ha : ∀ s op a,allowed' s op a → allowed s.1 op a) {p s}
    (h : Safe handle allowed I Q p s.1) :
    Safe (traced handle) allowed' (fun s => I s.1) (fun o s => Q o s.1) p s := by
  induction p generalizing s with
  | done | fail | panic => exact h
  | call op next ih => exact ⟨h.1,fun ans hans => ih _ (h.2 ans (ha _ _ _ hans))⟩

end Trace
end Process
end OriginTools
