import Mathlib

/-!
# Commands on a mutable state

A command runs on a state and, when it returns, ends with a value or an error; in both
cases the writes made so far stay (`?` in the source returns early and undoes nothing).
-/

namespace OriginTools

def Command (σ ε α : Type) : Type := σ → Option (Except ε α × σ)

namespace Command
variable {σ ε α β γ : Type}

instance : Monad (Command σ ε) where
  pure a := fun s => some (.ok a,s)
  bind m f := fun s =>
    match m s with
    | none => none
    | some (.error e,s') => some (.error e,s')
    | some (.ok a,s') => f a s'

def throw (e : ε) : Command σ ε α := fun s => some (.error e,s)
def get : Command σ ε σ := fun s => some (.ok s,s)
def modify (f : σ → σ) : Command σ ε Unit := fun s => some (.ok (),f s)
def ofExcept (r : Except ε α) : Command σ ε α := fun s => some (r,s)

def ofLoop : Option (Except ε α) → Command σ ε α
  | none => fun _ => none
  | some r => ofExcept r

@[simp] theorem pure_apply (a s) : (pure a : Command σ ε α) s=some (.ok a,s) := rfl

@[simp] theorem bind_apply (m) (f : α → Command σ ε β) (s) : (m >>= f) s=match m s with
      | none => none
      | some (.error e,s') => some (.error e,s')
      | some (.ok a,s') => f a s' := rfl

@[simp] theorem throw_apply (e s) : (throw e : Command σ ε α) s=some (.error e,s) := rfl

@[simp] theorem get_apply (s : σ) : (get : Command σ ε σ) s=some (.ok s,s) := rfl

@[simp] theorem modify_apply (f : σ → σ) (s : σ) :
    (modify f : Command σ ε Unit) s=some (.ok (),f s) := rfl

@[simp] theorem ofExcept_apply (r s) : (ofExcept r : Command σ ε α) s=some (r,s) := rfl

def Ensures (m : Command σ ε α) (s : σ) (Q : Except ε α → σ → Prop) : Prop :=
  ∀ r s',m s=some (r,s') → Q r s'

variable {s : σ}

theorem ensures_modify {f : σ → σ} {Q : Except ε Unit → σ → Prop} (h : Q (.ok ()) (f s)) :
    Ensures (modify f) s Q := by
  intro r s' hr
  simp only [modify_apply,Option.some.injEq,Prod.mk.injEq] at hr
  exact hr.1 ▸ hr.2 ▸ h

variable {m : Command σ ε α}

theorem ensures_bind {f : α → Command σ ε β} {Q : Except ε β → σ → Prop}
    (h : Ensures m s fun r s' =>
      match r with
      | .error e => Q (.error e) s'
      | .ok a => Ensures (f a) s' Q) : Ensures (m >>= f) s Q := by
  intro r s' hr
  rw [bind_apply] at hr
  rcases hm : m s with - | ⟨x,t⟩
  · simp [hm] at hr
  have hx:=h x t hm
  cases x with
  | error e =>
    simp only [hm,Option.some.injEq,Prod.mk.injEq] at hr
    exact hr.1 ▸ hr.2 ▸ hx
  | ok a =>
    simp only [hm] at hr
    exact hx r s' hr

theorem ensures_mono {P Q} (h : Ensures m s P) (hpq : ∀ r s',P r s' → Q r s') : Ensures m s Q :=
  fun r s' hr => hpq r s' (h r s' hr)

def Returns (m : Command σ ε α) (P : α → Prop) : Prop := ∀ s a s',m s=some (.ok a,s') → P a

theorem returns_pure {a P} (h : P a) : Returns (pure a : Command σ ε α) P := by
  intro s x s' hx
  simp only [pure_apply,Option.some.injEq,Prod.mk.injEq,Except.ok.injEq] at hx
  exact hx.1 ▸ h

theorem returns_bind (m) {f : α → Command σ ε β} {P : β → Prop} (h : ∀ a,Returns (f a) P) :
    Returns (m >>= f) P := by
  intro s x s' hx
  rw [bind_apply] at hx
  rcases hm : m s with - | ⟨r,t⟩
  · simp [hm] at hx
  cases r with
  | error e => simp [hm] at hx
  | ok a =>
    simp only [hm] at hx
    exact h a t x s' hx

def Keeps (f : σ → γ) (m : Command σ ε α) : Prop := ∀ s r s',m s=some (r,s') → f s'=f s

theorem Keeps.pure {f : σ → γ} {a : α} : Keeps f (Pure.pure a : Command σ ε α) := by
  intro s r s' h
  simp only [pure_apply,Option.some.injEq,Prod.mk.injEq] at h
  rw [h.2]

theorem Keeps.throw {f : σ → γ} {e : ε} : Keeps f (Command.throw e : Command σ ε α) := by
  intro s r s' h
  simp only [throw_apply,Option.some.injEq,Prod.mk.injEq] at h
  rw [h.2]

theorem Keeps.get {f : σ → γ} : Keeps f (Command.get : Command σ ε σ) := by
  intro s r s' h
  simp only [get_apply,Option.some.injEq,Prod.mk.injEq] at h
  rw [h.2]

theorem Keeps.ofExcept {f : σ → γ} {x} : Keeps f (Command.ofExcept x : Command σ ε α) := by
  intro s r s' h
  simp only [ofExcept_apply,Option.some.injEq,Prod.mk.injEq] at h
  rw [h.2]

theorem Keeps.modify {f : σ → γ} {g : σ → σ} (hg : ∀ s,f (g s)=f s) :
    Keeps f (Command.modify g : Command σ ε Unit) := by
  intro s r s' h
  simp only [modify_apply,Option.some.injEq,Prod.mk.injEq] at h
  rw [← h.2]
  exact hg s

variable {k : α → Command σ ε β}

theorem Keeps.bind {f : σ → γ} (hm : Keeps f m) (hk : ∀ a,Keeps f (k a)) : Keeps f (m >>= k) := by
  intro s r s' h
  rw [bind_apply] at h
  rcases hs : m s with - | ⟨x,t⟩
  · simp [hs] at h
  have ht : f t=f s := hm s x t hs
  cases x with
  | error e =>
    simp only [hs,Option.some.injEq,Prod.mk.injEq] at h
    rw [← h.2,ht]
  | ok a =>
    simp only [hs] at h
    exact (hk a t r s' h).trans ht

theorem Keeps.ofLoop {f : σ → γ} {x} : Keeps f (Command.ofLoop x : Command σ ε α) := by
  cases x with
  | none =>
    intro s r s' h
    simp [Command.ofLoop] at h
  | some r => exact .ofExcept

theorem Keeps.ite {f : σ → γ} {c : Prop} [Decidable c] {n} (hm : Keeps f m) (hn : Keeps f n) :
    Keeps f (if c then m else n) := by
  split_ifs
  · exact hm
  · exact hn

theorem ensures_of_keeps (f : σ → γ) {Q : σ → Prop} (hm : Keeps f m) (hQ : ∀ s',f s'=f s → Q s') :
    Ensures m s fun _ s' => Q s' :=
  fun r s' hr => hQ s' (hm s r s' hr)

theorem ensures_bind_frame {f} (x : γ) {Q} (hm : Keeps f m)
    (herror : ∀ e s,f s=x → Q (.error e) s) (hok : ∀ a s,f s=x → Ensures (k a) s Q) (s : σ)
    (hs : f s=x) : Ensures (m >>= k) s Q := by
  refine ensures_bind fun r s' hr => ?_
  have hf : f s'=x := (hm s r s' hr).trans hs
  cases r with
  | error e => exact herror e s' hf
  | ok a => exact hok a s' hf

def after (m : Command σ ε α) (s : σ) : Option σ := (m s).map Prod.snd

structure Entry (σ ι : Type) where
  before : σ
  step : ι
  after : σ

def trace {ι : Type} (exec : ι → σ → Option σ) : List ι → σ → Option (List (Entry σ ι))
  | [],_ => some []
  | i::steps,s =>
    match exec i s with
    | none => none
    | some s' => (trace exec steps s').map (⟨s,i,s'⟩ :: ·)

theorem trace_cons {ι : Type} {exec : ι → σ → Option σ} {i steps s entries}
    (h : trace exec (i::steps) s=some entries) :
    ∃ s' rest,exec i s=some s' ∧ trace exec steps s'=some rest ∧ entries=⟨s,i,s'⟩::rest := by
  simp only [trace] at h
  rcases hexec : exec i s with - | s'
  · simp [hexec] at h
  · simp only [hexec,Option.map_eq_some_iff] at h
    obtain ⟨rest,hrest,hcons⟩ := h
    exact ⟨s',rest,rfl,hrest,hcons.symm⟩

theorem trace_exec {ι : Type} {exec : ι → σ → Option σ} {steps} (s entries)
    (h : trace exec steps s=some entries) :
    ∀ e∈entries,exec e.step e.before=some e.after := by
  induction steps generalizing s entries with
  | nil => simp [← Option.some.inj h]
  | cons i steps ih =>
    obtain ⟨s',rest,hexec,hrest,rfl⟩ := trace_cons h
    exact List.forall_mem_cons.2 ⟨hexec,ih s' rest hrest⟩

/-- What holds at the start and is preserved by every step that meets `C` holds before
and after every step of a run whose steps all meet `C`. -/
theorem trace_invariant {I : σ → Prop} {ι : Type} {exec : ι → σ → Option σ} {C : σ → ι → Prop}
    (hstep : ∀ s i s',I s → C s i → exec i s=some s' → I s') {steps} (s) (hs : I s) (entries)
    (h : trace exec steps s=some entries) (hC : ∀ e∈entries,C e.before e.step) :
    ∀ e∈entries,I e.before ∧ I e.after := by
  induction steps generalizing s entries with
  | nil => simp [← Option.some.inj h]
  | cons i steps ih =>
    obtain ⟨s',rest,hexec,hrest,rfl⟩ := trace_cons h
    obtain ⟨hfirst,hC⟩ := List.forall_mem_cons.1 hC
    have hs' : I s' := hstep s i s' hs hfirst hexec
    exact List.forall_mem_cons.2 ⟨⟨hs,hs'⟩,ih s' hs' rest hrest hC⟩

end Command
end OriginTools
