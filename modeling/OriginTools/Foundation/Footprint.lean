import OriginTools.Foundation.Process

/-!
# The operations a process may perform

`Emits P R p`: whatever the responses are, every operation of `p` meets `P` and the value
it returns, if it does, meets `R`.
-/

namespace OriginTools.Process
variable {Op : Type} {Resp : Op → Type} {ε ε' α β : Type}

inductive Emits (P : Op → Prop) (R : α → Prop) : Process Op Resp ε α → Prop
  | done {a : α} (h : R a) : Emits P R (done a)
  | fail (e : ε) : Emits P R (fail e)
  | panic : Emits P R panic
  | call {op : Op} {next : Resp op → Process Op Resp ε α} (h : P op)
      (hnext : ∀ r,Emits P R (next r)) : Emits P R (call op next)

namespace Emits
variable {P P' : Op → Prop} {R R' : α → Prop}
variable {p : Process Op Resp ε α}

theorem mono (h : Emits P R p) (hP : ∀ op,P op → P' op) (hR : ∀ a,R a → R' a) : Emits P' R' p := by
  induction h with
  | done ha => exact .done (hR _ ha)
  | fail e => exact .fail e
  | panic => exact .panic
  | call hop _ ih => exact .call (hP _ hop) ih

theorem bind {R' : β → Prop} {f : α → Process Op Resp ε β} (h : Emits P R p)
    (hf : ∀ a,R a → Emits P R' (f a)) : Emits P R' (p.bind f) := by
  induction h with
  | done ha => exact hf _ ha
  | fail e => exact .fail e
  | panic => exact .panic
  | call hop _ ih => exact .call hop ih

theorem ofExcept (r) (h : ∀ a,R a) : Emits P R (ofExcept r : Process Op Resp ε α) := by
  cases r with
  | error e => exact .fail e
  | ok a => exact .done (h a)

theorem mapErr {g : ε → ε'} (h : Emits P R p) : Emits P R (p.mapErr g) := by
  induction h with
  | done ha => exact .done ha
  | fail e => exact .fail (g e)
  | panic => exact .panic
  | call hop _ ih => exact .call hop ih

variable {Ans : Op → Type} {σ τ : Type} {handle : (op : Op) → Ans op → σ → Resp op × σ}
variable {allowed : σ → (op : Op) → Ans op → Prop} {f : σ → τ}

theorem leaves (h : Emits P R p) (hf : ∀ op a s,P op → allowed s op a → f (handle op a s).2=f s) :
    Leaves handle allowed f (fun o => ∀ a,o=.done a → R a) p := by
  induction h with
  | done ha =>
    apply Leaves.of_done
    intro a hd
    cases hd
    exact ha
  | fail e => exact Leaves.of_fail nofun
  | panic => exact Leaves.of_panic nofun
  | call hop _ ih =>
    intro s
    refine ⟨rfl,fun a ha => ?_⟩
    have hstep:=hf _ a s hop ha
    apply (ih _ _).mono
    · intro s' hs'
      exact hs'.trans hstep
    · intro o s' _ hs'
      exact ⟨hs'.1,hs'.2.trans hstep⟩

theorem moves {rel} [Std.Refl rel] [IsTrans σ rel] (h : Emits P R p)
    (hf : ∀ op a s,P op → allowed s op a → rel s (handle op a s).2) :
    Moves handle allowed rel (fun o => ∀ a,o=.done a → R a) p := by
  induction h with
  | done ha =>
    apply Moves.of_done
    intro a hd
    cases hd
    exact ha
  | fail e => exact Moves.of_fail e nofun
  | panic => exact fun s => ⟨Std.Refl.refl s,nofun,Std.Refl.refl s⟩
  | call hop _ ih =>
    intro s
    refine ⟨Std.Refl.refl s,fun a ha => ?_⟩
    have hstep:=hf _ a s hop ha
    apply (ih _ _).mono
    · intro s' hs'
      exact IsTrans.trans _ _ _ hstep hs'
    · intro o s' _ hs'
      exact ⟨hs'.1,IsTrans.trans _ _ _ hstep hs'.2⟩

end Emits
end OriginTools.Process
