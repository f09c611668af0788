import Mathlib

/-!
# Self-delimiting byte formats

A `Wire` for a type writes its values as bytes and reads a value off the front of a byte
string; its law says that reading undoes writing whatever follows.
-/

namespace OriginTools

theorem map_eq_ok {ε α β : Type} {r : Except ε α} {f : α → β} {b : β}
    (h : r.map f=.ok b) : ∃ a,r=.ok a ∧ f a=b := by
  cases r with
  | error e => cases h
  | ok a => exact ⟨a,rfl,Except.ok.inj h⟩

theorem bind_eq_ok {ε α β : Type} {r : Except ε α} {f : α → Except ε β} {b : β}
    (h : r.bind f=.ok b) : ∃ a,r=.ok a ∧ f a=.ok b := by
  cases r with
  | error e => cases h
  | ok a => exact ⟨a,rfl,h⟩

theorem mapError_ok {ε ε' α : Type} {r : Except ε α} {f : ε → ε'} {a : α}
    (h : r.mapError f=.ok a) : r=.ok a := by
  cases r with
  | error e => cases h
  | ok b =>
    cases h
    rfl

def beBytes : ℕ → ℕ → List UInt8
  | 0,_ => []
  | n+1,x => beBytes n (x/256)++[UInt8.ofNat x]

def beValue (bytes : List UInt8) : ℕ := bytes.foldl (fun n b => n*256+b.toNat) 0

theorem length_beBytes (n x : ℕ) : (beBytes n x).length=n := by
  induction n generalizing x with
  | zero => rfl
  | succ n ih => simp [beBytes,ih]

theorem beValue_beBytes (n x : ℕ) : beValue (beBytes n x)=x%256^n := by
  induction n generalizing x with
  | zero => simp [beBytes,beValue,Nat.mod_one]
  | succ n ih =>
    have hstep : beValue (beBytes (n+1) x)=beValue (beBytes n (x/256))*256+x%256 := by
      simp [beValue,beBytes,UInt8.toNat_ofNat']
    rw [hstep,ih,pow_succ',Nat.mod_mul]
    omega

variable (l : List UInt8)

theorem beValue_append (b : UInt8) : beValue (l++[b])=beValue l*256+b.toNat := by
  simp [beValue]

theorem beBytes_beValue : beBytes l.length (beValue l)=l := by
  induction l using List.reverseRecOn with
  | nil => rfl
  | append_singleton l b ih =>
    have hb : b.toNat<256 := b.toNat_lt
    have hdiv : (beValue l*256+b.toNat)/256=beValue l := by omega
    have hlast : UInt8.ofNat (beValue l*256+b.toNat)=b := by
      apply UInt8.toNat_inj.mp
      rw [UInt8.toNat_ofNat']
      omega
    rw [List.length_append,List.length_singleton,beValue_append,beBytes,hdiv,ih,hlast]

theorem beValue_lt : beValue l<256^l.length := by
  have hmod:=beValue_beBytes l.length (beValue l)
  rw [beBytes_beValue] at hmod
  rw [hmod]
  exact Nat.mod_lt _ (by positivity)

structure Wire (α : Type) where
  put : α → List UInt8
  take : List UInt8 → Option (α × List UInt8)
  take_put : ∀ a rest,take (put a++rest)=some (a,rest)

namespace Wire
variable {α β : Type}

def takeNat : List UInt8 → Option (ℕ × List UInt8)
  | [] => none
  | b::bytes =>
    if b=0 then some (0,bytes)
    else match takeNat bytes with
      | none => none
      | some (n,rest) => some (n+1,rest)

theorem takeNat_put (n rest) : takeNat (List.replicate n 1++[0]++rest)=some (n,rest) := by
  induction n with
  | zero => simp [takeNat]
  | succ n ih =>
    simp only [List.replicate_succ,List.cons_append,takeNat,ih]
    exact if_neg (by decide)

def nat : Wire ℕ where
  put n := List.replicate n 1++[0]
  take := takeNat
  take_put := takeNat_put

def word (n : ℕ) (enc : α → ℕ) (dec : ℕ → α) (h : ∀ a,dec (enc a%256^n)=a) : Wire α where
  put a := beBytes n (enc a)
  take bytes :=
    if n≤bytes.length then some (dec (beValue (bytes.take n)),bytes.drop n) else none
  take_put a rest := by
    have hlen:=length_beBytes n (enc a)
    simp [hlen,List.take_left' hlen,List.drop_left' hlen,beValue_beBytes,h]

def pair (wa : Wire α) (wb : Wire β) : Wire (α × β) where
  put p := wa.put p.1++wb.put p.2
  take bytes :=
    match wa.take bytes with
    | none => none
    | some (a,rest) =>
      match wb.take rest with
      | none => none
      | some (b,rest) => some ((a,b),rest)
  take_put p rest := by
    rw [List.append_assoc]
    simp [wa.take_put,wb.take_put]

def map (w : Wire α) (f : α → β) (g : β → α) (h : ∀ b,f (g b)=b) : Wire β where
  put b := w.put (g b)
  take bytes := (w.take bytes).map fun p => (f p.1,p.2)
  take_put b rest := by simp [w.take_put,h]

def takeMany (w : Wire α) : ℕ → List UInt8 → Option (List α × List UInt8)
  | 0,bytes => some ([],bytes)
  | n+1,bytes =>
    match w.take bytes with
    | none => none
    | some (a,rest) =>
      match takeMany w n rest with
      | none => none
      | some (as,rest) => some (a::as,rest)

theorem takeMany_put (w : Wire α) (xs : List α) (rest : List UInt8) :
    w.takeMany xs.length (xs.flatMap w.put++rest)=some (xs,rest) := by
  induction xs with
  | nil => rfl
  | cons x xs ih => simp [takeMany,w.take_put,ih]

def list (w : Wire α) : Wire (List α) where
  put xs := nat.put xs.length++xs.flatMap w.put
  take bytes :=
    match nat.take bytes with
    | none => none
    | some (n,rest) => w.takeMany n rest
  take_put xs rest := by
    rw [List.append_assoc,nat.take_put]
    exact w.takeMany_put xs rest

def text : Wire String :=
  (list (word 3 Char.toNat Char.ofNat fun c => by
    have hlt : c.toNat<256^3 := by
      have := c.valid
      simp only [UInt32.isValidChar,Nat.isValidChar,Char.toNat] at this ⊢
      omega
    rw [Nat.mod_eq_of_lt hlt,Char.ofNat_toNat])).map String.ofList String.toList
    fun s => String.ofList_toList

def parse (w : Wire α) (bytes : List UInt8) : Option α :=
  match w.take bytes with
  | some (a,[]) => some a
  | _ => none

theorem parse_put (w : Wire α) (a : α) : w.parse (w.put a)=some a := by
  have h:=w.take_put a []
  rw [List.append_nil] at h
  simp [parse,h]

end Wire
end OriginTools
