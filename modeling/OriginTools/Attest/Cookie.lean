import OriginTools.Attest.Record

/-!
# Handshake cookies

A cookie is a truncated MAC of a source address and the clock second under a secret that
is rotated.
-/

namespace OriginTools.Attest
open Vcs (utf8 utf8_injective)

abbrev Mac := Digest → Bytes → Except String Digest

structure CookieSecret where
  current : Digest
  previous : Option Digest
  lastRotation : ℕ
  rotationInterval : ℕ

def cookieInput (source : String) (now : UInt64) : Bytes := utf8 source++be64 now

def xorInto (acc bytes : Bytes) : Bytes :=
  bytes.zipIdx.foldl (fun acc b => acc.modify (b.2%32) (· ^^^ b.1)) acc

def macCookie (mac : Mac) (key : Digest) (input : Bytes) : Option Bytes :=
  (mac key input).toOption.map fun full => full.bytes.take 16

namespace CookieSecret
variable (mac : Mac)

def generateAt (s : CookieSecret) (source : String) (now : UInt64) : Bytes :=
  let input:=cookieInput source now
  (macCookie mac s.current input).getD
    ((xorInto (xorInto (List.replicate 32 0) input) s.current.bytes).take 16)

def verifyAt (s : CookieSecret) (source : String) (cookie : Bytes) (now : UInt64) : Bool :=
  s.generateAt mac source now==cookie||
    s.previous.any fun prev => macCookie mac prev (cookieInput source now)==some cookie

def forceRotate (drawn : Option Digest) (now : ℕ) (s : CookieSecret) :
    Except String Unit × CookieSecret :=
  match drawn with
  | some key => (.ok (),{ s with current := key,previous := some s.current,lastRotation := now })
  | none => (.error "OS CSPRNG unavailable",{ s with previous := some s.current })

def maybeRotate (drawn : Option Digest) (now : ℕ) (s : CookieSecret) :
    Except String Bool × CookieSecret :=
  if s.rotationInterval≤now-s.lastRotation then
    ((s.forceRotate drawn now).1.map fun _ => true,(s.forceRotate drawn now).2)
  else (.ok false,s)

end CookieSecret

/-- A call of `forceRotate` or `maybeRotate`, with the answer of the random source. -/
structure Rotation where
  forced : Bool
  drawn : Option Digest
  now : ℕ

namespace Rotation

def run (s : CookieSecret) (r : Rotation) : CookieSecret :=
  if r.forced then (s.forceRotate r.drawn r.now).2 else (s.maybeRotate r.drawn r.now).2

def attempts : CookieSecret → List Rotation → List (Option Digest)
  | _,[] => []
  | s,r::rs =>
      if r.forced ∨ s.rotationInterval≤r.now-s.lastRotation then r.drawn::attempts (run s r) rs
      else attempts (run s r) rs

def turn (keys : Digest × Option Digest) (drawn : Option Digest) : Digest × Option Digest :=
  (drawn.getD keys.1,some keys.1)

theorem keys_foldl_run (s : CookieSecret) (rs : List Rotation) :
    ((rs.foldl run s).current,(rs.foldl run s).previous)=
      (attempts s rs).foldl turn (s.current,s.previous) := by
  induction rs generalizing s with
  | nil => rfl
  | cons r rs ih =>
    have hforce : ((s.forceRotate r.drawn r.now).2.current,
        (s.forceRotate r.drawn r.now).2.previous)=turn (s.current,s.previous) r.drawn := by
      cases hd : r.drawn <;> rfl
    rw [List.foldl_cons,ih,attempts]
    by_cases hforced : r.forced=true
    · rw [if_pos (.inl hforced),List.foldl_cons,← hforce,run,if_pos hforced]
    · rw [run,if_neg hforced,CookieSecret.maybeRotate]
      by_cases hdue : s.rotationInterval≤r.now-s.lastRotation
      · rw [if_pos hdue,if_pos (.inr hdue),List.foldl_cons,← hforce]
      · rw [if_neg hdue,if_neg (not_or.2 ⟨hforced,hdue⟩)]

theorem foldl_turn_none {ds : List (Option Digest)} (h : ∀ d∈ds,d=none) (key : Digest) :
    ds.foldl turn (key,some key)=(key,some key) := by
  induction ds with
  | nil => rfl
  | cons d ds ih =>
    rw [List.foldl_cons,h d List.mem_cons_self]
    exact ih fun e he => h e (List.mem_cons_of_mem d he)

/-- With one new secret drawn, the first secret is held exactly when no attempt failed
after that. -/
theorem held_iff {ds : List (Option Digest)} (key prev) (hone : ds.countP Option.isSome≤1)
    (hfresh : some key∉ds) :
    ((ds.foldl turn (key,prev)).1=key ∨ (ds.foldl turn (key,prev)).2=some key) ↔
      ds.Pairwise fun d e => d.isSome → e.isSome := by
  induction ds generalizing prev with
  | nil => simp
  | cons d ds ih =>
    rw [List.foldl_cons,List.pairwise_cons]
    cases d with
    | none =>
      rw [List.countP_cons_of_neg (by simp)] at hone
      simpa [turn] using ih (some key) hone (List.not_mem_of_not_mem_cons hfresh)
    | some k =>
      have hnone : ∀ e∈ds,e=none := by
        simpa [List.countP_cons_of_pos] using hone
      have hk : k≠key := fun he => hfresh (he ▸ List.mem_cons_self)
      cases ds with
      | nil => simp [turn]
      | cons e es =>
        have he:=hnone e List.mem_cons_self
        have hrest:=foldl_turn_none (fun x hx => hnone x (List.mem_cons_of_mem e hx)) k
        rw [List.foldl_cons,he]
        simp only [turn,Option.getD_some,Option.getD_none] at hrest ⊢
        rw [hrest]
        simp [hk]

end Rotation

/-- The truncated MAC answers on these keys and messages and tells all of them apart. -/
structure IdealOn (mac : Mac) (keys : List Digest) (messages : List Bytes) : Prop where
  total : ∀ k∈keys,∀ m∈messages,macCookie mac k m≠none
  binding : ∀ k∈keys,∀ l∈keys,∀ m∈messages,∀ n∈messages,
    macCookie mac k m=macCookie mac l n → k=l ∧ m=n

theorem cookieInput_inj {source other t u} (h : cookieInput source t=cookieInput other u) :
    source=other ∧ t=u := by
  obtain ⟨hs,ht⟩ := List.append_inj' h (by rw [be64,be64,length_beBytes,length_beBytes])
  exact ⟨utf8_injective hs,be64_injective ht⟩

theorem verifyAt_generateAt {mac} {s s' : CookieSecret} {source other t u messages}
    (hideal : IdealOn mac (s.current::s'.current::s'.previous.toList) messages)
    (ht : cookieInput source t∈messages) (hu : cookieInput other u∈messages) :
    s'.verifyAt mac other (s.generateAt mac source t) u=true ↔
      (source=other ∧ t=u) ∧ (s'.current=s.current ∨ s'.previous=some s.current) := by
  obtain ⟨a,ha⟩ := Option.ne_none_iff_exists'.1 (hideal.total s.current (by simp) _ ht)
  obtain ⟨b,hb⟩ := Option.ne_none_iff_exists'.1 (hideal.total s'.current (by simp) _ hu)
  have hkey : ∀ k∈s.current::s'.current::s'.previous.toList,
      (macCookie mac k (cookieInput other u)=some a ↔ (source=other ∧ t=u) ∧ k=s.current) := by
    intro k hk
    constructor
    · intro h
      obtain ⟨hks,hm⟩ := hideal.binding k hk _ (by simp) _ hu _ ht (h.trans ha.symm)
      exact ⟨cookieInput_inj hm.symm,hks⟩
    · rintro ⟨⟨rfl,rfl⟩,rfl⟩
      exact ha
  have hcurrent:=hkey s'.current (by simp)
  rw [hb,Option.some_inj] at hcurrent
  simp only [CookieSecret.verifyAt,CookieSecret.generateAt,ha,hb,Option.getD_some,
    Bool.or_eq_true,beq_iff_eq,hcurrent,and_or_left]
  apply or_congr_right
  cases hp : s'.previous with
  | none => simp
  | some prev => simp [hkey prev (by simp [hp])]

theorem cookie_survives_rotation_iff {mac s rs source other t u} (hideal : IdealOn mac
      (s.current::(rs.foldl Rotation.run s).current::(rs.foldl Rotation.run s).previous.toList)
      [cookieInput source t,cookieInput source u,cookieInput other u])
    (hother : other≠source) (hone : (Rotation.attempts s rs).countP Option.isSome≤1)
    (hfresh : some s.current∉Rotation.attempts s rs) :
    ((rs.foldl Rotation.run s).verifyAt mac source (s.generateAt mac source t) u=true ∧
        (rs.foldl Rotation.run s).verifyAt mac other (s.generateAt mac source t) u=false) ↔
      t=u ∧ (Rotation.attempts s rs).Pairwise fun d e => d.isSome → e.isSome := by
  rw [← Bool.not_eq_true,verifyAt_generateAt hideal (by simp) (by simp),
    verifyAt_generateAt hideal (by simp) (by simp),← Rotation.held_iff s.current s.previous hone
    hfresh,← Rotation.keys_foldl_run]
  simp [hother.symm]

namespace Sample

def oneDigest : Digest := ⟨1::List.replicate 31 0,rfl⟩
def mac : Mac := fun k m => .ok ⟨(m++k.bytes).take 32,by simp [k.size]⟩
def secret : CookieSecret := ⟨zeroDigest,none,0,120⟩

end Sample
open Sample

theorem cookie_survives_one_rotation : let s':=[⟨true,some oneDigest,0⟩].foldl Rotation.run secret
    s'.verifyAt mac "a" (secret.generateAt mac "a" 7) 7=true ∧
      s'.verifyAt mac "b" (secret.generateAt mac "a" 7) 7=false := by
  refine (cookie_survives_rotation_iff ⟨?_,?_⟩ ?_ ?_ ?_).2 ⟨rfl,?_⟩
  all_goals decide +kernel

theorem cookie_rejected_next_second :
    IdealOn mac [zeroDigest] [cookieInput "a" 7,cookieInput "a" 8] ∧
      secret.verifyAt mac "a" (secret.generateAt mac "a" 7) 8=false := by
  refine ⟨⟨?_,?_⟩,?_⟩
  all_goals decide +kernel

end OriginTools.Attest
