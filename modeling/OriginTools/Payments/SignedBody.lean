import OriginTools.Foundation.Framing
import OriginTools.Payments.Order
import OriginTools.Vcs.Object

/-!
# What the signature of an order covers

The signed body of an order is its texts, one after the other, with no length or
separator between them.
-/

namespace OriginTools.Payments
open Vcs (utf8 utf8_injective utf8_append)

def leBytes4 (x : ℕ) : Bytes := (beBytes 4 x).reverse

def fxFields : Option FxRate → List Bytes
  | some fx => [[1],utf8 fx.source,utf8 fx.target,utf8 fx.rate,leBytes4 fx.markupBps]
  | none => [[0]]

def railFields : Option RailHint → List Bytes
  | some r => [[1],utf8 r.asStr]
  | none => [[0]]

def PaymentOrder.signedBody (o : PaymentOrder) : Bytes :=
  [UInt8.ofNat o.version]++utf8 o.paymentOrderId++utf8 o.checkoutId++utf8 o.recipient++
    utf8 o.amount++utf8 o.currency++(fxFields o.fx).flatten++(railFields o.rail).flatten

open PaymentOrder

structure SignedTerms where
  version : ℕ
  paymentOrderId : String
  checkoutId : String
  recipient : String
  amount : String
  currency : String
  fx : Option FxRate
  rail : Option RailHint

def PaymentOrder.signedTerms (o : PaymentOrder) : SignedTerms where
  version := o.version
  paymentOrderId := o.paymentOrderId
  checkoutId := o.checkoutId
  recipient := o.recipient
  amount := o.amount
  currency := o.currency
  fx := o.fx
  rail := o.rail

structure SignedTerms.Ranged (t : SignedTerms) : Prop where
  version : t.version<2^8
  markup : ∀ fx,t.fx=some fx → fx.markupBps<2^32

def SignedTerms.fields (t : SignedTerms) : List Bytes :=
  [[UInt8.ofNat t.version],utf8 t.paymentOrderId,utf8 t.checkoutId,utf8 t.recipient,
    utf8 t.amount,utf8 t.currency]++fxFields t.fx++railFields t.rail

theorem PaymentOrder.signedBody_eq (o : PaymentOrder) :
    o.signedBody=Framing.message SignedTerms.fields o.signedTerms := by
  simp [signedBody,Framing.message,SignedTerms.fields,signedTerms]

theorem leBytes4_inj {x y} (hx : x<2^32) (hy : y<2^32) (h : leBytes4 x=leBytes4 y) : x=y := by
  have hrev:=List.reverse_injective h
  have hval:=congrArg beValue hrev
  rw [beValue_beBytes,beValue_beBytes] at hval
  norm_num at hval
  omega

theorem ofNat_version_inj {x y} (hx : x<2^8) (hy : y<2^8)
    (h : UInt8.ofNat x=UInt8.ofNat y) : x=y := by
  have hval:=congrArg UInt8.toNat h
  rw [UInt8.toNat_ofNat',UInt8.toNat_ofNat'] at hval
  omega

theorem asStr_injective : Function.Injective RailHint.asStr := by
  intro r s h
  cases r <;> cases s <;> first | rfl | exact absurd h (by decide)

theorem railFields_injective : Function.Injective railFields := by
  intro r s h
  cases r with
  | none =>
    cases s with
    | none => rfl
    | some s => cases h
  | some r =>
    cases s with
    | none => cases h
    | some s =>
      simp only [railFields,List.cons.injEq,and_true,true_and] at h
      rw [asStr_injective (utf8_injective h)]

theorem length_railFields_lt (r s) : (railFields r).length<(railFields s).length+4 := by
  cases r <;> cases s <;> simp [railFields]

theorem fxFields_inj {f g} (hf : ∀ fx,f=some fx → fx.markupBps<2^32)
    (hg : ∀ fx,g=some fx → fx.markupBps<2^32) (h : fxFields f=fxFields g) : f=g := by
  cases f with
  | none =>
    cases g with
    | none => rfl
    | some g => cases h
  | some f =>
    rcases g with _ | g
    · cases h
    simp only [fxFields,List.cons.injEq,and_true,true_and] at h
    obtain ⟨hsource,htarget,hrate,hmarkup⟩ := h
    have hsource:=utf8_injective hsource
    have htarget:=utf8_injective htarget
    have hrate:=utf8_injective hrate
    have hmarkup:=leBytes4_inj (hf f rfl) (hg g rfl) hmarkup
    cases f
    cases g
    simp_all

theorem length_fxFields {f g r s}
    (h : (fxFields f++railFields r).length=(fxFields g++railFields s).length) :
    (fxFields f).length=(fxFields g).length := by
  have hrs:=length_railFields_lt r s
  have hsr:=length_railFields_lt s r
  rw [List.length_append,List.length_append] at h
  cases f with
  | none =>
    cases g with
    | none => rfl
    | some g =>
      simp only [fxFields,List.length_cons,List.length_nil] at h
      omega
  | some f =>
    cases g with
    | none =>
      simp only [fxFields,List.length_cons,List.length_nil] at h
      omega
    | some g => rfl

theorem SignedTerms.fields_inj {t u : SignedTerms} (ht : t.Ranged) (hu : u.Ranged)
    (h : t.fields=u.fields) : t=u := by
  unfold SignedTerms.fields at h
  simp only [List.cons_append,List.nil_append,List.cons.injEq,and_true] at h
  obtain ⟨hversion,hid,hcheckout,hrecipient,hamount,hcurrency,hrest⟩ := h
  obtain ⟨hfx,hrail⟩ := List.append_inj hrest (length_fxFields (congrArg List.length hrest))
  have hversion:=ofNat_version_inj ht.version hu.version hversion
  have hid:=utf8_injective hid
  have hcheckout:=utf8_injective hcheckout
  have hrecipient:=utf8_injective hrecipient
  have hamount:=utf8_injective hamount
  have hcurrency:=utf8_injective hcurrency
  have hfx:=fxFields_inj ht.markup hu.markup hfx
  have hrail:=railFields_injective hrail
  cases t
  cases u
  simp_all

def PaymentOrder.signedFrame (o : PaymentOrder) : List ℕ :=
  Framing.frame SignedTerms.fields o.signedTerms

theorem signedBody_shift (o : PaymentOrder) (recipient shifted amount : String) :
    { o with recipient := recipient++shifted,amount := amount }.signedBody=
      { o with recipient := recipient,amount := shifted++amount }.signedBody := by
  simp [signedBody,utf8_append]

theorem signed_terms_eq_iff {o₁ o₂ : PaymentOrder} (h₁ : o₁.signedTerms.Ranged)
    (h₂ : o₂.signedTerms.Ranged) (h : o₁.signedBody=o₂.signedBody) :
    o₁.signedTerms=o₂.signedTerms ↔ o₁.signedFrame=o₂.signedFrame := by
  rw [signedBody_eq,signedBody_eq] at h
  exact Framing.eq_iff_frame_eq (SignedTerms.fields_inj h₁ h₂) h

structure HybridSdk where
  Sig : Type
  decode : Bytes → Except String Sig
  verify : Sig → Bytes → Bytes → Bytes → Bool

inductive VerifyError where
  | unsigned (paymentOrderId : String)
  | cryptoError (details : String)

def verifyOrder (sdk : HybridSdk) (o : PaymentOrder) : Except VerifyError Bool :=
  match o.signer with
  | none => .error (.unsigned o.paymentOrderId)
  | some signer =>
      match o.signature with
      | none => .error (.unsigned o.paymentOrderId)
      | some bytes =>
          match sdk.decode bytes with
          | .error e => .error (.cryptoError ("decoding signature: "++e))
          | .ok sig => .ok (sdk.verify sig signer.edPk signer.falconPk o.signedBody)

namespace Sample

def signedOrder (recipient amount : String) : PaymentOrder :=
  { new "o1" "2026" "c1" recipient amount "USD" with
    signature := some []
    signer := some { edPk := [],falconPk := [],domain := "payments" } }

theorem signedOrder_ranged (recipient amount : String) :
    (signedOrder recipient amount).signedTerms.Ranged where
  version := by
    show 1<2^8
    norm_num
  markup := fun _ hfx => by cases hfx

end Sample
open Sample

theorem signed_terms_of_executing : (signedOrder "mesh1" "0.00").signedTerms=
      { signedOrder "mesh1" "0.00" with status := .executing }.signedTerms :=
  (signed_terms_eq_iff (signedOrder_ranged _ _) (signedOrder_ranged _ _) rfl).2 rfl

/-- Moving one digit from the recipient to the amount keeps the signed body, and so
every signature. -/
theorem signed_order_reread :
    (signedOrder "mesh1" "0.00").signedBody=(signedOrder "mesh" "10.00").signedBody ∧
      (∀ sdk,verifyOrder sdk (signedOrder "mesh1" "0.00")=
        verifyOrder sdk (signedOrder "mesh" "10.00")) ∧
      (signedOrder "mesh1" "0.00").signedTerms≠(signedOrder "mesh" "10.00").signedTerms := by
  have hbody : (signedOrder "mesh1" "0.00").signedBody=(signedOrder "mesh" "10.00").signedBody :=
    signedBody_shift (signedOrder "mesh" "10.00") "mesh" "1" "0.00"
  refine ⟨hbody,?_,?_⟩
  · intro sdk
    simp only [verifyOrder,hbody]
    rfl
  · intro hterms
    have hrecipient : "mesh1" = "mesh" := congrArg SignedTerms.recipient hterms
    exact absurd hrecipient (by decide)

end OriginTools.Payments
