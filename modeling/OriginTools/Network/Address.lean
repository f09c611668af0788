import OriginTools.Foundation.Framing
import OriginTools.Network.Wire
import OriginTools.Proof.Mmr

/-!
# Printed addresses

`origin-network/src/address.rs`: the parts of an address are printed without a mark of
which part they are, and read back by their position.
-/

namespace OriginTools.Network
open List Framing

def Fingerprint.fromHex (s : String) : Except NetworkError Fingerprint :=
  match Vcs.hexDecode s with
  | .error e => .error (.address s!"bad hex: {e}")
  | .ok bytes =>
    if h : bytes.length=32 then .ok ⟨⟨bytes,h⟩⟩
    else .error (.address s!"fingerprint is 32 bytes, got {bytes.length}")

structure ServicePort where
  port : UInt32
  deriving DecidableEq

structure OriginAddress where
  identity : Fingerprint
  device : Option UInt32
  service : Option ServicePort
  session : Option UInt64
  deriving DecidableEq

/-- `str::parse` of an unsigned type with `bound` values. -/
def parseUnsigned (bound : ℕ) (error part : String) : Except NetworkError ℕ :=
  let digits:=match part.toList with
    | '+'::rest => rest
    | cs => cs
  if digits=[] ∨ ¬ digits.all Char.isDigit ∨ bound≤Nat.ofDigitChars 10 digits 0 then
    .error (.address s!"{error} '{part}'")
  else .ok (Nat.ofDigitChars 10 digits 0)

namespace OriginAddress

def new (identity : Fingerprint) : OriginAddress := ⟨identity,none,none,none⟩

def parsePart (addr : OriginAddress) (part : String) : Except NetworkError OriginAddress :=
  match addr.device,addr.service,addr.session with
  | none,_,_ => do
    let d ← parseUnsigned (2^32) "bad device id" part
    return { addr with device := some (.ofNat d) }
  | some _,none,_ => do
    let p ← parseUnsigned (2^32) "bad service port" part
    return { addr with service := some ⟨.ofNat p⟩ }
  | some _,some _,none => do
    let s ← parseUnsigned (2^64) "bad session id" part
    return { addr with session := some (.ofNat s) }
  | some _,some _,some _ => .error (.address s!"too many address components: '{part}'")

def parse (s : String) : Except NetworkError OriginAddress :=
  if "origin:".toList.isPrefixOf s.toList then
    let rest:=String.ofList (s.toList.drop 7)
    if rest = "" then .error (.address "empty address body")
    else match segments rest with
    | [] => .error (.address "empty address body")
    | first::parts => do
      let identity ← Fingerprint.fromHex first
      parts.foldlM parsePart (new identity)
  else .error (.address "missing 'origin:' scheme prefix")

def toText (a : OriginAddress) : String :=
  "origin:"++a.identity.toHex++(a.device.elim "" fun d => "/"++toString d.toNat)++
    (a.service.elim "" fun s => "/"++toString s.port.toNat)++
    (a.session.elim "" fun s => "/"++toString s.toNat)

/-- No part is present behind an absent one. -/
def Positional (a : OriginAddress) : Prop :=
  (a.device=none → a.service=none) ∧ (a.service=none → a.session=none)

theorem parsePart_positional {addr b part} (h : parsePart addr part=.ok b)
    (hpos : addr.Positional) : b.Positional := by
  obtain ⟨identity,device,service,session⟩ := addr
  unfold parsePart at h
  rcases device with _ | d
  · obtain ⟨d,-,hb⟩ := bind_eq_ok h
    cases hb
    exact ⟨nofun,hpos.2⟩
  rcases service with _ | p
  · obtain ⟨p,-,hb⟩ := bind_eq_ok h
    cases hb
    exact ⟨nofun,nofun⟩
  rcases session with _ | s
  · obtain ⟨s,-,hb⟩ := bind_eq_ok h
    cases hb
    exact ⟨nofun,nofun⟩
  · cases h

theorem foldlM_positional {parts addr b} (h : foldlM parsePart addr parts=.ok b)
    (hpos : addr.Positional) : b.Positional := by
  induction parts generalizing addr with
  | nil => exact Except.ok.inj h ▸ hpos
  | cons part parts ih =>
    obtain ⟨next,hnext,hrest⟩ := bind_eq_ok h
    exact ih hrest (parsePart_positional hnext hpos)

theorem parse_positional {s b} (h : parse s=.ok b) : b.Positional := by
  unfold parse at h
  dsimp only at h
  split_ifs at h
  split at h
  · cases h
  · obtain ⟨identity,-,hparts⟩ := bind_eq_ok h
    exact foldlM_positional hparts ⟨fun _ => rfl,fun _ => rfl⟩

theorem isDigit_of_mem_toString {n : ℕ} {c} (h : c∈(toString n).toList) : c.isDigit=true := by
  have hlist : (toString n).toList=Nat.toDigits 10 n := by simp [toString,Nat.repr]
  exact Nat.isDigit_of_mem_toDigits (by omega) (by omega) (hlist ▸ h)

theorem parseUnsigned_toString {n bound} (h : n<bound) (error : String) :
    parseUnsigned bound error (toString n)=.ok n := by
  have hlist : (toString n).toList=Nat.toDigits 10 n := by simp [toString,Nat.repr]
  have hdigits : ∀ c∈Nat.toDigits 10 n,c.isDigit=true := fun c hc =>
    isDigit_of_mem_toString (hlist ▸ hc)
  have hsign : (match Nat.toDigits 10 n with
      | '+'::rest => rest
      | cs => cs)=Nat.toDigits 10 n := by
    split
    · rename_i heq
      have hplus : '+'.isDigit=true := hdigits '+' (heq ▸ .head _)
      exact absurd hplus (by decide)
    · rfl
  unfold parseUnsigned
  rw [hlist]
  simp only [hsign]
  rw [Nat.ofDigitChars_toDigits (by omega) (by omega),if_neg]
  simp only [not_or,not_not,all_eq_true,not_le]
  exact ⟨Nat.toDigits_ne_nil,hdigits,h⟩

theorem toHex_eq (fp : Fingerprint) : fp.toHex=Proof.hexEncode fp.bytes.toList := by
  apply String.toList_inj.mp
  simp [Fingerprint.toHex,Proof.hexEncode,String.toList_join,Channel.hexByte,flatMap_map]

theorem fromHex_toHex (fp : Fingerprint) : Fingerprint.fromHex fp.toHex=.ok fp := by
  unfold Fingerprint.fromHex
  rw [toHex_eq,Proof.hexDecode_hexEncode]
  exact dif_pos fp.bytes.2

theorem toHex_noSlash (fp : Fingerprint) : '/'∉fp.toHex.toList := by
  have hdigit : ∀ d<16,'/'≠Nat.digitChar d := by decide
  rw [toHex_eq,Proof.hexEncode,String.toList_ofList,mem_flatMap]
  rintro ⟨b,-,hb⟩
  have hlt:=b.toNat_lt
  simp only [mem_cons,not_mem_nil,or_false] at hb
  rcases hb with hb | hb
  · exact hdigit _ (by omega) hb
  · exact hdigit _ (by omega) hb

/-- The parts that are printed, in their order. -/
def numbers (a : OriginAddress) : List ℕ := (a.device.map UInt32.toNat).toList++
  (a.service.map fun s => s.port.toNat).toList++(a.session.map UInt64.toNat).toList

theorem toText_eq (a : OriginAddress) : a.toText=
    "origin:"++String.intercalate "/" (a.identity.toHex::a.numbers.map toString) := by
  obtain ⟨identity,device,service,session⟩ := a
  apply String.toList_inj.mp
  cases device <;> cases service <;> cases session <;> simp [toText,numbers]

theorem parse_toText (a : OriginAddress) : parse a.toText=
    (a.numbers.map toString).foldlM parsePart (new a.identity) := by
  have hsegments : segments (String.intercalate "/" (a.identity.toHex::a.numbers.map toString))=
      a.identity.toHex::a.numbers.map toString := by
    apply segments_intercalate (by simp)
    intro name hname
    rcases mem_cons.mp hname with rfl | hname
    · exact toHex_noSlash a.identity
    · obtain ⟨n,-,rfl⟩ := mem_map.mp hname
      exact fun hslash => absurd (isDigit_of_mem_toString hslash) (by decide)
  have hne : String.intercalate "/" (a.identity.toHex::a.numbers.map toString) ≠ "" := by
    intro hempty
    have htext : ""=a.identity.toHex := (cons.inj (hempty ▸ hsegments)).1
    have hhex:=fromHex_toHex a.identity
    rw [← htext] at hhex
    cases hhex
  have hpre : "origin:".toList.isPrefixOf a.toText.toList=true := by
    rw [toText_eq,String.toList_append]
    exact isPrefixOf_iff_prefix.mpr (prefix_append _ _)
  have hrest : String.ofList (a.toText.toList.drop 7)=
      String.intercalate "/" (a.identity.toHex::a.numbers.map toString) := by
    rw [toText_eq,String.toList_append]
    exact String.ofList_toList
  unfold parse
  rw [if_pos hpre]
  dsimp only
  rw [hrest,if_neg hne,hsegments]
  dsimp only
  rw [fromHex_toHex]
  rfl

theorem foldlM_step {addr next part parts} (h : parsePart addr part=.ok next) :
    foldlM parsePart addr (part::parts)=foldlM parsePart next parts := by
  rw [foldlM_cons,h]
  rfl

theorem parse_toText_of_positional {a : OriginAddress} (h : a.Positional) :
    parse a.toText=.ok a := by
  obtain ⟨identity,device,service,session⟩ := a
  obtain ⟨hservice,hsession⟩ := h
  rw [parse_toText]
  rcases device with _ | d
  · cases hservice rfl
    cases hsession rfl
    rfl
  have hd : parsePart (new identity) (toString d.toNat)=.ok ⟨identity,some d,none,none⟩ := by
    simp [parsePart,new,parseUnsigned_toString d.toNat_lt,-Nat.toString_eq_repr,-Nat.reducePow]
  rcases service with _ | p
  · cases hsession rfl
    exact foldlM_step hd
  have hp : parsePart ⟨identity,some d,none,none⟩ (toString p.port.toNat)=
      .ok ⟨identity,some d,some p,none⟩ := by
    simp [parsePart,parseUnsigned_toString p.port.toNat_lt,-Nat.toString_eq_repr,-Nat.reducePow]
  rcases session with _ | s
  · exact (foldlM_step hd).trans (foldlM_step hp)
  have hs : parsePart ⟨identity,some d,some p,none⟩ (toString s.toNat)=
      .ok ⟨identity,some d,some p,some s⟩ := by
    simp [parsePart,parseUnsigned_toString s.toNat_lt,-Nat.toString_eq_repr,-Nat.reducePow]
  exact ((foldlM_step hd).trans (foldlM_step hp)).trans (foldlM_step hs)

theorem printed_address_parses_iff (a : OriginAddress) : (parse a.toText=.ok a ↔ a.Positional) ∧
      ∀ b : OriginAddress,a.Positional → b.Positional → a.toText=b.toText → a=b := by
  refine ⟨⟨parse_positional,parse_toText_of_positional⟩,?_⟩
  intro b ha hb htext
  have hparse:=parse_toText_of_positional ha
  rw [htext,parse_toText_of_positional hb] at hparse
  exact (Except.ok.inj hparse).symm

theorem parsed_address_reprints {s t a b} (hs : parse s=.ok a) (ht : parse t=.ok b) :
    parse a.toText=.ok a ∧ (a.toText=b.toText → a=b) := by
  have ha:=parse_toText_of_positional (parse_positional hs)
  refine ⟨ha,fun htext => ?_⟩
  have hb:=parse_toText_of_positional (parse_positional ht)
  rw [← htext,ha] at hb
  exact Except.ok.inj hb

theorem signed_device_reprints :
    ∃ a,parse ("origin:"++.ofList (replicate 64 'a')++"/+7")=.ok a ∧ parse a.toText=.ok a :=
  Exists.imp (fun _ h => ⟨h,(parsed_address_reprints h h).1⟩) ⟨_,rfl⟩

def sampleService : OriginAddress :=
  { identity := ⟨.replicate 32 0xAB⟩,device := none,service := some ⟨7⟩,session := none }

theorem sampleService_prints_as_device :
    sampleService.toText={ sampleService with device := some 7,service := none }.toText ∧
      parse sampleService.toText=.ok { sampleService with device := some 7,service := none } := by
  have htext : sampleService.toText=
      { sampleService with device := some 7,service := none }.toText := rfl
  refine ⟨htext,?_⟩
  rw [htext]
  exact parse_toText_of_positional ⟨nofun,fun _ => rfl⟩

end OriginAddress
end OriginTools.Network
