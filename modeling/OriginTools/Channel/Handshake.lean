import OriginTools.Channel.Codec

/-!
# The three-message handshake

`origin-channel/src/handshake.rs`: both sides know each other's static key, exchange
ephemeral keys in the first two messages and derive the shared secret from four
Diffie-Hellman products and the transcript of the two ephemeral keys.
-/

namespace OriginTools.Channel

abbrev Bytes32 := List.Vector UInt8 32

structure DhSdk (Secret : Type) where
  publicKey : Secret → Bytes32
  diffieHellman : Secret → Bytes32 → Except String Bytes32
  hkdf : (ikm : List UInt8) → (info : String) → Except String Bytes32
  sha3 : List UInt8 → Bytes32

def msgHandshake1 : UInt8 := 0x01
def msgHandshake2 : UInt8 := 0x02
def msgHandshake3 : UInt8 := 0x03

structure HandshakeMessage where
  msgType : UInt8
  ephemeralPk : Bytes32
  payload : List UInt8

def HandshakeMessage.toBytes (msg : HandshakeMessage) : List UInt8 :=
  msg.msgType::(msg.ephemeralPk.toList++msg.payload)

def HandshakeMessage.fromBytes (data : List UInt8) : Except ChannelError HandshakeMessage :=
  if h : data.length<33 then
    .error (.handshake "handshake message too short (need 33+ bytes)")
  else
    .ok { msgType := data[0]
          ephemeralPk := ⟨(data.drop 1).take 32,by simp only [List.length_take,List.length_drop]; omega⟩
          payload := data.drop 33 }

def ssLabel : String := "origin-channel:handshake:ss:v1"

structure Handshake (Secret : Type) where
  staticSecret : Secret
  ephemeralSecret : Option Secret
  peerStaticPk : Option Bytes32
  peerEphemeralPk : Option Bytes32
  transcript : List UInt8
  isInitiator : Bool
  step : ℕ

def hexByte (b : UInt8) : String :=
  String.ofList [Nat.digitChar (b.toNat/16),Nat.digitChar (b.toNat%16)]

def csprngError (e : String) : ChannelError := .key s!"OS CSPRNG failed: {e}"

namespace Handshake
variable {Secret : Type}

def new (staticSecret : Secret) (peerStaticPk : Bytes32) (isInitiator : Bool) :
    Handshake Secret :=
  { staticSecret := staticSecret
    ephemeralSecret := none
    peerStaticPk := some peerStaticPk
    peerEphemeralPk := none
    transcript := []
    isInitiator := isInitiator
    step := 0 }

def start (sdk : DhSdk Secret) (hs : Handshake Secret) (generated : Except String Secret) :
    Except ChannelError HandshakeMessage × Handshake Secret :=
  if !hs.isInitiator then
    (.error (.handshake "only the initiator can start the handshake"),hs)
  else
    match generated with
    | .error e => (.error (csprngError e),hs)
    | .ok ephSecret =>
      let ephPublic:=sdk.publicKey ephSecret
      (.ok { msgType := msgHandshake1,ephemeralPk := ephPublic,payload := [] },{ hs with
          transcript := hs.transcript++ephPublic.toList
          ephemeralSecret := some ephSecret
          step := 1 })

def processMsg1 (sdk : DhSdk Secret) (hs : Handshake Secret) (msg : HandshakeMessage)
    (generated : Except String Secret) :
    Except ChannelError HandshakeMessage × Handshake Secret :=
  if hs.isInitiator then
    (.error (.handshake "initiator should not receive message 1"),hs)
  else if msg.msgType≠msgHandshake1 then
    (.error (.handshake s!"expected msg1 (0x01), got 0x{hexByte msg.msgType}"),hs)
  else
    let hs:={ hs with
      peerEphemeralPk := some msg.ephemeralPk
      transcript := hs.transcript++msg.ephemeralPk.toList }
    match generated with
    | .error e => (.error (csprngError e),hs)
    | .ok ephSecret =>
      let ephPublic:=sdk.publicKey ephSecret
      (.ok { msgType := msgHandshake2,ephemeralPk := ephPublic,payload := [] },{ hs with
          transcript := hs.transcript++ephPublic.toList
          ephemeralSecret := some ephSecret
          step := 2 })

def processMsg2 (hs : Handshake Secret) (msg : HandshakeMessage) :
    Except ChannelError HandshakeMessage × Handshake Secret :=
  if !hs.isInitiator then
    (.error (.handshake "responder should not receive message 2"),hs)
  else if msg.msgType≠msgHandshake2 then
    (.error (.handshake s!"expected msg2 (0x02), got 0x{hexByte msg.msgType}"),hs)
  else
    (.ok { msgType := msgHandshake3,ephemeralPk := List.Vector.replicate 32 0,payload := [] },
      { hs with
        peerEphemeralPk := some msg.ephemeralPk
        transcript := hs.transcript++msg.ephemeralPk.toList
        step := 3 })

def processMsg3 (hs : Handshake Secret) (msg : HandshakeMessage) :
    Except ChannelError Unit × Handshake Secret :=
  if hs.isInitiator then
    (.error (.handshake "initiator should not receive message 3"),hs)
  else if msg.msgType≠msgHandshake3 then
    (.error (.handshake s!"expected msg3 (0x03), got 0x{hexByte msg.msgType}"),hs)
  else (.ok (),{ hs with step := 3 })

def dhOrHandshake (sdk : DhSdk Secret) (op : String) (secret : Secret) (peer : Bytes32) :
    Except ChannelError Bytes32 :=
  match sdk.diffieHellman secret peer with
  | .error e => .error (.handshake s!"{op}: key error: {e}")
  | .ok shared => .ok shared

def keyMaterial (sdk : DhSdk Secret) (hs : Handshake Secret) : Except ChannelError (List UInt8) :=
  if hs.step<3 then
    .error (.handshake "handshake not complete (need all 3 messages)")
  else
    match hs.ephemeralSecret,hs.peerEphemeralPk,hs.peerStaticPk with
    | none,_,_ => .error (.handshake "no ephemeral key")
    | some _,none,_ => .error (.handshake "no peer ephemeral key")
    | some _,some _,none => .error (.handshake "no peer static key")
    | some ephSecret,some peerEph,some peerStatic => do
      let dhEe ← dhOrHandshake sdk "dh_ee" ephSecret peerEph
      let dhEs ← if hs.isInitiator then dhOrHandshake sdk "dh_es" ephSecret peerStatic
        else dhOrHandshake sdk "dh_es" hs.staticSecret peerEph
      let dhSe ← if hs.isInitiator then dhOrHandshake sdk "dh_se" hs.staticSecret peerEph
        else dhOrHandshake sdk "dh_se" ephSecret peerStatic
      let dhSs ← dhOrHandshake sdk "dh_ss" hs.staticSecret peerStatic
      .ok (dhEe.toList++dhEs.toList++dhSe.toList++dhSs.toList++hs.transcript)

def finalize (sdk : DhSdk Secret) (hs : Handshake Secret) :
    Except ChannelError (Bytes32 × Bytes32) :=
  match hs.keyMaterial sdk with
  | .error e => .error e
  | .ok ikm =>
    match sdk.hkdf ikm ssLabel with
    | .error e => .error (.handshake s!"shared secret HKDF: {e}")
    | .ok sharedSecret => .ok (sharedSecret,sdk.sha3 (hs.transcript++sharedSecret.toList))

structure KeyView where
  initiatorEphemeral : Bytes32
  responderEphemeral : Bytes32
  initiatorStatic : Bytes32
  responderStatic : Bytes32

/-- The keys as this side sees them: its own, the peer's static key it was configured with
and the ephemeral key it received. -/
def view (sdk : DhSdk Secret) (hs : Handshake Secret) : Option KeyView :=
  match hs.ephemeralSecret,hs.peerEphemeralPk,hs.peerStaticPk with
  | some ephSecret,some peerEph,some peerStatic =>
    some (if hs.isInitiator then
      ⟨sdk.publicKey ephSecret,peerEph,sdk.publicKey hs.staticSecret,peerStatic⟩
    else ⟨peerEph,sdk.publicKey ephSecret,peerStatic,sdk.publicKey hs.staticSecret⟩)
  | _,_,_ => none

def finishedInitiator (sdk : DhSdk Secret) (static eph : Secret) (peerStatic peerEph : Bytes32) :
    Handshake Secret :=
  { staticSecret := static
    ephemeralSecret := some eph
    peerStaticPk := some peerStatic
    peerEphemeralPk := some peerEph
    transcript := (sdk.publicKey eph).toList++peerEph.toList
    isInitiator := true
    step := 3 }

def finishedResponder (sdk : DhSdk Secret) (static eph : Secret) (peerStatic peerEph : Bytes32) :
    Handshake Secret :=
  { staticSecret := static
    ephemeralSecret := some eph
    peerStaticPk := some peerStatic
    peerEphemeralPk := some peerEph
    transcript := peerEph.toList++(sdk.publicKey eph).toList
    isInitiator := false
    step := 3 }

variable {peerStatic : Bytes32}

theorem initiator_run {sdk static eph msg1 msg2 msg3} {hs hs' : Handshake Secret}
    (hstart : (new static peerStatic true).start sdk (.ok eph)=(.ok msg1,hs))
    (hmsg2 : hs.processMsg2 msg2=(.ok msg3,hs')) :
    hs'=finishedInitiator sdk static eph peerStatic msg2.ephemeralPk := by
  simp only [start,new,Bool.not_true,Bool.false_eq_true,if_false,List.nil_append,
    Prod.mk.injEq] at hstart
  rw [← hstart.2] at hmsg2
  unfold processMsg2 at hmsg2
  rw [if_neg (by simp)] at hmsg2
  by_cases htype : msg2.msgType≠msgHandshake2
  · rw [if_pos htype] at hmsg2
    cases hmsg2
  · rw [if_neg htype] at hmsg2
    cases hmsg2
    rfl

theorem responder_run {sdk static eph msg1 msg2 msg3} {hs hs' : Handshake Secret}
    (hmsg1 : (new static peerStatic false).processMsg1 sdk msg1 (.ok eph)=(.ok msg2,hs))
    (hmsg3 : hs.processMsg3 msg3=(.ok (),hs')) :
    hs'=finishedResponder sdk static eph peerStatic msg1.ephemeralPk := by
  unfold processMsg1 at hmsg1
  rw [if_neg (by simp [new])] at hmsg1
  by_cases htype : msg1.msgType≠msgHandshake1
  · rw [if_pos htype] at hmsg1
    cases hmsg1
  rw [if_neg htype] at hmsg1
  simp only [Prod.mk.injEq] at hmsg1
  rw [← hmsg1.2] at hmsg3
  unfold processMsg3 at hmsg3
  rw [if_neg (by simp [new])] at hmsg3
  by_cases htype3 : msg3.msgType≠msgHandshake3
  · rw [if_pos htype3] at hmsg3
    cases hmsg3
  · rw [if_neg htype3] at hmsg3
    cases hmsg3
    rfl

theorem dhOrHandshake_ok {sdk : DhSdk Secret} (op : String) {secret peer shared}
    (h : sdk.diffieHellman secret peer=.ok shared) :
    dhOrHandshake sdk op secret peer=.ok shared := by
  simp only [dhOrHandshake,h]

theorem of_dhOrHandshake_ok {sdk : DhSdk Secret} {op secret peer shared}
    (h : dhOrHandshake sdk op secret peer=.ok shared) :
    sdk.diffieHellman secret peer=.ok shared := by
  unfold dhOrHandshake at h
  cases hdh : sdk.diffieHellman secret peer with
  | error e =>
    rw [hdh] at h
    cases h
  | ok x =>
    rw [hdh] at h
    cases h
    rfl

def material (ee es se ss : Bytes32) (transcript : List UInt8) : List UInt8 :=
  ee.toList++es.toList++se.toList++ss.toList++transcript

theorem material_inj {ee es se ss ee' es' se' ss' t t'}
    (h : material ee es se ss t=material ee' es' se' ss' t') :
    ee=ee' ∧ es=es' ∧ se=se' ∧ ss=ss' ∧ t=t' := by
  unfold material at h
  simp only [List.append_assoc] at h
  obtain ⟨hee,h⟩ := List.append_inj h (by simp)
  obtain ⟨hes,h⟩ := List.append_inj h (by simp)
  obtain ⟨hse,h⟩ := List.append_inj h (by simp)
  obtain ⟨hss,ht⟩ := List.append_inj h (by simp)
  exact ⟨Subtype.ext hee,Subtype.ext hes,Subtype.ext hse,Subtype.ext hss,ht⟩

theorem initiator_keyMaterial {sdk : DhSdk Secret} {static eph} {peerEph : Bytes32} {ikm}
    (h : (finishedInitiator sdk static eph peerStatic peerEph).keyMaterial sdk=.ok ikm) :
    ∃ ee es se ss,sdk.diffieHellman eph peerEph=.ok ee ∧
      sdk.diffieHellman eph peerStatic=.ok es ∧ sdk.diffieHellman static peerEph=.ok se ∧
      sdk.diffieHellman static peerStatic=.ok ss ∧
      ikm=material ee es se ss ((sdk.publicKey eph).toList++peerEph.toList) := by
  simp only [keyMaterial,finishedInitiator,lt_irrefl,if_false,if_true] at h
  obtain ⟨ee,hee,h⟩ := bind_eq_ok h
  obtain ⟨es,hes,h⟩ := bind_eq_ok h
  obtain ⟨se,hse,h⟩ := bind_eq_ok h
  obtain ⟨ss,hss,h⟩ := bind_eq_ok h
  cases h
  exact ⟨ee,es,se,ss,of_dhOrHandshake_ok hee,of_dhOrHandshake_ok hes,
    of_dhOrHandshake_ok hse,of_dhOrHandshake_ok hss,rfl⟩

theorem responder_keyMaterial {sdk : DhSdk Secret} {static eph} {peerEph : Bytes32} {ikm}
    (h : (finishedResponder sdk static eph peerStatic peerEph).keyMaterial sdk=.ok ikm) :
    ∃ ee es se ss,sdk.diffieHellman eph peerEph=.ok ee ∧
      sdk.diffieHellman static peerEph=.ok es ∧ sdk.diffieHellman eph peerStatic=.ok se ∧
      sdk.diffieHellman static peerStatic=.ok ss ∧
      ikm=material ee es se ss (peerEph.toList++(sdk.publicKey eph).toList) := by
  simp only [keyMaterial,finishedResponder,lt_irrefl,if_false,Bool.false_eq_true] at h
  obtain ⟨ee,hee,h⟩ := bind_eq_ok h
  obtain ⟨es,hes,h⟩ := bind_eq_ok h
  obtain ⟨se,hse,h⟩ := bind_eq_ok h
  obtain ⟨ss,hss,h⟩ := bind_eq_ok h
  cases h
  exact ⟨ee,es,se,ss,of_dhOrHandshake_ok hee,of_dhOrHandshake_ok hes,
    of_dhOrHandshake_ok hse,of_dhOrHandshake_ok hss,rfl⟩

theorem finalize_ok {sdk} {hs : Handshake Secret} {secret sid}
    (h : hs.finalize sdk=.ok (secret,sid)) :
    ∃ ikm,hs.keyMaterial sdk=.ok ikm ∧ sdk.hkdf ikm ssLabel=.ok secret := by
  unfold finalize at h
  split at h
  · cases h
  next ikm hikm =>
    split at h
    · cases h
    next shared hshared =>
      cases h
      exact ⟨ikm,hikm,hshared⟩

/-- Diffie-Hellman and key derivation without accidents: shared keys commute and exist between
generated keys, and among `keys` and the key material in `inputs` nothing collides. -/
structure IdealDh (sdk : DhSdk Secret) (keys : Set Bytes32) (inputs : Set (List UInt8)) :
    Prop where
  commutes : ∀ a b,sdk.diffieHellman a (sdk.publicKey b)=sdk.diffieHellman b (sdk.publicKey a)
  agrees : ∀ a b,∃ shared,sdk.diffieHellman a (sdk.publicKey b)=.ok shared
  derives : ∀ ikm,∃ key,sdk.hkdf ikm ssLabel=.ok key
  collisionFree : ∀ a b peer peer' shared,sdk.publicKey a∈keys → sdk.publicKey b∈keys →
    peer∈keys → peer'∈keys → sdk.diffieHellman a peer=.ok shared →
    sdk.diffieHellman b peer'=.ok shared →
    (sdk.publicKey a=sdk.publicKey b ∧ peer=peer') ∨ (sdk.publicKey a=peer' ∧ peer=sdk.publicKey b)
  injective : ∀ ikm ikm' key,ikm∈inputs → ikm'∈inputs → sdk.hkdf ikm ssLabel=.ok key →
    sdk.hkdf ikm' ssLabel=.ok key → ikm=ikm'

def Covered (sdk : DhSdk Secret) (keys : Set Bytes32) (inputs : Set (List UInt8))
    (hs : Handshake Secret) : Prop :=
  (∀ v,hs.view sdk=some v → v.initiatorEphemeral∈keys ∧ v.responderEphemeral∈keys ∧
    v.initiatorStatic∈keys ∧ v.responderStatic∈keys) ∧
  ∀ ikm,hs.keyMaterial sdk=.ok ikm → ikm∈inputs

variable {sdk : DhSdk Secret} {keys : Set Bytes32} {inputs : Set (List UInt8)}

theorem finalize_honest (hideal : IdealDh sdk keys inputs) (si sr ei er : Secret) : ∃ secret sid,
      (finishedInitiator sdk si ei (sdk.publicKey sr) (sdk.publicKey er)).finalize sdk=
        .ok (secret,sid) ∧
      (finishedResponder sdk sr er (sdk.publicKey si) (sdk.publicKey ei)).finalize sdk=
        .ok (secret,sid) := by
  obtain ⟨ee,hee⟩ := hideal.agrees ei er
  obtain ⟨es,hes⟩ := hideal.agrees ei sr
  obtain ⟨se,hse⟩ := hideal.agrees si er
  obtain ⟨ss,hss⟩ := hideal.agrees si sr
  have hee' : sdk.diffieHellman er (sdk.publicKey ei)=.ok ee := by rw [← hideal.commutes,hee]
  have hes' : sdk.diffieHellman sr (sdk.publicKey ei)=.ok es := by rw [← hideal.commutes,hes]
  have hse' : sdk.diffieHellman er (sdk.publicKey si)=.ok se := by rw [← hideal.commutes,hse]
  have hss' : sdk.diffieHellman sr (sdk.publicKey si)=.ok ss := by rw [← hideal.commutes,hss]
  have hinitiator :
      (finishedInitiator sdk si ei (sdk.publicKey sr) (sdk.publicKey er)).keyMaterial sdk=
        .ok (material ee es se ss ((sdk.publicKey ei).toList++(sdk.publicKey er).toList)) := by
    simp only [keyMaterial,finishedInitiator,lt_irrefl,if_false,if_true,
      dhOrHandshake_ok _ hee,dhOrHandshake_ok _ hes,
      dhOrHandshake_ok _ hse,dhOrHandshake_ok _ hss]
    rfl
  have hresponder :
      (finishedResponder sdk sr er (sdk.publicKey si) (sdk.publicKey ei)).keyMaterial sdk=
        .ok (material ee es se ss ((sdk.publicKey ei).toList++(sdk.publicKey er).toList)) := by
    simp only [keyMaterial,finishedResponder,lt_irrefl,if_false,Bool.false_eq_true,
      dhOrHandshake_ok _ hee',dhOrHandshake_ok _ hes',
      dhOrHandshake_ok _ hse',dhOrHandshake_ok _ hss']
    rfl
  obtain ⟨secret,hsecret⟩ := hideal.derives
    (material ee es se ss ((sdk.publicKey ei).toList++(sdk.publicKey er).toList))
  refine ⟨secret,sdk.sha3 ((sdk.publicKey ei).toList++(sdk.publicKey er).toList++
    secret.toList),?_,?_⟩
  · simp only [finalize,hinitiator,hsecret]
    rfl
  · simp only [finalize,hresponder,hsecret]
    rfl

theorem views_agree (hideal : IdealDh sdk keys inputs) {si sr ei er : Secret}
    {peerI peerR ephI ephR : Bytes32} {secret sidI sidR : Bytes32}
    (hcoverI : Covered sdk keys inputs (finishedInitiator sdk si ei peerI ephI))
    (hcoverR : Covered sdk keys inputs (finishedResponder sdk sr er peerR ephR))
    (hI : (finishedInitiator sdk si ei peerI ephI).finalize sdk=.ok (secret,sidI))
    (hR : (finishedResponder sdk sr er peerR ephR).finalize sdk=.ok (secret,sidR)) :
    ∃ v,(finishedInitiator sdk si ei peerI ephI).view sdk=some v ∧
      (finishedResponder sdk sr er peerR ephR).view sdk=some v := by
  obtain ⟨ikm,hikm,hkey⟩ := finalize_ok hI
  obtain ⟨ikm',hikm',hkey'⟩ := finalize_ok hR
  have hsame : ikm=ikm' := hideal.injective ikm ikm' secret (hcoverI.2 ikm hikm)
    (hcoverR.2 ikm' hikm') hkey hkey'
  obtain ⟨ee,es,se,ss,_,hes,hse,_,hmaterial⟩ :=
    initiator_keyMaterial hikm
  obtain ⟨ee',es',se',ss',_,hes',hse',_,hmaterial'⟩ :=
    responder_keyMaterial hikm'
  rw [hmaterial,hmaterial'] at hsame
  obtain ⟨_,hes_eq,hse_eq,_,htranscript⟩ := material_inj hsame
  obtain ⟨hei,her⟩ := List.append_inj htranscript (by simp)
  have heph : sdk.publicKey ei=ephR := Subtype.ext hei
  have heph' : ephI=sdk.publicKey er := Subtype.ext her
  obtain ⟨hkei,hkephI,hksi,hkpeerI⟩ := hcoverI.1 _ rfl
  obtain ⟨hkephR,hker,hkpeerR,hksr⟩ := hcoverR.1 _ rfl
  subst hes_eq
  subst hse_eq
  have hstaticR : peerI=sdk.publicKey sr := by
    rcases hideal.collisionFree ei sr peerI ephR es hkei hksr hkpeerI hkephR hes hes' with
      ⟨hown,hpeer⟩ | ⟨_,hpeer⟩
    · rw [hpeer,← heph,hown]
    · exact hpeer
  have hstaticI : sdk.publicKey si=peerR := by
    rcases hideal.collisionFree si er ephI peerR se hksi hker hkephI hkpeerR hse hse' with
      ⟨hown,hpeer⟩ | ⟨hown,_⟩
    · rw [hown,← heph',hpeer]
    · exact hown
  refine ⟨⟨sdk.publicKey ei,ephI,sdk.publicKey si,peerI⟩,rfl,?_⟩
  rw [heph,heph',hstaticR,hstaticI]
  rfl

def padded (bytes : List UInt8) (h : bytes.length≤32) : Bytes32 :=
  ⟨bytes++List.replicate (32-bytes.length) 0,by simp; omega⟩

def sampleDh : DhSdk (Fin 4) where
  publicKey a := padded [UInt8.ofNat a] (by simp)
  diffieHellman a peer := .ok (padded [1 <<< UInt8.ofNat a+1 <<< peer.head] (by simp))
  hkdf _ _ := .ok (padded [] (by decide))
  sha3 _ := padded [] (by decide)

def sampleInitiator : Handshake (Fin 4) :=
  finishedInitiator sampleDh 0 1 (sampleDh.publicKey 2) (sampleDh.publicKey 3)

def sampleResponder : Handshake (Fin 4) :=
  finishedResponder sampleDh 2 3 (sampleDh.publicKey 0) (sampleDh.publicKey 1)

theorem sampleDh_pair : ∀ a b c d : Fin 4,
    (1 : UInt8) <<< UInt8.ofNat a+1 <<< UInt8.ofNat c=1 <<< UInt8.ofNat b+1 <<< UInt8.ofNat d →
    (a=b ∧ c=d) ∨ (a=d ∧ c=b) := by
  decide

theorem sampleDh_ideal : IdealDh sampleDh (Set.range sampleDh.publicKey)
    {ikm | sampleInitiator.keyMaterial sampleDh=.ok ikm} where
  commutes := by decide
  agrees := fun a b => ⟨_,rfl⟩
  derives := fun ikm => ⟨_,rfl⟩
  collisionFree := by
    intro a b peer peer' shared _ _ hpeer hpeer' hshared hshared'
    obtain ⟨c,rfl⟩ := hpeer
    obtain ⟨d,rfl⟩ := hpeer'
    have heq:=congrArg (fun v : Bytes32 => v.head) (Except.ok.inj (hshared.trans hshared'.symm))
    rcases sampleDh_pair a b c d heq with ⟨hab,hcd⟩ | ⟨had,hcb⟩
    · exact .inl ⟨by rw [hab],by rw [hcd]⟩
    · exact .inr ⟨by rw [had],by rw [hcb]⟩
  injective := by
    intro ikm ikm' key hikm hikm' _ _
    exact Except.ok.inj (hikm.symm.trans hikm')

/-- Messages delivered unchanged give both sides one secret and one session id; and whatever
messages two runs were fed, equal secrets mean that both sides saw the same four keys. -/
theorem handshake_agreement (sdk : DhSdk Secret) (keys : Set Bytes32)
    (inputs : Set (List UInt8)) (hideal : IdealDh sdk keys inputs) :
    (∀ si sr ei er : Secret,∃ msg1 msg2 msg3 a a' b b' secret sid,
      (new si (sdk.publicKey sr) true).start sdk (.ok ei)=(.ok msg1,a) ∧
      (new sr (sdk.publicKey si) false).processMsg1 sdk msg1 (.ok er)=(.ok msg2,b) ∧
      a.processMsg2 msg2=(.ok msg3,a') ∧ b.processMsg3 msg3=(.ok (),b') ∧
      a'.finalize sdk=.ok (secret,sid) ∧ b'.finalize sdk=.ok (secret,sid)) ∧
    (∀ (si sr ei er : Secret) (peerI peerR : Bytes32)
      (sent1 sent2 sent3 got1 got2 got3 : HandshakeMessage) (a a' b b' : Handshake Secret)
      (secret sidI sidR : Bytes32),
      (new si peerI true).start sdk (.ok ei)=(.ok sent1,a) →
      (new sr peerR false).processMsg1 sdk got1 (.ok er)=(.ok sent2,b) →
      a.processMsg2 got2=(.ok sent3,a') → b.processMsg3 got3=(.ok (),b') →
      Covered sdk keys inputs a' → Covered sdk keys inputs b' →
      a'.finalize sdk=.ok (secret,sidI) → b'.finalize sdk=.ok (secret,sidR) →
      ∃ v,a'.view sdk=some v ∧ b'.view sdk=some v) := by
  constructor
  · intro si sr ei er
    obtain ⟨secret,sid,hI,hR⟩ := finalize_honest hideal si sr ei er
    exact ⟨_,_,_,_,finishedInitiator sdk si ei (sdk.publicKey sr) (sdk.publicKey er),_,
      finishedResponder sdk sr er (sdk.publicKey si) (sdk.publicKey ei),secret,sid,rfl,rfl,
      rfl,rfl,hI,hR⟩
  · intro si sr ei er peerI peerR sent1 sent2 sent3 got1 got2 got3 a a' b b' secret sidI sidR
      hstart hmsg1 hmsg2 hmsg3 hcoverI hcoverR hI hR
    have ha:=initiator_run hstart hmsg2
    have hb:=responder_run hmsg1 hmsg3
    subst ha
    subst hb
    exact views_agree hideal hcoverI hcoverR hI hR

theorem handshake_agreement_sample :
    ∃ v,sampleInitiator.view sampleDh=some v ∧ sampleResponder.view sampleDh=some v := by
  have hagree:=(handshake_agreement sampleDh _ _ sampleDh_ideal).2 0 2 1 3
    (sampleDh.publicKey 2) (sampleDh.publicKey 0) _ _ _
    { msgType := msgHandshake1,ephemeralPk := sampleDh.publicKey 1,payload := [] }
    { msgType := msgHandshake2,ephemeralPk := sampleDh.publicKey 3,payload := [] }
    { msgType := msgHandshake3,ephemeralPk := List.Vector.replicate 32 0,payload := [] }
    _ sampleInitiator _ sampleResponder (padded [] (by decide)) (padded [] (by decide))
    (padded [] (by decide)) rfl rfl rfl rfl
  refine hagree ⟨?_,fun ikm h => h⟩ ⟨?_,?_⟩ (by decide +kernel) (by decide +kernel)
  · intro v hv
    cases hv
    exact ⟨⟨_,rfl⟩,⟨_,rfl⟩,⟨_,rfl⟩,⟨_,rfl⟩⟩
  · intro v hv
    cases hv
    exact ⟨⟨_,rfl⟩,⟨_,rfl⟩,⟨_,rfl⟩,⟨_,rfl⟩⟩
  · intro ikm h
    cases h
    decide +kernel

end Handshake
end OriginTools.Channel
