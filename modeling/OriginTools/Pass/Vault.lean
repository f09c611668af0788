import OriginTools.Proof.Mmr

/-!
# The password vault

`origin-pass/src/vault.rs`: a header of 50 bytes, the encrypted index with a row of 76
bytes for each entry, and the encrypted entries one after the other.
-/

namespace OriginTools.Pass
open Vcs (utf8)
open Proof (hexEncode)

abbrev Bytes := List UInt8
abbrev Block (n : ℕ) := List.Vector UInt8 n
def block (n : ℕ) (bytes : Bytes) : Block n := ⟨bytes.takeD n 0,List.takeD_length ..⟩

inductive MemoryTier
  | nano
  | standard
  | sovereign

def tierToByte : MemoryTier → UInt8
  | .nano => 0
  | .standard => 1
  | .sovereign => 2

def tierFromByte (b : UInt8) : Except String MemoryTier :=
  if b=0 then .ok .nano
  else if b=1 then .ok .standard
  else if b=2 then .ok .sovereign
  else .error s!"unknown tier byte {b}"

structure EntryPayload (Value : Type) where
  name : String
  entryType : String
  secret : Option Bytes
  url : Option String
  notes : Option String
  createdAt : ℤ
  updatedAt : ℤ
  totp : Option Value
  hotp : Option Value
  ocra : Option Value

structure PassSdk (Value : Type) where
  tagSize : ℕ
  argon2 : MemoryTier → Bytes → Block 16 → Except String Bytes
  /-- Of a key, a salt and an info string. -/
  hkdf : Block 32 → Bytes → Bytes → Block 32
  sha3_256 : Bytes → Block 32
  /-- Under a key and a nonce, with the associated data last. -/
  encrypt : Block 32 → Block 24 → Bytes → Bytes → Except String Bytes
  decrypt : Block 32 → Block 24 → Bytes → Bytes → Option Bytes
  toJson : EntryPayload Value → Except String Bytes
  fromJson : Bytes → Except String (EntryPayload Value)
  isNull : Value → Bool
  textAt : Value → String → Option String
  numberAt : Value → String → Option ℕ
  fromUtf8Lossy : Bytes → String

variable {Value : Type} (sdk : PassSdk Value)

def argon2idDerive (passphrase : Bytes) (salt : Block 16) (tier : MemoryTier) :
    Except String (Block 32) :=
  match sdk.argon2 tier passphrase salt with
  | .error e => .error s!"Argon2id derivation failed: {e}"
  | .ok key =>
    if h : key.length=32 then .ok ⟨key,h⟩
    else .error s!"Argon2id returned {key.length} bytes; expected 32"

def deriveHeaderKey (master : Block 32) : Block 32 :=
  sdk.hkdf master (utf8 "origin-vault") (utf8 "header-key")

def deriveEntryKey (master : Block 32) (nonce : Block 24) : Block 32 :=
  sdk.hkdf master nonce.toList (utf8 "entry-key")

def buildEntryAad (nameHash : Block 32) (nonce : Block 24) : Bytes := nameHash.toList++nonce.toList

def magic : Bytes := [0x4f,0x56,0x4c,0x54]
def version : UInt8 := 1
def cipherChaCha20Blake3 : UInt8 := 0
def headerBytesLen : ℕ := 50
def maxVaultLen : ℕ := 256*1024*1024

structure VaultHeader where
  cipherSuite : UInt8
  kdfTier : MemoryTier
  kdfSalt : Block 16
  headerNonce : Block 24
  headerCtLen : ℕ

def VaultHeader.toWire (h : VaultHeader) : Bytes :=
  magic++[version,h.cipherSuite,tierToByte h.kdfTier,0]++h.kdfSalt.toList++
    h.headerNonce.toList++beBytes 2 h.headerCtLen

def VaultHeader.fromWire (bytes : Bytes) : Except String VaultHeader :=
  if bytes.length<headerBytesLen then
    .error s!"vault header too short: {bytes.length} bytes (need {headerBytesLen})"
  else if bytes.take 4≠magic then
    .error "vault magic mismatch — not an OVLT file (or wrong version)"
  else if bytes.getD 4 0≠version then
    .error s!"vault version mismatch: got 0x{hexEncode [bytes.getD 4 0]}, expected 0x01"
  else if bytes.getD 5 0≠cipherChaCha20Blake3 then
    .error (s!"unsupported cipher suite 0x{hexEncode [bytes.getD 5 0]}; only "++
      "ChaCha20-BLAKE3 (0x00) is implemented")
  else if bytes.getD 7 0≠0 then
    .error s!"unsupported reserved vault header byte: 0x{hexEncode [bytes.getD 7 0]}"
  else (tierFromByte (bytes.getD 6 0)).bind fun tier =>
    let salt:=bytes.drop 8
    let nonce:=salt.drop 16
    let ctLen:=beValue ((nonce.drop 24).take 2)
    if ctLen<sdk.tagSize then
      .error (s!"vault header ciphertext too short: {ctLen} bytes "++
        s!"(need at least {sdk.tagSize})")
    else .ok ⟨bytes.getD 5 0,tier,block 16 salt,block 24 nonce,ctLen⟩

structure EntryMetadata where
  nameHash : Block 32
  entryNonce : Block 24
  entryCtOffset : ℕ
  entryCtLen : ℕ
  typeTag : UInt8
  algo : UInt8
  periodSecs : ℕ
  digits : UInt8

def EntryMetadata.toWire (m : EntryMetadata) : Bytes :=
  m.nameHash.toList++(m.entryNonce.toList++(beBytes 4 m.entryCtLen++
    ([m.typeTag,m.algo]++(beBytes 2 m.periodSecs++m.digits::List.replicate 11 0))))

def EntryMetadata.fromWire (bytes : Bytes) : Except String EntryMetadata :=
  if bytes.length<76 then
    .error s!"entry metadata too short: {bytes.length} bytes (need 76)"
  else
    let nonce:=bytes.drop 32
    let ctLen:=nonce.drop 24
    let reserved:=ctLen.drop 4
    .ok ⟨block 32 bytes,block 24 nonce,0,beValue (ctLen.take 4),reserved.getD 0 0,
      reserved.getD 1 0,beValue ((reserved.drop 2).take 2),reserved.getD 4 0⟩

def buildIndexBytes (rows : List EntryMetadata) : Bytes :=
  beBytes 4 rows.length++(beBytes 4 1++rows.flatMap EntryMetadata.toWire)

def parseRows : ℕ → Bytes → Except String (List EntryMetadata)
  | 0,_ => .ok []
  | n+1,bytes => (EntryMetadata.fromWire (bytes.take 76)).bind fun m =>
    (parseRows n (bytes.drop 76)).map (m :: ·)

def parseIndexBytes (bytes : Bytes) : Except String (List EntryMetadata) :=
  let count:=beValue (bytes.take 4)
  let indexVersion:=beValue ((bytes.drop 4).take 4)
  if bytes.length<8 then .error s!"index too short: {bytes.length} bytes (need ≥ 8)"
  else if indexVersion≠1 then
    .error s!"index version mismatch: got {indexVersion}, expected 1"
  else if bytes.length<8+count*76 then
    .error s!"index truncated: {count} entries need {8 + count * 76}B, got {bytes.length}"
  else parseRows count ((bytes.drop 4).drop 4)

def algoTag (v : Value) : UInt8 :=
  match sdk.textAt v "algo" with
  | some "SHA1" | some "sha1" => 1
  | some "SHA512" | some "sha512" => 3
  | _ => 2

def payloadTags (p : EntryPayload Value) : UInt8 × UInt8 × ℕ × UInt8 :=
  let typeTag : UInt8 :=
    if p.entryType = "otp" ∧ p.totp.isSome then 1
    else if p.entryType = "otp" ∧ p.hotp.isSome then 2
    else if p.entryType = "ocra" then 3
    else 0
  match p.totp,p.ocra with
  | some totp,_ => (typeTag,algoTag sdk totp,(sdk.numberAt totp "period").getD 30%2^16,
      UInt8.ofNat ((sdk.numberAt totp "digits").getD 6))
  | none,some ocra =>
    (typeTag,algoTag sdk ocra,0,UInt8.ofNat ((sdk.numberAt ocra "digits").getD 6))
  | none,none => (typeTag,0,0,0)

abbrev Entries (Value : Type) := Std.ExtTreeMap String (EntryPayload Value) compare

structure Vault (Value : Type) where
  header : VaultHeader
  entries : Entries Value
  masterKey : Block 32

def readVaultFile (data : Bytes) : Except String VaultHeader :=
  if data.length<headerBytesLen then
    .error s!"vault file too short: {data.length} bytes (need ≥ {headerBytesLen})"
  else if maxVaultLen<data.length then
    .error s!"vault file too large: {data.length} bytes (max {maxVaultLen})"
  else VaultHeader.fromWire sdk (data.take headerBytesLen)

def placeEntries : ℕ → List EntryMetadata → Except String (List EntryMetadata × ℕ)
  | cursor,[] => .ok ([],cursor)
  | cursor,m::ms =>
    if cursor+m.entryCtLen<2^64 then
      (placeEntries (cursor+m.entryCtLen) ms).map fun r =>
        ({ m with entryCtOffset := cursor }::r.1,r.2)
    else .error "entry length overflow"

/-- An entry without a name gets one made of the hash in the index. -/
def nameOr (nameHash : Block 32) (p : EntryPayload Value) : EntryPayload Value :=
  if p.name = "" then { p with name := s!"entry-{hexEncode (nameHash.toList.take 4)}" } else p

def openEntry (master : Block 32) (data : Bytes) (m : EntryMetadata) :
    Except String (EntryPayload Value) :=
  if data.length < m.entryCtOffset+m.entryCtLen then
    .error s!"entry '{sdk.fromUtf8Lossy m.nameHash.toList}' CT extends past EOF"
  else match sdk.decrypt (deriveEntryKey sdk master m.entryNonce) m.entryNonce
      ((data.drop m.entryCtOffset).take m.entryCtLen)
      (buildEntryAad m.nameHash m.entryNonce) with
    | none =>
      .error (s!"entry decryption failed "++
        s!"(entry name_hash={hexEncode (m.nameHash.toList.take 4)})")
    | some plaintext =>
      match sdk.fromJson plaintext with
      | .error e => .error s!"entry JSON parse failed: {e}"
      | .ok payload => .ok (nameOr m.nameHash payload)

def openEntries (master : Block 32) (data : Bytes) :
    List EntryMetadata → Entries Value → Except String (Entries Value)
  | [],entries => .ok entries
  | m::ms,entries => (openEntry sdk master data m).bind fun payload =>
    openEntries master data ms (entries.insert payload.name payload)

def openIndex (header : VaultHeader) (data : Bytes) (master : Block 32) (index : Bytes) :
    Except String (Vault Value) :=
  (parseIndexBytes index).bind fun metadata =>
  (placeEntries (headerBytesLen+header.headerCtLen) metadata).bind fun placed =>
    if placed.2≠data.length then
      .error (s!"entry payloads end at byte {placed.2} but file is {data.length} bytes"++
        " — vault is truncated or corrupt")
    else (openEntries sdk master data placed.1 ∅).map fun entries => ⟨header,entries,master⟩

/-- `none` is a panic: the range of the index is not checked against the file. -/
def decryptVault (header : VaultHeader) (data : Bytes) (master : Block 32) :
    Option (Except String (Vault Value)) :=
  if data.length<headerBytesLen+header.headerCtLen then none
  else match sdk.decrypt (deriveHeaderKey sdk master) header.headerNonce
      ((data.drop headerBytesLen).take header.headerCtLen) [] with
    | none =>
      some (.error "vault unlock failed (decryption — wrong passphrase or corrupt header)")
    | some index => some (openIndex sdk header data master index)

def unlockVault (passphrase data : Bytes) : Option (Except String (Vault Value)) :=
  match readVaultFile sdk data with
  | .error e => some (.error e)
  | .ok header =>
    match argon2idDerive sdk passphrase header.kdfSalt header.kdfTier with
    | .error _ => some (.error "vault unlock failed (Argon2id)")
    | .ok master => decryptVault sdk header data master

/-- The entries from the `i`-th on; `nonce i` is what the `i`-th call for a nonce gives. -/
def sealEntries (nonce : ℕ → Except String (Block 24)) (master : Block 32) :
    ℕ → List (String × EntryPayload Value) → Except String (List (EntryMetadata × Bytes))
  | _,[] => .ok []
  | i,(name,payload)::rest =>
    ((nonce i).mapError fun e => s!"nonce generation failed: {e}").bind fun entryNonce =>
    ((sdk.toJson payload).mapError fun e => s!"serialize entry payload: {e}").bind fun json =>
    let nameHash:=sdk.sha3_256 (utf8 name)
    ((sdk.encrypt (deriveEntryKey sdk master entryNonce) entryNonce json
      (buildEntryAad nameHash entryNonce)).mapError
        fun e => s!"ChaCha20-BLAKE3 encrypt entry: {e}").bind fun ct =>
    let tags:=payloadTags sdk payload
    (sealEntries nonce master (i+1) rest).map
      ((⟨nameHash,entryNonce,0,ct.length%2^32,tags.1,tags.2.1,tags.2.2.1,tags.2.2.2⟩,ct) :: ·)

def persistVault (nonce : ℕ → Except String (Block 24)) (vault : Vault Value) :
    Except String Bytes :=
  (sealEntries sdk nonce vault.masterKey 0 vault.entries.toList).bind fun entryData =>
  ((nonce vault.entries.size).mapError fun e => s!"nonce generation failed: {e}").bind
    fun headerNonce =>
  ((sdk.encrypt (deriveHeaderKey sdk vault.masterKey) headerNonce
    (buildIndexBytes (entryData.map Prod.fst)) []).mapError
      fun e => s!"ChaCha20-BLAKE3 header encrypt: {e}").bind fun headerCt =>
  let header:={ vault.header with headerNonce := headerNonce,headerCtLen := headerCt.length }
  .ok (header.toWire++headerCt++(entryData.map Prod.snd).flatten)

def changeVaultPassphrase (old new : Bytes) (tier : MemoryTier)
    (salt : Except String (Block 16)) (nonce : ℕ → Except String (Block 24)) (data : Bytes) :
    Option (Except String Bytes) :=
  (unlockVault sdk old data).map fun r => r.bind fun vault =>
  (salt.mapError fun e => s!"salt generation failed: {e}").bind fun newSalt =>
  (argon2idDerive sdk new newSalt tier).bind fun newMaster =>
  persistVault sdk nonce { vault with
    header := { vault.header with kdfSalt := newSalt,kdfTier := tier },masterKey := newMaster }

end OriginTools.Pass
