import OriginTools.Vcs.Store

/-!
# Threshold shares

The share file of `origin-secrets` (`share.rs`) and the reader that all commands use
(`commands/share_io.rs`).
-/

namespace OriginTools.Secrets
open Vcs (Bytes utf8)

abbrev Seed : Type := List.Vector UInt8 32
abbrev Path : Type := List String

inductive Error where
  | shareNotFound (shareNumber : UInt8) (path : Path)
  | shareRevoked (shareNumber : UInt8)
  | shareExpired (shareNumber : UInt8) (expiresAt : String)
  | insufficientShares (needed provided : UInt8)
  | shareVerificationFailed (shareNumber : UInt8) (details : String)
  | shareCorrupted (shareNumber : UInt8) (path : Path)
  | invalidThreshold (threshold totalShares : UInt8)
  | signatureVerificationFailed (details : String)
  | signatureGenerationFailed (details : String)
  | ioError (details : String)
  | cryptoError (details : String)
  /-- What `VaultHandle::open` and `save` report. -/
  | vault (details : String)
  /-- The process panics. -/
  | panic
  deriving DecidableEq

structure HybridSignature where
  ed25519 : Bytes
  falcon1024 : Bytes
  deriving DecidableEq

structure ShareVerifier where
  ed25519 : Bytes
  falcon1024 : Bytes
  deriving DecidableEq

structure Share where
  version : UInt8
  keyId : String
  shareNumber : UInt8
  threshold : UInt8
  totalShares : UInt8
  shareData : Bytes
  fingerprint : String
  signature : HybridSignature
  createdAt : String
  recipient : Option String
  expiresAt : Option String
  verifier : Option ShareVerifier
  deriving DecidableEq

structure EncryptedShare where
  version : UInt8
  nonce : List.Vector UInt8 24
  ciphertext : Bytes

inductive ShareFile where
  | encrypted (envelope : EncryptedShare)
  | plain (share : Share)
  | other

structure VaultData where
  masterSeed : Seed
  revokedShares : Finset UInt8

abbrev Bundle : Type := ShareVerifier

structure SecretsSdk where
  encodeShards : (dataShards parityShards : ℕ) → Seed → Except String (List Bytes)
  decodeShards : (dataShards parityShards : ℕ) → List (Option Bytes) → ℕ → Except String Bytes
  blake3 : Bytes → Bytes
  fromSeed : Seed → (domain : String) → Except String Bundle
  sign : Seed → (domain : String) → Bytes → HybridSignature
  verify : Bundle → (message : Bytes) → HybridSignature → Bool
  falconSignature : Bytes → Except String Unit
  ed25519Key : Bytes → Except String Unit
  falconKey : Bytes → Except String Unit
  decrypt : Seed → (shareNumber : UInt8) → EncryptedShare → Option Bytes
  shareOfJson : Bytes → Except String Share

structure Env where
  readFile : Path → Option ShareFile
  present : Path → Bool
  openVault : Path → Except Error VaultData
  now : Int64

def shareSigningDomain : String := "origin-secrets/share/v1"
def Share.message (share : Share) : Bytes := share.shareData++(share.recipient.map utf8).getD []

variable (sdk : SecretsSdk) (env : Env)

def HybridSignature.toSdk (sig : HybridSignature) : Except String Unit :=
  if sig.ed25519.length≠64 then .error "InvalidParameter(\"bad ed25519 sig length\")"
  else sdk.falconSignature sig.falcon1024

def ShareVerifier.ed25519Pk (v : ShareVerifier) : Except String Unit :=
  if v.ed25519.length≠32 then .error "InvalidParameter(\"bad ed25519 pubkey length\")"
  else (sdk.ed25519Key v.ed25519).mapError fun e => s!"InvalidParameter(\"{e}\")"

def parent : Path → Option Path
  | [] => none
  | ["/"] => none
  | path => some path.dropLast

def siblingVault (path : Path) : Option Path :=
  ((parent path).bind parent).map (· ++ ["secrets.vault"])

def fileStem (name : String) : List Char :=
  match name.toList.reverse.dropWhile (· != '.') with
  | [] => name.toList
  | [_] => name.toList
  | _::stem => stem.reverse

def encShareNumber (path : Path) : UInt8 :=
  let digits:=(fileStem (path.getLast?.getD "")).filter Char.isDigit
  let value:=digits.foldl (fun n c => 10*n+(c.toNat - '0'.toNat)) 0
  if value≤255 then .ofNat value else 0

def decryptShare (enc : EncryptedShare) (seed : Seed) (shareNumber : UInt8) : Except Error Share :=
  match sdk.decrypt seed shareNumber enc with
  | none => .error (.shareCorrupted shareNumber ["<encrypted share>"])
  | some plaintext =>
    (sdk.shareOfJson plaintext).mapError fun e => .shareCorrupted shareNumber [s!"deserialize: {e}"]

def openShare (path : Path) (handle : Option VaultData) : ShareFile → Except Error Share
  | .encrypted enc =>
    match handle with
    | none => .error (.shareCorrupted 0 path)
    | some data => decryptShare sdk enc data.masterSeed (encShareNumber path)
  | .plain share => .ok share
  | .other => .error (.shareCorrupted 0 path)

-- The parts of a time hold no sign.
def parseI64 (part : List Char) : Option Int64 :=
  if part=[] ∨ ¬ part.all Char.isDigit ∨ 2^63≤Nat.ofDigitChars 10 part 0 then none
  else some (.ofNat (Nat.ofDigitChars 10 part 0))

def monthDays : List Int64 := [0,31,59,90,120,151,181,212,243,273,304,334]

/-- Seconds since 1970 of `YYYY-MM-DDTHH:MM:SSZ`; `none` where the index into `monthDays` is
out of bounds. -/
def chronoParse (s : String) : Option (Except Error Int64) :=
  let compact := (s.toList.rdropWhile (· == 'Z')).map fun c => if c = 'T' then '-' else c
  match compact.splitOnP fun c => c == '-'||c == ':'||c == '+' with
  | y::mo::d::h::mi::s2::_ =>
    let field (part : List Char) (name : String) : Except Error Int64 :=
      match parseI64 part with
      | none => .error (.cryptoError s!"bad {name}")
      | some n => .ok n
    let fields : Except Error (Int64 × Int64 × Int64 × Int64 × Int64 × Int64) := do
      return (← field y "year",← field mo "month",← field d "day",← field h "hour",
        ← field mi "minute",← field s2 "second")
    match fields with
    | .error e => some (.error e)
    | .ok (y,mo,d,h,mi,s2) =>
      if mo<1 then none
      else monthDays[(mo-1).toNatClampNeg]?.map fun before =>
        let leap : Int64 :=
          if mo>2 ∧ (y%4=0 ∧ y%100≠0 ∨ y%400=0) then 1 else 0
        let days := (y-1970)*365+(y-1969)/4+before+leap+(d-1)
        .ok (days*86400+h*3600+mi*60+s2)
  | _ => some (.error (.cryptoError "bad expiry format"))

example : chronoParse "1970-01-02T00:00:00Z"=some (.ok 86400) := by decide +kernel

-- A text that is no time does not expire.
def checkExpiry (shareNumber : UInt8) (expiresAt : String) : Except Error Unit :=
  match chronoParse expiresAt with
  | none => .error .panic
  | some (.error _) => .ok ()
  | some (.ok time) =>
    if env.now≥time then .error (.shareExpired shareNumber expiresAt) else .ok ()

def openHandle : Option Path → Except Error (Option VaultData)
  | none => .ok none
  | some vault => (env.openVault vault).map some

def readShareFile (path : Path) (vault : Option Path) : Except Error Share :=
  match env.readFile path with
  | none => .error (.shareNotFound 0 path)
  | some file =>
    (openHandle env vault).bind fun handle =>
    (openShare sdk path handle file).bind fun share =>
    (share.expiresAt.elim (.ok ()) (checkExpiry env share.shareNumber)).bind fun _ =>
    if handle.any fun data => decide (share.shareNumber∈data.revokedShares) then
      .error (.shareRevoked share.shareNumber)
    else .ok share

def verifyShareOffline (share : Share) : Except Error Unit :=
  match share.verifier with
  | none => .error (.cryptoError
      "share has no embedded verifier; supply the vault for crypto verification")
  | some keys =>
    ((keys.ed25519Pk sdk).mapError fun e =>
      .signatureVerificationFailed s!"bad ed25519 verifier key: {e}").bind fun _ =>
    ((sdk.falconKey keys.falcon1024).mapError fun e =>
      .signatureVerificationFailed s!"bad falcon verifier key: {e}").bind fun _ =>
    ((share.signature.toSdk sdk).mapError .signatureVerificationFailed).bind fun _ =>
    if sdk.verify keys share.message share.signature then .ok ()
    else .error (.shareVerificationFailed share.shareNumber "hybrid signature invalid (offline)")

namespace Sample

def plainSdk : SecretsSdk where
  encodeShards k parity seed := .ok (List.replicate (k+parity) seed.toList)
  decodeShards _ _ shards _ :=
    match shards.filterMap id with
    | [] => .error "no shards"
    | seed::_ => .ok seed
  blake3 bytes := bytes
  fromSeed seed _ := .ok ⟨seed.toList,seed.toList⟩
  sign seed _ message := ⟨seed.toList++seed.toList,1::message⟩
  verify keys message sig := sig.ed25519==keys.ed25519++keys.ed25519&&sig.falcon1024==1::message
  falconSignature _ := .ok ()
  ed25519Key _ := .ok ()
  falconKey _ := .ok ()
  decrypt _ _ _ := none
  shareOfJson _ := .error "no share"

def seed (b : UInt8) : Seed := List.Vector.replicate 32 b

end Sample
end OriginTools.Secrets
