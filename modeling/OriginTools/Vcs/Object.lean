import OriginTools.Foundation.Wire

/-!
# Objects and their addresses

The object model of `origin-vcs` (`object.rs`): blobs, trees, commits and tags, each
stored under the SHA3-256 hash of its canonical bytes.
-/

namespace OriginTools.Vcs

abbrev Bytes : Type := List UInt8
abbrev ObjectId : Type := Fin (2^256)

-- Named, so that every module finds the same proofs about ids.
instance instNeZeroIds : NeZero (2^256 : ℕ) := ⟨Nat.ne_of_gt (Nat.two_pow_pos 256)⟩

instance instTransOrdObjectId : Std.TransOrd ObjectId := Fin.instTransOrd (2^256)

instance instLawfulBEqObjectId : LawfulBEq ObjectId := instLawfulBEq

def utf8 (s : String) : Bytes := s.toUTF8.data.toList

theorem utf8_injective : Function.Injective utf8 := by
  intro s t h
  apply String.toByteArray_inj.1
  apply ByteArray.ext
  exact Array.toList_inj.1 h

theorem utf8_append (s t : String) : utf8 (s++t)=utf8 s++utf8 t := by
  simp [utf8]

inductive ObjectKind
  | blob
  | tree
  | commit
  | tag
  deriving DecidableEq,Repr

def ObjectKind.tagName : ObjectKind → String
  | .blob => "blob"
  | .tree => "tree"
  | .commit => "commit"
  | .tag => "tag"

inductive FileMode
  | file
  | executable
  | symlink
  deriving DecidableEq,Repr

namespace FileMode

def asStr : FileMode → String
  | .file => "File"
  | .executable => "Executable"
  | .symlink => "Symlink"

def fromName (s : String) : Except String FileMode :=
  if s = "File" then .ok .file
  else if s = "Executable" then .ok .executable
  else if s = "Symlink" then .ok .symlink
  else .error s!"unknown file mode '{s}'"

end FileMode

structure TreeEntry where
  mode : FileMode
  id : ObjectId
  deriving DecidableEq,Repr

structure Tree where
  kind : String
  entries : Std.ExtTreeMap String TreeEntry compare
  deriving DecidableEq

def Tree.new : Tree := ⟨"tree",∅⟩

/-- A nested tree object: rows of name, kind and hexadecimal id. -/
structure TreeObject where
  v : ℕ
  entries : List (String × String × String)
  deriving DecidableEq,Repr

structure Blob where
  data : Bytes
  deriving DecidableEq,Repr

structure Commit where
  kind : String
  tree : ObjectId
  parents : List ObjectId
  message : String
  author : String
  committer : String
  ts : ℕ
  deriving DecidableEq,Repr

def Commit.new : Commit := ⟨"commit",0,[],"","","",0⟩

structure Tag where
  kind : String
  name : String
  target : ObjectId
  message : String
  ts : ℕ
  deriving DecidableEq,Repr

structure Signature where
  ed25519 : Bytes
  falcon1024 : Bytes
  ed25519Pk : Bytes
  falcon1024Pk : Bytes
  deriving DecidableEq,Repr

structure CommitRecord where
  commit : Commit
  signature : Signature
  deriving DecidableEq,Repr

structure SignedRef where
  target : ObjectId
  signature : Signature
  deriving DecidableEq,Repr

structure RemoteManifest where
  branches : Std.ExtTreeMap String ObjectId compare
  tags : Std.ExtTreeMap String ObjectId compare
  objectIds : List String
  force : Bool
  deriving DecidableEq

def hex (id : ObjectId) : String :=
  String.ofList ((List.range 64).map fun i => Nat.digitChar (id.val/16^(63-i)%16))

def hexDigit (c : UInt8) : Option ℕ :=
  if 48≤c ∧ c≤57 then some (c.toNat-48)
  else if 97≤c ∧ c≤102 then some (c.toNat-87)
  else if 65≤c ∧ c≤70 then some (c.toNat-55)
  else none

def hexPairs : ℕ → Bytes → Except String Bytes
  | i,c::d::rest =>
    match hexDigit c,hexDigit d with
    | none,_ => .error s!"Invalid character '{Char.ofNat c.toNat}' at position {i}"
    | _,none => .error s!"Invalid character '{Char.ofNat d.toNat}' at position {i + 1}"
    | some x,some y =>
      match hexPairs (i+2) rest with
      | .error e => .error e
      | .ok bytes => .ok (UInt8.ofNat (16*x+y)::bytes)
  | _,_ => .ok []

def hexDecode (s : String) : Except String Bytes :=
  if (utf8 s).length%2≠0 then .error "Odd number of digits" else hexPairs 0 (utf8 s)

def idOfBytes (bytes : Bytes) : ObjectId := Fin.ofNat (2^256) (beValue bytes)

def idFromHexStr (s : String) : Except String ObjectId :=
  match hexDecode s with
  | .error e => .error s!"bad id hex: {e}"
  | .ok bytes =>
    if bytes.length≠32 then .error s!"id must be 32 bytes, got {bytes.length}"
    else .ok (idOfBytes bytes)

def short (id : ObjectId) : String := String.ofList ((hex id).toList.take 16)

structure Sdk where
  sha3_256 : Bytes → ObjectId
  encrypt : Bytes → Except String Bytes
  decrypt : Bytes → Except String Bytes
  /-- The chunked (`OVCS`) envelope of a file. -/
  streamEncrypt : Bytes → Except String Bytes
  streamDecrypt : Bytes → Except String Bytes
  verify : Signature → Bytes → Except String Unit
  treeJson : Tree → Bytes
  treeObjectJson : TreeObject → Bytes
  commitJson : Commit → Bytes
  recordJson : CommitRecord → Bytes
  tagJson : Tag → Bytes
  /-- The field `v` of a JSON value, when it is there and a natural number. -/
  jsonVersion : Bytes → Except String (Option ℕ)
  parseTree : Bytes → Except String Tree
  parseTreeObject : Bytes → Except String TreeObject
  parseRecord : Bytes → Except String CommitRecord
  parseTag : Bytes → Except String Tag
  parseManifest : Bytes → Except String RemoteManifest
  fromUtf8Lossy : Bytes → String

/-- The header and the largest payload that `Envelope::from_bytes` accepts;
`Envelope::encrypt` makes larger ones as well. -/
def maxEnvelopeLen : ℕ := 48+1024*1024*1024

variable (sdk : Sdk)

def canonicalTree (tree : Tree) : Bytes := utf8 ObjectKind.tree.tagName++[0]++sdk.treeJson tree

def canonicalCommit (commit : Commit) : Bytes :=
  utf8 ObjectKind.commit.tagName++[0]++sdk.commitJson commit

def canonicalTag (tag : Tag) : Bytes := utf8 ObjectKind.tag.tagName++[0]++sdk.tagJson tag

def addressOf (header : String) (body : Bytes) : ObjectId := sdk.sha3_256 (utf8 header++[10]++body)

def blobAddress (blob : Blob) : ObjectId :=
  addressOf sdk s!"{ObjectKind.blob.tagName}:{blob.data.length}" blob.data

def treeAddress (tree : Tree) : ObjectId :=
  addressOf sdk s!"{ObjectKind.tree.tagName}:{(canonicalTree sdk tree).length}"
    (canonicalTree sdk tree)

def commitAddress (commit : Commit) : ObjectId :=
  addressOf sdk s!"{ObjectKind.commit.tagName}:{(canonicalCommit sdk commit).length}"
    (canonicalCommit sdk commit)

def tagAddress (tag : Tag) : ObjectId :=
  addressOf sdk s!"{ObjectKind.tag.tagName}:{(canonicalTag sdk tag).length}" (canonicalTag sdk tag)

/-- The address, over a 32-bit length, that `write_tree_bucket` gives to the body of a nested tree object. -/
def treeBodyAddress (body : Bytes) : ObjectId :=
  sdk.sha3_256 (utf8 "tree"++[0]++beBytes 4 body.length++body)

theorem utf8_ofList (l : List Char) : utf8 (String.ofList l)=l.flatMap String.utf8EncodeChar := by
  simp [utf8,String.toUTF8,String.toByteArray_ofList,List.utf8Encode]

def digitByte (d : ℕ) : UInt8 := UInt8.ofNat (Nat.digitChar d).toNat

theorem utf8_digitChar : ∀ d<16,String.utf8EncodeChar (Nat.digitChar d)=[digitByte d] := by
  decide

theorem hexDigit_digitByte : ∀ d<16,hexDigit (digitByte d)=some d := by
  decide

def hexDigits (n x : ℕ) : List ℕ := (List.range n).map fun i => x/16^(n-1-i)%16

theorem hexDigits_add_two (n x : ℕ) : hexDigits (n+2) x=hexDigits n (x/256)++[x/16%16,x%16] := by
  have hinit : ∀ i∈List.range n,x/16^(n+2-1-i)%16=x/256/16^(n-1-i)%16 := by
    intro i hi
    have hlt : i<n := List.mem_range.mp hi
    have hexp : n+2-1-i=2+(n-1-i) := by omega
    rw [hexp,pow_add,← Nat.div_div_eq_div_mul,show (16^2 : ℕ)=256 by norm_num]
  unfold hexDigits
  rw [List.range_succ,List.range_succ,List.map_append,List.map_append,List.map_congr_left hinit]
  simp

theorem hexPairs_append (i) (bytes out : Bytes) (c d x y) (heven : bytes.length%2=0)
    (hout : hexPairs i bytes=.ok out) (hc : hexDigit c=some x) (hd : hexDigit d=some y) :
    hexPairs i (bytes++[c,d])=.ok (out++[UInt8.ofNat (16*x+y)]) := by
  fun_induction hexPairs i bytes generalizing out with
  | case1 => simp at hout
  | case2 => simp at hout
  | case3 => simp at hout
  | case4 i a b rest p q hp hq bytes' hrest ih =>
    simp only [Except.ok.injEq] at hout
    simp only [List.length_cons] at heven
    have hrest':=ih bytes' (by omega) hrest
    simp [hexPairs,hp,hq,hrest',← hout]
  | case5 bytes i hbytes =>
    cases bytes with
    | nil =>
      simp only [Except.ok.injEq] at hout
      simp [hexPairs,hc,hd,← hout]
    | cons a rest =>
      cases rest with
      | nil => simp at heven
      | cons b rest => exact absurd rfl (hbytes a b rest)

theorem length_hexDigits (n x : ℕ) : (hexDigits n x).length=n := by
  simp [hexDigits]

theorem hexPairs_hexDigits (n x : ℕ) :
    hexPairs 0 ((hexDigits (2*n) x).map digitByte)=.ok (beBytes n x) := by
  induction n generalizing x with
  | zero => simp [hexDigits,hexPairs,beBytes]
  | succ n ih =>
    have hlen : ((hexDigits (2*n) (x/256)).map digitByte).length%2=0 := by
      simp [length_hexDigits]
    have hlast : UInt8.ofNat (16*(x/16%16)+x%16)=UInt8.ofNat x := by
      apply UInt8.toNat_inj.mp
      simp only [UInt8.toNat_ofNat']
      omega
    have happend:=hexPairs_append 0 _ _ (digitByte (x/16%16)) (digitByte (x%16)) _ _ hlen
      (ih (x/256)) (hexDigit_digitByte _ (Nat.mod_lt _ (by decide)))
      (hexDigit_digitByte _ (Nat.mod_lt _ (by decide)))
    rw [hlast] at happend
    rw [show 2*(n+1)=2*n+2 by omega,hexDigits_add_two,List.map_append]
    exact happend

variable (id : ObjectId)

theorem utf8_hex : utf8 (hex id)=(hexDigits 64 id.val).map digitByte := by
  unfold hex hexDigits
  rw [utf8_ofList,List.flatMap_map,List.map_map,List.map_eq_flatMap]
  apply List.flatMap_congr
  intro i _
  exact utf8_digitChar _ (Nat.mod_lt _ (by decide))

theorem idOfBytes_beBytes : idOfBytes (beBytes 32 id.val)=id := by
  unfold idOfBytes
  rw [beValue_beBytes,show (256^32 : ℕ)=2^256 by norm_num,Nat.mod_eq_of_lt id.isLt]
  exact Fin.ofNat_val_eq_self id

theorem idFromHexStr_hex : idFromHexStr (hex id)=.ok id := by
  have hlen : (utf8 (hex id)).length=64 := by
    rw [utf8_hex,List.length_map,length_hexDigits]
  have hdecode : hexDecode (hex id)=.ok (beBytes 32 id.val) := by
    unfold hexDecode
    rw [hlen,if_neg (by decide),utf8_hex]
    exact hexPairs_hexDigits 32 id.val
  simp only [idFromHexStr,hdecode,length_beBytes,ne_eq,not_true_eq_false,if_false,idOfBytes_beBytes]

def idBytes (id : ObjectId) : Bytes := beBytes 32 id.val

/-- `mmr.rs`: a peak for each height, joined by a carry chain when a leaf is added, and a
root that folds the peaks in ascending height. -/
structure MmrState where
  peaks : Std.ExtTreeMap ℕ ObjectId compare
  leafCount : ℕ
  version : ℕ
  deriving DecidableEq

namespace MmrState

def new : MmrState := ⟨∅,0,1⟩

variable (sdk : Sdk)

def parentHash (left right : ObjectId) : ObjectId := sdk.sha3_256 (idBytes left++idBytes right)
def leafHash (data : ObjectId) (pos : ℕ) : ObjectId := sdk.sha3_256 (beBytes 8 pos++idBytes data)

/-- The carry chain from `height` on. Every carry removes a peak, so the number
of peaks bounds the loop. -/
def carry : ℕ → Std.ExtTreeMap ℕ ObjectId compare → ℕ → ObjectId → Std.ExtTreeMap ℕ ObjectId compare
  | 0,peaks,height,hash => peaks.insert height hash
  | fuel+1,peaks,height,hash =>
    match peaks[height]? with
    | some peak => carry fuel (peaks.erase height) (height+1) (parentHash sdk peak hash)
    | none => peaks.insert height hash

def append (m : MmrState) (data : ObjectId) : MmrState :=
  { m with
    leafCount := m.leafCount+1
    peaks := carry sdk m.peaks.size m.peaks 0 (leafHash sdk data m.leafCount) }

def root (m : MmrState) : ObjectId :=
  match m.peaks.values with
  | [] => 0
  | first::rest => rest.foldl (parentHash sdk) first

end MmrState
end OriginTools.Vcs
