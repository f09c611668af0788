import OriginTools.Vcs.Commands

/-!
# A plain instance of the foreign code

An executable `Sdk` for evaluating the model on concrete repositories: objects
are written in the formats of `Foundation.Wire` behind a byte for their type,
envelopes are the bytes themselves, the hash is a polynomial of the bytes, and a
signature is the hash of what it signs.
-/

namespace OriginTools.Vcs.Sample

def idWire : Wire ObjectId :=
  Wire.word 32 Fin.val (Fin.ofNat (2^256)) fun id => by
    have hpow : (256 : ℕ)^32=2^256 := by norm_num
    rw [hpow,Nat.mod_eq_of_lt id.isLt]
    exact Fin.ofNat_val_eq_self id

def bytesWire : Wire Bytes :=
  (Wire.word 1 UInt8.toNat UInt8.ofNat fun b => by
    have hlt : b.toNat<256^1 := UInt8.toNat_lt b
    rw [Nat.mod_eq_of_lt hlt,UInt8.ofNat_toNat]).list

def commitWire : Wire Commit :=
  (Wire.text.pair (idWire.pair (idWire.list.pair
    (Wire.text.pair (Wire.text.pair (Wire.text.pair Wire.nat)))))).map
    (fun p => ⟨p.1,p.2.1,p.2.2.1,p.2.2.2.1,p.2.2.2.2.1,p.2.2.2.2.2.1,p.2.2.2.2.2.2⟩)
    (fun c => (c.kind,c.tree,c.parents,c.message,c.author,c.committer,c.ts))
    fun _ => rfl

def signatureWire : Wire Signature :=
  (bytesWire.pair (bytesWire.pair (bytesWire.pair bytesWire))).map
    (fun p => ⟨p.1,p.2.1,p.2.2.1,p.2.2.2⟩)
    (fun s => (s.ed25519,s.falcon1024,s.ed25519Pk,s.falcon1024Pk))
    fun _ => rfl

def recordWire : Wire CommitRecord :=
  (commitWire.pair signatureWire).map (fun p => ⟨p.1,p.2⟩) (fun r => (r.commit,r.signature))
    fun _ => rfl

def tagWire : Wire Tag :=
  (Wire.text.pair (Wire.text.pair (idWire.pair (Wire.text.pair Wire.nat)))).map
    (fun p => ⟨p.1,p.2.1,p.2.2.1,p.2.2.2.1,p.2.2.2.2⟩)
    (fun t => (t.kind,t.name,t.target,t.message,t.ts))
    fun _ => rfl

def treeObjectWire : Wire TreeObject :=
  (Wire.nat.pair (Wire.text.pair (Wire.text.pair Wire.text)).list).map
    (fun p => ⟨p.1,p.2⟩) (fun o => (o.v,o.entries)) fun _ => rfl

def rowsWire : Wire (String × List (String × String × ObjectId)) :=
  Wire.text.pair (Wire.text.pair (Wire.text.pair idWire)).list

def treeBytes (t : Tree) : Bytes :=
  rowsWire.put (t.kind,t.entries.toList.map fun p => (p.1,p.2.mode.asStr,p.2.id))

def treeOfBytes (bytes : Bytes) : Option Tree :=
  match rowsWire.parse bytes with
  | none => none
  | some (kind,rows) =>
    match rows.mapM fun row => (FileMode.fromName row.2.1).map fun m => (row.1,TreeEntry.mk m row.2.2) with
    | .error _ => none
    | .ok entries => some ⟨kind,Std.ExtTreeMap.ofList entries compare⟩

def tipsWire : Wire (List (String × ObjectId)) := (Wire.text.pair idWire).list

def manifestWire : Wire (List (String × ObjectId) × List (String × ObjectId) × List String × ℕ) :=
  tipsWire.pair (tipsWire.pair (Wire.text.list.pair Wire.nat))

def manifestBytes (m : RemoteManifest) : Bytes :=
  manifestWire.put (m.branches.toList,m.tags.toList,m.objectIds,if m.force then 1 else 0)

def manifestOfBytes (bytes : Bytes) : Option RemoteManifest :=
  (manifestWire.parse bytes).map fun p =>
    ⟨Std.ExtTreeMap.ofList p.1 compare,Std.ExtTreeMap.ofList p.2.1 compare,p.2.2.1,p.2.2.2=1⟩

def parseTyped {α : Type} (type : UInt8) (parse : Bytes → Option α) : Bytes → Except String α
  | [] => .error "EOF while parsing a value"
  | b::bytes =>
    if b=type then
      match parse bytes with
      | some a => .ok a
      | none => .error "expected value"
    else .error "missing field"

def hash (bytes : Bytes) : ObjectId :=
  Fin.ofNat (2^256) (bytes.foldl (fun h b => (h*257+b.toNat+1)%2^256) 0)

def sign (msg : Bytes) : Signature := ⟨idBytes (hash msg),[],[],[]⟩

def sdk : Sdk where
  sha3_256 := hash
  encrypt := .ok
  decrypt := .ok
  streamEncrypt := fun bytes => .ok (utf8 "OVCS"++bytes)
  streamDecrypt := fun bytes => .ok (bytes.drop 4)
  verify := fun sig msg =>
    if sig=sign msg then .ok ()
    else .error "hybrid signature verification FAILED (ed25519=bad, falcon1024=bad)"
  treeJson := fun t => 3::treeBytes t
  treeObjectJson := fun o => 4::treeObjectWire.put o
  commitJson := fun c => 5::commitWire.put c
  recordJson := fun r => 1::recordWire.put r
  tagJson := fun t => 2::tagWire.put t
  jsonVersion := fun bytes =>
    if bytes.head? = some 4 then (parseTyped 4 treeObjectWire.parse bytes).map fun o => some o.v
    else if bytes.head?.getD 0∈[1,2,3] then .ok none
    else .error "expected value"
  parseTree := parseTyped 3 treeOfBytes
  parseTreeObject := parseTyped 4 treeObjectWire.parse
  parseRecord := parseTyped 1 recordWire.parse
  parseTag := parseTyped 2 tagWire.parse
  parseManifest := parseTyped 6 manifestOfBytes
  fromUtf8Lossy := fun bytes => String.ofList (bytes.map fun b => Char.ofNat b.toNat)

def env : Env where
  whoami := "user <user@host>"
  nowTs := 0
  signingBundle := .ok sign
  ensureTreeOnDisk := fun _ _ => .ok ()
  ensureTreeOnDiskStreamed := fun _ _ => .ok ()

def signedRecord (c : Commit) : Bytes := sdk.recordJson ⟨c,sign (canonicalCommit sdk c)⟩

def commitStore (commits : List (ObjectId × Commit)) : Store :=
  { Store.empty with
    objects := Std.ExtTreeMap.ofList (commits.map fun p => (p.1,signedRecord p.2)) compare }

end OriginTools.Vcs.Sample
