import OriginTools.Proof.Mmr

/-!
# The hash of a source tree

`hash_source_tree` feeds the names and contents of the source files, in the order of
their paths and without lengths, to one hash.
-/

namespace OriginTools.Canary
open Proof (Bytes Digest hexDigest)
open Vcs (utf8)

/-- What a directory lists. A file that cannot be read has no content. -/
inductive Listing where
  | nil
  | file (name : Bytes) (content : Option Bytes) (rest : Listing)
  | dir (name : Bytes) (entries rest : Listing)

structure SourceFile where
  dir : List Bytes
  name : Bytes
  content : Option Bytes
  deriving DecidableEq

def exclusions : List Bytes :=
  ["test","tests","__pycache__","node_modules",".git","venv",".venv","build","dist",
    "target",".tox",".nox",".eggs"].map utf8

def extensions : List Bytes :=
  ["py","js","jsx","ts","tsx","rs","sol","c","cpp","h","hpp","go","java","kt"].map utf8

def extension (name : Bytes) : Option Bytes :=
  let dot : UInt8 := 46
  let stem:=(name.reverse.dropWhile (· ≠ dot)).tail
  if stem=[] then none else some (name.reverse.takeWhile (· ≠ dot)).reverse

def collectFiles (dir : List Bytes) : Listing → List SourceFile
  | .nil => []
  | .file name content rest =>
      (if (extension name).any extensions.contains then [⟨dir,name,content⟩] else [])++
        collectFiles dir rest
  | .dir name entries rest =>
      (if exclusions.contains name then [] else collectFiles (dir++[name]) entries)++
        collectFiles dir rest

def sourceFiles (tree : Listing) : List SourceFile :=
  (collectFiles [] tree).insertionSort fun f g => f.dir++[f.name]≤g.dir++[g.name]

def isUtf8 (name : Bytes) : Bool := (String.fromUTF8? ⟨name.toArray⟩).isSome
def hashedName (name : Bytes) : Bytes := if isUtf8 name then name else utf8 "unknown"

def stream (files : List SourceFile) : Bytes :=
  files.flatMap fun f => hashedName f.name++f.content.getD []

section
variable (hash : Bytes → Digest)

def hashSourceTree (tree : Listing) : String := hexDigest (hash (stream (sourceFiles tree)))

inductive IntegrityStatus where
  | intact
  | tampered
  deriving DecidableEq

def verifyIntegrity (tree : Listing) (sourceTreeHash : String) : IntegrityStatus :=
  if hashSourceTree hash tree=sourceTreeHash then .intact else .tampered

end

/-- What the stream leaves open of a file. -/
def SourceFile.shape (f : SourceFile) : List Bytes × Option Bytes × ℕ × Option ℕ :=
  (f.dir,if isUtf8 f.name then none else some f.name,(hashedName f.name).length,
    f.content.map List.length)

theorem SourceFile.eq_of_shape {f g : SourceFile} (hshape : f.shape=g.shape)
    (hname : hashedName f.name=hashedName g.name)
    (hcontent : f.content.getD []=g.content.getD []) : f=g := by
  obtain ⟨dir,name,content⟩ := f
  obtain ⟨dir',name',content'⟩ := g
  simp only [shape,Prod.mk.injEq] at hshape
  obtain ⟨rfl,hraw,-,hlen⟩ := hshape
  have hnames : name=name' := by
    unfold hashedName at hname
    split_ifs at hraw hname
    · exact hname
    · exact Option.some.inj hraw
  have hcontents : content=content' := by
    cases content <;> cases content' <;> simp_all
  rw [hnames,hcontents]

theorem files_eq_of_shapes {fs gs} (hshape : fs.map (·.shape)=gs.map (·.shape))
    (h : stream fs=stream gs) : fs=gs := by
  induction fs generalizing gs with
  | nil => exact (List.map_eq_nil_iff.1 hshape.symm).symm
  | cons f fs ih =>
    cases gs with
    | nil => cases hshape
    | cons g gs =>
      obtain ⟨hfg,hrest⟩ := List.cons.inj hshape
      obtain ⟨-,-,hname,hcontent⟩ := by simpa only [SourceFile.shape,Prod.mk.injEq] using hfg
      simp only [stream,List.flatMap_cons,List.append_assoc] at h
      obtain ⟨hn,h⟩ := List.append_inj h hname
      have hlen : (f.content.getD []).length=(g.content.getD []).length := by
        cases hf : f.content <;> cases hg : g.content <;> simp_all
      obtain ⟨hc,h⟩ := List.append_inj h hlen
      rw [SourceFile.eq_of_shape hfg hn hc,ih hrest h]

theorem integrity_notices_iff {hash s t}
    (hnc : hash (stream (sourceFiles s))=hash (stream (sourceFiles t)) →
      stream (sourceFiles s)=stream (sourceFiles t))
    (hintact : verifyIntegrity hash t (hashSourceTree hash s)=.intact) :
    sourceFiles s=sourceFiles t ↔ (sourceFiles s).map (·.shape)=(sourceFiles t).map (·.shape) := by
  refine ⟨fun h => by rw [h],fun h => files_eq_of_shapes h (hnc ?_)⟩
  unfold verifyIntegrity hashSourceTree at hintact
  split_ifs at hintact with heq
  have hdigests:=congrArg Proof.decodeHash heq
  rw [Proof.decodeHash_hexDigest,Proof.decodeHash_hexDigest] at hdigests
  exact (Option.some.inj hdigests).symm

namespace Sample

def rs (name content : String) (rest : Listing) : Listing :=
  .file (utf8 name) (some (utf8 content)) rest

def zeroHash (_ : Bytes) : Digest := Proof.zeroDigest

end Sample
open Sample

/-- The files are listed in another order, with one that is not hashed among them. -/
theorem integrity_notices_iff_same :
    let s:=rs "a.rs" "x" (rs "b.rs" "y" .nil)
    let t:=rs "b.rs" "y" (rs "n.txt" "z" (rs "a.rs" "x" .nil))
    verifyIntegrity zeroHash t (hashSourceTree zeroHash s)=.intact ∧ sourceFiles s=sourceFiles t := by
  intro s t
  have hintact : verifyIntegrity zeroHash t (hashSourceTree zeroHash s)=.intact := if_pos rfl
  have hstream : stream (sourceFiles s)=stream (sourceFiles t) := by decide +kernel
  exact ⟨hintact,(integrity_notices_iff (fun _ => hstream) hintact).mpr (by decide +kernel)⟩

/-- A file moved to another directory, and a file split in two, give the same stream. -/
theorem moved_and_split_unnoticed :
    let s:=Listing.dir [99] (rs "x.rs" "" .nil) (rs "a.rs" "b.rs" .nil)
    let t:=Listing.dir [100] (rs "x.rs" "" .nil) (rs "a.rs" "b.rs" .nil)
    let u:=Listing.dir [99] (rs "x.rs" "" .nil) (rs "a.rs" "" (rs "b.rs" "" .nil))
    sourceFiles s≠sourceFiles t ∧ stream (sourceFiles s)=stream (sourceFiles t) ∧
      sourceFiles s≠sourceFiles u ∧ stream (sourceFiles s)=stream (sourceFiles u) := by
  decide +kernel

end OriginTools.Canary
