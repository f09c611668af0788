import OriginTools.Proof.Mmr

/-!
# The canary Merkle tree

`merkle.rs`: adjacent hashes are joined and hashed, an odd last one with itself.
-/

namespace OriginTools.Canary
open Proof List
section
variable (hash : Bytes → Digest)

/-- The strings that are hashed for the level above. -/
def pairs : List Digest → List Bytes
  | a::b::rest => (a.toList++b.toList)::pairs rest
  | [a] => [a.toList++a.toList]
  | [] => []

structure MerkleTree where
  leaves : List Digest
  root : Digest
  levels : List (List Digest)

def decoded (s : String) : Bytes :=
  match Vcs.hexDecode s with
  | .ok bytes => bytes
  | .error _ => []

def combined (current : String) (index : ℕ) (sibling : String) : Bytes :=
  if index % 2=0 then decoded current++decoded sibling
  else decoded sibling++decoded current

def walk (current : String) (index : ℕ) : List String → String
  | [] => current
  | sibling::proof =>
      walk (hexDigest (hash (combined current index sibling))) (index / 2) proof

def verifyProof (leaf : String) (proof : List String) (index : ℕ) (root : String) : Bool :=
  walk hash leaf index proof==root

def MerkleTree.inputs (t : MerkleTree) : List Bytes := t.levels.flatMap pairs

def NoCollision (inputs : List Bytes) : Prop :=
  ∀ x∈inputs, ∀ y∈inputs, hash x=hash y → x=y

end

variable {hash : Bytes → Digest}

theorem NoCollision.mono {inputs inputs'} (h : NoCollision hash inputs) (hsub : inputs' ⊆ inputs) :
    NoCollision hash inputs' :=
  fun x hx y hy => h x (hsub hx) y (hsub hy)

namespace Sample

def digest (b : UInt8) : Digest := ⟨b::replicate 31 0,rfl⟩

end Sample

open Sample

end OriginTools.Canary
