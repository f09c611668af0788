import OriginTools.Vcs.Store

/-!
# Names of commits

`resolve_id` (`commands.rs`) turns what a user types into an object id.
-/

namespace OriginTools.Vcs.Store
variable (sdk : Sdk)

def rsplitTilde (spec : String) : Option (String × String) :=
  let rev:=spec.toList.reverse
  if '~'∈rev then
    some (String.ofList (rev.dropWhile (· ≠ '~')).tail.reverse,
      String.ofList (rev.takeWhile (· ≠ '~')).reverse)
  else none

def parseU32 (s : String) : Option ℕ :=
  let digits:=match s.toList with
    | '+'::rest => rest
    | cs => cs
  if digits=[] ∨ ¬ digits.all Char.isDigit then none
  else
    let n:=digits.foldl (fun n c => n*10+(c.toNat - '0'.toNat)) 0
    if n<2^32 then some n else none

def ancestorAt (s : Store) (spec : String) : ℕ → ObjectId → Except String ObjectId
  | 0,cur => .ok cur
  | n+1,cur =>
    match s.readCommit sdk cur with
    | .error e => .error e
    | .ok c =>
      match c.parents.head? with
      | none => .error s!"{spec}: not enough ancestors"
      | some p => ancestorAt s spec n p

def okOrNil {α : Type} : Except String (List α) → List α
  | .ok xs => xs
  | .error _ => []

def shortIdCandidates (s : Store) (info : RepoMeta) : List ObjectId :=
  let head:=match s.headBranch with
    | .ok (some b) => okOrNil ((s.readRef .heads b).map ([·]))
    | _ => []
  head++info.branches.map Prod.snd++info.tags.map Prod.snd++okOrNil s.remoteRefs++
    okOrNil s.commitLog

def resolveShortId (s : Store) (info : RepoMeta) (spec : String) : Except String ObjectId :=
  let pre:=spec.toList.map Char.toLower
  let known:=(s.shortIdCandidates info).filter fun id => pre.isPrefixOf (hex id).toList
  let found:=if known=[] then s.objects.keys.filter fun id => pre.isPrefixOf (hex id).toList
    else known
  match found.dedup with
  | [] => .error s!"unknown ref: {String.ofList pre}"
  | [id] => .ok id
  | _ => .error s!"ambiguous ref: {String.ofList pre}"

def resolveName (s : Store) (info : RepoMeta) (spec : String) : Except String ObjectId :=
  let byRef:=if s.refExists .heads spec then s.readRef .heads spec
    else if s.refExists .tags spec then s.readRef .tags spec
    else .error s!"unknown ref: {spec}"
  match hexDecode spec with
  | .error _ => byRef
  | .ok bytes =>
    if bytes.length=32 then .ok (idOfBytes bytes)
    else if 4≤bytes.length ∧ bytes.length<32 then s.resolveShortId info spec
    else if bytes.length<4 then
      .error s!"abbreviated commit id '{spec}' is too short: {(utf8 spec).length} hex chars is fewer than the 8-char minimum (an abbreviation must be 4-32 bytes)"
    else byRef

def resolveSpec (s : Store) (info : RepoMeta) : ℕ → String → Except String ObjectId
  | 0,spec => s.resolveName info spec
  | fuel+1,spec =>
    if spec = "HEAD" ∨ spec = "@" then
      match s.currentBranch "no HEAD" with
      | .error e => .error e
      | .ok head => s.readRef .heads head
    else match rsplitTilde spec with
      | none => s.resolveName info spec
      | some (base,n) =>
        match parseU32 n with
        | none => .error s!"bad ancestor depth in '{spec}'"
        | some n =>
          match resolveSpec s info fuel base with
          | .error e => .error e
          | .ok cur => s.ancestorAt sdk spec n cur

def resolveId (s : Store) (info : RepoMeta) (spec : String) : Except String ObjectId :=
  s.resolveSpec sdk info (spec.toList.length+1) spec

end OriginTools.Vcs.Store
