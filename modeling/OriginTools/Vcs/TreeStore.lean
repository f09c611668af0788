import OriginTools.Vcs.Store

/-!
# Tree objects

Flat trees are written as nested tree objects, one for each directory (`write_tree`),
and read back into the flat form (`read_tree`).
-/

namespace OriginTools.Vcs.Store
variable (sdk : Sdk)

def rowLe (a b : String × String × String) : Bool :=
  a.1<b.1 ∨ (a.1=b.1 ∧ (a.2.1<b.2.1 ∨ (a.2.1=b.2.1 ∧ a.2.2≤b.2.2)))

def leafRows (entries : List (List String × TreeEntry)) : List (String × String × String) :=
  entries.filterMap fun
    | ([name],e) => some (name,e.mode.asStr,hex e.id)
    | _ => none

def subNames (entries : List (List String × TreeEntry)) : List String :=
  (Std.ExtTreeSet.ofList (entries.filterMap fun
    | (name::_::_,_) => some name
    | _ => none) compare).toList

def subEntries (entries : List (List String × TreeEntry)) (name : String) :
    List (List String × TreeEntry) :=
  entries.filterMap fun
    | (first::second::rest,e) => if first=name then some (second::rest,e) else none
    | _ => none

def writeTreeObject (rows : List (String × String × String)) : Command Store String ObjectId := do
  let body:=sdk.treeObjectJson ⟨2,rows.insertionSort fun a b => rowLe a b⟩
  let id:=treeBodyAddress sdk body
  putRaw sdk id body
  pure id

def rowsOfSubs (write : String → Command Store String ObjectId) :
    List String → Command Store String (List (String × String × String))
  | [] => pure []
  | name::names => do
    let id ← write name
    let rows ← rowsOfSubs write names
    pure ((name ++ "/","tree",hex id)::rows)

def writeTreeBucket : ℕ → List (List String × TreeEntry) → Command Store String ObjectId
  | 0,entries => writeTreeObject sdk (leafRows entries)
  | depth+1,entries => do
    let subs ← rowsOfSubs (fun name => writeTreeBucket depth (subEntries entries name))
      (subNames entries)
    writeTreeObject sdk (subs++leafRows entries)

def writeTree (tree : Tree) : Command Store String ObjectId :=
  let entries:=tree.entries.toList.map fun p => (splitPath p.1,p.2)
  writeTreeBucket sdk ((entries.map fun p => p.1.length).foldl max 0) entries

def trimEndSlash (s : String) : String :=
  String.ofList (s.toList.reverse.dropWhile (· = '/')).reverse

abbrev Entries : Type := Std.ExtTreeMap String TreeEntry compare

/-- Add the rows of a tree object to `out`; `subtree` reads a subtree object into
the entries below a path. -/
def flattenRows (subtree : ObjectId → String → Entries → Option (Except String Entries)) (pre : String) :
    List (String × String × String) → Entries → Option (Except String Entries)
  | [],out => some (.ok out)
  | (name,kind,hexid)::rows,out =>
    match idFromHexStr hexid with
    | .error e => some (.error e)
    | .ok id =>
      let rel:=if pre = "" then name else s!"{pre}/{name}"
      if kind = "tree" then
        match subtree id (trimEndSlash rel) out with
        | none => none
        | some (.error e) => some (.error e)
        | some (.ok out) => flattenRows subtree pre rows out
      else match FileMode.fromName kind with
        | .error e => some (.error e)
        | .ok mode => flattenRows subtree pre rows (out.insert rel ⟨mode,id⟩)

def readSubtree (s : Store) : ℕ → ObjectId → String → Entries → Option (Except String Entries)
  | 0,_,_,_ => none
  | n+1,id,pre,out =>
    match s.read sdk id with
    | .error e => some (.error e)
    | .ok bytes =>
      match sdk.parseTreeObject bytes with
      | .error e => some (.error s!"subtree: {e}")
      | .ok obj => flattenRows (readSubtree s n) pre obj.entries out

/-- Read a tree into the flat form. Nesting deeper than there are objects means a
subtree inside itself, which is followed forever. -/
def readTree (s : Store) (id : ObjectId) : Option (Except String Tree) :=
  match s.read sdk id with
  | .error e => some (.error e)
  | .ok bytes =>
    match sdk.jsonVersion bytes with
    | .error e => some (.error s!"decoded tree: {e}")
    | .ok v =>
      if v=some 2 then
        match sdk.parseTreeObject bytes with
        | .error e => some (.error s!"decoded tree: {e}")
        | .ok obj =>
          (flattenRows (readSubtree sdk s s.objects.size) "" obj.entries ∅).map
            (·.map fun entries => { Tree.new with entries := entries })
      else some ((sdk.parseTree bytes).mapError fun e => s!"decoded tree: {e}")

theorem readSubtree_congr (s t : Store) (h : s.objects=t.objects) (n : ℕ) :
    s.readSubtree sdk n=t.readSubtree sdk n := by
  induction n with
  | zero => rfl
  | succ n ih =>
    funext id pre out
    simp only [readSubtree,s.read_congr sdk t h,ih]

theorem readTree_congr (s t : Store) (h : s.objects=t.objects) : s.readTree sdk=t.readTree sdk := by
  funext id
  simp only [readTree,s.read_congr sdk t h,s.readSubtree_congr sdk t h,h]

def treeObjectChildren (s : Store) (id : ObjectId) : Except String (List ObjectId) :=
  match s.read sdk id with
  | .error e => .error e
  | .ok bytes =>
    match sdk.jsonVersion bytes with
    | .error e => .error s!"tree: {e}"
    | .ok v =>
      if v=some 2 then
        match sdk.parseTreeObject bytes with
        | .error e => .error s!"tree: {e}"
        | .ok obj => obj.entries.mapM fun row => idFromHexStr row.2.2
      else
        match sdk.parseTree bytes with
        | .error e => .error s!"tree: {e}"
        | .ok t => .ok (t.entries.values.map TreeEntry.id)

end OriginTools.Vcs.Store
