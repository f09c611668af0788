import OriginTools.Vcs.Resolve

/-!
# The plan of an interactive rebase

`autosquash_plan` (`commands.rs`): the lines of a todo list, reordered so that each
fixup follows the commit it is for.
-/

namespace OriginTools.Vcs
open Store List

def splitWhitespace (line : String) : List String :=
  ((line.toList.splitOnP isSpace).filter fun word => !word.isEmpty).map String.ofList

def startsWith (pre line : String) : Bool := pre.toList.isPrefixOf line.toList

def stripText (pre line : String) : Option String :=
  if startsWith pre line then some (String.ofList (line.toList.drop pre.toList.length)) else none

/-- What stands before the first mark `# ` of a line, and what stands after it. -/
def splitMark : List Char → List Char × Option (List Char)
  | [] => ([],none)
  | '#' :: ' '::l => ([],some l)
  | c::l => (c::(splitMark l).1,(splitMark l).2)

def lineMessage (line : String) : String :=
  trim (String.ofList (((splitMark line.toList).2.map fun l => (splitMark l).1).getD []))

def lineId (line : String) : String := (splitWhitespace line)[1]?.getD ""

def fixupTarget (line : String) : Option String :=
  (stripText "fixup! " (lineMessage line)).or (stripText "squash! " (lineMessage line))

def isPick (line : String) : Bool := startsWith "pick" line

/-- The place `autosquash_plan` moves a line to: behind the first pick it is a fixup of. -/
def placeOf (lines : List String) (line : String) : Option ℕ :=
  if isPick line then none
  else match fixupTarget line with
    | none => none
    | some target =>
      match lines.findIdx? fun l => isPick l&&lineId l≠lineId line&&lineMessage l=target with
      | none => none
      | some j => if j+1<lines.length then some (j+1) else none

def moveLine (lines : List String) (step : ℕ × ℕ) : List String :=
  match lines[step.1]? with
  | none => lines
  | some line => (lines.eraseIdx step.1).insertIdx step.2 line

def applyMoves (moves : List (ℕ × ℕ)) (l : List String) : List String :=
  moves.foldr (fun step l => moveLine l step) l

/-- A stretch of the plan: a line, the fixups that stand right behind it, lines that stay
where they are, and at most one more fixup of the first line. -/
structure Stretch where
  first : String
  block : List String
  stay : List String
  last : Option String

/-- The lines at the places `is` in turn, from the last of them on, go to the front. -/
def turned (is : List ℕ) (l : List String) : List String := applyMoves (is.map fun i => (i,0)) l

namespace Stretch

def lines (s : Stretch) : List String := s.first::s.block++s.stay++s.last.toList
def fixups (s : Stretch) : List String := s.last.toList++s.block

/-- In `plan` the stretch begins at position `k`: the last line of it is moved behind its
first line, with the fixups in the block, and no other line of it is moved. -/
structure Fits (plan : List String) (k : ℕ) (s : Stretch) : Prop where
  first : ∀ j∈placeOf plan s.first,j=k
  fixups : ∀ x∈s.fixups,fixupTarget x=some (lineMessage s.first) ∧ ∀ j∈placeOf plan x,j=k+1
  stay : ∀ p∈s.stay.zipIdx (k+1+s.block.length),∀ j∈placeOf plan p.1,j=p.2
  last : ∀ x∈s.last,(placeOf plan x).isSome

end Stretch

section
variable {plan : List String}

end

namespace Sample

end Sample
open Sample

end OriginTools.Vcs
