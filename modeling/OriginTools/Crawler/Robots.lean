import OriginTools.Vcs.Store

/-!
# Robots rules

`robots.rs`: a scan over the lines of a `robots.txt` with two flags, and the longest-match
test of a path.
-/

namespace OriginTools.Crawler
open Vcs.Store (isSpace)

abbrev Text := List Char

def trim (s : Text) : Text := ((s.dropWhile isSpace).reverse.dropWhile isSpace).reverse

def lower (s : Text) : Text := s.map Char.toLower

inductive Line where
  | empty (commented : Bool)
  | agent (token : Text)
  | rule (allow : Bool) (path : Text)
  | sitemap (url : Text)
  | other
  deriving DecidableEq

def directive (key val : Text) : Line :=
  if key = "user-agent".toList then .agent (lower val)
  else if key = "disallow".toList then .rule false val
  else if key = "allow".toList then .rule true val
  else if key = "sitemap".toList ∧ val≠[] then .sitemap val
  else .other

def classify (raw : Text) : Line :=
  let line:=trim (raw.takeWhile (· ≠ '#'))
  if line=[] then .empty (raw.contains '#')
  else if line.contains ':' then
    directive (lower (trim (line.takeWhile (· ≠ ':')))) (trim ((line.dropWhile (· ≠ ':')).tail))
  else .other

def linesOf (txt : Text) : List Line :=
  let parts:=txt.splitOn '\n'
  (if parts.getLast?=some [] then parts.dropLast else parts).map classify

@[ext] structure Robots where
  allow : List Text := []
  disallow : List Text := []
  sitemaps : List Text := []
  deriving DecidableEq

def Robots.push (r : Robots) (allow : Bool) (path : Text) : Robots :=
  if allow then { r with allow := r.allow++[path] }
  else { r with disallow := r.disallow++[path] }

structure Scan where
  robots : Robots := {}
  groupApplies : Bool := false
  inAgentBlock : Bool := false

def applies (ua token : Text) : Bool :=
  token=['*']||(!token.isEmpty&&ua.tails.any token.isPrefixOf)

def Scan.step (ua : Text) (s : Scan) : Line → Scan
  | .empty _ => { s with groupApplies := false, inAgentBlock := false }
  | .agent token =>
      { s with
        groupApplies := (s.inAgentBlock&&s.groupApplies)||applies ua token
        inAgentBlock := true }
  | .rule allow path =>
      { s with robots := if s.groupApplies then s.robots.push allow path else s.robots }
  | .sitemap url => { s with robots.sitemaps := s.robots.sitemaps++[url] }
  | .other => s

def scan (ua : Text) (lines : List Line) : Scan := lines.foldl (Scan.step ua) {}

def parse (txt userAgent : Text) : Robots := (scan (lower userAgent) (linesOf txt)).robots

def len (p : Text) : ℕ := (p.map Char.utf8Size).sum

namespace Line

def isEmpty : Line → Bool
  | .empty _ => true
  | _ => false

def names (ua : Text) : Line → Bool
  | .agent token => applies ua token
  | _ => false

end Line

open Line

end OriginTools.Crawler
