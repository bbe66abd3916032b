namespace CrateAudit

/-- A path of the file system, without empty components and single dots. -/
structure Path where
  /-- Empty, one slash, or exactly two. -/
  root : String
  parts : List String

namespace Path

def splitSlash : List Char → List (List Char)
  | [] => [[]]
  | c :: cs =>
    match splitSlash cs with
    | [] => [[c]]
    | first :: rest => if c = '/' then [] :: first :: rest else (c :: first) :: rest

def ofString (s : String) : Path where
  root :=
    match s.toList with
    | '/' :: '/' :: '/' :: _ => "/"
    | '/' :: '/' :: _ => "//"
    | '/' :: _ => "/"
    | _ => ""
  parts := ((splitSlash s.toList).map String.ofList).filter fun p => p ≠ "" ∧ p ≠ "."

def text (p : Path) : String :=
  if p.root = "" ∧ p.parts = [] then "." else p.root ++ "/".intercalate p.parts

def name (p : Path) : String :=
  p.parts.getLast?.getD ""

/-- The name from its last dot on, unless the dot comes first or last. -/
def suffix (p : Path) : String :=
  let reversed := p.name.toList.reverse
  let ending := reversed.takeWhile (· ≠ '.')
  match ending, reversed.drop ending.length with
  | _ :: _, '.' :: _ :: _ => String.ofList ('.' :: ending.reverse)
  | _, _ => ""

end Path

end CrateAudit
