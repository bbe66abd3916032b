import CrateAudit.Path
import CrateAudit.Table
import CrateAudit.Text.Lines

namespace CrateAudit

inductive FileState where
  | missing
  | directory
  | text (s : String)
  /-- A file whose bytes are no UTF-8. -/
  | undecodable

/-- The text of a file as it is read: line ends of all kinds are line feeds. -/
def FileState.read? : FileState → Option String
  | text s => some (String.ofList (Text.unifyLineEnds s.toList))
  | _ => none

/-- A directory and what is in it, seen from inside: a place is given by the names that lead to it.
Two dots lead out of it, and a slash to the root of the file system. -/
structure Store where
  entries : Table (List String) FileState

namespace Store

def maxName : Nat := 255

def maxPath : Nat := 4095

def standardDirectories : List (List String) := [
  ["bin"], ["boot"], ["dev"], ["etc"], ["home"], ["lib"], ["media"], ["mnt"], ["opt"], ["proc"],
  ["root"], ["run"], ["sbin"], ["srv"], ["sys"], ["tmp"], ["usr"], ["usr", "bin"], ["usr", "lib"],
  ["usr", "sbin"], ["var"], ["var", "tmp"]]

def isOuter : List String → Bool
  | ["/"] => true
  | "/" :: place => standardDirectories.contains place
  | place => place.all (· == "..")

def nullDevice : List String :=
  ["/", "dev", "null"]

def fullDevice : List String :=
  ["/", "dev", "full"]

def at? (s : Store) (place : List String) : FileState :=
  if isOuter place then .directory
  else if place = nullDevice ∨ place = fullDevice then .text ""
  else (s.entries.get? place).getD .missing

def isDirectory (s : Store) (place : List String) : Bool :=
  match s.at? place with
  | .directory => true
  | _ => false

def parent (place : List String) : List String :=
  if place == ["/"] then place
  else if place.all (· == "..") then ".." :: place
  else place.dropLast

def start (p : Path) : List String :=
  if p.root = "" then [] else ["/"]

def step (place : List String) (part : String) : List String :=
  if part = ".." then parent place else place ++ [part]

def follow? (s : Store) (place : List String) : List String → Option (List String)
  | [] => some place
  | part :: parts => if s.isDirectory place then s.follow? (step place part) parts else none

def look (s : Store) (path : String) : FileState :=
  let p := Path.ofString path
  if maxPath < p.text.utf8ByteSize then .missing
  else match s.follow? (start p) p.parts with
    | some place => s.at? place
    | none => .missing

def put (s : Store) (place : List String) (f : FileState) : Store :=
  ⟨s.entries.put place f⟩

def hasRoom (s : Store) (place : List String) : Bool :=
  s.isDirectory (parent place) && place.getLast?.all fun name => name.utf8ByteSize ≤ maxName

/-- Makes the directories among the first `n` names of a place that are not there yet, as far as
that goes. -/
def makeDirectories (s : Store) (place : List String) : Nat → Store
  | 0 => s
  | n + 1 =>
    let made := s.makeDirectories place n
    match made.at? (place.take (n + 1)) with
    | .missing =>
      if made.hasRoom (place.take (n + 1)) then made.put (place.take (n + 1)) .directory
      else made
    | _ => made

def add (s : Store) (path : String) (f : FileState) : Store :=
  let p := Path.ofString path
  let place := p.parts.foldl step (start p)
  (s.makeDirectories place (place.length - 1)).put place f

inductive OpenFailure where
  /-- The path starts at the home of a user who is not known. -/
  | noHome
  | nullCharacter
  /-- Something stands in the way or a name is too long. The directories that were made before
  stay. -/
  | refused (s : Store)

/-- The homes of the users that every system has. A tilde alone is the home of the current user, who
is taken for the first of them. -/
def homes : Table String (List String) := [
  ("~", ["/", "root"]), ("~root", ["/", "root"]), ("~daemon", ["/", "usr", "sbin"]),
  ("~bin", ["/", "bin"]), ("~sys", ["/", "dev"])]

/-- Where a path starts, with what is left of it. One that starts with a tilde starts at a home. -/
def outset (p : Path) : Except OpenFailure (List String × List String) :=
  match p.root, p.parts with
  | "", first :: rest =>
    if first.startsWith "~" && !first.toList.contains '\x00' then
      match homes.get? first with
      | some home => .ok (home, rest)
      | none => .error .noHome
    else .ok (start p, p.parts)
  | _, parts => .ok (start p, parts)

/-- Opens a file for appending: the directories that lead to it are made, and so is the file. -/
def openAppend (s : Store) (path : String) : Except OpenFailure (List String × Store) := do
  let (home, parts) ← outset (Path.ofString path)
  if parts.any fun part => part.toList.contains '\x00' then .error .nullCharacter
  let place := parts.foldl step home
  if maxPath < ("/".intercalate place).utf8ByteSize then .error (.refused s)
  let made := s.makeDirectories place (place.length - 1)
  match made.at? place with
  | .directory => .error (.refused made)
  | .missing =>
    if made.hasRoom place then .ok (place, made.put place (.text ""))
    else .error (.refused made)
  | _ => .ok (place, made)

def append (s : Store) (place : List String) (written : String) : Store :=
  match s.at? place with
  | .text t => s.put place (.text (t ++ written))
  | _ => s

end Store

end CrateAudit
