import CrateAudit.Diagnostic
import CrateAudit.Log
import CrateAudit.Crate

namespace CrateAudit

open Crate

structure SourceMap where
  files : Table String String
  expansions : Table Int Expansion

def Crate.source (c : Crate) : SourceMap :=
  ⟨c.files, c.expansions⟩

inductive SourceError where
  | unusableFile
  | notLoaded (s : Span)
  | outside (s : Span)

def SourceError.diagnostic? : SourceError → Option Diagnostic
  | unusableFile => none
  | notLoaded s => some (.make .source ("file " ++ s.file.shown ++ " not loaded") none s.text)
  | outside s => some (.make .source "span outside of file text" none s.text)

namespace SourceMap

/-- Where line `n` starts, counting lines from zero. -/
def lineStart? : List Char → Nat → Option Nat
  | _, 0 => some 0
  | [], _ + 1 => none
  | c :: cs, n + 1 => (lineStart? cs (if c = '\n' then n else n + 1)).map (· + 1)

/-- The offset of a line and column, each counted from one. The place after the last character of a
line belongs to it. -/
def offset? (text : List Char) (line column : Int) : Option Nat :=
  if line < 1 ∨ column < 1 then none
  else do
    let start ← lineStart? text (line - 1).toNat
    let length := ((text.drop start).takeWhile (· ≠ '\n')).length
    if column - 1 ≤ length then some (start + (column - 1).toNat) else none

def between? (text : List Char) (s : Span) : Option (List Char) := do
  let lo ← offset? text s.loLine s.loColumn
  let hi ← offset? text s.hiLine s.hiColumn
  if lo ≤ hi then some ((text.take hi).drop lo) else none

def file? (m : SourceMap) : Value → Option String
  | .str name => m.files.get? name
  | _ => none

def snippet (m : SourceMap) (s : Span) : Except SourceError String :=
  if !s.file.isKey then .error .unusableFile
  else match m.file? s.file with
    | none => .error (.notLoaded s)
    | some text =>
      match between? text.toList s with
      | some cs => .ok (String.ofList cs)
      | none => .error (.outside s)

def snippet? (m : SourceMap) (s : Span) : Except SourceError (Option String) :=
  match m.snippet s with
  | .ok text => .ok (some text)
  | .error .unusableFile => .error .unusableFile
  | .error _ => .ok none

/-- The expansion that produced a span. One that is not recorded is taken for the compiler's own. -/
def expansion? (m : SourceMap) (s : Span) : Option Expansion :=
  s.expansion.map fun id => (m.expansions.get? id).getD ⟨id, .compiler, none, none, ""⟩

def expansionNotes (m : SourceMap) (s : Span) : List Log.Entry :=
  match s.expansion with
  | some id =>
    match m.expansions.get? id with
    | none => [⟨.debug, .sources, "No expansion record for id " ++ toString id, none⟩]
    | some _ => []
  | none => []

end SourceMap

end CrateAudit
