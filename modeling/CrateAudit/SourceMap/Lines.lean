import CrateAudit.SourceMap

namespace CrateAudit.SourceMap

/-- Where lines start after a line feed, in a text with `n` characters before it. -/
def laterStarts (n : Nat) : List Char → List Nat
  | [] => []
  | c :: cs => if c = '\n' then (n + 1) :: laterStarts (n + 1) cs else laterStarts (n + 1) cs

def lineStarts (text : List Char) : List Nat :=
  0 :: laterStarts 0 text

/-- The offset of a line and column in a text of the given length, by a table of where its lines
start. A line ends ahead of the line feed before the next one, and the last line where the text
does. -/
def offsetBy? (starts : List Nat) (length : Nat) (line column : Int) : Option Nat :=
  if line < 1 ∨ column < 1 then none
  else do
    let start ← starts[(line - 1).toNat]?
    let lineEnd := starts[line.toNat]?.elim length (· - 1)
    let offset := start + (column - 1).toNat
    if offset ≤ lineEnd then some offset else none

def betweenBy? (starts : List Nat) (text : List Char) (s : Span) : Option (List Char) := do
  let lo ← offsetBy? starts text.length s.loLine s.loColumn
  let hi ← offsetBy? starts text.length s.hiLine s.hiColumn
  if lo ≤ hi then some ((text.take hi).drop lo) else none

/-- A source map that keeps a table of the lines of each file that it was asked about. -/
structure Cached where
  source : SourceMap
  tables : Table String (List Nat)
  sound : ∀ name starts, tables.get? name = some starts →
    ∃ text, source.files.get? name = some text ∧ starts = lineStarts text.toList

namespace Cached

def ofSource (m : SourceMap) : Cached :=
  ⟨m, [], nofun⟩

variable {name text : String}

def keep (m : Cached) (h : m.source.files.get? name = some text) : Cached where
  source := m.source
  tables := m.tables.put name (lineStarts text.toList)
  sound := by
    intro name' starts hget
    by_cases hname : name = name'
    · subst hname
      rw [Table.get?_put_self] at hget
      exact ⟨text, h, (Option.some.inj hget).symm⟩
    · rw [Table.get?_put_of_ne _ _ hname] at hget
      exact m.sound name' starts hget

def starts (m : Cached) (h : m.source.files.get? name = some text) : List Nat × Cached :=
  match m.tables.get? name with
  | some starts => (starts, m)
  | none => (lineStarts text.toList, m.keep h)

def inFile (m : Cached) (h : m.source.files.get? name = some text) (s : Span) :
    Except SourceError String × Cached :=
  let table := m.starts h
  (match betweenBy? table.1 text.toList s with
    | some cs => .ok (String.ofList cs)
    | none => .error (.outside s), table.2)

def snippet (m : Cached) (s : Span) : Except SourceError String × Cached :=
  if !s.file.isKey then (.error .unusableFile, m)
  else match s.file with
    | .str name =>
      match h : m.source.files.get? name with
      | some _ => m.inFile h s
      | none => (.error (.notLoaded s), m)
    | _ => (.error (.notLoaded s), m)

def after (m : Cached) (spans : List Span) : Cached :=
  spans.foldl (fun m s => (m.snippet s).2) m

end Cached

end CrateAudit.SourceMap
