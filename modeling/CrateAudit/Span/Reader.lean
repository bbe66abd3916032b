import CrateAudit.Span

namespace CrateAudit.Span

open Number Text

def number? (cs : List Char) : Option (List Char × List Char) :=
  match cs.takeWhile isDigit with
  | [] => none
  | numeral => some (numeral, cs.dropWhile isDigit)

def expect? (c : Char) : List Char → Option (List Char)
  | d :: rest => if d = c then some rest else none
  | [] => none

structure Positions where
  loLine : List Char
  loColumn : List Char
  hiLine : List Char
  hiColumn : List Char

/-- `:LINE:COLUMN: LINE:COLUMN` -/
def positions? (cs : List Char) : Option (Positions × List Char) := do
  let cs ← expect? ':' cs
  let (a, cs) ← number? cs
  let cs ← expect? ':' cs
  let (b, cs) ← number? cs
  let cs ← expect? ':' cs
  let cs ← expect? ' ' cs
  let (c, cs) ← number? cs
  let cs ← expect? ':' cs
  let (d, cs) ← number? cs
  return (⟨a, b, c, d⟩, cs)

/-- The shortest path, at least one character long and on one line, that positions follow. -/
def path? : List Char → Option (List Char × List Char)
  | [] => none
  | c :: cs =>
    if c = '\n' then none
    else if (positions? cs).isSome then some ([c], cs)
    else (path? cs).map fun (path, rest) => (c :: path, rest)

def expansion? : List Char → Option (Option (List Char))
  | [] => some none
  | '@' :: cs =>
    match number? cs with
    | some (numeral, []) => some (some numeral)
    | _ => none
  | _ => none

def read? (text : String) : Option Span := do
  let (path, cs) ← path? (strip text.toList)
  let (p, cs) ← positions? cs
  let expansion ← expansion? cs
  let loLine ← readNat? p.loLine
  let loColumn ← readNat? p.loColumn
  let hiLine ← readNat? p.hiLine
  let hiColumn ← readNat? p.hiColumn
  let number ← expansion.mapM readNat?
  return ⟨.str (String.ofList path), loLine, loColumn, hiLine, hiColumn, number.map Int.ofNat⟩

end CrateAudit.Span
