import CrateAudit.Number.Double
import CrateAudit.Number.Integer

namespace CrateAudit.Number

open Text

def underscoresBetweenDigits : List Char → Bool
  | [] => true
  | '_' :: _ => false
  | [_] => true
  | c :: '_' :: d :: cs => c.isDigit && d.isDigit && underscoresBetweenDigits (d :: cs)
  | _ :: c :: cs => underscoresBetweenDigits (c :: cs)

def readExponent? : List Char → Option Int
  | [] => some 0
  | c :: cs =>
    if c = 'e' ∨ c = 'E' then
      let (negative, body) := splitSign cs
      match spanDigits body with
      | ([], _) => none
      | (ds, []) => some (if negative then -(ofDigits ds : Int) else ofDigits ds)
      | _ => none
    else none

def readDecimal? (negative : Bool) (cs : List Char) : Option Double := do
  let (whole, rest) := spanDigits cs
  let (fraction, rest) := match rest with
    | '.' :: after => spanDigits after
    | _ => ([], rest)
  let ds := whole ++ fraction
  if ds.isEmpty then none
  let e ← readExponent? rest
  return .ofDecimal negative (ofDigits ds) (e - fraction.length)

/-- Reads a whole text as a floating point number: blanks around it, a sign, then `inf`, `infinity`,
`nan` in any case, or a decimal with digits of any script grouped by underscores. -/
def readDouble? (cs : List Char) : Option Double :=
  let (negative, body) := splitSign (trim isPlainBlank (cs.map asciiForm))
  let lower := String.ofList (body.map Char.toLower)
  if lower = "inf" ∨ lower = "infinity" then some (.infinity negative)
  else if lower = "nan" then some .nan
  else if underscoresBetweenDigits body then readDecimal? negative (body.filter (· ≠ '_'))
  else none

end CrateAudit.Number
