import CrateAudit.Text.Blank
import CrateAudit.Text.Digit

namespace CrateAudit.Number

open Text

def maxDigits : Nat := 4300

def ofDigits (ds : List Nat) : Nat :=
  ds.foldl (fun n d => 10 * n + d) 0

def ofDigits? (ds : List Nat) : Option Nat :=
  if ds.length ≤ maxDigits then some (ofDigits ds) else none

def readNat? (cs : List Char) : Option Nat := do
  ofDigits? (← cs.mapM digit?)

/-- Digits and blanks of all scripts in their ASCII form, other characters outside ASCII as a
question mark. -/
def asciiForm (c : Char) : Char :=
  if c.toNat < 127 then c
  else if isBlank c then ' '
  else match digit? c with
    | some d => Char.ofNat (48 + d)
    | none => '?'

def groupedDigits? : List Char → Option (List Nat)
  | [] => none
  | [c] => (digit? c).map fun d => [d]
  | c :: '_' :: cs => do
    let d ← digit? c
    let ds ← groupedDigits? cs
    return d :: ds
  | c :: cs => do
    let d ← digit? c
    let ds ← groupedDigits? cs
    return d :: ds

def splitSign : List Char → Bool × List Char
  | '-' :: cs => (true, cs)
  | '+' :: cs => (false, cs)
  | cs => (false, cs)

/-- Reads a whole text as an integer: blanks around it, a sign, digits of any script grouped by
underscores. -/
def readInt? (cs : List Char) : Option Int := do
  let (negative, body) := splitSign (trim isPlainBlank (cs.map asciiForm))
  let n ← ofDigits? (← groupedDigits? body)
  return if negative then -(n : Int) else n

end CrateAudit.Number
