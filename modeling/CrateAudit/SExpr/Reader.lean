import CrateAudit.Number.Reading
import CrateAudit.Value

namespace CrateAudit.SExpr

open Number Text

def endsAtom (c : Char) : Bool :=
  isPlainBlank c || c == '(' || c == ')' || c == '[' || c == ']' || c == '"' || c == ';'

def isSpecial (c : Char) : Bool :=
  "\\'`\"()[] ,?;#".toList.contains c

/-- An atom's characters up to where it ends; a backslash takes the next character along. -/
def atomChars? : List Char → Option (List Char × List Char)
  | [] => some ([], [])
  | ['\\'] => none
  | '\\' :: c :: rest => do
    let (cs, after) ← atomChars? rest
    return (if isSpecial c then c :: cs else '\\' :: c :: cs, after)
  | c :: rest =>
    if endsAtom c then some ([], c :: rest)
    else do
      let (cs, after) ← atomChars? rest
      return (c :: cs, after)

/-- An atom is an integer if it reads as one, else a double if it reads as one, else a symbol. -/
def atom (cs : List Char) : Value :=
  match readInt? cs, readDouble? cs with
  | some n, _ => .int n
  | none, some x => .float x
  | none, none => .symbol (String.ofList cs)

def unescaped? : Char → Option Char
  | '\\' => some '\\'
  | '"' => some '"'
  | 'b' => some '\x08'
  | 'f' => some '\x0c'
  | 'n' => some '\n'
  | 'r' => some '\r'
  | 't' => some '\t'
  | _ => none

def stringChars? : List Char → Option (List Char × List Char)
  | [] => none
  | '"' :: rest => some ([], rest)
  | ['\\'] => none
  | '\\' :: c :: rest => do
    let (cs, after) ← stringChars? rest
    return (match unescaped? c with
      | some d => d :: cs
      | none => '\\' :: c :: cs, after)
  | c :: rest => do
    let (cs, after) ← stringChars? rest
    return (c :: cs, after)

def skipLine : List Char → List Char
  | [] => []
  | '\n' :: rest => rest
  | _ :: rest => skipLine rest

/-- The expressions up to a closing bracket, or to the end of the text, and the rest from there on.
A quote takes the next expression. The first argument bounds the work and exceeds the length of the
text; it is never used up. -/
def sequence? : Nat → List Char → Option (List Value × List Char)
  | 0, _ => none
  | _ + 1, [] => some ([], [])
  | fuel + 1, c :: rest =>
    if isPlainBlank c then sequence? fuel rest
    else if c = ';' then sequence? fuel (skipLine rest)
    else if c = ')' ∨ c = ']' then some ([], c :: rest)
    else if c = '(' then do
      match ← sequence? fuel rest with
      | (items, ')' :: rest) =>
        let (vs, after) ← sequence? fuel rest
        return (.list items :: vs, after)
      | _ => none
    else if c = '[' then do
      match ← sequence? fuel rest with
      | (items, ']' :: rest) =>
        let (vs, after) ← sequence? fuel rest
        return (.brackets items :: vs, after)
      | _ => none
    else if c = '\'' then do
      match ← sequence? fuel rest with
      | (v :: vs, after) => return (.quoted v :: vs, after)
      | ([], _) => none
    else if c = '"' then do
      let (s, rest) ← stringChars? rest
      let (vs, after) ← sequence? fuel rest
      return (.str (String.ofList s) :: vs, after)
    else do
      let (cs, rest) ← atomChars? (c :: rest)
      let (vs, after) ← sequence? fuel rest
      return (atom cs :: vs, after)

def read? (text : String) : Option Value :=
  match sequence? (text.toList.length + 1) text.toList with
  | some ([v], []) => some v
  | _ => none

end CrateAudit.SExpr
