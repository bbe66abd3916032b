import CrateAudit.Number.Reading
import CrateAudit.Value

namespace CrateAudit.Json

open Number

/-- Why a text is no JSON value: its form, or an integer of more digits than are read. -/
inductive Fault where
  | malformed
  | longInteger
deriving DecidableEq

def isSpace (c : Char) : Bool :=
  c == ' ' || c == '\t' || c == '\n' || c == '\r'

def skipSpace (cs : List Char) : List Char :=
  cs.dropWhile isSpace

def hexDigit? (c : Char) : Option Nat :=
  if '0' ≤ c ∧ c ≤ '9' then some (c.toNat - 48)
  else if 'a' ≤ c ∧ c ≤ 'f' then some (c.toNat - 87)
  else if 'A' ≤ c ∧ c ≤ 'F' then some (c.toNat - 55)
  else none

def hexUnit? (a b c d : Char) : Option Nat := do
  return 4096 * (← hexDigit? a) + 256 * (← hexDigit? b) + 16 * (← hexDigit? c) + (← hexDigit? d)

def escaped? : Char → Option Nat
  | '"' => some 34
  | '\\' => some 92
  | '/' => some 47
  | 'b' => some 8
  | 'f' => some 12
  | 'n' => some 10
  | 'r' => some 13
  | 't' => some 9
  | _ => none

/-- The code units of a string after its opening quote, and what follows the closing one. -/
def units? : List Char → Option (List Nat × List Char)
  | [] => none
  | '"' :: rest => some ([], rest)
  | '\\' :: 'u' :: a :: b :: c :: d :: rest => do
    let u ← hexUnit? a b c d
    let (us, after) ← units? rest
    return (u :: us, after)
  | '\\' :: c :: rest => do
    let u ← escaped? c
    let (us, after) ← units? rest
    return (u :: us, after)
  | c :: rest => do
    if c.toNat < 32 then none
    let (us, after) ← units? rest
    return (c.toNat :: us, after)

def isHigh (u : Nat) : Bool :=
  0xd800 ≤ u && u < 0xdc00

def isLow (u : Nat) : Bool :=
  0xdc00 ≤ u && u < 0xe000

/-- The characters that units stand for, each by its number or by a pair of surrogates. Texts are
made of characters, and a surrogate that stands alone is none: it is read as U+FFFD. -/
def ofUnits : List Nat → List Char
  | [] => []
  | [u] => [if isHigh u || isLow u then '\ufffd' else Char.ofNat u]
  | u :: v :: us =>
    if isHigh u && isLow v then
      Char.ofNat (0x10000 + (u - 0xd800) * 0x400 + (v - 0xdc00)) :: ofUnits us
    else (if isHigh u || isLow u then '\ufffd' else Char.ofNat u) :: ofUnits (v :: us)

def string? (cs : List Char) : Option (String × List Char) :=
  (units? cs).map fun (us, rest) => (String.ofList (ofUnits us), rest)

def digits (cs : List Char) : List Nat × List Char :=
  ((cs.takeWhile Char.isDigit).map fun c => c.toNat - 48, cs.dropWhile Char.isDigit)

def whole? : List Char → Option (List Nat × List Char)
  | '0' :: rest => some ([0], rest)
  | cs =>
    match digits cs with
    | ([], _) => none
    | found => some found

def fraction (cs : List Char) : List Nat × List Char :=
  match cs with
  | '.' :: rest => match digits rest with
    | ([], _) => ([], cs)
    | found => found
  | _ => ([], cs)

def exponent? (cs : List Char) : Option (Int × List Char) :=
  match cs with
  | c :: rest =>
    if c = 'e' ∨ c = 'E' then
      let (negative, body) := splitSign rest
      match digits body with
      | ([], _) => none
      | (ds, after) => some (if negative then -(ofDigits ds : Int) else ofDigits ds, after)
    else none
  | [] => none

/-- A number without fraction and exponent is an integer, every other one a double. -/
def number (cs : List Char) : Except Fault (Value × List Char) :=
  let (negative, body) := match cs with
    | '-' :: rest => (true, rest)
    | _ => (false, cs)
  match whole? body with
  | none => .error .malformed
  | some (ds, rest) =>
    let (fs, rest) := fraction rest
    match fs, exponent? rest with
    | [], none =>
      match ofDigits? ds with
      | some n => .ok (.int (if negative then -(n : Int) else n), rest)
      | none => .error .longInteger
    | _, none => .ok (.float (.ofDecimal negative (ofDigits (ds ++ fs)) (-(fs.length : Int))), rest)
    | _, some (e, rest) =>
      .ok (.float (.ofDecimal negative (ofDigits (ds ++ fs)) (e - fs.length)), rest)

mutual

/-- One value at the front of the text. The first argument bounds the work and exceeds the length of
the text; it is never used up. -/
def value : Nat → List Char → Except Fault (Value × List Char)
  | 0, _ => .error .malformed
  | _ + 1, '"' :: rest =>
    match string? rest with
    | some (s, rest) => .ok (.str s, rest)
    | none => .error .malformed
  | fuel + 1, '[' :: rest =>
    match skipSpace rest with
    | ']' :: rest => .ok (.list [], rest)
    | rest => do
      let (items, rest) ← elements fuel rest
      return (.list items, rest)
  | fuel + 1, '\x7b' :: rest =>
    match skipSpace rest with
    | '\x7d' :: rest => .ok (.object [], rest)
    | rest => do
      let (fields, rest) ← members fuel rest
      return (.object (Table.ofPairs fields), rest)
  | _ + 1, 'n' :: 'u' :: 'l' :: 'l' :: rest => .ok (.null, rest)
  | _ + 1, 't' :: 'r' :: 'u' :: 'e' :: rest => .ok (.bool true, rest)
  | _ + 1, 'f' :: 'a' :: 'l' :: 's' :: 'e' :: rest => .ok (.bool false, rest)
  | _ + 1, 'N' :: 'a' :: 'N' :: rest => .ok (.float .nan, rest)
  | _ + 1, 'I' :: 'n' :: 'f' :: 'i' :: 'n' :: 'i' :: 't' :: 'y' :: rest =>
    .ok (.float (.infinity false), rest)
  | _ + 1, '-' :: 'I' :: 'n' :: 'f' :: 'i' :: 'n' :: 'i' :: 't' :: 'y' :: rest =>
    .ok (.float (.infinity true), rest)
  | _ + 1, cs => number cs

def elements : Nat → List Char → Except Fault (List Value × List Char)
  | 0, _ => .error .malformed
  | fuel + 1, cs => do
    let (v, rest) ← value fuel cs
    match skipSpace rest with
    | ']' :: rest => return ([v], rest)
    | ',' :: rest =>
      let (vs, rest) ← elements fuel (skipSpace rest)
      return (v :: vs, rest)
    | _ => .error .malformed

def members : Nat → List Char → Except Fault (List (String × Value) × List Char)
  | fuel + 1, '"' :: cs =>
    match string? cs with
    | none => .error .malformed
    | some (key, rest) =>
      match skipSpace rest with
      | ':' :: rest => do
        let (v, rest) ← value fuel (skipSpace rest)
        match skipSpace rest with
        | '\x7d' :: rest => return ([(key, v)], rest)
        | ',' :: rest =>
          let (fs, rest) ← members fuel (skipSpace rest)
          return ((key, v) :: fs, rest)
        | _ => .error .malformed
      | _ => .error .malformed
  | _, _ => .error .malformed

end

def parse (text : String) : Except Fault Value := do
  let cs := text.toList
  let (v, rest) ← value (2 * cs.length + 2) (skipSpace cs)
  if (skipSpace rest).isEmpty then return v else .error .malformed

end CrateAudit.Json
