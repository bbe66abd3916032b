import CrateAudit.Text.Quoted
import CrateAudit.Value

namespace CrateAudit.Json

open Number

structure Layout where
  betweenItems : List Char
  afterKey : List Char
  /-- Whether characters outside the printable ASCII ones are written by number. -/
  asciiOnly : Bool
  /-- Every item on a line of its own, indented by so many blanks a level. -/
  indent : Option Nat := none

def compact : Layout where
  betweenItems := [',']
  afterKey := [':']
  asciiOnly := false

/-- One line with a blank after each comma and colon, in ASCII. -/
def spaced : Layout where
  betweenItems := [',', ' ']
  afterKey := [':', ' ']
  asciiOnly := true

def indented (n : Nat) : Layout where
  betweenItems := [',']
  afterKey := [':', ' ']
  asciiOnly := true
  indent := some n

def Layout.lineBreak (l : Layout) (level : Nat) : List Char :=
  match l.indent with
  | some n => '\n' :: List.replicate (n * level) ' '
  | none => []

def unitEscape (n : Nat) : List Char :=
  '\\' :: 'u' :: Text.hex 4 n

def charText (l : Layout) (c : Char) : List Char :=
  if c = '"' then ['\\', '"']
  else if c = '\\' then ['\\', '\\']
  else if c = '\n' then ['\\', 'n']
  else if c = '\r' then ['\\', 'r']
  else if c = '\t' then ['\\', 't']
  else if c = '\x08' then ['\\', 'b']
  else if c = '\x0c' then ['\\', 'f']
  else if c.toNat < 32 then unitEscape c.toNat
  else if !l.asciiOnly || c.toNat < 127 then [c]
  else if c.toNat < 0x10000 then unitEscape c.toNat
  else
    unitEscape (0xd800 + (c.toNat - 0x10000) / 0x400) ++ unitEscape
      (0xdc00 + (c.toNat - 0x10000) % 0x400)

def stringText (l : Layout) (s : String) : List Char :=
  '"' :: s.toList.flatMap (charText l) ++ ['"']

/-- Doubles as messages show them, except for the names of the three that are no numbers. -/
def decimals : DecimalFormat :=
  { Value.decimals with notANumber := "NaN", infinite := "Infinity" }

mutual

/-- The text of a value whose line is indented by `level`. -/
def chars (l : Layout) (level : Nat) : Value → List Char
  | .null => ['n', 'u', 'l', 'l']
  | .bool true => ['t', 'r', 'u', 'e']
  | .bool false => ['f', 'a', 'l', 's', 'e']
  | .int n => (toString n).toList
  | .float x => (x.write decimals).toList
  | .str s | .symbol s => stringText l s
  | .list items | .brackets items => '[' :: itemChars l level items ++ [']']
  | .object fields => '\x7b' :: fieldChars l level fields ++ ['\x7d']
  | .quoted v => chars l level v

def itemChars (l : Layout) (level : Nat) : List Value → List Char
  | [] => []
  | [v] => l.lineBreak (level + 1) ++ chars l (level + 1) v ++ l.lineBreak level
  | v :: vs =>
    l.lineBreak (level + 1) ++ chars l (level + 1) v ++ l.betweenItems ++ itemChars l level vs

def fieldChars (l : Layout) (level : Nat) : List (String × Value) → List Char
  | [] => []
  | [(k, v)] =>
    l.lineBreak (level + 1) ++ stringText l k ++ l.afterKey ++ chars l (level + 1) v ++
      l.lineBreak level
  | (k, v) :: fs =>
    l.lineBreak (level + 1) ++ stringText l k ++ l.afterKey ++ chars l (level + 1) v ++
      l.betweenItems ++
      fieldChars l level fs

end

def write (l : Layout) (v : Value) : String :=
  String.ofList (chars l 0 v)

end CrateAudit.Json
