import CrateAudit.Number.Integer
import CrateAudit.Number.Shortest
import CrateAudit.Table
import CrateAudit.Text.Quoted

namespace CrateAudit

open Number

/-- What a dump or a record is made of before its shape is known. A symbol, a quotation and a
bracketed list come only from symbolic expressions, where they are kept as they were read. -/
inductive Value where
  | null
  | bool (b : Bool)
  | int (n : Int)
  | float (x : Double)
  | str (s : String)
  | list (items : List Value)
  | object (fields : List (String × Value))
  | symbol (name : String)
  | quoted (v : Value)
  | brackets (items : List Value)
deriving Inhabited

namespace Value

def get? (v : Value) (key : String) : Option Value :=
  match v with
  | object fields => Table.get? fields key
  | _ => none

def isObject : Value → Bool
  | object _ => true
  | _ => false

def isNull : Value → Bool
  | null => true
  | _ => false

def field (v : Value) (key : String) : Value :=
  (v.get? key).getD null

/-- Nothing, zero and what is empty count as false. -/
def truthy : Value → Bool
  | null => false
  | bool b => b
  | int n => n ≠ 0
  | float x => !x.isZero
  | str s => s ≠ ""
  | list items => !items.isEmpty
  | object fields => !fields.isEmpty
  | symbol _ | quoted _ | brackets _ => true

/-- The parts met when a value is gone through one by one: an object gives its keys, a text its
characters, a quotation what it quotes, and brackets the list between them. -/
def parts? : Value → Option (List Value)
  | list items => some items
  | object fields => some (fields.map fun f => str f.1)
  | str s => some (s.toList.map fun c => str c.toString)
  | quoted v => some [v]
  | brackets items => some [list items]
  | _ => none

section

variable {ε α : Type}

/-- The value under a key of an object. That a value is no object is a failure of its own. -/
def under (noKey noObject : ε) (v : Value) (key : String) : Except ε Value :=
  match v with
  | object _ =>
    match v.get? key with
    | some w => .ok w
    | none => .error noKey
  | _ => .error noObject

theorem get?_of_under {noKey noObject : ε} {v w : Value} {key : String}
    (h : v.under noKey noObject key = .ok w) : v.get? key = some w := by
  unfold under at h
  split at h
  · split at h
    next hget =>
      cases h
      exact hget
    next => cases h
  · cases h

def partsOr (e : ε) (v : Value) : Except ε (List Value) :=
  match v.parts? with
  | some vs => .ok vs
  | none => .error e

theorem parts?_of_partsOr {e : ε} {v : Value} {vs : List Value} (h : v.partsOr e = .ok vs) :
    v.parts? = some vs := by
  unfold partsOr at h
  split at h
  next hparts =>
    cases h
    exact hparts
  next => cases h

def wordOr (e : ε) (all : List α) (word : α → String) (v : Value) : Except ε α :=
  match v with
  | str s =>
    match all.find? fun a => word a = s with
    | some a => .ok a
    | none => .error e
  | _ => .error e

end

/-- Whether a value can be looked up in a table: lists and objects cannot, nor what holds one. -/
def isKey : Value → Bool
  | list _ | object _ | brackets _ => false
  | quoted v => v.isKey
  | _ => true

def typeName : Value → String
  | null => "NoneType"
  | bool _ => "bool"
  | int _ => "int"
  | float _ => "float"
  | str _ => "str"
  | list _ => "list"
  | object _ => "dict"
  | symbol _ => "Symbol"
  | quoted _ => "Quoted"
  | brackets _ => "Brackets"

def decimals : DecimalFormat where
  least := -4
  beyond := 16
  notANumber := "nan"
  infinite := "inf"

mutual

def shown : Value → String
  | null => "None"
  | bool true => "True"
  | bool false => "False"
  | int n => toString n
  | float x => x.write decimals
  | str s => Text.quoted s
  | list items => "[" ++ ", ".intercalate (shownItems items) ++ "]"
  | object fields => "\x7b" ++ ", ".intercalate (shownFields fields) ++ "\x7d"
  | symbol name => "Symbol(" ++ Text.quoted name ++ ")"
  | quoted v => "Quoted(" ++ v.shown ++ ")"
  | brackets items => "Brackets(I=[" ++ ", ".intercalate (shownItems items) ++ "])"

def shownItems : List Value → List String
  | [] => []
  | v :: vs => v.shown :: shownItems vs

def shownFields : List (String × Value) → List String
  | [] => []
  | (k, v) :: fs => (Text.quoted k ++ ": " ++ v.shown) :: shownFields fs

end

def text : Value → String
  | str s => s
  | v => v.shown

mutual

def depth : Value → Nat
  | list items => depthItems items + 1
  | object fields => depthFields fields + 1
  | quoted v => v.depth + 1
  | brackets items => depthItems items + 1
  | _ => 0

def depthItems : List Value → Nat
  | [] => 0
  | v :: vs => max v.depth (depthItems vs)

def depthFields : List (String × Value) → Nat
  | [] => 0
  | (_, v) :: fs => max v.depth (depthFields fs)

end

inductive NotInteger where
  | infinite
  | unreadable

/-- The integer that a value stands for: a number without its fraction, a truth value as 0 or 1, or
a text that reads as an integer. -/
def toInt : Value → Except NotInteger Int
  | bool b => .ok (if b then 1 else 0)
  | int n => .ok n
  | float x =>
    match x.kind, x.truncate? with
    | .infinite, _ => .error .infinite
    | _, some n => .ok n
    | _, none => .error .unreadable
  | str s => match readInt? s.toList with
    | some n => .ok n
    | none => .error .unreadable
  | _ => .error .unreadable

end Value

end CrateAudit
