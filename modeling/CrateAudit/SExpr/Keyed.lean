import CrateAudit.SExpr.Reader

namespace CrateAudit.SExpr

def keyword? : Value → Option String
  | .symbol name =>
    match name.toList with
    | ':' :: key => some (String.ofList key)
    | _ => none
  | _ => none

def constant (name : String) : Value :=
  if name = "nil" then .null
  else if name = "true" ∨ name = "t" then .bool true
  else if name = "false" then .bool false
  else .str name

/-- Whether a list reads `:key value :key value …`. -/
def alternates : List Value → Bool
  | [] => true
  | [_] => false
  | k :: _ :: rest => (keyword? k).isSome && alternates rest

def head? : Value → Option String
  | .symbol name => if name.startsWith ":" then none else some name
  | _ => none

mutual

/-- The value that an expression stands for: `(head :key value …)` is an object with the head as its
kind, every other list a list, a symbol a constant or a text. Quotations and brackets stay as they
were read. -/
def meaning : Value → Value
  | .list items =>
    match items with
    | [] => .list []
    | first :: rest =>
      match head? first, alternates rest with
      | some kind, true => .object (Table.ofPairs (("kind", .str kind) :: fieldMeanings rest))
      | _, _ => .list (meaning first :: meanings rest)
  | .symbol name => constant name
  | v => v

def meanings : List Value → List Value
  | [] => []
  | v :: vs => meaning v :: meanings vs

def fieldMeanings : List Value → List (String × Value)
  | k :: v :: rest => ((keyword? k).getD "", meaning v) :: fieldMeanings rest
  | _ => []

end

end CrateAudit.SExpr
