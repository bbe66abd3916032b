import CrateAudit.Text.Quoted

namespace CrateAudit

inductive Severity where
  | fatal
  | error
  | warning
deriving DecidableEq

def Severity.text : Severity → String
  | fatal => "fatal"
  | error => "error"
  | warning => "warning"

def Severity.isError (s : Severity) : Bool :=
  s ≠ warning

inductive Phase where
  | load
  | traversal
  | emit
  | internal
deriving DecidableEq

def Phase.text : Phase → String
  | load => "load"
  | traversal => "traversal"
  | emit => "emit"
  | internal => "internal"

inductive Category where
  | malformedDump
  | unknownNodeKind
  | badSpan
  | missingSource
  | writeFailure
  | encodeFailure
  | invariantBroken
deriving DecidableEq

def Category.text : Category → String
  | malformedDump => "MALFORMED_DUMP"
  | unknownNodeKind => "UNKNOWN_NODE_KIND"
  | badSpan => "BAD_SPAN"
  | missingSource => "MISSING_SOURCE"
  | writeFailure => "WRITE_FAILURE"
  | encodeFailure => "ENCODE_FAILURE"
  | invariantBroken => "INVARIANT_BROKEN"

/-- What a diagnostic is filed under. Two codes are the same code if family and number agree. -/
structure Code where
  family : String
  number : Int
  category : Category
  phase : Phase
  severity : Severity

namespace Code

/-- At least four characters, the sign among them. -/
def numberText (n : Int) : String :=
  let ds := Nat.toDigits 10 n.natAbs
  let sign := if n < 0 then ['-'] else []
  String.ofList (sign ++ List.replicate (4 - sign.length - ds.length) '0' ++ ds)

def text (c : Code) : String :=
  c.family ++ "-" ++ numberText c.number

def shown (c : Code) : String :=
  "ErrorCode(" ++ Text.quoted c.text ++ ", " ++ c.category.text ++ ")"

def same (c d : Code) : Bool :=
  c.family == d.family && c.number == d.number

/-- A code also goes by its text. -/
def goesBy (c : Code) (name : String) : Bool :=
  c.text == name

def ofCategory : Category → Code
  | .malformedDump => ⟨"UAST", 1, .malformedDump, .load, .error⟩
  | .unknownNodeKind => ⟨"UAST", 2, .unknownNodeKind, .load, .error⟩
  | .badSpan => ⟨"UAST", 3, .badSpan, .load, .error⟩
  | .missingSource => ⟨"UAST", 1000, .missingSource, .traversal, .warning⟩
  | .writeFailure => ⟨"UAST", 2000, .writeFailure, .emit, .error⟩
  | .encodeFailure => ⟨"UAST", 2001, .encodeFailure, .emit, .error⟩
  | .invariantBroken => ⟨"UAST", 9000, .invariantBroken, .internal, .fatal⟩

end Code

inductive Concern where
  | general
  | dump
  | source
  | output
  | internal
  | invariant
deriving DecidableEq

def Concern.isInternal (c : Concern) : Bool :=
  c = internal ∨ c = invariant

structure Diagnostic where
  concern : Concern
  code : Code
  /-- The span concerned, empty when there is none. -/
  place : String
  message : String

namespace Diagnostic

/-- Missing source text and broken invariants have a code of their own; the others have one by
default. -/
def make (concern : Concern) (message : String) (code : Option Code) (place : String) :
    Diagnostic :=
  match concern with
  | .general | .internal => ⟨concern, code.getD (.ofCategory .invariantBroken), place, message⟩
  | .dump => ⟨concern, code.getD (.ofCategory .malformedDump), place, message⟩
  | .output => ⟨concern, code.getD (.ofCategory .writeFailure), place, message⟩
  | .invariant => ⟨concern, .ofCategory .invariantBroken, place, message⟩
  | .source =>
    let reason := if message = "" then "" else ": " ++ message
    ⟨concern, .ofCategory .missingSource, place, "Source text unavailable" ++ reason⟩

def fatal (d : Diagnostic) : Bool :=
  d.concern.isInternal

def text (d : Diagnostic) : String :=
  (if d.place = "" then "" else d.place ++ ": ") ++ d.code.severity.text ++ "[" ++ d.code.text ++
    "]: " ++ d.message

end Diagnostic

end CrateAudit
