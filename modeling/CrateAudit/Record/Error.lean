import CrateAudit.Value

namespace CrateAudit

inductive RecordError where
  | notJson
  | longInteger
  /-- A value of a kind that has no fields, no parts or no place in a table where one is needed. -/
  | wrongKind
  | missingKey (key : Value)
  | missingPart
  | partCount
  | unknownVariant (v : Value)
  | unknownOrigin (v : Value)

def RecordError.message : RecordError → String
  | notJson => "not a JSON value"
  | longInteger => "an integer of too many digits"
  | wrongKind => "a value of the wrong kind"
  | missingKey key => key.shown
  | missingPart => "an empty field list"
  | partCount => "a wrong number of fields"
  | unknownVariant v => "Unknown UAST node variant " ++ v.shown
  | unknownOrigin v => v.shown ++ " is not a valid MacroOrigin"

/-- The errors that make a line no record when a file of them is read; with any other the run
ends. -/
def RecordError.isLineError : RecordError → Bool
  | missingPart => false
  | _ => true

end CrateAudit
