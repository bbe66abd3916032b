import CrateAudit.Value

namespace CrateAudit

/-- A range of source text. Lines and columns count from one and the end is exclusive. A dump may
give any value as the file. -/
structure Span where
  file : Value
  loLine : Int
  loColumn : Int
  hiLine : Int
  hiColumn : Int
  /-- The macro expansion that produced the text. -/
  expansion : Option Int

namespace Span

def unknown : Span :=
  ⟨.str "<unknown>", 0, 0, 0, 0, none⟩

def text (s : Span) : String :=
  s.file.text ++ ":" ++ toString s.loLine ++ ":" ++ toString s.loColumn ++ ": " ++
    toString s.hiLine ++ ":" ++
    toString s.hiColumn

end Span

end CrateAudit
