namespace CrateAudit

/-- The knobs of an audit. Where only membership counts, order and repetition do not matter. -/
structure Settings where
  snippetLength : Int := 40
  truncationMarker : String := "#"
  /-- The traits whose derived code keeps the trait's name as its source text. -/
  deriveNames : List String := [
    "Clone", "Copy", "Hash", "PartialEq", "Eq", "PartialOrd", "Ord", "Debug", "Default",
    "Send", "Sync", "Encodable", "Decodable", "RustcEncodable", "RustcDecodable"]
  /-- What the definition of a macro starts with. -/
  definitionKeywords : List String := ["macro_rules"]
  /-- The names of crates that are never written. -/
  reservedNames : List String := ["build_script_build"]
  /-- The output directory of builds that only make dependencies. -/
  dependencyDir : String := "deps"
  foreignAbis : List String := ["C", "system"]
  recordSafeCalls : Bool := false
  extraDeriveNames : List String := []

namespace Settings

def isDeriveName (s : Settings) (name : String) : Bool :=
  s.deriveNames.contains name || s.extraDeriveNames.contains name

def warnings (s : Settings) : List String :=
  (if s.snippetLength ≤ s.truncationMarker.length then
    ["snippet_length must exceed the truncation marker length"] else []) ++
  (if s.truncationMarker = "" then
    ["truncation_marker is empty; truncated snippets are unmarked"] else []) ++
  (if s.definitionKeywords.isEmpty then
    ["no macro_def_keywords: every macro is classified external"] else [])

def emits (s : Settings) (name : String) (suppress : Bool) : Bool :=
  !suppress && !s.reservedNames.contains name

/-- The characters before position `n`; a negative position counts from the end. -/
def cut (cs : List Char) (n : Int) : List Char :=
  if n < 0 then cs.take (cs.length + n).toNat else cs.take n.toNat

def truncate (length : Int) (marker snippet : String) : String :=
  if length < snippet.toList.length then
    String.ofList (cut snippet.toList (length - marker.toList.length) ++ marker.toList)
  else snippet

end Settings

end CrateAudit
