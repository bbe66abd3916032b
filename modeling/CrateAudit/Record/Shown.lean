import CrateAudit.Record

namespace CrateAudit

def Origin.shown : Origin → String
  | notMacro => "<MacroOrigin.NOT_MACRO: 'NotMacro'>"
  | localMacro => "<MacroOrigin.LOCAL_MACRO: 'LocalMacro'>"
  | externalMacro => "<MacroOrigin.EXTERNAL_MACRO: 'ExternalMacro'>"
  | deriveMacro => "<MacroOrigin.DERIVE_MACRO: 'DeriveMacro'>"

namespace Record

variable {N F T : Type} [Leaf N] [Leaf F] [Leaf T]

def shownLeaf {α : Type} [Leaf α] (a : α) : String :=
  (Leaf.value a).shown

/-- A sequence in round brackets; one element alone is followed by a comma. -/
def shownTuple : List String → String
  | [s] => "(" ++ s ++ ",)"
  | all => "(" ++ ", ".intercalate all ++ ")"

mutual

def Node.shown : Node N F T → String
  | .deref => "Deref()"
  | .mutStatic => "MutStatic()"
  | .inlineAsm => "InlineASM()"
  | .call restricted foreign =>
    "Call(unsafe=Unsafe(unsaf=" ++ shownLeaf restricted ++ "), ffi=FFI(is_ffi=" ++
      shownLeaf foreign ++ "))"
  | .closure body => "Closure(block=" ++ body.shown ++ ")"
  | .inner body => "InnerBlock(block=" ++ body.shown ++ ")"

def Block.shown : Block N F T → String
  | ⟨size, restricted, contents⟩ =>
    "Block(size=" ++ shownLeaf size ++ ", unsaf=" ++ shownLeaf restricted ++ ", contents=" ++
      shownTuple (shownEntries contents) ++ ")"

def shownEntries : List (Entry N F T) → List String
  | [] => []
  | e :: entries => e.shown :: shownEntries entries

def Entry.shown : Entry N F T → String
  | ⟨index, span, snippet, origin, item⟩ =>
    "Indexed(index=" ++ shownLeaf index ++ ", span=" ++ shownLeaf span ++ ", snippet=" ++
      shownLeaf snippet ++
      ", macro_origin=" ++ origin.shown ++ ", item=" ++ item.shown ++ ")"

end

end Record

end CrateAudit
