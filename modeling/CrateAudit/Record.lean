import CrateAudit.Origin

namespace CrateAudit

namespace Record

mutual

inductive Node (N F T : Type) where
  | deref
  | mutStatic
  | inlineAsm
  | call (restricted foreign : F)
  | closure (body : Block N F T)
  | inner (body : Block N F T)

/-- A block by the number of its statements, whether it allows restricted operations, and what was
flagged in it. -/
structure Block (N F T : Type) where
  size : N
  restricted : F
  contents : List (Entry N F T)

/-- What was flagged, under the number of its statement in the enclosing block. -/
structure Entry (N F T : Type) where
  index : N
  span : T
  snippet : T
  origin : Origin
  item : Node N F T

end

structure Function (N F T : Type) where
  name : T
  restricted : F
  span : T
  origin : Origin
  block : Block N F T

end Record

/-- The audit of one crate. A record is generic in its leaves: what the audit builds has numbers,
flags and texts there, and what is read back keeps any value it finds. -/
structure Record (N F T : Type) where
  name : T
  crateType : T
  functions : List (Record.Function N F T)

abbrev ExactRecord := Record Nat Bool String

abbrev LooseRecord := Record Value Value Value

class Leaf (α : Type) where
  value : α → Value

instance : Leaf Nat := ⟨fun n => .int n⟩

instance : Leaf Bool := ⟨.bool⟩

instance : Leaf String := ⟨.str⟩

instance : Leaf Value := ⟨id⟩

namespace Record

variable {N F T : Type}

def Node.variant : Node N F T → String
  | .deref => "Deref"
  | .mutStatic => "MutStatic"
  | .inlineAsm => "InlineASM"
  | .call _ _ => "Call"
  | .closure _ => "Closure"
  | .inner _ => "InnerBlock"

def Node.body? : Node N F T → Option (Block N F T)
  | .closure body | .inner body => some body
  | .deref | .mutStatic | .inlineAsm | .call _ _ => none

mutual

/-- Everything flagged in a block, what is nested included, each before what is nested in it. -/
def Block.flatten : Block N F T → List (Entry N F T)
  | ⟨_, _, contents⟩ => flattenEntries contents

def flattenEntries : List (Entry N F T) → List (Entry N F T)
  | [] => []
  | ⟨index, span, snippet, origin, item⟩ :: entries =>
    ⟨index, span, snippet, origin, item⟩ :: (item.flatten ++ flattenEntries entries)

def Node.flatten : Node N F T → List (Entry N F T)
  | .closure body => body.flatten
  | .inner body => body.flatten
  | .deref | .mutStatic | .inlineAsm | .call _ _ => []

end

theorem Node.flatten_of_body?_eq_none {item : Node N F T} (h : item.body? = none) :
    item.flatten = [] := by
  cases item with
  | closure | inner => cases h
  | deref | mutStatic | inlineAsm | call => rw [Node.flatten]

end Record

end CrateAudit
