import CrateAudit.Record.Shown

namespace CrateAudit

open Record

structure Leaves (N F T : Type) where
  count : Nat → N
  flag : Bool → F
  text : String → T

def Leaves.exact : Leaves Nat Bool String :=
  ⟨id, id, id⟩

def Leaves.loose : Leaves Value Value Value :=
  ⟨fun n => .int n, .bool, .str⟩

/-- One block that is being collected: the number of the current statement and what was flagged so
far. -/
structure Frame (N F T : Type) where
  index : Nat
  contents : List (Entry N F T)

/-- The block that is being collected, inside those that wait for it. A function has one frame
around its body, so that the body ends up as the only content of that frame. -/
structure Scope (N F T : Type) where
  current : Frame N F T
  saved : List (Frame N F T)

inductive Violation (N F T : Type) where
  | blockExit
  | pending (n : Nat)
  | notBlock (item : Node N F T)
  | fnExit
  | depthOnEntry (depth : Nat)
  | namelessFn
  | depthOnExit (depth : Nat)

namespace Violation

variable {N F T : Type} [Leaf N] [Leaf F] [Leaf T]

def message : Violation N F T → String
  | blockExit => "Block exit with an empty scope stack"
  | pending n => "Expected one pending block under a fn, found " ++ toString n
  | notBlock item => "Found something other than a block under a fn: " ++ item.shown
  | fnExit => "Fn exit with an empty scope stack"
  | depthOnEntry depth => "Scope stack not empty entering fn (depth " ++ toString depth ++ ")"
  | namelessFn => "Named fn visited without its item"
  | depthOnExit depth => "Scope stack not empty leaving fn (depth " ++ toString depth ++ ")"

def diagnostic (v : Violation N F T) (place : String) : Diagnostic :=
  .make .invariant v.message none place

end Violation

namespace Scope

variable {N F T : Type}

def start : Scope N F T :=
  ⟨⟨0, []⟩, []⟩

def depth (s : Scope N F T) : Nat :=
  s.saved.length

def enter (s : Scope N F T) : Scope N F T :=
  ⟨⟨0, []⟩, s.current :: s.saved⟩

def endStatement (s : Scope N F T) : Scope N F T :=
  { s with current := { s.current with index := s.current.index + 1 } }

def add (e : Entry N F T) (s : Scope N F T) : Scope N F T :=
  { s with current := { s.current with contents := s.current.contents ++ [e] } }

theorem depth_enter (s : Scope N F T) : s.enter.depth = s.depth + 1 := rfl

def exitBlock (leaves : Leaves N F T) (restricted : F) (s : Scope N F T) :
    Except (Violation N F T) (Block N F T × Scope N F T) :=
  match s.saved with
  | [] => .error .blockExit
  | frame :: saved =>
    .ok (⟨leaves.count s.current.index, restricted, s.current.contents⟩, ⟨frame, saved⟩)

/-- Ends the frame around a function's body, which must hold that body and nothing else. The content
is gone even if it turns out to be none. -/
def exitFn (s : Scope N F T) : Except (Violation N F T) (Block N F T) × Scope N F T :=
  match s.current.contents with
  | [e] =>
    let emptied : Scope N F T := { s with current := { s.current with contents := [] } }
    match e.item, s.saved with
    | .inner body, frame :: saved => (.ok body, ⟨frame, saved⟩)
    | .inner _, [] => (.error .fnExit, emptied)
    | item, _ => (.error (.notBlock item), emptied)
  | contents => (.error (.pending contents.length), s)

end Scope

end CrateAudit
