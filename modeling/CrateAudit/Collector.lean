import CrateAudit.Scope

namespace CrateAudit

open Record Crate

structure Context (N F T : Type) where
  source : SourceMap
  settings : Settings
  leaves : Leaves N F T

inductive Fault (N F T : Type) where
  | violation (v : Violation N F T) (place : String)
  | source (e : SourceError)
  /-- A closure without a block to run. -/
  | bodiless (s : Span)

structure Collector (N F T : Type) where
  scope : Scope N F T := .start
  functions : List (Function N F T) := []
  /-- The items declared inside function bodies that have not been visited yet. -/
  waiting : List Item := []
  log : List Log.Entry := []

/-- A step of collecting; what a failed step has done before it failed stays done. -/
abbrev Collect (N F T : Type) :=
  ExceptT (Fault N F T) (StateM (Collector N F T))

namespace Context

variable {N F T : Type} (c : Context N F T)

/-- The source text of a span, shortened, or nothing if there is none. -/
def excerpt (s : Span) : Except SourceError String := do
  match ← c.source.snippet? s with
  | some text => return Settings.truncate c.settings.snippetLength c.settings.truncationMarker text
  | none => return ""

def excerptNotes (s : Span) : List Log.Entry :=
  match c.source.snippet s with
  | .ok _ => []
  | .error e => e.diagnostic?.toList.map fun d => ⟨.debug, .scopes, d.text, none⟩

def entry (index : Nat) (item : Node N F T) (s : Span) : Except SourceError (Entry N F T) := do
  let snippet ← c.excerpt s
  let origin ← c.source.origin c.settings s
  return ⟨c.leaves.count index, c.leaves.text s.text, c.leaves.text snippet, origin, item⟩

def entryNotes (s : Span) : List Log.Entry :=
  if s.file.isKey then c.excerptNotes s ++ c.source.originNotes s else []

def isForeign (s : Signature) : Bool :=
  c.settings.foreignAbis.contains s.abi

/-- What an expression itself is flagged as, its operands apart. -/
def flag? (e : Expr) : Option (Node N F T) :=
  match e.kind with
  | .call | .methodCall =>
    let restricted := e.signature.any Signature.isRestricted
    let foreign := e.signature.any c.isForeign
    if restricted || foreign || c.settings.recordSafeCalls then
      some (.call (c.leaves.flag restricted) (c.leaves.flag foreign))
    else none
  | .unary => if e.isRawDeref then some .deref else none
  | .inlineAsm => some .inlineAsm
  | .path => if e.isMutableStatic then some .mutStatic else none
  | .block | .closure | .other => none

end Context

namespace Collect

variable {N F T : Type} (c : Context N F T)

def note (entries : List Log.Entry) : Collect N F T Unit :=
  modify fun b => { b with log := b.log ++ entries }

def onScope (f : Scope N F T → Scope N F T) : Collect N F T Unit :=
  modify fun b => { b with scope := f b.scope }

def enter : Collect N F T Unit :=
  onScope Scope.enter

def endStatement : Collect N F T Unit :=
  onScope Scope.endStatement

def record (item : Node N F T) (s : Span) : Collect N F T (Entry N F T) := do
  note (c.entryNotes s)
  match c.entry (← get).scope.current.index item s with
  | .ok e =>
    onScope (Scope.add e)
    return e
  | .error e => throw (.source e)

def exitBlock (restricted : F) : Collect N F T (Block N F T) := do
  match (← get).scope.exitBlock c.leaves restricted with
  | .ok (block, scope) =>
    onScope fun _ => scope
    return block
  | .error v => throw (.violation v "")

def exitFn (place : String) : Collect N F T (Block N F T) := do
  let (result, scope) := (← get).scope.exitFn
  onScope fun _ => scope
  match result with
  | .ok block => return block
  | .error v => throw (.violation v place)

mutual

def visitBlock : Crate.Block → Collect N F T Unit
  | ⟨stmts, value, rules, author, span⟩ => do
    enter
    visitStmts stmts
    visitValue value
    let block ← exitBlock c (c.leaves.flag (rules.isRestricted author))
    discard <| record c (.inner block) span

def visitStmts : List Stmt → Collect N F T Unit
  | [] => pure ()
  | s :: stmts => do
    visitStmt s
    visitStmts stmts

/-- An item declared in a body has to wait until the function is done. -/
def visitStmt : Stmt → Collect N F T Unit
  | .item _ i => do
    modify fun b => { b with waiting := b.waiting ++ [i] }
    endStatement
  | .plain _ _ e => do
    visitOptional e
    endStatement

def visitOptional : Option Expr → Collect N F T Unit
  | none => pure ()
  | some e => visitExpr e

/-- The trailing expression counts as a statement. -/
def visitValue : Option Expr → Collect N F T Unit
  | none => pure ()
  | some e => do
    visitExpr e
    endStatement

def visitExpr : Expr → Collect N F T Unit
  | ⟨kind, span, operands, tag, op, signature, operandType, target⟩ => do
    match c.flag? ⟨kind, span, operands, tag, op, signature, operandType, target⟩ with
    | some item => discard <| record c item span
    | none => pure ()
    if kind = .closure then visitClosure span operands else visitOperands operands

/-- Collects the first block among the operands as the body of a closure. -/
def visitClosure (span : Span) : List Operand → Collect N F T Unit
  | [] => throw (.bodiless span)
  | .expr _ :: operands => visitClosure span operands
  | .block body :: _ => do
    enter
    visitBlock body
    let block ← exitFn span.text
    discard <| record c (.closure block) span

def visitOperands : List Operand → Collect N F T Unit
  | [] => pure ()
  | .expr e :: operands => do
    visitExpr e
    visitOperands operands
  | .block b :: operands => do
    visitBlock b
    visitOperands operands

end

def register (f : FnItem) (block : Block N F T) (span : Span) : Collect N F T Unit := do
  note [⟨.debug, .visits,
    "fn " ++ f.displayName ++ ": " ++ toString block.contents.length ++ " item(s)", none⟩]
  note (c.source.originNotes span)
  match c.source.origin c.settings span with
  | .ok origin =>
    modify fun b => { b with functions := b.functions ++ [
      ⟨c.leaves.text f.displayName, c.leaves.flag f.signature.isRestricted, c.leaves.text span.text,
        origin, block⟩] }
  | .error e => throw (.source e)

/-- Collects a function. A named one starts and ends outside of all blocks and comes with its item;
a closure is flagged at the current statement. -/
def visitFn (kind : FnKind) (body : Crate.Block) (span : Span) (item : Option FnItem) :
    Collect N F T Unit := do
  let place := span.text
  if kind ≠ .closure ∧ (← get).scope.depth ≠ 0 then
    throw (.violation (.depthOnEntry (← get).scope.depth) place)
  enter
  visitBlock c body
  let block ← exitFn place
  if kind = .closure then discard <| record c (.closure block) span
  else
    match item with
    | none => throw (.violation .namelessFn place)
    | some f =>
      register c f block span
      if (← get).scope.depth ≠ 0 then
        throw (.violation (.depthOnExit (← get).scope.depth) place)

mutual

def visitItem : Item → Collect N F T Unit
  | .fn f => visitFn c f.kind f.body f.span (some f)
  | .container con => visitContainer con

def visitContainer : Container → Collect N F T Unit
  | ⟨_, _, items, _⟩ => visitItems items

def visitItems : List Item → Collect N F T Unit
  | [] => pure ()
  | i :: items => do
    visitItem i
    visitItems items

end

end Collect

end CrateAudit
