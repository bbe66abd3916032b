import CrateAudit.Diagnostic
import CrateAudit.Json.Reader
import CrateAudit.SExpr.Keyed
import CrateAudit.Span.Reader
import CrateAudit.Crate

namespace CrateAudit

inductive DumpError where
  | notRecord (kind : String)
  | missingField (owner key : String)
  | unknownWord (what : String) (v : Value)
  | badSpan (v : Value)
  | badSpanText (text : String)
  | noBody (tag : String) (span : Span)
  | malformed
  | notJson
  | notSymbolic
  | unreadable (path : String)

/-- Messages that end in a colon and a blank are followed by the cause, which is not part of
them. -/
def DumpError.message : DumpError → String
  | notRecord kind => "Dump root must be a record, not " ++ kind
  | missingField owner key => owner ++ " is missing required field " ++ Text.quoted key
  | unknownWord what v => "Unknown " ++ what ++ " " ++ v.shown
  | badSpan v => "Malformed span " ++ v.shown
  | badSpanText text => "Malformed span " ++ Text.quoted text ++ ": "
  | noBody tag span => tag ++ " expression at " ++ span.text ++ " has no body block"
  | malformed => "Malformed tree dump: "
  | notJson => "Invalid JSON tree dump: "
  | notSymbolic => "Failed to parse S-expression: "
  | unreadable path => "Cannot read tree dump " ++ path ++ ": "

def DumpError.category : DumpError → Category
  | unknownWord _ _ => .unknownNodeKind
  | badSpan _ | badSpanText _ => .badSpan
  | _ => .malformedDump

def DumpError.diagnostic (e : DumpError) : Diagnostic :=
  .make .dump e.message (some (.ofCategory e.category)) ""

inductive Raised where
  | noKey
  | wrongType
  | badValue
  | noFields
  | overflow
deriving DecidableEq

/-- Why no crate was loaded. Only the first kind is reported against the dump; every other one ends
the run. -/
inductive LoadFailure where
  | refused (e : DumpError)
  | raised (r : Raised)
  | longInteger
  /-- A path that no file can have. -/
  | badPath

@[match_pattern] abbrev LoadFailure.infinite : LoadFailure :=
  .raised .overflow

namespace Load

open Crate

def refuse {α : Type} (e : DumpError) : Except LoadFailure α :=
  .error (.refused e)

def raise {α : Type} (r : Raised) : Except LoadFailure α :=
  .error (.raised r)

/-- Refuses the dump with `e` where a step raises one of `kinds`. Everything else passes. -/
def catching {α : Type} (kinds : List Raised) (e : DumpError) (result : Except LoadFailure α) :
    Except LoadFailure α :=
  match result with
  | .error (.raised r) => if r ∈ kinds then refuse e else raise r
  | _ => result

def index (v : Value) (key : String) : Except LoadFailure Value :=
  v.under (.raised .noKey) (.raised .wrongType) key

def require (v : Value) (key owner : String) : Except LoadFailure Value :=
  catching [.noKey, .wrongType] (.missingField owner key) (index v key)

def parts (v : Value) : Except LoadFailure (List Value) :=
  v.partsOr (.raised .wrongType)

/-- The parts of what counts as true; all else has none. -/
def partsIfAny (v : Value) : Except LoadFailure (List Value) :=
  if v.truthy then parts v else .ok []

def textOr (v : Value) (otherwise : String) : String :=
  if v.truthy then v.text else otherwise

def choice {α : Type} (all : List α) (word : α → String) (what : String) (v : Value) :
    Except LoadFailure α :=
  catching [.badValue] (.unknownWord what v) (v.wordOr (.raised .badValue) all word)

def spanText (s : String) : Except LoadFailure Span :=
  match Span.read? s with
  | some span => .ok span
  | none => refuse (.badSpanText s)

/-- Only numbers and texts are read as integers at all. -/
def int (v : Value) : Except LoadFailure Int :=
  match v.toInt, v with
  | .ok n, _ => .ok n
  | .error .infinite, _ => raise .overflow
  | .error .unreadable, .float _ | .error .unreadable, .str _ => raise .badValue
  | .error .unreadable, _ => raise .wrongType

def optional {α : Type} (load : Value → Except LoadFailure α) (v : Value) :
    Except LoadFailure (Option α) :=
  if v.isNull then .ok none else some <$> load v

def coordinates (v : Value) : Except LoadFailure Span := do
  let file ← index v "file"
  let loLine ← int (← index v "lo_line")
  let loColumn ← int (← index v "lo_col")
  let hiLine ← int (← index v "hi_line")
  let hiColumn ← int (← index v "hi_col")
  let expansion ← optional int (v.field "expn_id")
  return ⟨file, loLine, loColumn, hiLine, hiColumn, expansion⟩

/-- A span is absent, a display form, or an object of coordinates. -/
def span (v : Value) : Except LoadFailure Span :=
  match v with
  | .null => .ok .unknown
  | .str s => spanText s
  | .object _ => catching [.noKey, .wrongType, .badValue] (.badSpan v) (coordinates v)
  | _ => refuse (.badSpan v)

def signature (v : Value) : Except LoadFailure Signature := do
  if !v.isObject then raise .noFields
  let safety ← choice [.normal, .restricted] Safety.word "unsafety"
    ((v.get? "unsafety").getD (.str "normal"))
  return ⟨safety, ((v.get? "abi").getD (.str "Rust")).text⟩

def target (v : Value) : Except LoadFailure Target := do
  let kind ← require v "kind" "res"
  return ⟨kind.text, (v.field "mutable").truthy⟩

def isBlock (v : Value) : Bool :=
  (v.get? "stmts").isSome

def exprKind (tag : String) : ExprKind :=
  ([.call, .methodCall, .unary, .inlineAsm, .path, .block, .closure] : List ExprKind).find?
    (fun k => k.word = tag)
    |>.getD .other

/-- A closure and a block expression must have a block to run. -/
def checkBody (e : Expr) : Except LoadFailure Expr :=
  if (e.kind = .closure ∨ e.kind = .block) ∧ e.body?.isNone then
    refuse (.noBody e.tag e.span) else .ok e

mutual

/-- A block. Here and below the first argument bounds how deep the value is nested. -/
def block : Nat → Value → Except LoadFailure Block
  | 0, _ => refuse .malformed
  | depth + 1, v => do
    let stmts ← (← parts (← require v "stmts" "block")).mapM (stmt depth)
    let value ← optional (expr depth) (v.field "expr")
    let rules ← choice [.ordinary, .restricted, .push, .pop] Rules.word "block rules"
      ((v.get? "rules").getD (.str "default"))
    let author ← choice [.user, .compiler] Author.word "unsafe source"
      ((v.get? "unsafe_source").getD (.str "user"))
    let span ← span (v.field "span")
    return ⟨stmts, value, rules, author, span⟩

def stmt : Nat → Value → Except LoadFailure Stmt
  | 0, _ => refuse .malformed
  | depth + 1, v => do
    let form ← choice [some .binding, some .value, some .discard, none]
      (fun form => form.elim "item" StmtForm.word) "statement kind" (← require v "kind" "statement")
    let span ← span (v.field "span")
    match form with
    | none => return .item span (← item depth (← require v "item" "item statement"))
    | some form => return .plain form span (← optional (expr depth) (v.field "expr"))

def expr : Nat → Value → Except LoadFailure Expr
  | 0, _ => refuse .malformed
  | depth + 1, v => do
    let tag := (← require v "kind" "expression").text
    let operands ← (← partsIfAny (v.field "operands")).mapM fun o =>
      if isBlock o then .block <$> block depth o else .expr <$> expr depth o
    let body ← optional (block depth) (v.field "body")
    let span ← span (v.field "span")
    let signature ← optional signature (v.field "sig")
    let target ← optional target (v.field "res")
    checkBody {
      kind := exprKind tag
      span, tag, signature, target
      operands := operands ++ body.toList.map .block
      op := v.field "op"
      operandType := v.field "operand_ty" }

def item : Nat → Value → Except LoadFailure Item
  | 0, _ => refuse .malformed
  | depth + 1, v => do
    let kind := (← require v "kind" "item").text
    let span ← span (v.field "span")
    let name := textOr (v.field "name") ""
    match ([.function, .method] : List FnKind).find? fun k => k.word = kind with
    | some fnKind =>
      let body ← block depth (← require v "body" ("fn " ++ name))
      let signature ← optional signature (v.field "sig")
      return .fn ⟨name, body, signature.getD .plain, fnKind, textOr (v.field "path") "", span⟩
    | none =>
      let items ← (← partsIfAny (v.field "items")).mapM (item depth)
      return .container ⟨kind, name, items, span⟩

end

/-- The text of the files: an object of texts, or a list of paths with their texts. -/
def files (v : Value) : Except LoadFailure (Table String String) :=
  match v with
  | .null => .ok []
  | .object fields => .ok (.ofPairs (fields.map fun f => (f.1, f.2.text)))
  | _ => do
    let pairs ← (← parts v).mapM fun f => do
      let path ← require f "path" "file"
      let text ← require f "text" "file"
      return (path.text, text.text)
    return .ofPairs pairs

def site (v : Value) : Except LoadFailure (Option Span) :=
  if v.truthy then some <$> span v else .ok none

def expansion (v : Value) : Except LoadFailure Expansion := do
  let id ← int (← require v "id" "expansion")
  let format ← choice [.bang, .attached, .compiler] Format.word "expansion format"
    ((v.get? "format").getD (.str "bang"))
  let callSite ← site (v.field "call_site")
  let defSite ← site (v.field "def_site")
  return ⟨id, format, callSite, defSite, textOr (v.field "name") ""⟩

/-- The expansions: a list of them, or an object with any keys. -/
def expansions (v : Value) : Except LoadFailure (Table Int Expansion) := do
  let entries ← match v with
    | .null => pure []
    | .object fields => pure (fields.map Prod.snd)
    | _ => parts v
  let all ← entries.mapM expansion
  return .ofPairs (all.map fun e => (e.id, e))

/-- What the dump of a crate gives, before anything that goes wrong in it is caught. -/
def contents (v : Value) : Except LoadFailure Crate := do
  let name := (← require v "name" "crate").text
  let crateType := textOr (v.field "crate_type") (textOr (v.field "ty") "????")
  let items ← (← partsIfAny (v.field "items")).mapM (item v.depth)
  let files ← files (v.field "files")
  let expansions ← expansions (v.field "expansions")
  return ⟨name, crateType, items, files, expansions⟩

def crate (v : Value) : Except LoadFailure Crate :=
  if v.isObject then catching [.noFields, .wrongType, .badValue] .malformed (contents v)
  else refuse (.notRecord v.typeName)

def json (text : String) : Except LoadFailure Crate :=
  match Json.parse text with
  | .ok v => crate v
  | .error .malformed => refuse .notJson
  | .error .longInteger => .error .longInteger

def symbolic (text : String) : Except LoadFailure Crate :=
  match SExpr.read? text with
  | some v => crate (SExpr.meaning v)
  | none => refuse .notSymbolic

end Load

end CrateAudit
