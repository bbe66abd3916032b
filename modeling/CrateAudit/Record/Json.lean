import CrateAudit.Json.Reader
import CrateAudit.Json.Writer
import CrateAudit.Record

namespace CrateAudit.Record

section Write

variable {N F T : Type} [Leaf N] [Leaf F] [Leaf T]

mutual

def Node.toValue : Node N F T → Value
  | .deref => .str "Deref"
  | .mutStatic => .str "MutStatic"
  | .inlineAsm => .str "InlineASM"
  | .call restricted foreign =>
    .object [("variant", .str "Call"), ("fields", .list [
      .object [("unsaf", Leaf.value restricted)], .object [("is_ffi", Leaf.value foreign)]])]
  | .closure body => .object [("variant", .str "Closure"), ("fields", .list [body.toValue])]
  | .inner body => .object [("variant", .str "InnerBlock"), ("fields", .list [body.toValue])]

def Block.toValue : Block N F T → Value
  | ⟨size, restricted, contents⟩ => .object [
      ("size", Leaf.value size), ("unsaf", Leaf.value restricted),
      ("contents", .list (entryValues contents))]

def entryValues : List (Entry N F T) → List Value
  | [] => []
  | e :: entries => e.toValue :: entryValues entries

def Entry.toValue : Entry N F T → Value
  | ⟨index, span, snippet, origin, item⟩ => .object [
      ("index", Leaf.value index), ("span", Leaf.value span), ("snippet", Leaf.value snippet),
      ("macro_origin", .str origin.word), ("item", item.toValue)]

end

def Function.toValue (f : Function N F T) : Value :=
  .object [
    ("name", Leaf.value f.name), ("unsaf", Leaf.value f.restricted), ("span", Leaf.value f.span),
    ("macro_origin", .str f.origin.word), ("block", f.block.toValue)]

def toValue (r : Record N F T) : Value :=
  .object [
    ("name", Leaf.value r.name), ("ty", Leaf.value r.crateType),
    ("functions", .list (r.functions.map Function.toValue))]

/-- A record as one line of JSON, without the line's end. -/
def encode (r : Record N F T) : String :=
  Json.write Json.compact r.toValue

end Write

def key (v : Value) (name : String) : Except RecordError Value :=
  v.under (.missingKey (.str name)) .wrongKind name

def firstPart (v : Value) : Except RecordError Value :=
  match v with
  | .list (w :: _) => .ok w
  | .list [] => .error .missingPart
  | .str s =>
    match s.toList with
    | c :: _ => .ok (.str c.toString)
    | [] => .error .missingPart
  | .object _ => .error (.missingKey (.int 0))
  | _ => .error .wrongKind

def parts (v : Value) : Except RecordError (List Value) :=
  v.partsOr .wrongKind

def origin (v : Value) : Except RecordError Origin :=
  v.wordOr (.unknownOrigin v) Origin.all Origin.word

def call (fields : Value) : Except RecordError (Node Value Value Value) := do
  match ← parts fields with
  | [a, b] => return .call (← key a "unsaf") (← key b "is_ffi")
  | _ => .error .partCount

/-- The variant of a node and its fields; a bare name has none. -/
def variantOf (v : Value) : Except RecordError (String × Option Value) := do
  let (name, fields) ← match v with
    | .str s => pure (.str s, none)
    | _ => do
      let name ← key v "variant"
      let fields := (v.get? "fields").getD (.list [])
      pure (name, if fields.isNull then none else some fields)
  match name with
  | .str s =>
    if ["Deref", "MutStatic", "InlineASM", "Call", "Closure", "InnerBlock"].contains s then
      return (s, fields)
    else .error (.unknownVariant name)
  | _ => if name.isKey then .error (.unknownVariant name) else .error .wrongKind

mutual

/-- A node. Here and below the first argument bounds how deep the value is nested. -/
def node : Nat → Value → Except RecordError (Node Value Value Value)
  | 0, _ => .error .wrongKind
  | depth + 1, v => do
    match ← variantOf v with
    | ("Deref", _) => return .deref
    | ("MutStatic", _) => return .mutStatic
    | ("InlineASM", _) => return .inlineAsm
    | ("Call", some fields) => call fields
    | ("Closure", some fields) => return .closure (← block depth (← firstPart fields))
    | ("InnerBlock", some fields) => return .inner (← block depth (← firstPart fields))
    | _ => .error .wrongKind

def block : Nat → Value → Except RecordError (Block Value Value Value)
  | 0, _ => .error .wrongKind
  | depth + 1, v => do
    let size ← key v "size"
    let restricted ← key v "unsaf"
    let contents ← (← parts (← key v "contents")).mapM (entry depth)
    return ⟨size, restricted, contents⟩

def entry : Nat → Value → Except RecordError (Entry Value Value Value)
  | 0, _ => .error .wrongKind
  | depth + 1, v => do
    let index ← key v "index"
    let span ← key v "span"
    let snippet ← key v "snippet"
    let origin ← origin (← key v "macro_origin")
    let item ← node depth (← key v "item")
    return ⟨index, span, snippet, origin, item⟩

end

def function (v : Value) : Except RecordError (Function Value Value Value) := do
  let name ← key v "name"
  let restricted ← key v "unsaf"
  let span ← key v "span"
  let origin ← origin (← key v "macro_origin")
  let body ← key v "block"
  let block ← block (body.depth + 1) body
  return ⟨name, restricted, span, origin, block⟩

def ofValue (v : Value) : Except RecordError LooseRecord := do
  let name ← key v "name"
  let crateType ← key v "ty"
  let functions ← (← parts (← key v "functions")).mapM function
  return ⟨name, crateType, functions⟩

def decode (text : String) : Except RecordError LooseRecord :=
  match Json.parse text with
  | .ok v => ofValue v
  | .error .malformed => .error .notJson
  | .error .longInteger => .error .longInteger

end CrateAudit.Record
