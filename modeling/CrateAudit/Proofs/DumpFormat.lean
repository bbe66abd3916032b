import CrateAudit.Crate.Load
import CrateAudit.Proofs.Parts

namespace CrateAudit

open Crate

namespace Value

def HasPart (v w : Value) : Prop :=
  ∃ vs, v.parts? = some vs ∧ w ∈ vs

def IsInfinite (v : Value) : Prop :=
  ∃ x, v = .float x ∧ x.kind = .infinite

def endKeys : List String :=
  ["lo_line", "lo_col", "hi_line", "hi_col"]

def coordinateKeys : List String :=
  endKeys ++ ["expn_id"]

def HasInfiniteCoordinate (v : Value) : Prop :=
  ∃ key ∈ coordinateKeys, ∃ w, v.get? key = some w ∧ w.IsInfinite

section

variable {v w : Value}

theorem depth_le_of_mem {vs : List Value} (h : v ∈ vs) : v.depth ≤ depthItems vs := by
  induction vs with
  | nil => cases h
  | cons u vs ih =>
    rw [depthItems]
    rcases List.mem_cons.mp h with rfl | h
    · omega
    · have := ih h
      omega

theorem depth_le_of_mem_fields {key : String} {fields : List (String × Value)}
    (h : (key, v) ∈ fields) :
    v.depth ≤ depthFields fields := by
  induction fields with
  | nil => cases h
  | cons f fields ih =>
    obtain ⟨k, u⟩ := f
    rw [depthFields]
    rcases List.mem_cons.mp h with h | h
    · cases h
      omega
    · have := ih h
      omega

theorem depth_get? {key : String} (h : v.get? key = some w) : w.depth < v.depth := by
  cases v with
  | object fields =>
    obtain ⟨entry, hfind, rfl⟩ := Option.map_eq_some_iff.mp h
    rw [depth]
    exact Nat.lt_succ_of_le (depth_le_of_mem_fields (List.mem_of_find?_eq_some hfind))
  | null | bool | int | float | str | list | symbol | quoted | brackets => cases h

theorem depth_part (h : v.HasPart w) : w.depth ≤ v.depth := by
  obtain ⟨vs, h, hw⟩ := h
  cases v with
  | list items =>
    cases h
    rw [depth]
    exact Nat.le_succ_of_le (depth_le_of_mem hw)
  | object fields =>
    cases h
    obtain ⟨f, -, rfl⟩ := List.mem_map.mp hw
    exact Nat.zero_le _
  | str s =>
    cases h
    obtain ⟨c, -, rfl⟩ := List.mem_map.mp hw
    exact Nat.zero_le _
  | quoted u =>
    cases h
    obtain rfl := List.mem_singleton.mp hw
    rw [depth]
    exact Nat.le_succ _
  | brackets items =>
    cases h
    obtain rfl := List.mem_singleton.mp hw
    exact Nat.le_of_eq (by rw [depth, depth])
  | null | bool | int | float | symbol => cases h

theorem isNull_eq_false (h : v ≠ .null) : v.isNull = false := by
  cases v with
  | null => exact absurd rfl h
  | _ => rfl

theorem isObject_eq_false (h : ∀ fields, v ≠ .object fields) : v.isObject = false := by
  cases v with
  | object fields => exact absurd rfl (h fields)
  | _ => rfl

theorem get?_of_field {key : String} (h : (v.field key).isNull = false) :
    v.get? key = some (v.field key) := by
  unfold Value.field at h ⊢
  cases hget : v.get? key with
  | some w => rfl
  | none =>
    rw [hget] at h
    cases h

theorem field_of_get? {key : String} (h : v.get? key = some w) : v.field key = w := by
  rw [field, h]
  rfl

theorem mem_iff_hasPart {vs : List Value} (h : v.parts? = some vs) : w ∈ vs ↔ v.HasPart w := by
  constructor
  · exact fun hw => ⟨vs, h, hw⟩
  · rintro ⟨vs', h', hw⟩
    cases h.symm.trans h'
    exact hw

theorem isNull_of_hasPart (h : v.HasPart w) : v.isNull = false := by
  apply isNull_eq_false
  rintro rfl
  obtain ⟨vs, h, -⟩ := h
  cases h

theorem depth_part_field {key : String} (h : (v.field key).HasPart w) : w.depth < v.depth :=
  Nat.lt_of_le_of_lt (depth_part h) (depth_get? (get?_of_field (isNull_of_hasPart h)))

theorem not_hasPart_of_not_truthy (h : v.truthy = false) : ¬v.HasPart w := by
  rintro ⟨vs, hparts, hw⟩
  cases v with
  | list items =>
    cases hparts
    cases vs with
    | nil => cases hw
    | cons => cases h
  | object fields =>
    cases hparts
    cases fields with
    | nil => cases hw
    | cons => cases h
  | str s =>
    cases hparts
    obtain rfl : s = "" := by simpa [truthy] using h
    cases hw
  | quoted | brackets => cases h
  | null | bool | int | float | symbol => cases hparts

end

end Value

def Crate.Stmt.item? : Stmt → Option Item
  | .item _ i => some i
  | .plain _ _ _ => none

def Crate.Stmt.expr? : Stmt → Option Expr
  | .item _ _ => none
  | .plain _ _ e => e

namespace Load

inductive Role where
  | item
  | block
  | stmt
  | expr

def role : Part → Role
  | .item _ => .item
  | .block _ => .block
  | .stmt _ => .stmt
  | .expr _ => .expr

def tag? (v : Value) : Option String :=
  (v.get? "kind").map Value.text

def fnTags : List String :=
  [FnKind.function, FnKind.method].map FnKind.word

theorem mem_fnTags {tag : String} {k : FnKind}
    (h : ([.function, .method] : List FnKind).find? (fun k => k.word = tag) = some k) :
    tag ∈ fnTags ∧ k.word = tag ∧ (k = .function ∨ k = .method) := by
  have hmem := List.mem_of_find?_eq_some h
  have hword : k.word = tag := by simpa using List.find?_some h
  exact ⟨hword ▸ List.mem_map_of_mem hmem, hword, by simpa using hmem⟩

theorem not_mem_fnTags {tag : String}
    (h : ([.function, .method] : List FnKind).find? (fun k => k.word = tag) = none) :
    tag ∉ fnTags := by
  intro hmem
  obtain ⟨k, hk, hword⟩ := List.mem_map.mp hmem
  exact List.find?_eq_none.mp h k hk (by simpa using hword)

section

variable (root : Value)

/-- What a dump gives to be read, and as what. -/
inductive Reached : Role → Value → Prop where
  | top {v : Value} (hv : (root.field "items").HasPart v) : Reached .item v
  | nested {o v : Value} {tag : String} (ho : Reached .item o) (htag : tag? o = some tag)
      (hfn : tag ∉ fnTags)
      (hv : (o.field "items").HasPart v) : Reached .item v
  | fnBody {o v : Value} {tag : String} (ho : Reached .item o) (htag : tag? o = some tag)
      (hfn : tag ∈ fnTags)
      (hv : o.get? "body" = some v) : Reached .block v
  | stmt {o stmts v : Value} (ho : Reached .block o) (hstmts : o.get? "stmts" = some stmts)
      (hv : stmts.HasPart v) :
      Reached .stmt v
  | value {o v : Value} (ho : Reached .block o) (hv : o.get? "expr" = some v)
      (hgiven : v.isNull = false) :
      Reached .expr v
  | declared {o v : Value} (ho : Reached .stmt o) (hkind : o.get? "kind" = some (.str "item"))
      (hv : o.get? "item" = some v) : Reached .item v
  | carried {o v : Value} (ho : Reached .stmt o) (hkind : o.get? "kind" ≠ some (.str "item"))
      (hv : o.get? "expr" = some v) (hgiven : v.isNull = false) : Reached .expr v
  | operand {o v : Value} (ho : Reached .expr o) (hblock : isBlock v = false)
      (hv : (o.field "operands").HasPart v) : Reached .expr v
  | blockOperand {o v : Value} (ho : Reached .expr o) (hblock : isBlock v = true)
      (hv : (o.field "operands").HasPart v) : Reached .block v
  | exprBody {o v : Value} (ho : Reached .expr o) (hv : o.get? "body" = some v)
      (hgiven : v.isNull = false) :
      Reached .block v

def Expands (v : Value) : Prop :=
  match root.field "expansions" with
  | .object fields => ∃ key, (key, v) ∈ fields
  | all => all.HasPart v

/-- The spans of a dump: that of each part, and the sites of each expansion that are given. -/
inductive Spans : Value → Prop where
  | part {role : Role} {v : Value} (hv : Reached root role v) : Spans (v.field "span")
  | site {v : Value} {key : String} (hv : Expands root v) (hkey : key ∈ ["call_site", "def_site"])
      (hgiven : (v.field key).truthy) : Spans (v.field key)

/-- A dump gives an infinite number for a coordinate of a span or for what identifies an
expansion. -/
inductive Overflows : Prop where
  | span {v : Value} (hv : Spans root v) (hinf : v.HasInfiniteCoordinate) : Overflows
  | id {v w : Value} (hv : Expands root v) (hw : v.get? "id" = some w) (hinf : w.IsInfinite) :
      Overflows

inductive Signs : Value → Prop where
  | expr {v : Value} (hv : Reached root .expr v) (hgiven : (v.field "sig").isNull = false) :
      Signs (v.field "sig")
  | fn {v : Value} {tag : String} (hv : Reached root .item v) (htag : tag? v = some tag)
      (hfn : tag ∈ fnTags)
      (hgiven : (v.field "sig").isNull = false) : Signs (v.field "sig")

/-- The fields that must be there, and how a message calls what they are missing from. -/
inductive Needs : Value → String → String → Prop where
  | crate : Needs root "crate" "name"
  | item {v : Value} (hv : Reached root .item v) : Needs v "item" "kind"
  | fn {v : Value} {tag : String} (hv : Reached root .item v) (htag : tag? v = some tag)
      (hfn : tag ∈ fnTags) :
      Needs v ("fn " ++ textOr (v.field "name") "") "body"
  | block {v : Value} (hv : Reached root .block v) : Needs v "block" "stmts"
  | stmt {v : Value} (hv : Reached root .stmt v) : Needs v "statement" "kind"
  | itemStmt {v : Value} (hv : Reached root .stmt v) (hkind : v.get? "kind" = some (.str "item")) :
      Needs v "item statement" "item"
  | expr {v : Value} (hv : Reached root .expr v) : Needs v "expression" "kind"
  | target {v : Value} (hv : Reached root .expr v) (hgiven : (v.field "res").isNull = false) :
      Needs (v.field "res") "res" "kind"
  | file {v : Value} {key : String} (hobject : (root.field "files").isObject = false)
      (hv : (root.field "files").HasPart v) (hkey : key ∈ ["path", "text"]) : Needs v "file" key
  | expansion {v : Value} (hv : Expands root v) : Needs v "expansion" "id"

/-- The values that must be one of a few words, and how a message calls them. -/
inductive Chooses : Value → String → List String → Prop where
  | safety {v : Value} (hv : Signs root v) :
      Chooses ((v.get? "unsafety").getD (.str "normal")) "unsafety" ["normal", "unsafe"]
  | rules {v : Value} (hv : Reached root .block v) :
      Chooses ((v.get? "rules").getD (.str "default")) "block rules"
      ["default", "unsafe", "push_unsafe", "pop_unsafe"]
  | author {v : Value} (hv : Reached root .block v) :
      Chooses ((v.get? "unsafe_source").getD (.str "user")) "unsafe source" ["user", "compiler"]
  | stmtKind {v w : Value} (hv : Reached root .stmt v) (hw : v.get? "kind" = some w) :
      Chooses w "statement kind" ["local", "expr", "semi", "item"]
  | format {v : Value} (hv : Expands root v) :
      Chooses ((v.get? "format").getD (.str "bang")) "expansion format"
      ["bang", "attribute", "compiler"]

inductive Lists : Value → Prop where
  | items (hgiven : (root.field "items").truthy) : Lists (root.field "items")
  | nested {v : Value} {tag : String} (hv : Reached root .item v) (htag : tag? v = some tag)
      (hfn : tag ∉ fnTags)
      (hgiven : (v.field "items").truthy) : Lists (v.field "items")
  | stmts {v w : Value} (hv : Reached root .block v) (hw : v.get? "stmts" = some w) : Lists w
  | operands {v : Value} (hv : Reached root .expr v) (hgiven : (v.field "operands").truthy) :
      Lists (v.field "operands")
  | files (hgiven : (root.field "files").isNull = false) : Lists (root.field "files")
  | expansions (hgiven : (root.field "expansions").isNull = false) : Lists (root.field "expansions")

end

/-- What is wrong with a span: a text that is no display form, a value of another kind, or a
coordinate that is missing or no integer. -/
inductive BadSpan : Value → DumpError → Prop where
  | text {s : String} (h : Span.read? s = none) : BadSpan (.str s) (.badSpanText s)
  | kind {v : Value} (hnull : v.isNull = false) (hstr : ∀ s, v ≠ .str s)
      (hobject : v.isObject = false) :
      BadSpan v (.badSpan v)
  | missing {v : Value} {key : String} (hobject : v.isObject) (hkey : key ∈ "file" :: Value.endKeys)
      (h : v.get? key = none) : BadSpan v (.badSpan v)
  | coordinate {v w : Value} {key : String} (hkey : key ∈ Value.coordinateKeys)
      (hw : v.get? key = some w)
      (hgiven : key ∈ Value.endKeys ∨ w.isNull = false) (h : w.toInt = .error .unreadable) :
          BadSpan v (.badSpan v)

/-- The faults of a dump, each with the error that tells of it. -/
inductive Faulty (root : Value) : DumpError → Prop where
  | notRecord (h : root.isObject = false) : Faulty root (.notRecord root.typeName)
  | missingField {v : Value} {owner key : String} (hneeds : Needs root v owner key)
      (h : v.get? key = none) :
      Faulty root (.missingField owner key)
  | unknownWord {v : Value} {what : String} {words : List String}
      (hchooses : Chooses root v what words)
      (h : ∀ word ∈ words, v ≠ .str word) : Faulty root (.unknownWord what v)
  | badSpan {v : Value} {e : DumpError} (hv : Spans root v) (h : BadSpan v e) : Faulty root e
  | noBody {v : Value} {tag : String} {s : Span} (hv : Reached root .expr v)
      (htag : tag? v = some tag)
      (hkind : exprKind tag = .closure ∨ exprKind tag = .block)
      (hspan : span (v.field "span") = .ok s)
      (hoperands : ∀ o, (v.field "operands").HasPart o → isBlock o = false)
      (hbody : (v.field "body").isNull) :
      Faulty root (.noBody tag s)
  | noParts {v : Value} (hv : Lists root v) (h : v.parts? = none) : Faulty root .malformed
  | signature {v : Value} (hv : Signs root v) (h : v.isObject = false) : Faulty root .malformed
  | identity {v w : Value} (hv : Expands root v) (hw : v.get? "id" = some w)
      (h : w.toInt = .error .unreadable) :
      Faulty root .malformed

/-- What holds of a part and the value that it was read from: they are of one kind, and the part has
what its kind asks for. -/
def Fits (v : Value) : Part → Prop
  | .item (.fn f) => tag? v = some f.kind.word ∧ (f.kind = .function ∨ f.kind = .method)
  | .item (.container c) => tag? v = some c.kind ∧ c.kind ∉ fnTags
  | .block _ => isBlock v
  | .stmt s => v.get? "kind" = some (.str s.word) ∧
      (s.word = "item" → s.item?.isSome ∧ s.expr? = none) ∧ (s.word ≠ "item" → s.item? = none)
  | .expr e => tag? v = some e.tag ∧ e.kind = exprKind e.tag ∧
      (e.kind = .closure ∨ e.kind = .block → ∃ b, .block b ∈ e.operands)

/-- All that is listed was read from what a dump gives. -/
def Stems (root : Value) (ps : List Part) : Prop :=
  ∀ p ∈ ps, ∃ v, Reached root (role p) v ∧ Fits v p

end Load

end CrateAudit
