import CrateAudit.Span

namespace CrateAudit

namespace Crate

/-- How an expansion was written: `name!(…)`, `#[name]`, or not at all. -/
inductive Format where
  | bang
  | attached
  | compiler
deriving DecidableEq

def Format.word : Format → String
  | bang => "bang"
  | attached => "attribute"
  | compiler => "compiler"

/-- Whether a function may be called anywhere or only where unsafe operations are allowed. -/
inductive Safety where
  | normal
  | restricted
deriving DecidableEq

def Safety.word : Safety → String
  | normal => "normal"
  | restricted => "unsafe"

inductive Rules where
  | ordinary
  | restricted
  | push
  | pop
deriving DecidableEq

def Rules.word : Rules → String
  | ordinary => "default"
  | restricted => "unsafe"
  | push => "push_unsafe"
  | pop => "pop_unsafe"

inductive Author where
  | user
  | compiler
deriving DecidableEq

def Author.word : Author → String
  | user => "user"
  | compiler => "compiler"

/-- A block counts as restricted if the user, and not the compiler, marked it. -/
def Rules.isRestricted (rules : Rules) (author : Author) : Bool :=
  rules ≠ .ordinary && author == .user

inductive StmtForm where
  | binding
  | value
  | discard
deriving DecidableEq

def StmtForm.word : StmtForm → String
  | binding => "local"
  | value => "expr"
  | discard => "semi"

inductive ExprKind where
  | call
  | methodCall
  | unary
  | inlineAsm
  | path
  | block
  | closure
  | other
deriving DecidableEq

def ExprKind.word : ExprKind → String
  | call => "call"
  | methodCall => "method_call"
  | unary => "unary"
  | inlineAsm => "inline_asm"
  | path => "path"
  | block => "block"
  | closure => "closure"
  | other => "other"

inductive FnKind where
  | function
  | method
  | closure
deriving DecidableEq

def FnKind.word : FnKind → String
  | function => "fn"
  | method => "method"
  | closure => "closure"

/-- One macro expansion: where it was invoked and where the macro is defined. -/
structure Expansion where
  id : Int
  format : Format
  callSite : Option Span
  defSite : Option Span
  name : String

structure Signature where
  safety : Safety
  abi : String

def Signature.isRestricted (s : Signature) : Bool :=
  s.safety == .restricted

/-- The signature of a function whose dump gives none. -/
def Signature.plain : Signature :=
  ⟨.normal, "Rust"⟩

structure Target where
  kind : String
  mutable : Bool

def Target.isMutableStatic (t : Target) : Bool :=
  t.kind == "static" && t.mutable

mutual

/-- An expression with its operands in source order. The tag is the front end's own name for the
kind. -/
structure Expr where
  kind : ExprKind
  span : Span
  operands : List Operand
  tag : String
  op : Value
  signature : Option Signature
  operandType : Value
  target : Option Target

inductive Operand where
  | expr (e : Expr)
  | block (b : Block)

structure Block where
  stmts : List Stmt
  /-- The trailing expression, which is the block's value. -/
  value : Option Expr
  rules : Rules
  author : Author
  span : Span

inductive Stmt where
  | item (span : Span) (item : Item)
  | plain (form : StmtForm) (span : Span) (expr : Option Expr)

inductive Item where
  | fn (f : FnItem)
  | container (c : Container)

structure FnItem where
  name : String
  body : Block
  signature : Signature
  kind : FnKind
  path : String
  span : Span

structure Container where
  kind : String
  name : String
  items : List Item
  span : Span

end

def Expr.body? (e : Expr) : Option Block :=
  e.operands.findSome? fun
    | .block b => some b
    | .expr _ => none

def Expr.isRawDeref (e : Expr) : Bool :=
  match e.kind, e.op, e.operandType with
  | .unary, .str op, .str type => op == "deref" && type == "raw_ptr"
  | _, _, _ => false

def Expr.isMutableStatic (e : Expr) : Bool :=
  e.kind == .path && e.target.any Target.isMutableStatic

def Stmt.word : Stmt → String
  | item _ _ => "item"
  | plain form _ _ => form.word

def FnItem.displayName (f : FnItem) : String :=
  if f.path = "" then f.name else f.path

def Item.name : Item → String
  | fn f => f.name
  | container c => c.name

mutual

/-- The functions reached through containers, in order. -/
def Item.functions : Item → List FnItem
  | .fn f => [f]
  | .container c => c.functions

def Container.functions : Container → List FnItem
  | ⟨_, _, items, _⟩ => functionsOf items

def functionsOf : List Item → List FnItem
  | [] => []
  | i :: items => i.functions ++ functionsOf items

end

end Crate

open Crate in
structure Crate where
  name : String
  crateType : String
  items : List Item
  files : Table String String
  expansions : Table Int Expansion

/-- The functions of a crate outside of function bodies. -/
def Crate.functions (c : Crate) : List Crate.FnItem :=
  functionsOf c.items

end CrateAudit
