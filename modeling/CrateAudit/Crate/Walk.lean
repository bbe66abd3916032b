import CrateAudit.Crate

namespace CrateAudit.Crate

/-- What a walk meets on its way down, in the order of meeting it. -/
inductive Visit where
  | item (i : Item)
  /-- An item declared inside a function body, which the walk does not enter. -/
  | nested (i : Item)
  /-- A function; a closure comes without an item. -/
  | fn (kind : FnKind) (f : Option FnItem)
  | block (b : Block)
  | stmt (s : Stmt)
  | expr (e : Expr)

mutual

def Block.walk : Block → List Visit
  | ⟨stmts, value, rules, author, span⟩ =>
    .block ⟨stmts, value, rules, author, span⟩ :: (walkStmts stmts ++ walkOptional value)

def walkStmts : List Stmt → List Visit
  | [] => []
  | s :: stmts => s.walk ++ walkStmts stmts

def Stmt.walk : Stmt → List Visit
  | .item span i => [.stmt (.item span i), .nested i]
  | .plain form span e => .stmt (.plain form span e) :: walkOptional e

def walkOptional : Option Expr → List Visit
  | none => []
  | some e => e.walk

/-- A closure is entered through its body alone, every other expression through all its operands. -/
def Expr.walk : Expr → List Visit
  | ⟨kind, span, operands, tag, op, signature, operandType, target⟩ =>
    .expr ⟨kind, span, operands, tag, op, signature, operandType, target⟩ ::
      if kind = .closure then .fn .closure none :: walkBody operands else walkOperands operands

def walkBody : List Operand → List Visit
  | [] => []
  | .block b :: _ => b.walk
  | .expr _ :: operands => walkBody operands

def walkOperands : List Operand → List Visit
  | [] => []
  | .block b :: operands => b.walk ++ walkOperands operands
  | .expr e :: operands => e.walk ++ walkOperands operands

end

mutual

def Item.walk : Item → List Visit
  | .fn f => [.item (.fn f), .fn f.kind (some f)] ++ f.body.walk
  | .container c => .item (.container c) :: c.walk

def Container.walk : Container → List Visit
  | ⟨_, _, items, _⟩ => walkItems items

def walkItems : List Item → List Visit
  | [] => []
  | i :: items => i.walk ++ walkItems items

end

end CrateAudit.Crate

namespace CrateAudit

def Crate.walk (c : Crate) : List Crate.Visit :=
  Crate.walkItems c.items

end CrateAudit
