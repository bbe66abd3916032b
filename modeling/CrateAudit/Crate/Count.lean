import CrateAudit.Crate

namespace CrateAudit.Crate

mutual

/-- The number of items in an item, itself and those inside function bodies included. -/
def Item.count : Item → Nat
  | .fn f => f.count + 1
  | .container c => c.count + 1

def FnItem.count : FnItem → Nat
  | ⟨_, body, _, _, _, _⟩ => body.count

def Container.count : Container → Nat
  | ⟨_, _, items, _⟩ => countItems items

def countItems : List Item → Nat
  | [] => 0
  | i :: items => i.count + countItems items

def Block.count : Block → Nat
  | ⟨stmts, value, _, _, _⟩ => countStmts stmts + countOptional value

def countStmts : List Stmt → Nat
  | [] => 0
  | s :: stmts => s.count + countStmts stmts

def Stmt.count : Stmt → Nat
  | .item _ i => i.count
  | .plain _ _ e => countOptional e

def countOptional : Option Expr → Nat
  | none => 0
  | some e => e.count

def Expr.count : Expr → Nat
  | ⟨_, _, operands, _, _, _, _, _⟩ => countOperands operands

def countOperands : List Operand → Nat
  | [] => 0
  | o :: operands => o.count + countOperands operands

def Operand.count : Operand → Nat
  | .expr e => e.count
  | .block b => b.count

end

end CrateAudit.Crate
