import CrateAudit.Crate.Walk

namespace CrateAudit

/-- Whether the file is given by its name. -/
def Span.hasTextFile (s : Span) : Bool :=
  match s.file with
  | .str _ => true
  | _ => false

namespace Crate

/-- What a tree is made of. -/
inductive Part where
  | item (i : Item)
  | block (b : Block)
  | stmt (s : Stmt)
  | expr (e : Expr)

def Item.span : Item → Span
  | .fn f => f.span
  | .container c => c.span

def Stmt.span : Stmt → Span
  | .item span _ => span
  | .plain _ span _ => span

def Part.span : Part → Span
  | .item i => i.span
  | .block b => b.span
  | .stmt s => s.span
  | .expr e => e.span

/-- A closure has a block to run. -/
def Part.runs : Part → Bool
  | .expr e => e.kind ≠ .closure || e.body?.isSome
  | _ => true

/-- Closures and block expressions have a block, and only named functions are items. -/
def Part.wellFormed : Part → Bool
  | .expr e => (e.kind ≠ .closure && e.kind ≠ .block) || e.body?.isSome
  | .item (.fn f) => f.kind ≠ .closure
  | _ => true

theorem Expr.isSome_body?_iff {e : Expr} : e.body?.isSome ↔ ∃ b, .block b ∈ e.operands := by
  rw [Expr.body?, List.findSome?_isSome_iff]
  constructor
  · rintro ⟨o, ho, h⟩
    cases o with
    | expr => cases h
    | block b => exact ⟨b, ho⟩
  · rintro ⟨b, hb⟩
    exact ⟨.block b, hb, rfl⟩

theorem Part.runs_of_wellFormed {p : Part} (h : p.wellFormed) : p.runs := by
  cases p with
  | expr e =>
    simp only [wellFormed, runs, Bool.or_eq_true, Bool.and_eq_true] at h ⊢
    exact h.imp_left And.left
  | item | block | stmt => rfl

mutual

/-- The item itself and all that is in it, the items declared in function bodies included. -/
def Item.parts : Item → List Part
  | .fn f => .item (.fn f) :: f.parts
  | .container c => .item (.container c) :: c.parts

def FnItem.parts : FnItem → List Part
  | ⟨_, body, _, _, _, _⟩ => body.parts

def Container.parts : Container → List Part
  | ⟨_, _, items, _⟩ => partsOfItems items

def partsOfItems : List Item → List Part
  | [] => []
  | i :: items => i.parts ++ partsOfItems items

def Block.parts : Block → List Part
  | ⟨stmts, value, rules, author, span⟩ =>
    .block ⟨stmts, value, rules, author, span⟩ :: (partsOfStmts stmts ++ partsOfOptional value)

def partsOfStmts : List Stmt → List Part
  | [] => []
  | s :: stmts => s.parts ++ partsOfStmts stmts

def Stmt.parts : Stmt → List Part
  | .item span i => .stmt (.item span i) :: i.parts
  | .plain form span e => .stmt (.plain form span e) :: partsOfOptional e

def partsOfOptional : Option Expr → List Part
  | none => []
  | some e => e.parts

def Expr.parts : Expr → List Part
  | ⟨kind, span, operands, tag, op, signature, operandType, target⟩ =>
    .expr ⟨kind, span, operands, tag, op, signature, operandType, target⟩ ::
      partsOfOperands operands

def partsOfOperands : List Operand → List Part
  | [] => []
  | o :: operands => o.parts ++ partsOfOperands operands

def Operand.parts : Operand → List Part
  | .expr e => e.parts
  | .block b => b.parts

end

theorem FnItem.parts_eq (f : FnItem) : f.parts = f.body.parts := by
  cases f
  rw [FnItem.parts]

theorem partsOfItems_eq (items : List Item) : partsOfItems items = items.flatMap Item.parts := by
  induction items with
  | nil => rfl
  | cons i items ih => rw [partsOfItems, ih, List.flatMap_cons]

theorem partsOfStmts_eq (stmts : List Stmt) : partsOfStmts stmts = stmts.flatMap Stmt.parts := by
  induction stmts with
  | nil => rfl
  | cons s stmts ih => rw [partsOfStmts, ih, List.flatMap_cons]

theorem partsOfOperands_eq (operands : List Operand) :
    partsOfOperands operands = operands.flatMap Operand.parts := by
  induction operands with
  | nil => rfl
  | cons o operands ih => rw [partsOfOperands, ih, List.flatMap_cons]

theorem Item.parts_fn (f : FnItem) : (Item.fn f).parts = .item (.fn f) :: f.body.parts := by
  rw [Item.parts, FnItem.parts_eq]

theorem Block.mem_parts (b : Block) : .block b ∈ b.parts := by
  cases b
  rw [Block.parts]
  exact List.mem_cons_self

theorem partsOfItems_append (items items' : List Item) :
    partsOfItems (items ++ items') = partsOfItems items ++ partsOfItems items' := by
  rw [partsOfItems_eq, partsOfItems_eq, partsOfItems_eq, List.flatMap_append]

theorem parts_of_append {items before after : List Item} (h : items = before ++ after) :
    partsOfItems before ⊆ partsOfItems items ∧ partsOfItems after ⊆ partsOfItems items := by
  rw [h, partsOfItems_append]
  exact ⟨List.subset_append_left _ _, List.subset_append_right _ _⟩

theorem parts_of_mem {items : List Item} {i : Item} (h : i ∈ items) :
    i.parts ⊆ partsOfItems items := by
  intro p hp
  rw [partsOfItems_eq]
  exact List.mem_flatMap.mpr ⟨i, h, hp⟩

/-- What a walk meets here, with all that is in an item that it does not enter. -/
def Visit.parts : Visit → List Part
  | .item i => [.item i]
  | .nested i => i.parts
  | .fn _ _ => []
  | .block b => [.block b]
  | .stmt s => [.stmt s]
  | .expr e => [.expr e]

mutual

/-- A walk through a block stays in it. -/
theorem Block.parts_of_mem_walk : ∀ (b : Block) {v : Visit}, v ∈ b.walk → v.parts ⊆ b.parts
  | ⟨stmts, value, rules, author, span⟩, v, hv => by
    rw [Block.walk, List.mem_cons, List.mem_append] at hv
    rw [Block.parts]
    rcases hv with rfl | hv | hv
    · exact List.cons_subset_cons _ (List.nil_subset _)
    · exact List.Subset.trans (parts_of_mem_walkStmts stmts hv) fun _ hp => by simp [hp]
    · exact List.Subset.trans (parts_of_mem_walkOptional value hv) fun _ hp => by simp [hp]

theorem parts_of_mem_walkStmts :
    ∀ (stmts : List Stmt) {v : Visit}, v ∈ walkStmts stmts → v.parts ⊆ partsOfStmts stmts
  | [], _, hv => by simp [walkStmts] at hv
  | s :: stmts, v, hv => by
    rw [walkStmts, List.mem_append] at hv
    rw [partsOfStmts]
    rcases hv with hv | hv
    · exact List.Subset.trans (s.parts_of_mem_walk hv) (List.subset_append_left _ _)
    · exact List.Subset.trans (parts_of_mem_walkStmts stmts hv) (List.subset_append_right _ _)

theorem Stmt.parts_of_mem_walk : ∀ (s : Stmt) {v : Visit}, v ∈ s.walk → v.parts ⊆ s.parts
  | .item span i, v, hv => by
    rw [Stmt.walk, List.mem_cons, List.mem_singleton] at hv
    rw [Stmt.parts]
    rcases hv with rfl | rfl
    · exact List.cons_subset_cons _ (List.nil_subset _)
    · exact List.subset_cons_self _ _
  | .plain form span e, v, hv => by
    rw [Stmt.walk, List.mem_cons] at hv
    rw [Stmt.parts]
    rcases hv with rfl | hv
    · exact List.cons_subset_cons _ (List.nil_subset _)
    · exact List.Subset.trans (parts_of_mem_walkOptional e hv) (List.subset_cons_self _ _)

theorem parts_of_mem_walkOptional :
    ∀ (e : Option Expr) {v : Visit}, v ∈ walkOptional e → v.parts ⊆ partsOfOptional e
  | none, _, hv => by simp [walkOptional] at hv
  | some e, v, hv => by
    rw [walkOptional] at hv
    rw [partsOfOptional]
    exact e.parts_of_mem_walk hv

theorem Expr.parts_of_mem_walk : ∀ (e : Expr) {v : Visit}, v ∈ e.walk → v.parts ⊆ e.parts
  | ⟨kind, span, operands, tag, op, signature, operandType, target⟩, v, hv => by
    rw [Expr.walk, List.mem_cons] at hv
    rw [Expr.parts]
    rcases hv with rfl | hv
    · exact List.cons_subset_cons _ (List.nil_subset _)
    · refine List.Subset.trans ?_ (List.subset_cons_self _ _)
      split at hv
      · rcases List.mem_cons.mp hv with rfl | hv
        · exact List.nil_subset _
        · exact parts_of_mem_walkBody operands hv
      · exact parts_of_mem_walkOperands operands hv

theorem parts_of_mem_walkBody :
    ∀ (operands : List Operand) {v : Visit}, v ∈ walkBody operands →
      v.parts ⊆ partsOfOperands operands
  | [], _, hv => by simp [walkBody] at hv
  | .block b :: operands, v, hv => by
    rw [walkBody] at hv
    rw [partsOfOperands, Operand.parts]
    exact List.Subset.trans (b.parts_of_mem_walk hv) (List.subset_append_left _ _)
  | .expr e :: operands, v, hv => by
    rw [walkBody] at hv
    rw [partsOfOperands]
    exact List.Subset.trans (parts_of_mem_walkBody operands hv) (List.subset_append_right _ _)

theorem parts_of_mem_walkOperands :
    ∀ (operands : List Operand) {v : Visit}, v ∈ walkOperands operands →
      v.parts ⊆ partsOfOperands operands
  | [], _, hv => by simp [walkOperands] at hv
  | .block b :: operands, v, hv => by
    rw [walkOperands, List.mem_append] at hv
    rw [partsOfOperands, Operand.parts]
    rcases hv with hv | hv
    · exact List.Subset.trans (b.parts_of_mem_walk hv) (List.subset_append_left _ _)
    · exact List.Subset.trans (parts_of_mem_walkOperands operands hv) (List.subset_append_right _ _)
  | .expr e :: operands, v, hv => by
    rw [walkOperands, List.mem_append] at hv
    rw [partsOfOperands, Operand.parts]
    rcases hv with hv | hv
    · exact List.Subset.trans (e.parts_of_mem_walk hv) (List.subset_append_left _ _)
    · exact List.Subset.trans (parts_of_mem_walkOperands operands hv) (List.subset_append_right _ _)

end

end Crate

end CrateAudit
