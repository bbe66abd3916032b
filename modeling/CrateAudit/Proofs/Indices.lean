import CrateAudit.Proofs.Totality

namespace CrateAudit

open Record Crate

namespace Record

variable {N F T : Type}

mutual

/-- The blocks of a record at every depth: the block itself, and those nested in it. -/
def Block.blocks : Block N F T → List (Block N F T)
  | ⟨size, restricted, contents⟩ => ⟨size, restricted, contents⟩ :: blocksOf contents

def blocksOf : List (Entry N F T) → List (Block N F T)
  | [] => []
  | ⟨_, _, _, _, item⟩ :: entries => item.blocks ++ blocksOf entries

def Node.blocks : Node N F T → List (Block N F T)
  | .closure body => body.blocks
  | .inner body => body.blocks
  | .deref | .mutStatic | .inlineAsm | .call _ _ => []

end

theorem blocksOf_cons (e : Entry N F T) (entries : List (Entry N F T)) :
    blocksOf (e :: entries) = e.item.blocks ++ blocksOf entries := by
  cases e
  rw [blocksOf]

theorem blocksOf_append (entries entries' : List (Entry N F T)) :
    blocksOf (entries ++ entries') = blocksOf entries ++ blocksOf entries' := by
  induction entries with
  | nil => rw [List.nil_append, blocksOf, List.nil_append]
  | cons e entries ih => rw [List.cons_append, blocksOf_cons, blocksOf_cons, ih, List.append_assoc]

/-- What was flagged stands in the order of the statements, and under a number that a statement
has. -/
structure Block.Indexed (b : Block Nat F T) : Prop where
  sorted : (b.contents.map Entry.index).Pairwise (· ≤ ·)
  bounded : ∀ e ∈ b.contents, e.index < b.size

theorem Block.Indexed.contents_eq_nil {b : Block Nat F T} (h : b.Indexed) (hsize : b.size = 0) :
    b.contents = [] := by
  apply List.eq_nil_iff_forall_not_mem.mpr
  intro e he
  have hlt := h.bounded e he
  omega

/-- Entries under ordered numbers from `k` up to `n`, which is left out. -/
def Between (k n : Nat) (entries : List (Entry Nat F T)) : Prop :=
  (entries.map Entry.index).Pairwise (· ≤ ·) ∧ ∀ e ∈ entries, k ≤ e.index ∧ e.index < n

namespace Between

variable {k m n : Nat} {entries entries' : List (Entry Nat F T)}

theorem of_eq (h : ∀ e ∈ entries, e.index = k) : Between k (k + 1) entries := by
  refine ⟨List.pairwise_map.mpr (List.pairwise_of_forall_mem_list ?_), fun e he => ?_⟩
  · intro e he e' he'
    have hk := h e he
    have hk' := h e' he'
    omega
  · have hk := h e he
    omega

theorem append (h : Between k m entries) (h' : Between m n entries') (hkm : k ≤ m) (hmn : m ≤ n) :
    Between k n (entries ++ entries') := by
  refine ⟨?_, fun e he => ?_⟩
  · rw [List.map_append, List.pairwise_append]
    refine ⟨h.1, h'.1, ?_⟩
    intro i hi i' hi'
    obtain ⟨e, he, rfl⟩ := List.mem_map.mp hi
    obtain ⟨e', he', rfl⟩ := List.mem_map.mp hi'
    have hlt := (h.2 e he).2
    have hge := (h'.2 e' he').1
    omega
  · rcases List.mem_append.mp he with he | he
    · have hbounds := h.2 e he
      omega
    · have hbounds := h'.2 e he
      omega

end Between

end Record

namespace Context

section

variable {N F T : Type} (c : Context N F T)

mutual

/-- All that an expression flags has the number of its statement. -/
theorem index_collectExpr (k : Nat) :
    ∀ e : Expr, ∀ r ∈ c.collectExpr k e, r.index = c.leaves.count k
  | ⟨kind, span, operands, tag, op, signature, operandType, target⟩ => by
    intro r hr
    rw [collectExpr_eq, List.mem_append] at hr
    rcases hr with hr | hr
    · obtain ⟨item, _, rfl⟩ := List.mem_map.mp hr
      exact c.mark_index k item span
    · by_cases hk : kind = .closure
      · rw [if_pos hk] at hr
        exact index_collectClosure k span operands r hr
      · rw [if_neg hk] at hr
        exact index_collectOperands k operands r hr

theorem index_collectClosure (k : Nat) (span : Span) :
    ∀ operands : List Operand, ∀ r ∈ c.collectClosure k span operands, r.index = c.leaves.count k
  | [], r, hr => by
    rw [collectClosure] at hr
    cases hr
  | .expr _ :: operands, r, hr => by
    rw [collectClosure] at hr
    exact index_collectClosure k span operands r hr
  | .block body :: _, r, hr => by
    rw [collectClosure, List.mem_singleton] at hr
    rw [hr, mark_index]

theorem index_collectOperands (k : Nat) :
    ∀ operands : List Operand, ∀ r ∈ c.collectOperands k operands, r.index = c.leaves.count k
  | [], r, hr => by
    rw [collectOperands] at hr
    cases hr
  | .expr e :: operands, r, hr => by
    rw [collectOperands, List.mem_append] at hr
    rcases hr with hr | hr
    · exact index_collectExpr k e r hr
    · exact index_collectOperands k operands r hr
  | .block ⟨stmts, value, rules, author, span⟩ :: operands, r, hr => by
    rw [collectOperands, List.mem_cons] at hr
    rcases hr with hr | hr
    · rw [hr, mark_index]
    · exact index_collectOperands k operands r hr

end

theorem index_collectOptional (k : Nat) (e : Option Expr) :
    ∀ r ∈ c.collectOptional k e, r.index = c.leaves.count k := by
  intro r hr
  cases e with
  | none =>
    rw [collectOptional] at hr
    cases hr
  | some e =>
    rw [collectOptional] at hr
    exact c.index_collectExpr k e r hr

theorem blocks_flag {e : Expr} {item : Node N F T} (h : c.flag? e = some item) :
    item.blocks = [] := by
  have hbody := c.body?_flag h
  cases item with
  | closure | inner => cases hbody
  | deref | mutStatic | inlineAsm | call => rw [Node.blocks]

theorem blocksOf_flag (e : Expr) (k : Nat) (span : Span) :
    blocksOf ((c.flag? e).toList.map fun item => c.mark k item span) = [] := by
  cases h : c.flag? e with
  | none => rfl
  | some item =>
    rw [Option.toList_some, List.map_singleton, blocksOf_cons, mark_item, c.blocks_flag h]
    rfl

mutual

/-- The blocks of the record of a block, at every depth, are themselves records of blocks. -/
theorem blocks_collect : ∀ b : Crate.Block, ∀ r ∈ (c.collect b).blocks, ∃ b, r = c.collect b
  | ⟨stmts, value, rules, author, span⟩ => by
    rw [collect, Block.blocks, List.forall_mem_cons, blocksOf_append, List.forall_mem_append]
    refine ⟨⟨⟨stmts, value, rules, author, span⟩, ?_⟩, blocks_collectStmts 0 stmts,
      blocks_collectOptional stmts.length value⟩
    rw [collect]

theorem blocks_collectStmts (k : Nat) :
    ∀ stmts : List Stmt, ∀ r ∈ blocksOf (c.collectStmts k stmts), ∃ b, r = c.collect b
  | [] => by
    rw [collectStmts, blocksOf]
    exact List.forall_mem_nil _
  | s :: stmts => by
    rw [collectStmts, blocksOf_append, List.forall_mem_append]
    exact ⟨blocks_collectStmt k s, blocks_collectStmts (k + 1) stmts⟩

theorem blocks_collectStmt (k : Nat) :
    ∀ s : Stmt, ∀ r ∈ blocksOf (c.collectStmt k s), ∃ b, r = c.collect b
  | .item _ _ => by
    rw [collectStmt, blocksOf]
    exact List.forall_mem_nil _
  | .plain _ _ e => by
    rw [collectStmt]
    exact blocks_collectOptional k e

theorem blocks_collectOptional (k : Nat) :
    ∀ e : Option Expr, ∀ r ∈ blocksOf (c.collectOptional k e), ∃ b, r = c.collect b
  | none => by
    rw [collectOptional, blocksOf]
    exact List.forall_mem_nil _
  | some e => by
    rw [collectOptional]
    exact blocks_collectExpr k e

theorem blocks_collectExpr (k : Nat) :
    ∀ e : Expr, ∀ r ∈ blocksOf (c.collectExpr k e), ∃ b, r = c.collect b
  | ⟨kind, span, operands, tag, op, signature, operandType, target⟩ => by
    rw [collectExpr_eq, blocksOf_append, blocksOf_flag, List.nil_append]
    by_cases hk : kind = .closure
    · rw [if_pos hk]
      exact blocks_collectClosure k span operands
    · rw [if_neg hk]
      exact blocks_collectOperands k operands

theorem blocks_collectClosure (k : Nat) (span : Span) :
    ∀ operands : List Operand,
      ∀ r ∈ blocksOf (c.collectClosure k span operands), ∃ b, r = c.collect b
  | [] => by
    rw [collectClosure, blocksOf]
    exact List.forall_mem_nil _
  | .expr _ :: operands => by
    rw [collectClosure]
    exact blocks_collectClosure k span operands
  | .block body :: _ => by
    rw [collectClosure, blocksOf_cons, mark_item, Node.blocks, blocksOf, List.append_nil]
    exact blocks_collect body

theorem blocks_collectOperands (k : Nat) :
    ∀ operands : List Operand, ∀ r ∈ blocksOf (c.collectOperands k operands), ∃ b, r = c.collect b
  | [] => by
    rw [collectOperands, blocksOf]
    exact List.forall_mem_nil _
  | .expr e :: operands => by
    rw [collectOperands, blocksOf_append, List.forall_mem_append]
    exact ⟨blocks_collectExpr k e, blocks_collectOperands k operands⟩
  | .block ⟨stmts, value, rules, author, span⟩ :: operands => by
    rw [collectOperands, blocksOf_cons, mark_item, Node.blocks, List.forall_mem_append]
    exact ⟨blocks_collect ⟨stmts, value, rules, author, span⟩, blocks_collectOperands k operands⟩

end

end

section

variable {F T : Type} {c : Context Nat F T} (hc : c.leaves.count = id)
include hc

theorem between_collectOptional (k : Nat) (e : Option Expr) :
    Between k (k + e.toList.length) (c.collectOptional k e) := by
  cases e with
  | none =>
    rw [collectOptional]
    exact ⟨.nil, by simp⟩
  | some e =>
    apply Between.of_eq
    intro r hr
    rw [c.index_collectOptional k (some e) r hr, hc, id]

theorem between_collectStmts (k : Nat) (stmts : List Stmt) :
    Between k (k + stmts.length) (c.collectStmts k stmts) := by
  induction stmts generalizing k with
  | nil =>
    rw [collectStmts]
    exact ⟨.nil, by simp⟩
  | cons s stmts ih =>
    -- the statement in front has number `k`, and those after it start at `k + 1`
    have hrest := ih (k + 1)
    have hfirst : Between k (k + 1) (c.collectStmt k s) := by
      apply Between.of_eq
      intro r hr
      cases s with
      | item =>
        rw [collectStmt] at hr
        cases hr
      | plain form span e =>
        rw [collectStmt] at hr
        rw [c.index_collectOptional k e r hr, hc, id]
    rw [collectStmts, List.length_cons]
    rw [Nat.add_right_comm] at hrest
    exact hfirst.append hrest (by omega) (by omega)

theorem indexed_collect (b : Crate.Block) : (c.collect b).Indexed := by
  obtain ⟨stmts, value, rules, author, span⟩ := b
  have hstmts := between_collectStmts hc 0 stmts
  rw [Nat.zero_add] at hstmts
  have h := hstmts.append (between_collectOptional hc stmts.length value) (by omega) (by omega)
  rw [collect]
  refine ⟨h.1, fun e he => ?_⟩
  rw [hc]
  exact (h.2 e he).2

end

end Context

/-- In the record of a crate that was read from a dump the contents of every block are in order and
within its size, at every depth, and every function is one of the tree and no closure. -/
theorem indexed_of_reads (text : String) (crate : Crate) (settings : Settings)
    (hread : Load.Reads text crate) (htext : crate.HasTextFiles) :
    ∃ r, (crate.audit (crate.context settings)).1 = .ok r ∧ ∀ g ∈ r.functions,
      (∀ b ∈ g.block.blocks, b.Indexed ∧ (b.size = 0 → b.contents = [])) ∧
        ∃ f, Part.item (.fn f) ∈ partsOfItems crate.items ∧ f.kind ≠ .closure ∧
          g = (crate.context settings).declare f := by
  refine ⟨_, audit_of_reads hread htext, fun g hg => ?_⟩
  obtain ⟨f, hf, rfl⟩ := List.mem_map.mp hg
  have hparts := parts_of_mem_listing hf
  have hregular := regular_of_formed (Load.formed_of_reads hread) hparts
  refine ⟨fun b hb => ?_, f, hparts ?_, hregular.1, rfl⟩
  · obtain ⟨b', rfl⟩ := (crate.context settings).blocks_collect f.body b hb
    have hindexed := Context.indexed_collect (c := crate.context settings) rfl b'
    exact ⟨hindexed, hindexed.contents_eq_nil⟩
  · rw [Item.parts_fn]
    exact List.mem_cons_self

/-- The sizes of the blocks of a record at every depth, with the numbers of what was flagged in
them. -/
def Record.outline (r : ExactRecord) : List (List (Nat × List Nat)) :=
  r.functions.map fun g => g.block.blocks.map fun b => (b.size, b.contents.map Entry.index)

theorem indexed_closureDump :
    ∃ crate r, Load.Reads closureDump crate ∧ crate.HasTextFiles ∧
      (crate.audit (crate.context {})).1 = .ok r ∧
      r.outline = [[(1, [0]), (2, [1])], [(0, [])]] ∧ ∀ g ∈ r.functions,
        (∀ b ∈ g.block.blocks, b.Indexed ∧ (b.size = 0 → b.contents = [])) ∧
          ∃ f, Part.item (.fn f) ∈ partsOfItems crate.items ∧ f.kind ≠ .closure ∧
            g = (crate.context {}).declare f := by
  obtain ⟨crate, hread, hcheck⟩ := Load.exists_reads
    (by decide +kernel : (Load.symbolic closureDump).toOption.any fun crate =>
      crate.spans.all Span.hasTextFile &&
        (crate.audit (crate.context {})).1.toOption.any fun r =>
          r.outline == [[(1, [0]), (2, [1])], [(0, [])]])
  rw [Bool.and_eq_true, List.all_eq_true] at hcheck
  obtain ⟨r, haudit, hindexed⟩ := indexed_of_reads closureDump crate {} hread hcheck.1
  rw [haudit] at hcheck
  exact ⟨crate, r, hread, hcheck.1, haudit, eq_of_beq hcheck.2, hindexed⟩

end CrateAudit
