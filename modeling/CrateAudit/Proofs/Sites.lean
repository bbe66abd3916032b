import CrateAudit.Proofs.Totality

namespace CrateAudit

open Record Crate

namespace Crate

/-- The names of what an expression is flagged as: its operation, or that it is a closure. -/
def Expr.flags (settings : Settings) (e : Expr) : List String :=
  (e.operation? settings).toList.map Operation.name ++ if e.kind = .closure then ["Closure"] else []

/-- What is flagged among the things that a walk meets, in the order of meeting them, each under its
name and with its place. The block met right after a function or closure is the body of that, and
not flagged by itself. -/
def sites (settings : Settings) : List Visit → List (String × String)
  | [] => []
  | .fn _ _ :: .block _ :: visits => sites settings visits
  | .block b :: visits => ("InnerBlock", b.span.text) :: sites settings visits
  | .expr e :: visits =>
    (e.flags settings).map (fun name => (name, e.span.text)) ++ sites settings visits
  | .item _ :: visits | .nested _ :: visits | .fn _ _ :: visits | .stmt _ :: visits =>
    sites settings visits

/-- What a walk meets in a block after the block itself. -/
def Block.inside (b : Block) : List Visit :=
  walkStmts b.stmts ++ walkOptional b.value

theorem Block.walk_eq (b : Block) : b.walk = .block b :: b.inside := by
  cases b
  rw [Block.walk]
  rfl

end Crate

namespace Record

variable {N F T : Type}

def Entry.site (e : Entry N F T) : String × T :=
  (e.item.variant, e.span)

theorem flattenEntries_cons (e : Entry N F T) (entries : List (Entry N F T)) :
    flattenEntries (e :: entries) = e :: (e.item.flatten ++ flattenEntries entries) := by
  cases e
  rw [flattenEntries]

theorem flattenEntries_append (entries entries' : List (Entry N F T)) :
    flattenEntries (entries ++ entries') = flattenEntries entries ++ flattenEntries entries' := by
  induction entries with
  | nil => rw [List.nil_append, flattenEntries, List.nil_append]
  | cons e entries ih =>
    rw [List.cons_append, flattenEntries_cons, flattenEntries_cons, ih, List.cons_append,
      List.append_assoc]

end Record

namespace Context

section

variable {N F T : Type} (c : Context N F T)

theorem flag?_closure {e : Expr} (h : e.kind = .closure) : c.flag? e = none := by
  simp [flag?, h]

theorem flags_closure {e : Expr} (h : e.kind = .closure) (settings : Settings) :
    e.flags settings = ["Closure"] := by
  simp [Expr.flags, Expr.operation?, h]

theorem variant_flag? {e : Expr} (h : e.kind ≠ .closure) :
    (c.flag? e).toList.map Node.variant = e.flags c.settings := by
  have hname : ∀ o : Operation, (o.node c.leaves).variant = o.name := by
    intro o
    cases o <;> rfl
  rw [flag?_eq, Expr.flags, if_neg h, List.append_nil, Option.toList_map, List.map_map]
  exact List.map_congr_left fun o _ => hname o

end

section

open Collect

variable {N F : Type} {c : Context N F String}

theorem site_mark (hc : c.leaves.text = id) (k : Nat) (item : Node N F String) (s : Span) :
    (c.mark k item s).site =
      (item.variant, s.text) := by
  obtain ⟨-, hspan, hitem⟩ := c.mark_fields k item s
  rw [Entry.site, hspan, hitem, hc, id]

theorem sites_flag (hc : c.leaves.text = id) {e : Expr} (h : e.kind ≠ .closure) (k : Nat) :
    (flattenEntries ((c.flag? e).toList.map fun item => c.mark k item e.span)).map Entry.site =
      (e.flags c.settings).map fun name => (name, e.span.text) := by
  rw [← c.variant_flag? h]
  cases hf : c.flag? e with
  | none => rfl
  | some item =>
    rw [Option.toList_some, List.map_singleton, flattenEntries_cons, mark_item,
      Node.flatten_of_body?_eq_none (c.body?_flag hf)]
    simp [flattenEntries, site_mark hc]

mutual

/-- What was flagged in a block is what a walk meets in it, before it meets anything else. -/
theorem sites_collect (hc : c.leaves.text = id) : ∀ b : Crate.Block, Bodied b.walk → ∀ rest,
    sites c.settings (b.inside ++ rest) = (c.collect b).flatten.map Entry.site ++
      sites c.settings rest
  | ⟨stmts, value, rules, author, span⟩, h, rest => by
    have hw : Bodied (walkStmts stmts) ∧ Bodied (walkOptional value) := by
      rw [← bodied_append]
      intro e he
      exact h e (by rw [Crate.Block.walk]; exact List.mem_cons_of_mem _ he)
    rw [Block.inside, List.append_assoc, sites_collectStmts hc 0 stmts hw.1,
      sites_collectOptional hc stmts.length value hw.2, collect, Block.flatten,
      flattenEntries_append, List.map_append, List.append_assoc]

theorem sites_collectStmts (hc : c.leaves.text = id) (k : Nat) :
    ∀ stmts : List Stmt, Bodied (walkStmts stmts) → ∀ rest,
    sites c.settings (walkStmts stmts ++ rest) =
      (flattenEntries (c.collectStmts k stmts)).map Entry.site ++ sites c.settings rest
  | [], _, rest => by
    rw [walkStmts, collectStmts, flattenEntries]
    rfl
  | s :: stmts, h, rest => by
    rw [walkStmts, bodied_append] at h
    rw [walkStmts, List.append_assoc, sites_collectStmt hc k s h.1,
      sites_collectStmts hc (k + 1) stmts h.2, collectStmts, flattenEntries_append, List.map_append,
      List.append_assoc]

theorem sites_collectStmt (hc : c.leaves.text = id) (k : Nat) : ∀ s : Stmt, Bodied s.walk → ∀ rest,
    sites c.settings (s.walk ++ rest) = (flattenEntries (c.collectStmt k s)).map Entry.site ++
      sites c.settings rest
  | .item span i, _, rest => by
    rw [Stmt.walk, collectStmt, flattenEntries]
    rfl
  | .plain form span e, h, rest => by
    have he : Bodied (walkOptional e) :=
      fun x hx => h x (by rw [Stmt.walk]; exact List.mem_cons_of_mem _ hx)
    rw [Stmt.walk, collectStmt, List.cons_append, sites, sites_collectOptional hc k e he]

theorem sites_collectOptional (hc : c.leaves.text = id) (k : Nat) :
    ∀ e : Option Expr, Bodied (walkOptional e) → ∀ rest,
    sites c.settings (walkOptional e ++ rest) =
      (flattenEntries (c.collectOptional k e)).map Entry.site ++ sites c.settings rest
  | none, _, rest => by
    rw [walkOptional, collectOptional, flattenEntries]
    rfl
  | some e, h, rest => by
    rw [walkOptional] at h
    rw [walkOptional, collectOptional, sites_collectExpr hc k e h]

theorem sites_collectExpr (hc : c.leaves.text = id) (k : Nat) : ∀ e : Expr, Bodied e.walk → ∀ rest,
    sites c.settings (e.walk ++ rest) = (flattenEntries (c.collectExpr k e)).map Entry.site ++
      sites c.settings rest
  | ⟨kind, span, operands, tag, op, signature, operandType, target⟩, h, rest => by
    rw [Expr.walk] at h ⊢
    have hrest := fun x hx => h x (List.mem_cons_of_mem _ hx)
    rw [List.cons_append, sites, collectExpr_eq, flattenEntries_append, List.map_append]
    by_cases hk : kind = .closure
    · -- a closure is flagged by its own entry, which holds the body
      subst hk
      obtain ⟨b, hb⟩ := Expr.isSome_body?_iff.mp (h _ (List.mem_cons_self ..) rfl)
      simp only [if_true] at hrest ⊢
      rw [c.flag?_closure rfl, flags_closure rfl, List.cons_append]
      exact sites_collectClosure hc k span operands
        (fun x hx => hrest x (List.mem_cons_of_mem _ hx)) ⟨b, hb⟩ rest
    · simp only [if_neg hk] at hrest ⊢
      rw [sites_collectOperands hc k operands hrest, List.append_assoc]
      congr 1
      exact (sites_flag hc
          (e := ⟨kind, span, operands, tag, op, signature, operandType, target⟩) hk k).symm

theorem sites_collectClosure (hc : c.leaves.text = id) (k : Nat) (span : Span) :
    ∀ operands : List Operand, Bodied (walkBody operands) → (∃ b, .block b ∈ operands) → ∀ rest,
    ("Closure", span.text) :: sites c.settings (.fn .closure none :: (walkBody operands ++ rest)) =
      (flattenEntries (c.collectClosure k span operands)).map Entry.site ++ sites c.settings rest
  | [], _, hb, _ => by simp at hb
  | .expr e :: operands, h, hb, rest => by
    rw [walkBody] at h
    rw [walkBody, sites_collectClosure hc k span operands h (by simpa using hb), collectClosure]
  | .block b :: operands, h, _, rest => by
    rw [walkBody] at h
    rw [walkBody, b.walk_eq, List.cons_append, sites, sites_collect hc b h, collectClosure,
      flattenEntries_cons, mark_item, Node.flatten, flattenEntries, List.append_nil, List.map_cons,
      site_mark hc, List.cons_append]
    rfl

theorem sites_collectOperands (hc : c.leaves.text = id) (k : Nat) :
    ∀ operands : List Operand, Bodied (walkOperands operands) → ∀ rest,
    sites c.settings (walkOperands operands ++ rest) =
      (flattenEntries (c.collectOperands k operands)).map Entry.site ++ sites c.settings rest
  | [], _, rest => by
    rw [walkOperands, collectOperands, flattenEntries]
    rfl
  | .expr e :: operands, h, rest => by
    rw [walkOperands, bodied_append] at h
    rw [walkOperands, List.append_assoc, sites_collectExpr hc k e h.1,
      sites_collectOperands hc k operands h.2, collectOperands, flattenEntries_append,
      List.map_append, List.append_assoc]
  | .block ⟨stmts, value, rules, author, span⟩ :: operands, h, rest => by
    rw [walkOperands, bodied_append] at h
    rw [walkOperands, List.append_assoc, Block.walk_eq, List.cons_append, sites,
      sites_collect hc ⟨stmts, value, rules, author, span⟩ h.1,
      sites_collectOperands hc k operands h.2, collectOperands, flattenEntries_cons, mark_item,
      Node.flatten, List.map_cons, site_mark hc, List.map_append, List.cons_append,
      List.append_assoc]
    rfl

end

end

end Context

/-- In the record of a crate that was read from a dump each function lists, at all depths, exactly
what a walk of the function meets and flags, in the order of the walk. -/
theorem flatten_eq_sites_of_reads (text : String) (crate : Crate) (settings : Settings)
    (hread : Load.Reads text crate) (htext : crate.HasTextFiles) :
    ∃ r, (crate.audit (crate.context settings)).1 = .ok r ∧
      (r.functions.map fun g => (g.name, g.block.flatten.map Entry.site)) =
        (listing crate.items).map fun f =>
          (if f.path = "" then f.name else f.path, sites settings (Item.fn f).walk) := by
  refine ⟨_, audit_of_reads hread htext, ?_⟩
  rw [List.map_map]
  apply List.map_congr_left
  intro f hf
  have hbodied := (regular_of_formed (Load.formed_of_reads hread) (parts_of_mem_listing hf)).2
  have hinside := Context.sites_collect (c := crate.context settings) rfl f.body hbodied []
  -- the walk of a function meets the item and the function, and then the body, which is skipped
  have hwalk : sites settings (Item.fn f).walk = sites settings (f.body.inside ++ []) := by
    rw [Item.walk, f.body.walk_eq, List.append_nil]
    rfl
  rw [hwalk]
  exact congrArg (Prod.mk f.displayName) (hinside.trans (List.append_nil _)).symm

theorem flatten_eq_sites_closureDump :
    ∃ crate r, Load.Reads closureDump crate ∧ crate.HasTextFiles ∧
      ((listing crate.items).map fun f => (sites {} (Item.fn f).walk).map Prod.fst) =
        [["Closure", "Deref"], []] ∧
      (crate.audit (crate.context {})).1 = .ok r ∧
      (r.functions.map fun g => (g.name, g.block.flatten.map Entry.site)) =
        (listing crate.items).map fun f =>
          (if f.path = "" then f.name else f.path, sites {} (Item.fn f).walk) := by
  obtain ⟨crate, hread, hcheck⟩ := Load.exists_reads
    (by decide +kernel : (Load.symbolic closureDump).toOption.any fun crate =>
      crate.spans.all Span.hasTextFile &&
        ((listing crate.items).map fun f => (sites {} (Item.fn f).walk).map Prod.fst) ==
            [["Closure", "Deref"], []])
  rw [Bool.and_eq_true, List.all_eq_true, beq_iff_eq] at hcheck
  obtain ⟨r, hr⟩ := flatten_eq_sites_of_reads closureDump crate {} hread hcheck.1
  exact ⟨crate, r, hread, hcheck.1, hcheck.2, hr⟩

end CrateAudit
