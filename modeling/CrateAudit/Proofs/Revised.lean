import CrateAudit.Proofs.Totality

namespace CrateAudit

open Record Crate

namespace Record

variable {N F T : Type}

mutual

/-- A block whose entries are gone through from the inside out: `change` drops an entry or says what
it becomes. -/
def Block.revise (change : Entry N F T → Option (Entry N F T)) : Block N F T → Block N F T
  | ⟨size, restricted, contents⟩ => ⟨size, restricted, reviseEntries change contents⟩

def reviseEntries (change : Entry N F T → Option (Entry N F T)) :
    List (Entry N F T) → List (Entry N F T)
  | [] => []
  | ⟨index, span, snippet, origin, item⟩ :: entries =>
    (change ⟨index, span, snippet, origin, item.revise change⟩).toList ++
      reviseEntries change entries

def Node.revise (change : Entry N F T → Option (Entry N F T)) : Node N F T → Node N F T
  | .closure body => .closure (body.revise change)
  | .inner body => .inner (body.revise change)
  | .deref => .deref
  | .mutStatic => .mutStatic
  | .inlineAsm => .inlineAsm
  | .call restricted foreign => .call restricted foreign

end

section

variable (change : Entry N F T → Option (Entry N F T))

def Entry.reviseItem (e : Entry N F T) : Entry N F T :=
  { e with item := e.item.revise change }

theorem reviseEntries_cons (e : Entry N F T) (entries : List (Entry N F T)) :
    reviseEntries change (e :: entries) = (change (e.reviseItem change)).toList ++
      reviseEntries change entries := by
  cases e
  rw [reviseEntries, Entry.reviseItem]

theorem reviseEntries_append (entries entries' : List (Entry N F T)) :
    reviseEntries change (entries ++ entries') =
      reviseEntries change entries ++ reviseEntries change entries' := by
  induction entries with
  | nil => rw [List.nil_append, reviseEntries, List.nil_append]
  | cons e entries ih =>
    rw [List.cons_append, reviseEntries_cons, reviseEntries_cons, ih, List.append_assoc]

end

/-- A call of a function that is neither restricted nor foreign. -/
def Node.isSafeCall : Node N Bool T → Bool
  | .call false false => true
  | _ => false

def Entry.unlessSafeCall (e : Entry N Bool T) : Option (Entry N Bool T) :=
  if e.item.isSafeCall then none else some e

def withoutSafeCalls (r : Record N Bool T) : Record N Bool T :=
  { r with functions := r.functions.map fun f =>
    { f with block := f.block.revise Entry.unlessSafeCall } }

end Record

namespace Context

section

variable {N F T : Type} (c : Context N F T)

def recordingSafeCalls (wanted : Bool) : Context N F T :=
  { c with settings := { c.settings with recordSafeCalls := wanted } }

theorem mark_recordingSafeCalls (wanted : Bool) (k : Nat) (item : Node N F T) (s : Span) :
    (c.recordingSafeCalls wanted).mark k item s = c.mark k item s :=
  rfl

theorem reviseItem_mark (change : Entry N F T → Option (Entry N F T)) (k : Nat) (item : Node N F T)
    (s : Span) :
    (c.mark k item s).reviseItem change = c.mark k (item.revise change) s := by
  unfold mark entry
  cases c.excerpt s with
  | error e => rfl
  | ok text =>
    cases c.source.origin c.settings s with
    | error e => rfl
    | ok o => rfl

theorem revise_flag (change : Entry N F T → Option (Entry N F T)) {e : Expr} {item : Node N F T}
    (h : c.flag? e = some item) : item.revise change = item := by
  have hbody := c.body?_flag h
  cases item with
  | closure | inner => cases hbody
  | deref | mutStatic | inlineAsm | call => rw [Node.revise]

end

section

variable {N T : Type} {c : Context N Bool T}

/-- The flags that are left when safe calls are not recorded. -/
theorem flag?_recordingSafeCalls (hc : c.leaves.flag = id) (e : Expr) :
    (c.recordingSafeCalls false).flag? e =
      ((c.recordingSafeCalls true).flag? e).filter (!·.isSafeCall) := by
  have hflag : ∀ wanted, (c.recordingSafeCalls wanted).leaves.flag = id := fun _ => hc
  have hforeign : ∀ wanted, e.signature.any (c.recordingSafeCalls wanted).isForeign =
      e.signature.any c.isForeign :=
    fun _ => rfl
  unfold flag?
  cases hk : e.kind with
  | call | methodCall =>
    simp only [hflag, hforeign, id]
    cases e.signature.any Signature.isRestricted <;> cases e.signature.any c.isForeign <;> rfl
  | unary => cases e.isRawDeref <;> rfl
  | path => cases e.isMutableStatic <;> rfl
  | inlineAsm | block | closure | other => rfl

theorem unlessSafeCall_mark (k : Nat) (item : Node N Bool T) (s : Span) :
    (c.mark k item s).unlessSafeCall =
      if item.isSafeCall then none else some (c.mark k item s) := by
  rw [Entry.unlessSafeCall, mark_item]

/-- Of the entry for an expression itself, what is left is the entry without safe calls. -/
theorem reviseEntries_flag (hc : c.leaves.flag = id) (k : Nat) (e : Expr) :
    reviseEntries Entry.unlessSafeCall (((c.recordingSafeCalls true).flag? e).toList.map fun item =>
      (c.recordingSafeCalls true).mark k item e.span) =
    ((c.recordingSafeCalls false).flag? e).toList.map
      fun item => (c.recordingSafeCalls false).mark k item e.span := by
  rw [flag?_recordingSafeCalls hc]
  cases hf : (c.recordingSafeCalls true).flag? e with
  | none => rfl
  | some item =>
    have hitem := revise_flag (c.recordingSafeCalls true) Entry.unlessSafeCall hf
    rw [Option.toList_some, List.map_singleton, reviseEntries_cons, reviseItem_mark, hitem,
      unlessSafeCall_mark, reviseEntries, List.append_nil]
    cases hsafe : item.isSafeCall with
    | false => simp [Option.filter, hsafe, mark_recordingSafeCalls]
    | true => simp [Option.filter, hsafe]

theorem reviseEntries_mark {item : Node N Bool T}
    (hitem : (item.revise Entry.unlessSafeCall).isSafeCall = false) (k : Nat) (s : Span)
    (entries : List (Entry N Bool T)) :
    reviseEntries Entry.unlessSafeCall ((c.recordingSafeCalls true).mark k item s :: entries) =
      (c.recordingSafeCalls false).mark k (item.revise Entry.unlessSafeCall) s ::
        reviseEntries Entry.unlessSafeCall entries := by
  rw [reviseEntries_cons, reviseItem_mark, unlessSafeCall_mark, hitem, mark_recordingSafeCalls,
    mark_recordingSafeCalls]
  rfl

mutual

/-- Recording safe calls adds their entries to a block and changes nothing else in it. -/
theorem revise_collect (hc : c.leaves.flag = id) : ∀ b : Crate.Block,
    ((c.recordingSafeCalls true).collect b).revise Entry.unlessSafeCall =
      (c.recordingSafeCalls false).collect b
  | ⟨stmts, value, rules, author, span⟩ => by
    rw [collect, collect, Block.revise, reviseEntries_append, revise_collectStmts hc 0 stmts,
      revise_collectOptional hc stmts.length value]
    rfl

theorem revise_collectStmts (hc : c.leaves.flag = id) (k : Nat) : ∀ stmts : List Stmt,
    reviseEntries Entry.unlessSafeCall ((c.recordingSafeCalls true).collectStmts k stmts) =
      (c.recordingSafeCalls false).collectStmts k stmts
  | [] => by rw [collectStmts, collectStmts, reviseEntries]
  | s :: stmts => by
    rw [collectStmts, collectStmts, reviseEntries_append, revise_collectStmt hc k s,
      revise_collectStmts hc (k + 1) stmts]

theorem revise_collectStmt (hc : c.leaves.flag = id) (k : Nat) : ∀ s : Stmt,
    reviseEntries Entry.unlessSafeCall ((c.recordingSafeCalls true).collectStmt k s) =
      (c.recordingSafeCalls false).collectStmt k s
  | .item _ _ => by rw [collectStmt, collectStmt, reviseEntries]
  | .plain _ _ e => by rw [collectStmt, collectStmt, revise_collectOptional hc k e]

theorem revise_collectOptional (hc : c.leaves.flag = id) (k : Nat) : ∀ e : Option Expr,
    reviseEntries Entry.unlessSafeCall ((c.recordingSafeCalls true).collectOptional k e) =
      (c.recordingSafeCalls false).collectOptional k e
  | none => by rw [collectOptional, collectOptional, reviseEntries]
  | some e => by rw [collectOptional, collectOptional, revise_collectExpr hc k e]

theorem revise_collectExpr (hc : c.leaves.flag = id) (k : Nat) : ∀ e : Expr,
    reviseEntries Entry.unlessSafeCall ((c.recordingSafeCalls true).collectExpr k e) =
      (c.recordingSafeCalls false).collectExpr k e
  | ⟨kind, span, operands, tag, op, signature, operandType, target⟩ => by
    have hflag :=
      reviseEntries_flag hc k ⟨kind, span, operands, tag, op, signature, operandType, target⟩
    rw [collectExpr_eq, collectExpr_eq, reviseEntries_append, hflag]
    by_cases hk : kind = .closure
    · rw [if_pos hk, if_pos hk, revise_collectClosure hc k span operands]
    · rw [if_neg hk, if_neg hk, revise_collectOperands hc k operands]

theorem revise_collectClosure (hc : c.leaves.flag = id) (k : Nat) (span : Span) :
    ∀ operands : List Operand,
    reviseEntries Entry.unlessSafeCall
      ((c.recordingSafeCalls true).collectClosure k span operands) =
      (c.recordingSafeCalls false).collectClosure k span operands
  | [] => by rw [collectClosure, collectClosure, reviseEntries]
  | .expr _ :: operands =>
    by rw [collectClosure, collectClosure, revise_collectClosure hc k span operands]
  | .block body :: _ => by
    have hitem :
        ((Node.closure ((c.recordingSafeCalls true).collect body)).revise Entry.unlessSafeCall) =
        .closure ((c.recordingSafeCalls false).collect body) := by
      rw [Node.revise, revise_collect hc body]
    rw [collectClosure, collectClosure, reviseEntries_mark (by rw [hitem]; rfl), hitem,
      reviseEntries]

theorem revise_collectOperands (hc : c.leaves.flag = id) (k : Nat) : ∀ operands : List Operand,
    reviseEntries Entry.unlessSafeCall ((c.recordingSafeCalls true).collectOperands k operands) =
      (c.recordingSafeCalls false).collectOperands k operands
  | [] => by rw [collectOperands, collectOperands, reviseEntries]
  | .expr e :: operands => by
    rw [collectOperands, collectOperands, reviseEntries_append, revise_collectExpr hc k e,
      revise_collectOperands hc k operands]
  | .block ⟨stmts, value, rules, author, span⟩ :: operands => by
    have hitem :
        ((Node.inner ((c.recordingSafeCalls true).collect
            ⟨stmts, value, rules, author, span⟩)).revise Entry.unlessSafeCall) =
          .inner ((c.recordingSafeCalls false).collect ⟨stmts, value, rules, author, span⟩) := by
      rw [Node.revise, revise_collect hc ⟨stmts, value, rules, author, span⟩]
    rw [collectOperands, collectOperands, reviseEntries_mark (by rw [hitem]; rfl), hitem,
      revise_collectOperands hc k operands]

end

theorem revise_declare (hc : c.leaves.flag = id) (f : FnItem) :
    { (c.recordingSafeCalls true).declare f with
      block := ((c.recordingSafeCalls true).declare f).block.revise Entry.unlessSafeCall } =
      (c.recordingSafeCalls false).declare f := by
  have hblock : ((c.recordingSafeCalls true).declare f).block.revise Entry.unlessSafeCall =
      (c.recordingSafeCalls false).collect f.body := revise_collect hc f.body
  rw [hblock]
  rfl

end

end Context

/-- Recording the safe calls of a crate that was read from a dump adds entries for them to its
record and changes nothing else: without these entries it is the record that is made when safe calls
are not recorded. -/
theorem withoutSafeCalls_of_reads (text : String) (crate : Crate) (settings : Settings)
    (hread : Load.Reads text crate) (htext : crate.HasTextFiles) :
    ∃ r r', (crate.audit (crate.context { settings with recordSafeCalls := true })).1 = .ok r ∧
      (crate.audit (crate.context { settings with recordSafeCalls := false })).1 = .ok r' ∧
      r.withoutSafeCalls = r' := by
  refine ⟨_, _, audit_of_reads hread htext, audit_of_reads hread htext, ?_⟩
  have hdeclare : ∀ f, _ := Context.revise_declare (c := crate.context settings) rfl
  rw [Record.withoutSafeCalls, List.map_map]
  congr 1
  apply List.map_congr_left
  intro f _
  exact hdeclare f

/-- A function that makes safe calls, one of them in a closure and one in a block, next to what is
flagged anyway. -/
def safeCallsDump : String :=
  "(crate :name k :items ((fn :body (block :stmts ((semi :expr (call :operands
      ((unary :op deref :operand_ty raw_ptr))))
    (semi :expr (closure :body (block :stmts () :expr (method_call :sig (sig :abi Rust))))))
    :expr (block :body
      (block :stmts ((expr :expr (call))) :expr (call :sig (sig :abi C))))))))"

theorem withoutSafeCalls_safeCallsDump :
    ∃ crate r r', Load.Reads safeCallsDump crate ∧ crate.HasTextFiles ∧
      (r.functions.map fun f => f.block.flatten.map fun e => e.item.variant) =
        [["Call", "Deref", "Closure", "Call", "InnerBlock", "Call", "Call"]] ∧
      (r'.functions.map fun f => f.block.flatten.map fun e => e.item.variant) =
        [["Deref", "Closure", "InnerBlock", "Call"]] ∧
      (crate.audit (crate.context { recordSafeCalls := true })).1 = .ok r ∧
      (crate.audit (crate.context { recordSafeCalls := false })).1 = .ok r' ∧
      r.withoutSafeCalls = r' := by
  obtain ⟨crate, hread, hcheck⟩ := Load.exists_reads
    (by decide +kernel : (Load.symbolic safeCallsDump).toOption.any fun crate =>
      crate.spans.all Span.hasTextFile &&
        ((crate.audit (crate.context { recordSafeCalls := true })).1.toOption.any fun r =>
          (r.functions.map fun f => f.block.flatten.map fun e => e.item.variant) ==
            [["Call", "Deref", "Closure", "Call", "InnerBlock", "Call", "Call"]]) &&
        ((crate.audit (crate.context { recordSafeCalls := false })).1.toOption.any fun r =>
          (r.functions.map fun f => f.block.flatten.map fun e => e.item.variant) ==
            [["Deref", "Closure", "InnerBlock", "Call"]]))
  rw [Bool.and_eq_true, Bool.and_eq_true, List.all_eq_true] at hcheck
  obtain ⟨⟨hfiles, hwith⟩, hwithout⟩ := hcheck
  obtain ⟨r, r', hr, hr', h⟩ := withoutSafeCalls_of_reads safeCallsDump crate {} hread hfiles
  rw [hr] at hwith
  rw [hr'] at hwithout
  exact ⟨crate, r, r', hread, hfiles, eq_of_beq hwith, eq_of_beq hwithout, hr, hr', h⟩

end CrateAudit
