import CrateAudit.Proofs.Lookup
import CrateAudit.Proofs.Steps

namespace CrateAudit

open Record Crate Steps

inductive Operation where
  | deref
  | mutStatic
  | inlineAsm
  | call (restricted foreign : Bool)

namespace Operation

def name : Operation → String
  | deref => "Deref"
  | mutStatic => "MutStatic"
  | inlineAsm => "InlineASM"
  | call _ _ => "Call"

def node {N F T : Type} (leaves : Leaves N F T) : Operation → Node N F T
  | deref => .deref
  | mutStatic => .mutStatic
  | inlineAsm => .inlineAsm
  | call restricted foreign => .call (leaves.flag restricted) (leaves.flag foreign)

end Operation

def Operation.ofCall (settings : Settings) : Option Signature → Option Operation
  | some ⟨safety, abi⟩ =>
    if safety = .restricted ∨ abi ∈ settings.foreignAbis ∨ settings.recordSafeCalls then
      some (.call (safety = .restricted) (abi ∈ settings.foreignAbis))
    else none
  | none => if settings.recordSafeCalls then some (.call false false) else none

/-- The operation of an expression, read off its data: a call, the dereference of a raw pointer,
inline assembly, or a path to a mutable static. -/
def Crate.Expr.operation? (settings : Settings) (e : Expr) : Option Operation :=
  match e.kind with
  | .call | .methodCall => Operation.ofCall settings e.signature
  | .unary =>
    match e.op, e.operandType with
    | .str "deref", .str "raw_ptr" => some .deref
    | _, _ => none
  | .inlineAsm => some .inlineAsm
  | .path =>
    match e.target with
    | some ⟨"static", true⟩ => some .mutStatic
    | _ => none
  | .block | .closure | .other => none

theorem Crate.Expr.isRawDeref_iff {e : Expr} (h : e.kind = .unary) :
    e.isRawDeref ↔ e.op = .str "deref" ∧ e.operandType = .str "raw_ptr" := by
  unfold isRawDeref
  split
  next hop htype => simp [hop, htype]
  next hnot =>
    refine iff_of_false Bool.false_ne_true ?_
    rintro ⟨hop, htype⟩
    exact hnot _ _ h hop htype

theorem Crate.Expr.isMutableStatic_iff {e : Expr} (h : e.kind = .path) :
    e.isMutableStatic ↔ e.target = some ⟨"static", true⟩ := by
  cases ht : e.target with
  | none => simp [isMutableStatic, ht]
  | some t =>
    obtain ⟨kind, mutable⟩ := t
    simp [isMutableStatic, Target.isMutableStatic, h, ht]

theorem Crate.Signature.isRestricted_eq (s : Signature) :
    s.isRestricted = decide (s.safety = .restricted) := by
  rw [isRestricted]
  cases s.safety <;> rfl

theorem Crate.Rules.isRestricted_eq (rules : Rules) (author : Author) :
    rules.isRestricted author = decide (rules ≠ .ordinary ∧ author = .user) := by
  cases rules <;> cases author <;> rfl

namespace Context

variable {N F T : Type} (c : Context N F T)

theorem flag?_call {e : Expr} (h : e.kind = .call ∨ e.kind = .methodCall) :
    c.flag? e = (Operation.ofCall c.settings e.signature).map (Operation.node c.leaves) := by
  have hflag : c.flag? e = if e.signature.any Signature.isRestricted ||
      e.signature.any c.isForeign || c.settings.recordSafeCalls then
        some (.call (c.leaves.flag (e.signature.any Signature.isRestricted))
          (c.leaves.flag (e.signature.any c.isForeign))) else none := by
    rcases h with h | h <;> simp only [flag?, h]
  rw [hflag]
  cases e.signature with
  | none =>
    simp only [Option.any_none, Bool.false_or, Operation.ofCall]
    split <;> rfl
  | some s =>
    obtain ⟨safety, abi⟩ := s
    have habi : c.isForeign ⟨safety, abi⟩ = decide (abi ∈ c.settings.foreignAbis) :=
      List.contains_eq_mem ..
    simp only [Option.any_some, Signature.isRestricted_eq, habi, Bool.or_eq_true,
      decide_eq_true_eq, or_assoc, Operation.ofCall]
    split <;> rfl

theorem flag?_eq (e : Expr) :
    c.flag? e = (e.operation? c.settings).map (Operation.node c.leaves) := by
  cases hk : e.kind with
  | call => rw [c.flag?_call (.inl hk), Expr.operation?, hk]
  | methodCall => rw [c.flag?_call (.inr hk), Expr.operation?, hk]
  | unary =>
    simp only [flag?, Expr.operation?, hk]
    by_cases h : e.op = .str "deref" ∧ e.operandType = .str "raw_ptr"
    · rw [if_pos ((Expr.isRawDeref_iff hk).mpr h), h.1, h.2]
      rfl
    · rw [if_neg fun hd => h ((Expr.isRawDeref_iff hk).mp hd)]
      split
      next hop htype => exact absurd ⟨hop, htype⟩ h
      next => rfl
  | path =>
    simp only [flag?, Expr.operation?, hk]
    by_cases h : e.target = some ⟨"static", true⟩
    · rw [if_pos ((Expr.isMutableStatic_iff hk).mpr h), h]
      rfl
    · rw [if_neg fun hd => h ((Expr.isMutableStatic_iff hk).mp hd)]
      split
      next htarget => exact absurd htarget h
      next => rfl
  | inlineAsm | block | closure | other => simp only [flag?, Expr.operation?, hk]; rfl

theorem entry_fields {c : Context N F T} {index : Nat} {item : Node N F T} {s : Span}
    {e : Entry N F T} (h : c.entry index item s = .ok e) :
    e.index = c.leaves.count index ∧ e.span = c.leaves.text s.text ∧ e.item = item := by
  unfold entry at h
  cases ht : c.excerpt s with
  | error => simp [ht, bind, Except.bind] at h
  | ok text =>
    cases ho : c.source.origin c.settings s with
    | error => simp [ht, ho, bind, Except.bind] at h
    | ok o =>
      simp only [ht, ho, bind, Except.bind, pure, Except.pure, Except.ok.injEq] at h
      subst h
      exact ⟨rfl, rfl, rfl⟩

theorem mark_fields (index : Nat) (item : Node N F T) (s : Span) :
    (c.mark index item s).index = c.leaves.count index ∧
    (c.mark index item s).span = c.leaves.text s.text ∧
      (c.mark index item s).item = item := by
  unfold mark
  split
  · next h => exact entry_fields h
  · exact ⟨rfl, rfl, rfl⟩

@[simp] theorem mark_index (index : Nat) (item : Node N F T) (s : Span) :
    (c.mark index item s).index = c.leaves.count index :=
  (c.mark_fields index item s).1

@[simp] theorem mark_item (index : Nat) (item : Node N F T) (s : Span) :
    (c.mark index item s).item = item :=
  (c.mark_fields index item s).2.2

theorem body?_flag {e : Expr} {item : Node N F T} (h : c.flag? e = some item) :
    item.body? = none := by
  rw [flag?_eq] at h
  obtain ⟨o, -, rfl⟩ := Option.map_eq_some_iff.mp h
  cases o <;> rfl

mutual

/-- The record of a block, by recursion alone. The trailing expression counts as one more
statement. -/
def collect : Crate.Block → Record.Block N F T
  | ⟨stmts, value, rules, author, _⟩ =>
    ⟨c.leaves.count (stmts.length + value.toList.length),
      c.leaves.flag (rules ≠ .ordinary ∧ author = .user),
      collectStmts 0 stmts ++ collectOptional stmts.length value⟩

def collectStmts (k : Nat) : List Stmt → List (Entry N F T)
  | [] => []
  | s :: stmts => collectStmt k s ++ collectStmts (k + 1) stmts

def collectStmt (k : Nat) : Stmt → List (Entry N F T)
  | .item _ _ => []
  | .plain _ _ e => collectOptional k e

def collectOptional (k : Nat) : Option Expr → List (Entry N F T)
  | none => []
  | some e => collectExpr k e

/-- An expression's own flag comes before what is flagged in its operands. -/
def collectExpr (k : Nat) : Expr → List (Entry N F T)
  | ⟨kind, span, operands, tag, op, signature, operandType, target⟩ =>
    ((Expr.operation? c.settings
        ⟨kind, span, operands, tag, op, signature, operandType, target⟩).toList.map fun o =>
      c.mark k (o.node c.leaves) span) ++
      if kind = .closure then collectClosure k span operands else collectOperands k operands

def collectClosure (k : Nat) (span : Span) : List Operand → List (Entry N F T)
  | [] => []
  | .expr _ :: operands => collectClosure k span operands
  | .block body :: _ => [c.mark k (.closure (collect body)) span]

def collectOperands (k : Nat) : List Operand → List (Entry N F T)
  | [] => []
  | .expr e :: operands => collectExpr k e ++ collectOperands k operands
  | .block ⟨stmts, value, rules, author, span⟩ :: operands =>
    c.mark k (.inner (collect ⟨stmts, value, rules, author, span⟩)) span ::
      collectOperands k operands

end

theorem collectExpr_eq (k : Nat) (e : Expr) :
    c.collectExpr k e = ((c.flag? e).toList.map fun item => c.mark k item e.span) ++
      if e.kind = .closure then c.collectClosure k e.span e.operands
      else c.collectOperands k e.operands := by
  cases e
  rw [collectExpr, flag?_eq, Option.toList_map, List.map_map]
  rfl

/-- The spans that are looked up for what a walk meets: those of blocks, of what is flagged, and of
closures. -/
def lookups (visits : List Visit) : List Span :=
  visits.flatMap fun
    | .block b => [b.span]
    | .expr e => if (e.operation? c.settings).isSome ∨ e.kind = .closure then [e.span] else []
    | _ => []

theorem lookups_expr (e : Expr) (visits : List Visit) :
    c.lookups (.expr e :: visits) =
      (if (c.flag? e).isSome ∨ e.kind = .closure then [e.span] else []) ++ c.lookups visits := by
  rw [flag?_eq, Option.isSome_map]
  rfl

@[simp] theorem lookups_append (visits visits' : List Visit) :
    c.lookups (visits ++ visits') = c.lookups visits ++ c.lookups visits' :=
  List.flatMap_append

end Context

def Crate.declared (visits : List Visit) : List Item :=
  visits.filterMap fun
    | .nested i => some i
    | _ => none

@[simp] theorem Crate.declared_append (visits visits' : List Visit) :
    declared (visits ++ visits') = declared visits ++ declared visits' :=
  List.filterMap_append

/-- The collector once `n` statements are passed, with more entries in the block at hand. -/
def Collector.after {N F T : Type} (s : Collector N F T) (n : Nat) (entries : List (Entry N F T))
    (items : List Item) (notes : List Log.Entry) : Collector N F T where
  scope := ⟨⟨s.scope.current.index + n, s.scope.current.contents ++ entries⟩, s.scope.saved⟩
  functions := s.functions
  waiting := s.waiting ++ items
  log := s.log ++ notes

namespace Collect

variable {N F T α β : Type} (c : Context N F T)

/-- A step of collecting that has the same effect wherever it starts: it passes `n` statements,
flags `entries` at the statement it starts at, lets `items` wait and looks up `spans`. The blocks
around stay as they are. -/
def Yields (p : Collect N F T α) (a : α) (n : Nat) (entries : Nat → List (Entry N F T))
    (items : List Item) (spans : List Span) : Prop :=
  ∀ s, Ends (∀ t ∈ spans, c.CanRecord t) (.source .unusableFile)
    (fun b s' => b = a ∧ ∃ notes, s' = s.after n (entries s.scope.current.index) items notes)
      (p.run.run s)

variable {c} {p : Collect N F T α} {q : α → Collect N F T β} {a : α} {b : β} {n m : Nat}
  {f g : Nat → List (Entry N F T)} {items items' : List Item} {spans spans' : List Span}

theorem Yields.pure (a : α) : Yields c (pure a) a 0 (fun _ => []) [] [] := by
  intro s
  refine .ok (by simp) ⟨rfl, [], ?_⟩
  simp [Collector.after]

theorem Yields.bind (hp : Yields c p a n f items spans) (hq : Yields c (q a) b m g items' spans') :
    Yields c (p >>= q) b (n + m) (fun k => f k ++ g (k + n)) (items ++ items')
      (spans ++ spans') := by
  intro s
  -- the index at which `q a` starts is the one that `p` has come to
  have hnext : ∀ x s', (x = a ∧ ∃ notes, s' = s.after n (f s.scope.current.index) items notes) →
      Ends (∀ t ∈ spans', c.CanRecord t) (.source .unusableFile)
        (fun y s'' => y = b ∧ ∃ notes, s'' = s.after (n + m)
          (f s.scope.current.index ++ g (s.scope.current.index + n)) (items ++ items') notes)
        ((q x).run.run s') := by
    rintro _ _ ⟨rfl, notes, rfl⟩
    refine (hq _).mono ?_
    rintro _ _ ⟨rfl, notes', rfl⟩
    exact ⟨rfl, notes ++ notes', by simp [Collector.after, Nat.add_assoc]⟩
  refine ((hp s).bind hnext).congr ?_
  simp only [List.mem_append, or_imp, forall_and]

theorem Yields.seq {q : Collect N F T β} (hp : Yields c p a n f items spans)
    (hq : Yields c q b m g items' spans') :
    Yields c (p >>= fun _ => q) b (n + m) (fun k => f k ++ g (k + n)) (items ++ items')
      (spans ++ spans') :=
  hp.bind hq

theorem Yields.congr (hp : Yields c p a n f items spans) (hn : n = m) (hf : ∀ k, f k = g k)
    (hitems : items = items') (hspans : ∀ t, t ∈ spans ↔ t ∈ spans') :
    Yields c p a m g items' spans' := by
  subst hn hitems
  obtain rfl : f = g := funext hf
  intro s
  exact (hp s).congr (by simp only [hspans])

theorem run_record (item : Node N F T) (span : Span) (s : Collector N F T) :
    (discard (record c item span)).run.run s =
      match c.entry s.scope.current.index item span with
      | .ok e => (.ok ⟨⟩, { s with scope := s.scope.add e, log := s.log ++ c.entryNotes span })
      | .error e => (.error (.source e), { s with log := s.log ++ c.entryNotes span }) := by
  change ((discard (match c.entry s.scope.current.index item span with
    | .ok e => (onScope (Scope.add e) >>= fun _ => pure e)
    | .error e => throw (.source e)) : Collect N F T PUnit).run.run
      { s with log := s.log ++ c.entryNotes span }) = _
  cases c.entry s.scope.current.index item span <;> rfl

theorem record_yields (item : Node N F T) (span : Span) :
    Yields c (discard (record c item span)) ⟨⟩ 0 (fun k => [c.mark k item span]) [] [span] := by
  intro s
  rw [run_record]
  by_cases h : c.CanRecord span
  · rw [Context.entry_of_canRecord h]
    exact .ok (by simpa using h) ⟨rfl, c.entryNotes span, by simp [Collector.after, Scope.add]⟩
  · rw [Context.entry_of_not_canRecord h]
    exact .error (by simpa using h)

theorem endStatement_yields : Yields c endStatement ⟨⟩ 1 (fun _ => []) [] [] := by
  intro s
  exact .ok (by simp) ⟨rfl, [], by simp [Collector.after, Scope.endStatement]⟩

theorem wait_yields (i : Item) :
    Yields c (modify fun b => { b with waiting := b.waiting ++ [i] }) ⟨⟩ 0 (fun _ => [])
      [i] [] := by
  intro s
  exact .ok (by simp) ⟨rfl, [], by simp [Collector.after]⟩

/-- What leaves a frame when it has passed `n` statements and holds `entries`: it gives `b` and goes
back to the frame around. -/
def Restores (leave : Collect N F T β) (b : β) (n : Nat) (entries : List (Entry N F T)) : Prop :=
  ∀ (s : Collector N F T) (frame : Frame N F T) (saved : List (Frame N F T)),
    s.scope = ⟨⟨n, entries⟩, frame :: saved⟩ →
    leave.run.run s = (.ok b, { s with scope := ⟨frame, saved⟩ })

/-- A frame around a step leaves nothing behind in the block around it, whatever is made of what the
step gave. -/
theorem frame_bind_yields (hp : Yields c p a n f items spans) (hq : Restores (q a) b n (f 0)) :
    Yields c (enter >>= fun _ => p >>= q) b 0 (fun _ => []) items spans := by
  intro s
  change Ends _ _ _ ((p >>= q).run.run { s with scope := s.scope.enter })
  refine (hp _).bind_ok ?_
  rintro _ _ ⟨rfl, notes, rfl⟩
  -- `p` has run from an empty frame, which is what is left now
  have hscope : (Collector.after { s with scope := s.scope.enter } n (f 0) items notes).scope =
      ⟨⟨n, f 0⟩, s.scope.current :: s.scope.saved⟩ := by
    simp [Collector.after, Scope.enter]
  exact ⟨b, _, hq _ _ _ hscope, rfl, notes, by simp [Collector.after]⟩

theorem frame_yields {leave : Collect N F T β} (hp : Yields c p a n f items spans)
    (hl : Restores leave b n (f 0)) :
    Yields c (enter >>= fun _ => p >>= fun _ => leave) b 0 (fun _ => []) items spans :=
  frame_bind_yields (q := fun _ => leave) hp hl

theorem exitBlock_restores (restricted : F) (n : Nat) (entries : List (Entry N F T)) :
    Restores (exitBlock c restricted) ⟨c.leaves.count n, restricted, entries⟩ n entries := by
  rintro ⟨_, functions, waiting, log⟩ frame saved rfl
  rfl

theorem exitFn_restores (place : String) (n : Nat) {e : Entry N F T} {body : Record.Block N F T}
    (h : e.item = .inner body) : Restores (exitFn place) body n [e] := by
  rcases e with ⟨index, span, snippet, origin, item⟩
  change item = _ at h
  subst h
  rintro ⟨_, functions, waiting, log⟩ frame saved rfl
  rfl

theorem Yields.flagged {p : Collect N F T (Record.Block N F T)} {block : Record.Block N F T}
    (hp : Yields c p block 0 (fun _ => []) items spans) (node : Record.Block N F T → Node N F T)
    (span : Span) :
    Yields c (p >>= fun x => discard (record c (node x) span)) ⟨⟩ 0
      (fun k => [c.mark k (node block) span]) items
      (spans ++ [span]) := by
  refine (hp.bind (q := fun x => discard (record c (node x) span))
      (record_yields (node block) span)).congr rfl ?_
    (List.append_nil _) fun _ => Iff.rfl
  intro k
  rfl

theorem body_yields {body : Record.Block N F T} {span : Span} (place : String)
    (hp : Yields c p a 0 (fun k => [c.mark k (.inner body) span]) items spans) :
    Yields c (enter >>= fun _ => p >>= fun _ => exitFn place) body 0 (fun _ => []) items spans :=
  frame_yields hp (exitFn_restores place 0 (c.mark_item 0 _ span))

theorem Yields.afterFlag {q : Collect N F T β} (hq : Yields c q b n g items spans) (e : Expr) :
    Yields c (match c.flag? e with
      | some item => discard (record c item e.span) >>= fun _ => q
      | none => q) b n (fun k =>
        ((c.flag? e).toList.map fun item => c.mark k item e.span) ++ g k) items
      ((if (c.flag? e).isSome then [e.span] else []) ++ spans) := by
  cases c.flag? e with
  | none => exact hq
  | some item =>
    refine ((record_yields item e.span).seq hq).congr (Nat.zero_add n) ?_ (List.nil_append _)
      fun _ => Iff.rfl
    intro k
    rfl

/-- No closure is met that has no block to run. -/
def Bodied (visits : List Visit) : Prop :=
  ∀ e, .expr e ∈ visits → e.kind = .closure → e.body?.isSome

theorem bodied_append {visits visits' : List Visit} :
    Bodied (visits ++ visits') ↔ Bodied visits ∧ Bodied visits' := by
  simp only [Bodied, List.mem_append, or_imp, forall_and]

mutual

/-- Collecting a block flags it with the record that recursion gives, whatever is around it. -/
theorem visitBlock_yields : ∀ b : Crate.Block, Bodied b.walk →
    Yields c (visitBlock c b) ⟨⟩ 0 (fun k => [c.mark k (.inner (c.collect b)) b.span])
      (declared b.walk)
      (c.lookups b.walk)
  | ⟨stmts, value, rules, author, span⟩, h => by
    have hw : Bodied (walkStmts stmts) ∧ Bodied (walkOptional value) := by
      rw [← bodied_append]
      intro e he
      exact h e (by rw [Crate.Block.walk]; exact List.mem_cons_of_mem _ he)
    have hinside := (visitStmts_yields stmts hw.1).seq (visitValue_yields value hw.2)
    have hframe := frame_yields hinside
      (exitBlock_restores (c := c) (c.leaves.flag (rules.isRestricted author)) _ _)
    -- what is inside the frame is one step, and so is the frame with its exit
    have hassoc : visitBlock c ⟨stmts, value, rules, author, span⟩ =
        (enter >>= fun _ => (visitStmts c stmts >>= fun _ => visitValue c value) >>= fun _ =>
          exitBlock c (c.leaves.flag (rules.isRestricted author))) >>= fun x =>
            discard (record c (.inner x) span) := by
      rw [visitBlock]
      simp only [bind_assoc]
    rw [hassoc, Crate.Block.walk, Context.collect, ← Rules.isRestricted_eq]
    refine (hframe.flagged .inner span).congr rfl ?_ ?_ ?_
    · intro k
      rw [Nat.zero_add]
    · rw [← declared_append]
      rfl
    · -- the walk meets the block before its contents, the visit looks it up after them
      intro t
      rw [← c.lookups_append]
      exact List.mem_append.trans (Or.comm.trans List.mem_append.symm)

theorem visitStmts_yields : ∀ stmts : List Stmt, Bodied (walkStmts stmts) →
    Yields c (visitStmts c stmts) ⟨⟩ stmts.length (fun k => c.collectStmts k stmts)
      (declared (walkStmts stmts))
      (c.lookups (walkStmts stmts))
  | [], _ => Yields.pure ()
  | s :: stmts, h => by
    rw [walkStmts, bodied_append] at h
    rw [visitStmts, walkStmts, declared_append, c.lookups_append]
    refine ((visitStmt_yields s h.1).seq (visitStmts_yields stmts h.2)).congr ?_ ?_ rfl
      fun _ => Iff.rfl
    · rw [List.length_cons, Nat.add_comm]
    · intro k
      rw [Context.collectStmts]

theorem visitStmt_yields : ∀ s : Stmt, Bodied s.walk →
    Yields c (visitStmt c s) ⟨⟩ 1 (fun k => c.collectStmt k s) (declared s.walk) (c.lookups s.walk)
  | .item _ i, _ => by
    rw [visitStmt]
    exact (wait_yields i).seq endStatement_yields
  | .plain _ _ e, h => by
    have he : Bodied (walkOptional e) :=
      fun x hx => h x (by rw [Stmt.walk]; exact List.mem_cons_of_mem _ hx)
    rw [visitStmt]
    refine ((visitOptional_yields e he).seq endStatement_yields).congr rfl ?_ ?_ ?_
    · intro k
      rw [Context.collectStmt, List.append_nil]
    · rw [List.append_nil, Stmt.walk]
      rfl
    · rw [List.append_nil, Stmt.walk]
      exact fun _ => Iff.rfl

theorem visitOptional_yields : ∀ e : Option Expr, Bodied (walkOptional e) →
    Yields c (visitOptional c e) ⟨⟩ 0 (fun k => c.collectOptional k e) (declared (walkOptional e))
      (c.lookups (walkOptional e))
  | none, _ => Yields.pure ()
  | some e, h => by
    rw [walkOptional] at h
    rw [visitOptional, walkOptional]
    refine (visitExpr_yields e h).congr rfl ?_ rfl fun _ => Iff.rfl
    intro k
    rw [Context.collectOptional]

theorem visitValue_yields : ∀ e : Option Expr, Bodied (walkOptional e) →
    Yields c (visitValue c e) ⟨⟩ e.toList.length (fun k => c.collectOptional k e)
      (declared (walkOptional e))
      (c.lookups (walkOptional e))
  | none, _ => Yields.pure ()
  | some e, h => by
    rw [walkOptional] at h
    rw [visitValue, walkOptional]
    refine ((visitExpr_yields e h).seq endStatement_yields).congr rfl ?_ (List.append_nil _) ?_
    · intro k
      rw [Context.collectOptional, List.append_nil]
    · rw [List.append_nil]
      exact fun _ => Iff.rfl

theorem visitExpr_yields : ∀ e : Expr, Bodied e.walk →
    Yields c (visitExpr c e) ⟨⟩ 0 (fun k => c.collectExpr k e) (declared e.walk) (c.lookups e.walk)
  | ⟨kind, span, operands, tag, op, signature, operandType, target⟩, h => by
    rw [Expr.walk] at h ⊢
    rw [visitExpr]
    have hrest := fun x hx => h x (List.mem_cons_of_mem _ hx)
    by_cases hk : kind = .closure
    · -- the span of a closure is looked up for its body, flagged or not
      subst hk
      have hb := Expr.isSome_body?_iff.mp (h _ (List.mem_cons_self ..) rfl)
      simp only [if_true] at hrest ⊢
      rw [c.lookups_expr, if_pos (Or.inr rfl)]
      refine ((visitClosure_yields span operands
          (fun x hx => hrest x (List.mem_cons_of_mem _ hx)) hb).afterFlag
        ⟨.closure, span, operands, tag, op, signature, operandType, target⟩).congr rfl ?_ rfl ?_
      · intro k
        rw [Context.collectExpr_eq, if_pos rfl]
      · intro t
        change t ∈ c.lookups (walkBody operands) ++ [span] ↔
          t ∈ span :: c.lookups (walkBody operands)
        rw [List.mem_append, List.mem_singleton, List.mem_cons, or_comm]
    · simp only [if_neg hk] at hrest ⊢
      rw [c.lookups_expr]
      refine ((visitOperands_yields operands hrest).afterFlag
        ⟨kind, span, operands, tag, op, signature, operandType, target⟩).congr rfl ?_ rfl ?_
      · intro k
        rw [Context.collectExpr_eq, if_neg hk]
      · simp only [hk, or_false, implies_true]

theorem visitClosure_yields (span : Span) : ∀ operands : List Operand, Bodied (walkBody operands) →
    (∃ b, .block b ∈ operands) →
    Yields c (visitClosure c span operands) ⟨⟩ 0 (fun k => c.collectClosure k span operands)
      (declared (walkBody operands)) (c.lookups (walkBody operands) ++ [span])
  | [], _, hb => by simp at hb
  | .expr e :: operands, h, hb => by
    rw [walkBody] at h
    rw [visitClosure, walkBody]
    refine (visitClosure_yields span operands h (by simpa using hb)).congr rfl ?_ rfl
      fun _ => Iff.rfl
    intro k
    rw [Context.collectClosure]
  | .block b :: operands, h, _ => by
    rw [walkBody] at h
    have hassoc : visitClosure c span (.block b :: operands) =
        (enter >>= fun _ => visitBlock c b >>= fun _ => exitFn span.text) >>= fun x =>
          discard (record c (.closure x) span) := by
      rw [visitClosure]
      simp only [bind_assoc]
    rw [hassoc, walkBody]
    refine ((body_yields span.text (visitBlock_yields b h)).flagged .closure span).congr rfl ?_ rfl
      fun _ => Iff.rfl
    intro k
    rw [Context.collectClosure]

theorem visitOperands_yields : ∀ operands : List Operand, Bodied (walkOperands operands) →
    Yields c (visitOperands c operands) ⟨⟩ 0 (fun k => c.collectOperands k operands)
      (declared (walkOperands operands)) (c.lookups (walkOperands operands))
  | [], _ => Yields.pure ()
  | .expr e :: operands, h => by
    rw [walkOperands, bodied_append] at h
    rw [visitOperands, walkOperands, declared_append, c.lookups_append]
    refine ((visitExpr_yields e h.1).seq (visitOperands_yields operands h.2)).congr rfl ?_ rfl
      fun _ => Iff.rfl
    intro k
    rw [Context.collectOperands]
    rfl
  | .block b :: operands, h => by
    rw [walkOperands, bodied_append] at h
    rw [visitOperands, walkOperands, declared_append, c.lookups_append]
    refine ((visitBlock_yields b h.1).seq (visitOperands_yields operands h.2)).congr rfl ?_ rfl
      fun _ => Iff.rfl
    intro k
    cases b
    rw [Context.collectOperands]
    rfl

end

theorem bodied_walk {b : Crate.Block} (h : ∀ p ∈ b.parts, p.runs) : Bodied b.walk := by
  intro e he hk
  have hp := h (.expr e) (b.parts_of_mem_walk he (List.mem_singleton_self _))
  simpa [Part.runs, hk] using hp

theorem lookups_subset {b : Crate.Block} {t : Span} (h : t ∈ c.lookups b.walk) :
    ∃ p ∈ b.parts, p.span = t := by
  obtain ⟨v, hv, ht⟩ := List.mem_flatMap.mp h
  have hp := b.parts_of_mem_walk hv
  cases v with
  | block d => exact ⟨.block d, hp (List.mem_singleton_self _), (List.mem_singleton.mp ht).symm⟩
  | expr e =>
    refine ⟨.expr e, hp (List.mem_singleton_self _), ?_⟩
    change t ∈ if (e.operation? c.settings).isSome ∨ e.kind = .closure then [e.span] else [] at ht
    split at ht
    · exact (List.mem_singleton.mp ht).symm
    · cases ht
  | item | nested | fn | stmt => cases ht

/-- From any scope, collecting a block ends well and does one thing to the scope: it flags the
record that recursion alone gives, at the current statement. That the file of each span is a text is
the type that spans are declared with; a dump may give any value there. -/
theorem visitBlock_flags_collected (c : Context N F T) (b : Crate.Block)
    (hbody : ∀ p ∈ b.parts, p.runs)
    (htext : ∀ p ∈ b.parts, ∀ t ∈ c.source.sites p.span, t.hasTextFile) (index : Nat)
    (contents : List (Entry N F T)) (saved : List (Frame N F T)) (functions : List (Function N F T))
    (waiting : List Item) (log : List Log.Entry) :
    ∃ e notes, c.entry index (.inner (c.collect b)) b.span = .ok e ∧
      (visitBlock c b).run.run ⟨⟨⟨index, contents⟩, saved⟩, functions, waiting, log⟩ =
        (.ok (), ⟨⟨⟨index, contents ++ [e]⟩, saved⟩, functions, waiting ++ declared b.walk,
          log ++ notes⟩) := by
  have hcan : ∀ p ∈ b.parts, c.CanRecord p.span :=
    fun p hp => Context.canRecord_of_hasTextFile (htext p hp)
  have hspans : ∀ t ∈ c.lookups b.walk, c.CanRecord t := by
    intro t ht
    obtain ⟨p, hp, rfl⟩ := lookups_subset ht
    exact hcan p hp
  have hends :=
    visitBlock_yields (c := c) b (bodied_walk hbody) ⟨⟨⟨index, contents⟩, saved⟩, functions,
      waiting, log⟩
  obtain ⟨_, _, hrun, rfl, notes, rfl⟩ := hends.eq_ok hspans
  refine ⟨c.mark index (.inner (c.collect b)) b.span, notes, ?_, hrun⟩
  exact Context.entry_of_canRecord (hcan (.block b) b.mem_parts) ..

/-- `{ || { *p }; *p }` in a file without text. -/
def derefTwice : Crate.Block :=
  let place (line : Int) : Span := ⟨.str "a.rs", line, 1, line, 9, none⟩
  let deref (line : Int) : Expr :=
    ⟨.unary, place line, [], "unary", .str "deref", none, .str "raw_ptr", none⟩
  let body : Crate.Block := ⟨[], some (deref 2), .ordinary, .user, place 2⟩
  ⟨[.plain .discard (place 2)
      (some ⟨.closure, place 2, [.block body], "closure", .null, none, .null, none⟩)],
    some (deref 3), .ordinary, .user, place 1⟩

def bare : Context Nat Bool String :=
  ⟨⟨[], []⟩, {}, .exact⟩

theorem visitBlock_flags_derefTwice :
    (∀ p ∈ derefTwice.parts, p.runs) ∧
      (∀ p ∈ derefTwice.parts, ∀ t ∈ bare.source.sites p.span, t.hasTextFile) ∧
      (bare.collect derefTwice).size = 2 ∧
      (bare.collect derefTwice).contents.map Entry.index = [0, 1] ∧
      ∃ e notes, bare.entry 4 (.inner (bare.collect derefTwice)) derefTwice.span = .ok e ∧
        (visitBlock bare derefTwice).run.run ⟨⟨⟨4, []⟩, []⟩, [], [], []⟩ =
          (.ok (), ⟨⟨⟨4, [e]⟩, []⟩, [], declared derefTwice.walk, notes⟩) :=
  ⟨by decide, by decide, by decide, by decide,
    visitBlock_flags_collected bare derefTwice (by decide) (by decide) 4 [] [] [] [] []⟩

end Collect

end CrateAudit
