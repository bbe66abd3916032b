import CrateAudit.Proofs.Revised

namespace CrateAudit

open Record Crate Steps

namespace Steps

variable {ε σ α β γ δ : Type}

/-- Two runs that both end well, with results that `R` relates and states that `A` relates, or both
fail. Unless `u` holds, one may also fail without the other. -/
inductive Agree (u : Prop) (A : σ → σ → Prop) (R : α → β → Prop) :
    Except ε α × σ → Except ε β × σ → Prop where
  | ok {a : α} {b : β} {s s' : σ} (hR : R a b) (hA : A s s') : Agree u A R (.ok a, s) (.ok b, s')
  | error {e e' : ε} {s s' : σ} : Agree u A R (.error e, s) (.error e', s')
  | first {e : ε} {s : σ} {r : Except ε β × σ} (h : ¬u) : Agree u A R (.error e, s) r
  | second {e : ε} {s : σ} {r : Except ε α × σ} (h : ¬u) : Agree u A R r (.error e, s)

/-- Two programs whose runs agree wherever they start from related states. -/
def Lockstep (u : Prop) (A : σ → σ → Prop) (R : α → β → Prop) (p : ExceptT ε (StateM σ) α)
    (q : ExceptT ε (StateM σ) β) : Prop :=
  ∀ s s', A s s' → Agree u A R (p.run.run s) (q.run.run s')

namespace Lockstep

variable {u : Prop} {A : σ → σ → Prop} {R : α → β → Prop} {Q : γ → δ → Prop}

theorem bind {p : ExceptT ε (StateM σ) α} {q : ExceptT ε (StateM σ) β}
    {f : α → ExceptT ε (StateM σ) γ} {g : β → ExceptT ε (StateM σ) δ} (hp : Lockstep u A R p q)
    (hf : ∀ a b, R a b → Lockstep u A Q (f a) (g b)) :
    Lockstep u A Q (p >>= f) (q >>= g) := by
  intro s s' hs
  have h := hp s s' hs
  rw [run_bind, run_bind]
  generalize p.run.run s = r at h
  generalize q.run.run s' = r' at h
  cases h with
  | ok hR hA => exact hf _ _ hR _ _ hA
  | error => exact .error
  | first hu => exact .first hu
  | second hu => exact .second hu

theorem seq {p : ExceptT ε (StateM σ) α} {q : ExceptT ε (StateM σ) β} {f : ExceptT ε (StateM σ) γ}
    {g : ExceptT ε (StateM σ) δ} (hp : Lockstep u A R p q) (hf : Lockstep u A Q f g) :
    Lockstep u A Q (p >>= fun _ => f) (q >>= fun _ => g) :=
  hp.bind fun _ _ _ => hf

theorem pure {a : α} {b : β} (h : R a b) :
    Lockstep u A R (Pure.pure a : ExceptT ε (StateM σ) α) (Pure.pure b : ExceptT ε (StateM σ) β) :=
  fun _ _ hs => .ok h hs

theorem throw (e e' : ε) :
    Lockstep u A R (throwThe ε e : ExceptT ε (StateM σ) α)
      (throwThe ε e' : ExceptT ε (StateM σ) β) :=
  fun _ _ _ => .error

theorem get_bind {f : σ → ExceptT ε (StateM σ) α} {g : σ → ExceptT ε (StateM σ) β}
    (h : ∀ s s', A s s' → Agree u A R ((f s).run.run s) ((g s').run.run s')) :
    Lockstep u A R (get >>= f) (get >>= g) :=
  h

theorem modify {f g : σ → σ} (h : ∀ s s', A s s' → A (f s) (g s')) :
    Lockstep u A (fun _ _ => True) (modifyGet fun s => ((), f s) : ExceptT ε (StateM σ) Unit)
      (modifyGet fun s => ((), g s)) :=
  fun s s' hs => .ok trivial (h s s' hs)

end Lockstep

end Steps

namespace Record

variable {N F : Type}

/-- An entry that says nothing of the source text at its place. -/
def Entry.blank (e : Entry N F String) : Entry N F String :=
  { e with snippet := "", origin := .notMacro }

def Node.erased (n : Node N F String) : Node N F String :=
  n.revise fun e => some e.blank

def Block.erased (b : Block N F String) : Block N F String :=
  b.revise fun e => some e.blank

def Entry.erased (e : Entry N F String) : Entry N F String :=
  (e.reviseItem fun e => some e.blank).blank

def Function.erased (f : Function N F String) : Function N F String :=
  { f with origin := .notMacro, block := f.block.erased }

/-- A record without the snippets and origins, at any depth. -/
def erased (r : Record N F String) : Record N F String :=
  { r with functions := r.functions.map Function.erased }

theorem reviseEntries_blank (entries : List (Entry N F String)) :
    reviseEntries (fun e => some e.blank) entries = entries.map Entry.erased := by
  induction entries with
  | nil => rw [reviseEntries, List.map_nil]
  | cons e entries ih =>
    rw [reviseEntries_cons, ih, List.map_cons, Option.toList_some, List.singleton_append,
      Entry.erased]

theorem Block.erased_mk (size : N) (restricted : F) (contents : List (Entry N F String)) :
    Block.erased ⟨size, restricted, contents⟩ = ⟨size, restricted, contents.map Entry.erased⟩ := by
  rw [Block.erased, Block.revise, reviseEntries_blank]

end Record

section

variable {N F : Type}

def Frame.erased (f : Frame N F String) : Frame N F String :=
  ⟨f.index, f.contents.map Entry.erased⟩

def Scope.erased (s : Scope N F String) : Scope N F String :=
  ⟨s.current.erased, s.saved.map Frame.erased⟩

theorem Scope.erased_add (e : Entry N F String) (s : Scope N F String) :
    (s.add e).erased = s.erased.add e.erased := by
  simp [Scope.erased, Scope.add, Frame.erased]

theorem Scope.depth_erased (s : Scope N F String) : s.erased.depth = s.depth := by
  simp [Scope.erased, Scope.depth]

theorem Scope.exitBlock_erased (leaves : Leaves N F String) (restricted : F)
    (s : Scope N F String) :
    s.erased.exitBlock leaves restricted =
      (s.exitBlock leaves restricted).map fun x => (x.1.erased, x.2.erased) := by
  obtain ⟨current, saved⟩ := s
  cases saved with
  | nil => rfl
  | cons frame saved =>
    simp only [Scope.erased, Scope.exitBlock, List.map_cons, Except.map, Block.erased_mk]
    rfl

theorem Scope.exitFn_erased (s : Scope N F String) :
    s.erased.exitFn.1.toOption = s.exitFn.1.toOption.map Block.erased ∧
    s.erased.exitFn.2 = s.exitFn.2.erased := by
  obtain ⟨⟨index, contents⟩, saved⟩ := s
  match contents with
  | [] => exact ⟨rfl, rfl⟩
  | _ :: _ :: _ => exact ⟨rfl, rfl⟩
  | [⟨k, span, snippet, origin, item⟩] =>
    cases item with
    | deref | mutStatic | inlineAsm | call | closure =>
      simp [Scope.erased, Frame.erased, Entry.erased, Entry.blank, Entry.reviseItem, Node.revise,
        Scope.exitFn, Except.toOption]
    | inner body =>
      cases saved with
      | nil =>
        simp [Scope.erased, Frame.erased, Entry.erased, Entry.blank, Entry.reviseItem, Node.revise,
          Scope.exitFn, Except.toOption]
      | cons frame saved =>
        simp [Scope.erased, Frame.erased, Entry.erased, Entry.blank, Entry.reviseItem, Node.revise,
          Scope.exitFn, Except.toOption, Block.erased]

end

namespace Collect

variable {N F α : Type} (c c' : Context N F String) (parts : List Part)

structure Twins : Prop where
  leaves : c.leaves = c'.leaves
  flag? : ∀ e, c.flag? e = c'.flag? e

/-- Whether both contexts can look up all that comes up in a tree. -/
def Sure : Prop :=
  ∀ p ∈ parts, c.CanRecord p.span ∧ c'.CanRecord p.span

/-- Two collectors that differ in snippets, origins and logs only. What waits in them is in the
tree. -/
structure Alike (s s' : Collector N F String) : Prop where
  scope : s.scope.erased = s'.scope.erased
  functions : s.functions.map Function.erased = s'.functions.map Function.erased
  waiting : s.waiting = s'.waiting
  within : partsOfItems s.waiting ⊆ parts

/-- Two steps of collecting that do the same but for snippets, origins and logs, with results that
`R` relates. -/
abbrev Pace (p q : Collect N F String α) (R : α → α → Prop := fun _ _ => True) : Prop :=
  Lockstep (Sure c c' parts) (Alike parts) R p q

variable {c c' parts}

theorem erased_mark (c : Context N F String) (k : Nat) (item : Node N F String) (s : Span) :
    (c.mark k item s).erased =
      ⟨c.leaves.count k, c.leaves.text s.text, "", .notMacro, item.erased⟩ := by
  obtain ⟨hindex, hspan, hitem⟩ := c.mark_fields k item s
  simp only [Entry.erased, Entry.blank, Entry.reviseItem, Node.erased, hindex, hspan, hitem]

theorem Alike.depth {s s' : Collector N F String} (h : Alike parts s s') :
    s.scope.depth = s'.scope.depth := by
  rw [← s.scope.depth_erased, h.scope, s'.scope.depth_erased]

theorem enter_paces : Pace c c' parts enter enter := by
  apply Lockstep.modify
  intro s s' h
  have hscope : s.scope.enter.erased = s'.scope.enter.erased := congrArg Scope.enter h.scope
  exact ⟨hscope, h.functions, h.waiting, h.within⟩

theorem endStatement_paces : Pace c c' parts endStatement endStatement := by
  apply Lockstep.modify
  intro s s' h
  have hscope : s.scope.endStatement.erased = s'.scope.endStatement.erased :=
    congrArg Scope.endStatement h.scope
  exact ⟨hscope, h.functions, h.waiting, h.within⟩

theorem wait_paces {i : Item} (hi : i.parts ⊆ parts) :
    Pace c c' parts (modify fun b => { b with waiting := b.waiting ++ [i] })
      (modify fun b => { b with waiting := b.waiting ++ [i] }) := by
  apply Lockstep.modify
  intro s s' h
  have hwaiting : s.waiting ++ [i] = s'.waiting ++ [i] := by rw [h.waiting]
  have hwithin : partsOfItems (s.waiting ++ [i]) ⊆ parts := by
    rw [partsOfItems_append, List.append_subset, partsOfItems, partsOfItems, List.append_nil]
    exact ⟨h.within, hi⟩
  exact ⟨h.scope, h.functions, hwaiting, hwithin⟩

theorem Alike.index {s s' : Collector N F String} (h : Alike parts s s') :
    s.scope.current.index = s'.scope.current.index :=
  congrArg (·.current.index) h.scope

/-- Looking up the source text cannot change what is flagged, nor where. -/
theorem record_paces (hc : c.leaves = c'.leaves) {item item' : Node N F String}
    (hitem : item.erased = item'.erased) {p : Part} (hp : p ∈ parts) {span : Span}
    (hspan : p.span = span) :
    Pace c c' parts (discard (record c item span)) (discard (record c' item' span)) := by
  subst hspan
  intro s s' h
  rw [run_record, run_record]
  by_cases hcan : c.CanRecord p.span
  · by_cases hcan' : c'.CanRecord p.span
    · rw [Context.entry_of_canRecord hcan, Context.entry_of_canRecord hcan']
      -- what was looked up is in the snippet and the origin, which are blank now
      have hmark : (c.mark s.scope.current.index item p.span).erased =
          (c'.mark s'.scope.current.index item' p.span).erased := by
        rw [erased_mark, erased_mark, hc, hitem, h.index]
      refine .ok trivial ⟨?_, h.functions, h.waiting, h.within⟩
      rw [Scope.erased_add, Scope.erased_add, h.scope, hmark]
    · rw [Context.entry_of_not_canRecord hcan']
      exact .second fun hsure => hcan' (hsure p hp).2
  · rw [Context.entry_of_not_canRecord hcan]
    exact .first fun hsure => hcan (hsure p hp).1

abbrev SameBlock (b b' : Record.Block N F String) : Prop :=
  b.erased = b'.erased

theorem exitBlock_paces (hc : c.leaves = c'.leaves) (restricted : F) :
    Pace c c' parts (exitBlock c restricted) (exitBlock c' restricted) SameBlock := by
  apply Lockstep.get_bind
  intro s s' h
  have hexit := congrArg (Scope.exitBlock c.leaves restricted) h.scope
  rw [Scope.exitBlock_erased, Scope.exitBlock_erased] at hexit
  rw [← hc]
  generalize s.scope.exitBlock c.leaves restricted = r at hexit
  generalize s'.scope.exitBlock c.leaves restricted = r' at hexit
  rcases r with v | ⟨block, scope⟩ <;> rcases r' with v' | ⟨block', scope'⟩
  · exact .error
  · cases hexit
  · cases hexit
  · simp only [Except.map, Except.ok.injEq, Prod.mk.injEq] at hexit
    exact .ok hexit.1 ⟨hexit.2, h.functions, h.waiting, h.within⟩

theorem exitFn_paces (place : String) :
    Pace c c' parts (exitFn place) (exitFn place) SameBlock := by
  apply Lockstep.get_bind
  intro s s' h
  have hexit := s.scope.exitFn_erased
  rw [h.scope, s'.scope.exitFn_erased.1, s'.scope.exitFn_erased.2] at hexit
  generalize s.scope.exitFn = r at hexit
  generalize s'.scope.exitFn = r' at hexit
  rcases r with ⟨v | block, scope⟩ <;> rcases r' with ⟨v' | block', scope'⟩
  · exact .error
  · cases hexit.1
  · cases hexit.1
  · have hblock : block'.erased = block.erased := Option.some.inj hexit.1
    exact .ok hblock.symm ⟨hexit.2.symm, h.functions, h.waiting, h.within⟩

theorem erased_inner {b b' : Record.Block N F String} (h : SameBlock b b') :
    (Node.inner b).erased = (Node.inner b').erased := by
  rw [Node.erased, Node.erased, Node.revise, Node.revise]
  exact congrArg Node.inner h

theorem erased_closure {b b' : Record.Block N F String} (h : SameBlock b b') :
    (Node.closure b).erased = (Node.closure b').erased := by
  rw [Node.erased, Node.erased, Node.revise, Node.revise]
  exact congrArg Node.closure h

mutual

theorem visitBlock_paces (h : Twins c c') : ∀ b : Crate.Block, b.parts ⊆ parts →
    Pace c c' parts (visitBlock c b) (visitBlock c' b)
  | ⟨stmts, value, rules, author, span⟩, hb => by
    rw [Block.parts, List.cons_subset] at hb
    obtain ⟨hself, hrest⟩ := hb
    obtain ⟨hstmts, hvalue⟩ := List.append_subset.mp hrest
    rw [visitBlock, visitBlock, h.leaves]
    refine enter_paces.seq
      ((visitStmts_paces h stmts hstmts).seq ((visitValue_paces h value hvalue).seq ?_))
    refine (exitBlock_paces h.leaves _).bind fun block block' hblock => ?_
    exact record_paces h.leaves (erased_inner hblock) hself rfl

theorem visitStmts_paces (h : Twins c c') : ∀ stmts : List Stmt, partsOfStmts stmts ⊆ parts →
    Pace c c' parts (visitStmts c stmts) (visitStmts c' stmts)
  | [], _ => by
    rw [visitStmts, visitStmts]
    exact .pure trivial
  | s :: stmts, hs => by
    rw [partsOfStmts, List.append_subset] at hs
    rw [visitStmts, visitStmts]
    exact (visitStmt_paces h s hs.1).seq (visitStmts_paces h stmts hs.2)

theorem visitStmt_paces (h : Twins c c') : ∀ s : Stmt, s.parts ⊆ parts →
    Pace c c' parts (visitStmt c s) (visitStmt c' s)
  | .item span i, hs => by
    rw [Stmt.parts, List.cons_subset] at hs
    rw [visitStmt, visitStmt]
    exact (wait_paces hs.2).seq endStatement_paces
  | .plain form span e, hs => by
    rw [Stmt.parts, List.cons_subset] at hs
    rw [visitStmt, visitStmt]
    exact (visitOptional_paces h e hs.2).seq endStatement_paces

theorem visitOptional_paces (h : Twins c c') : ∀ e : Option Expr, partsOfOptional e ⊆ parts →
    Pace c c' parts (visitOptional c e) (visitOptional c' e)
  | none, _ => by
    rw [visitOptional, visitOptional]
    exact .pure trivial
  | some e, he => by
    rw [partsOfOptional] at he
    rw [visitOptional, visitOptional]
    exact visitExpr_paces h e he

theorem visitValue_paces (h : Twins c c') : ∀ e : Option Expr, partsOfOptional e ⊆ parts →
    Pace c c' parts (visitValue c e) (visitValue c' e)
  | none, _ => by
    rw [visitValue, visitValue]
    exact .pure trivial
  | some e, he => by
    rw [partsOfOptional] at he
    rw [visitValue, visitValue]
    exact (visitExpr_paces h e he).seq endStatement_paces

theorem visitExpr_paces (h : Twins c c') : ∀ e : Expr, e.parts ⊆ parts →
    Pace c c' parts (visitExpr c e) (visitExpr c' e)
  | ⟨kind, span, operands, tag, op, signature, operandType, target⟩, he => by
    rw [Expr.parts, List.cons_subset] at he
    rw [visitExpr, visitExpr, h.flag?]
    -- the flag is the same in both; an expression without one goes straight on to its operands
    have hrest : Pace c c' parts
        (if kind = .closure then visitClosure c span operands else visitOperands c operands)
        (if kind = .closure then visitClosure c' span operands else visitOperands c' operands) := by
      by_cases hk : kind = .closure
      · rw [if_pos hk, if_pos hk]
        exact visitClosure_paces h he.1 rfl operands he.2
      · rw [if_neg hk, if_neg hk]
        exact visitOperands_paces h operands he.2
    cases c'.flag? ⟨kind, span, operands, tag, op, signature, operandType, target⟩ with
    | none => exact hrest
    | some item => exact (record_paces h.leaves rfl he.1 rfl).seq hrest

theorem visitClosure_paces (h : Twins c c') {p : Part} (hp : p ∈ parts) {span : Span}
    (hspan : p.span = span) :
    ∀ operands : List Operand, partsOfOperands operands ⊆ parts →
    Pace c c' parts (visitClosure c span operands) (visitClosure c' span operands)
  | [], _ => by
    rw [visitClosure, visitClosure]
    exact .throw _ _
  | .expr _ :: operands, ho => by
    rw [partsOfOperands, List.append_subset] at ho
    rw [visitClosure, visitClosure]
    exact visitClosure_paces h hp hspan operands ho.2
  | .block body :: _, ho => by
    rw [partsOfOperands, Operand.parts, List.append_subset] at ho
    rw [visitClosure, visitClosure]
    refine enter_paces.seq ((visitBlock_paces h body ho.1).seq ?_)
    refine (exitFn_paces span.text).bind fun block block' hblock => ?_
    exact record_paces h.leaves (erased_closure hblock) hp hspan

theorem visitOperands_paces (h : Twins c c') :
    ∀ operands : List Operand, partsOfOperands operands ⊆ parts →
    Pace c c' parts (visitOperands c operands) (visitOperands c' operands)
  | [], _ => by
    rw [visitOperands, visitOperands]
    exact .pure trivial
  | .expr e :: operands, ho => by
    rw [partsOfOperands, Operand.parts, List.append_subset] at ho
    rw [visitOperands, visitOperands]
    exact (visitExpr_paces h e ho.1).seq (visitOperands_paces h operands ho.2)
  | .block b :: operands, ho => by
    rw [partsOfOperands, Operand.parts, List.append_subset] at ho
    rw [visitOperands, visitOperands]
    exact (visitBlock_paces h b ho.1).seq (visitOperands_paces h operands ho.2)

end

theorem register_paces (hc : c.leaves = c'.leaves) {f : FnItem} (hf : .item (.fn f) ∈ parts)
    {block block' : Record.Block N F String} (hblock : SameBlock block block') :
    Pace c c' parts (register c f block f.span) (register c' f block' f.span) := by
  intro s s' h
  have hfirst := register_ends (c := c) f block s
  have hsecond := register_ends (c := c') f block' s'
  generalize (register c f block f.span).run.run s = r at hfirst
  generalize (register c' f block' f.span).run.run s' = r' at hsecond
  cases hfirst with
  | error ho => exact .first fun hsure => ho (hsure _ hf).1.2
  | ok _ hpost =>
    obtain ⟨notes, rfl⟩ := hpost
    cases hsecond with
    | error ho => exact .second fun hsure => ho (hsure _ hf).2.2
    | ok _ hpost =>
      obtain ⟨notes', rfl⟩ := hpost
      have hdeclare : Function.erased { c.declare f with block } =
          Function.erased { c'.declare f with block := block' } := by
        simp only [Function.erased, Context.declare, hc]
        rw [hblock]
      refine .ok trivial ⟨h.scope, ?_, h.waiting, h.within⟩
      rw [List.map_append, List.map_append, h.functions, List.map_singleton,
        List.map_singleton, hdeclare]

theorem depth_paces {P : Nat → Prop} [DecidablePred P] {p p' q q' : Collect N F String Unit}
    (hp : Pace c c' parts p p') (hq : Pace c c' parts q q') :
    Pace c c' parts (get >>= fun b => if P b.scope.depth then p else q)
      (get >>= fun b => if P b.scope.depth then p' else q') := by
  apply Lockstep.get_bind
  intro s s' h
  rw [h.depth]
  by_cases hd : P s'.scope.depth
  · rw [if_pos hd, if_pos hd]
    exact hp s s' h
  · rw [if_neg hd, if_neg hd]
    exact hq s s' h

theorem fail_paces (e e' : Collector N F String → Fault N F String)
    (rest rest' : Unit → Collect N F String Unit) :
    Pace c c' parts (get >>= fun b => throw (e b) >>= rest)
      (get >>= fun b => throw (e' b) >>= rest') :=
  Lockstep.get_bind fun _ _ _ => .error

theorem visitFn_paces (h : Twins c c') {f : FnItem} (hf : (Item.fn f).parts ⊆ parts) :
    Pace c c' parts (visitFn c f.kind f.body f.span (some f))
      (visitFn c' f.kind f.body f.span (some f)) := by
  rw [Item.parts_fn, List.cons_subset] at hf
  unfold visitFn
  apply depth_paces (P := fun n => f.kind ≠ .closure ∧ n ≠ 0) (fail_paces _ _ _ _)
  refine enter_paces.seq ((visitBlock_paces h f.body hf.2).seq ?_)
  refine (exitFn_paces f.span.text).bind fun block block' hblock => ?_
  by_cases hk : f.kind = .closure
  · rw [if_pos hk, if_pos hk]
    exact record_paces h.leaves (erased_closure hblock) hf.1 rfl
  · rw [if_neg hk, if_neg hk]
    refine (register_paces h.leaves hf.1 hblock).seq ?_
    exact depth_paces (P := (· ≠ 0)) (Lockstep.get_bind fun _ _ _ => .error) (.pure trivial)

mutual

theorem visitItem_paces (h : Twins c c') : ∀ i : Item, i.parts ⊆ parts →
    Pace c c' parts (visitItem c i) (visitItem c' i)
  | .fn f, hi => by
    rw [visitItem, visitItem]
    exact visitFn_paces h hi
  | .container con, hi => by
    rw [Item.parts, List.cons_subset] at hi
    rw [visitItem, visitItem]
    exact visitContainer_paces h con hi.2

theorem visitContainer_paces (h : Twins c c') : ∀ con : Container, con.parts ⊆ parts →
    Pace c c' parts (visitContainer c con) (visitContainer c' con)
  | ⟨_, _, items, _⟩, hi => by
    rw [Container.parts] at hi
    rw [visitContainer, visitContainer]
    exact visitItems_paces h items hi

theorem visitItems_paces (h : Twins c c') : ∀ items : List Item, partsOfItems items ⊆ parts →
    Pace c c' parts (visitItems c items) (visitItems c' items)
  | [], _ => by
    rw [visitItems, visitItems]
    exact .pure trivial
  | i :: items, hi => by
    rw [partsOfItems, List.append_subset] at hi
    rw [visitItems, visitItems]
    exact (visitItem_paces h i hi.1).seq (visitItems_paces h items hi.2)

end

theorem drain_paces (h : Twins c c') (n : Nat) : Pace c c' parts (drain c n) (drain c' n) := by
  induction n with
  | zero => exact .pure trivial
  | succ n ih =>
    apply Lockstep.get_bind
    -- both queues are one list, so that the same item is taken from each
    rintro ⟨scope, functions, waiting, log⟩ ⟨scope', functions', waiting', log'⟩
      ⟨hscope, hfunctions, hwaiting, hwithin⟩
    dsimp only at hwaiting hwithin
    subst hwaiting
    cases waiting with
    | nil => exact .ok trivial ⟨hscope, hfunctions, rfl, hwithin⟩
    | cons i queue =>
      rw [partsOfItems, List.append_subset] at hwithin
      exact (visitItem_paces h i hwithin.1).seq ih ⟨scope, functions, queue, log⟩
        ⟨scope', functions', queue, log'⟩
        ⟨hscope, hfunctions, rfl, hwithin.2⟩

theorem visitTopLevel_paces (h : Twins c c') {i : Item} (hi : i.parts ⊆ parts) :
    Pace c c' parts (visitTopLevel c i) (visitTopLevel c' i) := by
  refine (visitItem_paces h i hi).seq (Lockstep.get_bind fun s s' hs => ?_)
  rw [hs.waiting]
  exact drain_paces h _ s s' hs

theorem visitCrate_paces (h : Twins c c') (items : List Item) (hi : partsOfItems items ⊆ parts) :
    Pace c c' parts (visitCrate c items) (visitCrate c' items) := by
  induction items with
  | nil => exact .pure trivial
  | cons i items ih =>
    rw [partsOfItems, List.append_subset] at hi
    exact (visitTopLevel_paces h hi.1).seq (ih hi.2)

/-- What an expression is flagged as depends on which conventions are foreign and whether safe calls
are wanted. -/
theorem twins_of_settings {m m' : SourceMap} {settings settings' : Settings}
    (leaves : Leaves N F String)
    (habis : ∀ abi, abi ∈ settings.foreignAbis ↔ abi ∈ settings'.foreignAbis)
    (hsafe : settings.recordSafeCalls = settings'.recordSafeCalls) :
    Twins ⟨m, settings, leaves⟩ ⟨m', settings', leaves⟩ := by
  have hforeign : (Context.mk m settings leaves).isForeign =
      (Context.mk m' settings' leaves).isForeign := by
    funext s
    simp only [Context.isForeign, List.contains_eq_mem, habis]
  refine ⟨rfl, fun e => ?_⟩
  unfold Context.flag?
  simp only [hforeign, hsafe]

end Collect

theorem Crate.audit_agree {N F : Type} {c c' : Context N F String} (h : Collect.Twins c c')
    {crate crate' : Crate} (hname : crate.name = crate'.name)
    (htype : crate.crateType = crate'.crateType) (hitems : crate.items = crate'.items) :
    (∀ r r', (crate.audit c).1 = .ok r → (crate'.audit c').1 = .ok r' → r.erased = r'.erased) ∧
      (Collect.Sure c c' (partsOfItems crate.items) →
        ((∃ r, (crate.audit c).1 = .ok r) ↔ ∃ r', (crate'.audit c').1 = .ok r')) := by
  have hrun :=
    Collect.visitCrate_paces h crate.items (List.Subset.refl _) {} {}
      ⟨rfl, rfl, rfl, List.nil_subset _⟩
  unfold Crate.audit
  rw [← hitems]
  generalize (Collect.visitCrate c crate.items).run.run {} = run at hrun
  generalize (Collect.visitCrate c' crate.items).run.run {} = run' at hrun
  cases hrun with
  | ok _ hs =>
    refine ⟨?_, fun _ => ⟨fun _ => ⟨_, rfl⟩, fun _ => ⟨_, rfl⟩⟩⟩
    rintro _ _ ⟨rfl⟩ ⟨rfl⟩
    simp only [Record.erased, Collector.record, h.leaves, hname, htype, hs.functions]
  | error =>
    refine ⟨?_, fun _ => ⟨?_, ?_⟩⟩
    · rintro _ _ ⟨⟩
    · rintro ⟨_, ⟨⟩⟩
    · rintro ⟨_, ⟨⟩⟩
  | first hsure =>
    refine ⟨?_, fun hs => absurd hs hsure⟩
    rintro _ _ ⟨⟩
  | second hsure =>
    refine ⟨?_, fun hs => absurd hs hsure⟩
    rintro _ _ _ ⟨⟩

/-- The text of the files, the expansions and what is shown of them have no part in what is flagged.
Two crates with the same items give records that differ in snippets and origins only, whatever else
the settings say than which conventions are foreign and whether safe calls are recorded. Where the
spans name their files, there are both records or neither, and both if the items are as a dump gives
them. -/
theorem erased_audit_eq (crate crate' : Crate) (settings settings' : Settings)
    (hname : crate.name = crate'.name) (htype : crate.crateType = crate'.crateType)
    (hitems : crate.items = crate'.items)
    (habis : ∀ abi, abi ∈ settings.foreignAbis ↔ abi ∈ settings'.foreignAbis)
    (hsafe : settings.recordSafeCalls = settings'.recordSafeCalls) :
    (∀ r r', (crate.audit (crate.context settings)).1 = .ok r →
        (crate'.audit (crate'.context settings')).1 = .ok r' →
      r.erased = r'.erased) ∧
    (crate.HasTextFiles → crate'.HasTextFiles →
      ((∃ r, (crate.audit (crate.context settings)).1 = .ok r) ↔
        ∃ r', (crate'.audit (crate'.context settings')).1 = .ok r') ∧
      (Load.Formed (partsOfItems crate.items) →
        ∃ r, (crate.audit (crate.context settings)).1 = .ok r)) := by
  have htwins : Collect.Twins (crate.context settings) (crate'.context settings') :=
    Collect.twins_of_settings .exact habis hsafe
  obtain ⟨hequal, hboth⟩ := audit_agree htwins hname htype hitems
  refine ⟨hequal,
    fun htext htext' =>
      ⟨hboth fun p hp => ⟨?_, ?_⟩, fun hformed => ⟨_, audit_of_formed hformed htext⟩⟩⟩
  · exact canRecord_of_hasTextFiles htext hp
  · exact canRecord_of_hasTextFiles htext' (hitems ▸ hp)

/-- A function in a module. The text of its call and of the pointers it follows was made by a
macro. -/
def expandedItems : List Item :=
  let place (line : Int) : Span := ⟨.str "a.rs", line, 1, line, 6, some 7⟩
  let deref (line : Int) : Expr :=
    ⟨.unary, place line, [], "unary", .str "deref", none, .str "raw_ptr", none⟩
  let call : Expr :=
    ⟨.call, place 2, [.expr (deref 2)], "call", .null, some ⟨.normal, "C"⟩, .null, none⟩
  let body : Crate.Block :=
    ⟨[.plain .discard (place 2) (some call)], some (deref 1), .restricted, .user, place 1⟩
  [.container ⟨"mod", "m", [.fn ⟨"f", body, ⟨.normal, "Rust"⟩, .function, "", place 1⟩], place 1⟩]

/-- The items, next to the definition of their macro. -/
def definedCrate : Crate :=
  ⟨"k", "bin", expandedItems, [("a.rs", "macro_rules! p\nClone(x)")],
    [(7, ⟨7, .bang, none, some ⟨.str "a.rs", 1, 1, 1, 15, none⟩, "p"⟩)]⟩

/-- The same items over other text, with a table that takes the macro for another. -/
def derivedCrate : Crate :=
  ⟨"k", "bin", expandedItems, [("a.rs", "Copy  \nClone ")], [(7, ⟨7, .attached, none, none, "q"⟩)]⟩

def narrowSettings : Settings :=
  { snippetLength := 3, foreignAbis := ["system", "C", "C"] }

theorem erased_audit_eq_definedCrate :
    ∃ r r', (definedCrate.audit (definedCrate.context {})).1 = .ok r ∧
      (derivedCrate.audit (derivedCrate.context narrowSettings)).1 = .ok r' ∧
      (r.functions.flatMap fun f => f.block.flatten.map fun e => (e.snippet, e.origin)) =
        [("Clone", .localMacro), ("Clone", .localMacro), ("macro", .localMacro)] ∧
      (r'.functions.flatMap fun f => f.block.flatten.map fun e => (e.snippet, e.origin)) =
        [("Cl#", .deriveMacro), ("Cl#", .deriveMacro), ("Co#", .externalMacro)] ∧
      r.erased = r'.erased := by
  have habis : ∀ abi, abi ∈ ({} : Settings).foreignAbis ↔ abi ∈ narrowSettings.foreignAbis := by
    simp [narrowSettings, or_comm]
  obtain ⟨hequal, hboth⟩ :=
    erased_audit_eq definedCrate derivedCrate {} narrowSettings rfl rfl rfl habis rfl
  have htext : definedCrate.HasTextFiles := by unfold HasTextFiles; decide
  have htext' : derivedCrate.HasTextFiles := by unfold HasTextFiles; decide
  have hformed : Load.Formed (partsOfItems definedCrate.items) := by unfold Load.Formed; decide
  obtain ⟨r, hr⟩ := (hboth htext htext').2 hformed
  obtain ⟨r', hr'⟩ := (hboth htext htext').1.mp ⟨r, hr⟩
  refine ⟨r, r', hr, hr', ?_, ?_, hequal r r' hr hr'⟩
  · have hshown : (definedCrate.audit (definedCrate.context {})).1.toOption.any (fun r =>
        (r.functions.flatMap fun f => f.block.flatten.map fun e => (e.snippet, e.origin)) ==
          [("Clone", .localMacro), ("Clone", .localMacro),
            ("macro", .localMacro)]) := by decide +kernel
    rw [hr] at hshown
    exact eq_of_beq hshown
  · have hshown : (derivedCrate.audit (derivedCrate.context narrowSettings)).1.toOption.any
        (fun r =>
        (r.functions.flatMap fun f => f.block.flatten.map fun e => (e.snippet, e.origin)) ==
          [("Cl#", .deriveMacro), ("Cl#", .deriveMacro),
            ("Co#", .externalMacro)]) := by decide +kernel
    rw [hr'] at hshown
    exact eq_of_beq hshown

end CrateAudit
