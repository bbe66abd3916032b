import CrateAudit.Audit
import CrateAudit.Proofs.Collected

namespace CrateAudit

open Record Crate Steps

namespace Crate

theorem countItems_append (items items' : List Item) :
    countItems (items ++ items') = countItems items + countItems items' := by
  induction items with
  | nil => rw [List.nil_append, countItems, Nat.zero_add]
  | cons i items ih => rw [List.cons_append, countItems, countItems, ih, Nat.add_assoc]

mutual

theorem countItems_declared_block : ∀ b : Block, countItems (declared b.walk) ≤ b.count
  | ⟨stmts, value, _, _, _⟩ => by
    have hs := countItems_declared_stmts stmts
    have hv := countItems_declared_optional value
    rw [Block.walk, Block.count]
    change countItems (declared (walkStmts stmts ++ walkOptional value)) ≤ _
    rw [declared_append, countItems_append]
    omega

theorem countItems_declared_stmts :
    ∀ stmts : List Stmt, countItems (declared (walkStmts stmts)) ≤ countStmts stmts
  | [] => Nat.le_refl 0
  | s :: stmts => by
    have hs := countItems_declared_stmt s
    have hr := countItems_declared_stmts stmts
    rw [walkStmts, declared_append, countItems_append, countStmts]
    omega

theorem countItems_declared_stmt : ∀ s : Stmt, countItems (declared s.walk) ≤ s.count
  | .item _ i => by
    rw [Stmt.walk, Stmt.count]
    change countItems [i] ≤ i.count
    rw [countItems, countItems]
    exact Nat.le_refl _
  | .plain _ _ e => by
    rw [Stmt.walk, Stmt.count]
    exact countItems_declared_optional e

theorem countItems_declared_optional :
    ∀ e : Option Expr, countItems (declared (walkOptional e)) ≤ countOptional e
  | none => Nat.le_refl 0
  | some e => by
    rw [walkOptional, countOptional]
    exact countItems_declared_expr e

theorem countItems_declared_expr : ∀ e : Expr, countItems (declared e.walk) ≤ e.count
  | ⟨kind, _, operands, _, _, _, _, _⟩ => by
    rw [Expr.walk, Expr.count]
    by_cases hk : kind = .closure
    · rw [if_pos hk]
      exact countItems_declared_body operands
    · rw [if_neg hk]
      exact countItems_declared_operands operands

theorem countItems_declared_body :
    ∀ operands : List Operand, countItems (declared (walkBody operands)) ≤ countOperands operands
  | [] => Nat.le_refl 0
  | .block b :: operands => by
    have hb := countItems_declared_block b
    rw [walkBody, countOperands, Operand.count]
    omega
  | .expr e :: operands => by
    have hr := countItems_declared_body operands
    rw [walkBody, countOperands]
    omega

theorem countItems_declared_operands :
    ∀ operands : List Operand, countItems (declared (walkOperands operands)) ≤
      countOperands operands
  | [] => Nat.le_refl 0
  | .block b :: operands => by
    have hb := countItems_declared_block b
    have hr := countItems_declared_operands operands
    rw [walkOperands, declared_append, countItems_append, countOperands, Operand.count]
    omega
  | .expr e :: operands => by
    have he := countItems_declared_expr e
    have hr := countItems_declared_operands operands
    rw [walkOperands, declared_append, countItems_append, countOperands, Operand.count]
    omega

end

def declaredIn (fs : List FnItem) : List Item :=
  fs.flatMap fun f => declared f.body.walk

theorem declaredIn_append (fs fs' : List FnItem) :
    declaredIn (fs ++ fs') = declaredIn fs ++ declaredIn fs' :=
  List.flatMap_append

mutual

/-- Visiting an item uses it up: what it lets wait counts for less. -/
theorem countItems_declaredIn_item : ∀ i : Item, countItems (declaredIn i.functions) < i.count
  | .fn ⟨_, body, _, _, _, _⟩ => by
    have h := countItems_declared_block body
    rw [Item.functions, Item.count, FnItem.count]
    change countItems (declared body.walk ++ []) < _
    rw [List.append_nil]
    omega
  | .container c => by
    have h := countItems_declaredIn_container c
    rw [Item.functions, Item.count]
    omega

theorem countItems_declaredIn_container :
    ∀ c : Container, countItems (declaredIn c.functions) ≤ c.count
  | ⟨_, _, items, _⟩ => by
    rw [Container.functions, Container.count]
    exact countItems_declaredIn_items items

theorem countItems_declaredIn_items :
    ∀ items : List Item, countItems (declaredIn (functionsOf items)) ≤ countItems items
  | [] => Nat.le_refl 0
  | i :: items => by
    have hi := countItems_declaredIn_item i
    have hr := countItems_declaredIn_items items
    rw [functionsOf, declaredIn_append, countItems_append, countItems]
    omega

end

/-- Serves a queue of items in `n` turns: the functions of the item in front are listed, and the
items declared in them go to the end. Gives the functions, and the items that still wait. -/
def serve : Nat → List Item → List FnItem × List Item
  | 0, queue => ([], queue)
  | _ + 1, [] => ([], [])
  | n + 1, i :: queue =>
    let (fs, rest) := serve n (queue ++ declaredIn i.functions)
    (i.functions ++ fs, rest)

/-- There is a turn for everyone if there are as many as there are items in the queue, at whatever
depth. -/
theorem serve_rest {n : Nat} {queue : List Item} (h : countItems queue ≤ n) :
    (serve n queue).2 = [] := by
  induction n generalizing queue with
  | zero =>
    cases queue with
    | nil => rfl
    | cons i queue =>
      have hi := countItems_declaredIn_item i
      rw [countItems] at h
      omega
  | succ n ih =>
    cases queue with
    | nil => rfl
    | cons i queue =>
      -- the item in front counts for more than all that it lets wait
      have hi := countItems_declaredIn_item i
      rw [countItems] at h
      apply ih
      rw [countItems_append]
      omega

/-- The functions of an item, and after them those of the items declared in their bodies, first come
first served. -/
def Item.listing (i : Item) : List FnItem :=
  i.functions ++ (serve (countItems (declaredIn i.functions)) (declaredIn i.functions)).1

def listing (items : List Item) : List FnItem :=
  items.flatMap Item.listing

end Crate

namespace Context

variable {N F T : Type} (c : Context N F T)

/-- What a function is registered as. Where its origin cannot be found it is not registered, and
this stands in for it. -/
def declare (f : FnItem) : Function N F T where
  name := c.leaves.text (if f.path = "" then f.name else f.path)
  restricted := c.leaves.flag (f.signature.safety = .restricted)
  span := c.leaves.text f.span.text
  origin := match c.source.origin c.settings f.span with
    | .ok o => o
    | .error _ => .notMacro
  block := c.collect f.body

def CanRegister (f : FnItem) : Prop :=
  (∀ t ∈ c.lookups f.body.walk, c.CanRecord t) ∧ ∃ o, c.source.origin c.settings f.span = .ok o

end Context

/-- The collector once functions are registered, with the items that came to wait behind those that
did. -/
def Collector.registered {N F T : Type} (s : Collector N F T) (c : Context N F T) (fs : List FnItem)
    (notes : List Log.Entry) : Collector N F T where
  scope := s.scope
  functions := s.functions ++ fs.map c.declare
  waiting := s.waiting ++ declaredIn fs
  log := s.log ++ notes

theorem Collector.waiting_registered {N F T : Type} (s : Collector N F T) (c : Context N F T)
    (fs : List FnItem) (notes : List Log.Entry) (hw : s.waiting = []) :
    (s.registered c fs notes).waiting = declaredIn fs := by
  rw [Collector.registered, hw, List.nil_append]

namespace Collect

variable {N F T : Type} (c : Context N F T)

/-- A step that registers functions and, outside of all blocks, changes nothing else. -/
def Registers (p : Collect N F T Unit) (fs : List FnItem) : Prop :=
  ∀ s, s.scope.depth = 0 → Ends (∀ f ∈ fs, c.CanRegister f) (.source .unusableFile)
    (fun _ s' => ∃ notes, s' = s.registered c fs notes) (p.run.run s)

/-- A function that is no closure and whose closures have blocks to run. -/
def Regular (f : FnItem) : Prop :=
  f.kind ≠ .closure ∧ Bodied f.body.walk

variable {c} {p q : Collect N F T Unit} {fs fs' : List FnItem}

theorem Registers.pure : Registers c (pure ()) [] := by
  intro s _
  exact .ok (by simp) ⟨[], by simp [Collector.registered, declaredIn]⟩

theorem Registers.seq (hp : Registers c p fs) (hq : Registers c q fs') :
    Registers c (p >>= fun _ => q) (fs ++ fs') := by
  intro s hs
  have hnext : ∀ (_ : Unit) s', (∃ notes, s' = s.registered c fs notes) →
      Ends (∀ f ∈ fs', c.CanRegister f) (.source .unusableFile)
        (fun _ s'' => ∃ notes, s'' = s.registered c (fs ++ fs') notes) (q.run.run s') := by
    rintro _ _ ⟨notes, rfl⟩
    refine (hq (s.registered c fs notes) hs).mono ?_
    rintro _ _ ⟨notes', rfl⟩
    exact ⟨notes ++ notes', by simp [Collector.registered, declaredIn_append]⟩
  refine ((hp s hs).bind hnext).congr ?_
  simp only [List.mem_append, or_imp, forall_and]

theorem register_ends (f : FnItem) (block : Record.Block N F T) (s : Collector N F T) :
    Ends (∃ o, c.source.origin c.settings f.span = .ok o) (.source .unusableFile)
      (fun _ s' => ∃ notes, s' = { s with
        functions := s.functions ++ [{ c.declare f with block }]
        log := s.log ++ notes })
      ((register c f block f.span).run.run s) := by
  change Ends _ _ _ ((match c.source.origin c.settings f.span with
    | .ok o => modify fun b => { b with functions := b.functions ++ [⟨c.leaves.text f.displayName,
        c.leaves.flag f.signature.isRestricted, c.leaves.text f.span.text, o, block⟩] }
    | .error e => throw (.source e) : Collect N F T Unit).run.run { s with log := _ })
  have hanswers : Answers False (c.source.origin c.settings f.span) :=
    SourceMap.origin_answers False.elim
  cases ho : c.source.origin c.settings f.span with
  | ok o =>
    refine .ok ⟨o, rfl⟩
      ⟨[⟨.debug, .visits, "fn " ++ f.displayName ++ ": " ++ toString block.contents.length ++
      " item(s)", none⟩] ++ c.source.originNotes f.span, ?_⟩
    rw [← List.append_assoc]
    simp only [Context.declare, ho, Signature.isRestricted_eq, FnItem.displayName]
  | error e =>
    rw [ho] at hanswers
    rw [hanswers.error_eq]
    exact .error (by simp)

theorem run_depth (place : String) {s : Collector N F T} (hs : s.scope.depth = 0) :
    (do if (← get).scope.depth ≠ 0 then
        throw (.violation (.depthOnExit (← get).scope.depth) place) :
            Collect N F T Unit).run.run s = (.ok (), s) := by
  change (if s.scope.depth ≠ 0 then _ else _ : Collect N F T Unit).run.run s = _
  rw [if_neg (not_not_intro hs)]
  rfl

theorem run_visitFn {f : FnItem} (hk : f.kind ≠ .closure) {s : Collector N F T}
    (hs : s.scope.depth = 0) :
    (visitFn c f.kind f.body f.span (some f)).run.run s =
      ((enter >>= fun _ => visitBlock c f.body >>= fun _ => exitFn f.span.text) >>= fun block => do
        register c f block f.span
        if (← get).scope.depth ≠ 0 then
          throw (.violation (.depthOnExit (← get).scope.depth) f.span.text)).run.run s := by
  simp only [bind_assoc]
  unfold visitFn
  simp only [hk, ne_eq, not_false_eq_true, true_and, if_false]
  rw [run_bind]
  change (if ¬ s.scope.depth = 0 then _ else _ : Collect N F T Unit).run.run s = _
  rw [if_neg (by simp [hs])]

theorem visitFn_registers {f : FnItem} (hf : Regular f) :
    Registers c (visitFn c f.kind f.body f.span (some f)) [f] := by
  intro s hs
  rw [run_visitFn hf.1 hs]
  have hbody := body_yields f.span.text (visitBlock_yields (c := c) f.body hf.2) s
  have hregister : ∀ block s',
      (block = c.collect f.body ∧ ∃ notes, s' = s.after 0 [] (declared f.body.walk) notes) →
      Ends (∃ o, c.source.origin c.settings f.span = .ok o) (.source .unusableFile)
        (fun _ s'' => ∃ notes, s'' = s.registered c [f] notes)
        ((do
          register c f block f.span
          if (← get).scope.depth ≠ 0 then
            throw (.violation (.depthOnExit (← get).scope.depth) f.span.text) :
                Collect N F T Unit).run.run s') := by
    rintro _ _ ⟨rfl, notes, rfl⟩
    refine (register_ends f (c.collect f.body) _).bind_ok ?_
    rintro _ _ ⟨notes', rfl⟩
    refine ⟨_, _, run_depth f.span.text hs, notes ++ notes', ?_⟩
    simp [Collector.after, Collector.registered, Context.declare, declaredIn]
  refine (hbody.bind hregister).congr ?_
  simp only [List.mem_singleton, forall_eq]
  rfl

mutual

theorem visitItem_registers :
    ∀ i : Item, (∀ f ∈ i.functions, Regular f) → Registers c (visitItem c i) i.functions
  | .fn f, h => by
    rw [Item.functions] at h ⊢
    rw [visitItem]
    exact visitFn_registers (h f (List.mem_singleton_self f))
  | .container con, h => by
    rw [Item.functions] at h ⊢
    rw [visitItem]
    exact visitContainer_registers con h

theorem visitContainer_registers :
    ∀ con : Container, (∀ f ∈ con.functions, Regular f) →
      Registers c (visitContainer c con) con.functions
  | ⟨_, _, items, _⟩, h => by
    rw [Container.functions] at h ⊢
    rw [visitContainer]
    exact visitItems_registers items h

theorem visitItems_registers :
    ∀ items : List Item, (∀ f ∈ functionsOf items, Regular f) →
      Registers c (visitItems c items) (functionsOf items)
  | [], _ => Registers.pure
  | i :: items, h => by
    rw [functionsOf, List.forall_mem_append] at h
    rw [functionsOf, visitItems]
    exact (visitItem_registers i h.1).seq (visitItems_registers items h.2)

end

theorem drain_serves (n : Nat) (s : Collector N F T) (hs : s.scope.depth = 0)
    (h : ∀ f ∈ (serve n s.waiting).1, Regular f) :
    Ends (∀ f ∈ (serve n s.waiting).1, c.CanRegister f) (.source .unusableFile)
      (fun _ s' => ∃ notes, s' = { s with
        functions := s.functions ++ (serve n s.waiting).1.map c.declare
        waiting := (serve n s.waiting).2
        log := s.log ++ notes })
      ((drain c n).run.run s) := by
  induction n generalizing s with
  | zero => exact .ok (by simp [serve]) ⟨[], by simp [serve]⟩
  | succ n ih =>
    obtain ⟨scope, functions, waiting, log⟩ := s
    cases waiting with
    | nil => exact .ok (by simp [serve]) ⟨[], by simp [serve]⟩
    | cons i queue =>
      simp only [serve, List.forall_mem_append] at h ⊢
      change Ends _ _ _
        ((visitItem c i >>= fun _ => drain c n).run.run ⟨scope, functions, queue, log⟩)
      -- the visit puts what it declares behind the rest of the queue, as `serve` does
      refine ((visitItem_registers i h.1 ⟨scope, functions, queue, log⟩ hs).bind ?_)
      rintro _ _ ⟨notes, rfl⟩
      refine (ih
          (Collector.registered ⟨scope, functions, queue, log⟩ c i.functions notes) hs h.2).mono ?_
      rintro _ _ ⟨notes', rfl⟩
      exact ⟨notes ++ notes', by simp [Collector.registered]⟩

theorem drain_registered (i : Item) (n : Nat) (s : Collector N F T) (hs : s.scope.depth = 0)
    (hw : s.waiting = []) (notes : List Log.Entry)
    (h : ∀ f ∈ (serve n (declaredIn i.functions)).1, Regular f) :
    Ends (∀ f ∈ (serve n (declaredIn i.functions)).1, c.CanRegister f) (.source .unusableFile)
      (fun _ s' => ∃ notes, s' = { s with
        functions :=
          s.functions ++ (i.functions ++ (serve n (declaredIn i.functions)).1).map c.declare
        waiting := (serve n (declaredIn i.functions)).2
        log := s.log ++ notes })
      ((drain c n).run.run (s.registered c i.functions notes)) := by
  have hq := s.waiting_registered c i.functions notes hw
  have hdrain := drain_serves (c := c) n (s.registered c i.functions notes) hs
  rw [hq] at hdrain
  refine (hdrain h).mono ?_
  rintro _ _ ⟨notes', rfl⟩
  exact ⟨notes ++ notes', by simp [Collector.registered]⟩

theorem visitTopLevel_ends (i : Item) (h : ∀ f ∈ i.listing, Regular f) (s : Collector N F T)
    (hs : s.scope.depth = 0) (hw : s.waiting = []) :
    Ends (∀ f ∈ i.listing, c.CanRegister f) (.source .unusableFile)
      (fun _ s' => ∃ notes, s' = { s with
        functions := s.functions ++ i.listing.map c.declare
        log := s.log ++ notes })
      ((visitTopLevel c i).run.run s) := by
  rw [Item.listing, List.forall_mem_append] at h
  simp only [Item.listing, List.forall_mem_append]
  refine (visitItem_registers i h.1 s hs).bind ?_
  rintro _ _ ⟨notes, rfl⟩
  have hq := s.waiting_registered c i.functions notes hw
  change Ends _ _ _ ((drain c (countItems (s.registered c i.functions notes).waiting)).run.run _)
  rw [hq]
  refine (drain_registered i _ s hs hw notes h.2).mono ?_
  rintro _ _ ⟨notes', rfl⟩
  exact ⟨notes', by simp [serve_rest, hw]⟩

/-- Visiting the items of a crate registers all they hold, in the order of the listing. -/
theorem visitCrate_ends (items : List Item) (h : ∀ f ∈ listing items, Regular f)
    (s : Collector N F T) (hs : s.scope.depth = 0) (hw : s.waiting = []) :
    Ends (∀ f ∈ listing items, c.CanRegister f) (.source .unusableFile)
      (fun _ s' => ∃ notes, s' = { s with
        functions := s.functions ++ (listing items).map c.declare
        log := s.log ++ notes })
      ((visitCrate c items).run.run s) := by
  induction items generalizing s with
  | nil => exact .ok (by simp [listing]) ⟨[], by simp [listing]⟩
  | cons i items ih =>
    rw [listing, List.flatMap_cons, List.forall_mem_append] at h
    simp only [listing, List.flatMap_cons, List.forall_mem_append]
    refine (visitTopLevel_ends i h.1 s hs hw).bind ?_
    rintro _ _ ⟨notes, rfl⟩
    refine (ih h.2 ⟨s.scope, s.functions ++ i.listing.map c.declare, s.waiting,
      s.log ++ notes⟩ hs hw).mono ?_
    rintro _ _ ⟨notes', rfl⟩
    exact ⟨notes ++ notes', by simp [listing]⟩

end Collect

section

variable {N F T : Type} {crate : Crate} {c : Context N F T}
  (h : ∀ f ∈ listing crate.items, Collect.Regular f)
include h

theorem Crate.audit_of_canRegister (hcan : ∀ f ∈ listing crate.items, c.CanRegister f) :
    (crate.audit c).1 =
      .ok ⟨c.leaves.text crate.name, c.leaves.text crate.crateType,
        (listing crate.items).map c.declare⟩ := by
  obtain ⟨_, _, hrun, notes, rfl⟩ :=
    (Collect.visitCrate_ends (c := c) crate.items h {} rfl rfl).eq_ok hcan
  unfold Crate.audit
  rw [hrun]
  rfl

theorem Crate.audit_of_not_canRegister (hcan : ¬∀ f ∈ listing crate.items, c.CanRegister f) :
    (crate.audit c).1 = .error (.source .unusableFile) := by
  obtain ⟨s, hrun⟩ := (Collect.visitCrate_ends (c := c) crate.items h {} rfl rfl).eq_error hcan
  unfold Crate.audit
  rw [hrun]

end

end CrateAudit
