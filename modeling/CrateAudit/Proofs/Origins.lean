import CrateAudit.Proofs.Lockstep

namespace CrateAudit

open Record Crate

namespace Record

variable {N F T : Type}

mutual

/-- Blocks of one shape whose entries `R` relates one by one, at every depth. -/
inductive Block.Aligned (R : Entry N F T → Entry N F T → Prop) :
    Block N F T → Block N F T → Prop where
  | mk {size : N} {restricted : F} {contents contents' : List (Entry N F T)}
      (h : AlignedEntries R contents contents') :
    Block.Aligned R ⟨size, restricted, contents⟩ ⟨size, restricted, contents'⟩

inductive AlignedEntries (R : Entry N F T → Entry N F T → Prop) :
    List (Entry N F T) → List (Entry N F T) → Prop where
  | nil : AlignedEntries R [] []
  | cons {e e' : Entry N F T} {entries entries' : List (Entry N F T)} (h : R e e')
      (hitem : Node.Aligned R e.item e'.item) (hrest : AlignedEntries R entries entries') :
    AlignedEntries R (e :: entries) (e' :: entries')

inductive Node.Aligned (R : Entry N F T → Entry N F T → Prop) : Node N F T → Node N F T → Prop where
  | leaf {item : Node N F T} (h : item.body? = none) : Node.Aligned R item item
  | closure {b b' : Block N F T} (h : Block.Aligned R b b') :
      Node.Aligned R (.closure b) (.closure b')
  | inner {b b' : Block N F T} (h : Block.Aligned R b b') : Node.Aligned R (.inner b) (.inner b')

end

theorem AlignedEntries.append {R : Entry N F T → Entry N F T → Prop}
    {xs xs' ys ys' : List (Entry N F T)} (h : AlignedEntries R xs xs')
    (h' : AlignedEntries R ys ys') : AlignedEntries R (xs ++ ys) (xs' ++ ys') := by
  match h with
  | .nil => exact h'
  | .cons hR hitem hrest => exact .cons hR hitem (hrest.append h')

end Record

namespace Collect

variable {N F : Type} {c c' : Context N F String} {R : Entry N F String → Entry N F String → Prop}
  {parts : List Part}

/-- The entries that two contexts make for a part of a tree are related, whatever is flagged. -/
def Relates (R : Entry N F String → Entry N F String → Prop) (c c' : Context N F String)
    (parts : List Part) : Prop :=
  ∀ p ∈ parts, ∀ k item item', R (c.mark k item p.span) (c'.mark k item' p.span)

theorem Relates.cons (h : Relates R c c' parts) {p : Part} (hp : p ∈ parts) (k : Nat)
    {item item' : Node N F String} (hitem : item.Aligned R item')
    {entries entries' : List (Entry N F String)} (hrest : AlignedEntries R entries entries') :
    AlignedEntries R (c.mark k item p.span :: entries) (c'.mark k item' p.span :: entries') := by
  refine .cons (h p hp k item item') ?_ hrest
  rw [c.mark_item, c'.mark_item]
  exact hitem

theorem aligned_flag (htwins : Twins c c') (h : Relates R c c' parts) {e : Expr}
    (he : .expr e ∈ parts) (k : Nat) :
    AlignedEntries R ((c.flag? e).toList.map fun item => c.mark k item e.span)
      ((c'.flag? e).toList.map fun item => c'.mark k item e.span) := by
  rw [← htwins.flag? e]
  cases hf : c.flag? e with
  | none => exact .nil
  | some item => exact h.cons he k (.leaf (c.body?_flag hf)) .nil

mutual

theorem aligned_collect (htwins : Twins c c') (h : Relates R c c' parts) :
    ∀ b : Crate.Block, b.parts ⊆ parts →
    (c.collect b).Aligned R (c'.collect b)
  | ⟨stmts, value, rules, author, span⟩, hb => by
    rw [Block.parts, List.cons_subset, List.append_subset] at hb
    rw [Context.collect, Context.collect, htwins.leaves]
    exact .mk ((aligned_collectStmts htwins h 0 stmts hb.2.1).append
      (aligned_collectOptional htwins h stmts.length value hb.2.2))

theorem aligned_collectStmts (htwins : Twins c c') (h : Relates R c c' parts) (k : Nat) :
    ∀ stmts : List Stmt, partsOfStmts stmts ⊆ parts →
    AlignedEntries R (c.collectStmts k stmts) (c'.collectStmts k stmts)
  | [], _ => by
    rw [Context.collectStmts, Context.collectStmts]
    exact .nil
  | s :: stmts, hs => by
    rw [partsOfStmts, List.append_subset] at hs
    rw [Context.collectStmts, Context.collectStmts]
    exact (aligned_collectStmt htwins h k s hs.1).append
      (aligned_collectStmts htwins h (k + 1) stmts hs.2)

theorem aligned_collectStmt (htwins : Twins c c') (h : Relates R c c' parts) (k : Nat) :
    ∀ s : Stmt, s.parts ⊆ parts → AlignedEntries R (c.collectStmt k s) (c'.collectStmt k s)
  | .item _ _, _ => by
    rw [Context.collectStmt, Context.collectStmt]
    exact .nil
  | .plain _ _ e, hs => by
    rw [Stmt.parts, List.cons_subset] at hs
    rw [Context.collectStmt, Context.collectStmt]
    exact aligned_collectOptional htwins h k e hs.2

theorem aligned_collectOptional (htwins : Twins c c') (h : Relates R c c' parts) (k : Nat) :
    ∀ e : Option Expr, partsOfOptional e ⊆ parts →
    AlignedEntries R (c.collectOptional k e) (c'.collectOptional k e)
  | none, _ => by
    rw [Context.collectOptional, Context.collectOptional]
    exact .nil
  | some e, he => by
    rw [partsOfOptional] at he
    rw [Context.collectOptional, Context.collectOptional]
    exact aligned_collectExpr htwins h k e he

theorem aligned_collectExpr (htwins : Twins c c') (h : Relates R c c' parts) (k : Nat) :
    ∀ e : Expr, e.parts ⊆ parts → AlignedEntries R (c.collectExpr k e) (c'.collectExpr k e)
  | ⟨kind, span, operands, tag, op, signature, operandType, target⟩, he => by
    rw [Expr.parts, List.cons_subset] at he
    rw [Context.collectExpr_eq, Context.collectExpr_eq]
    refine (aligned_flag htwins h he.1 k).append ?_
    by_cases hk : kind = .closure
    · rw [if_pos hk, if_pos hk]
      exact aligned_collectClosure htwins h k he.1 rfl operands he.2
    · rw [if_neg hk, if_neg hk]
      exact aligned_collectOperands htwins h k operands he.2

theorem aligned_collectClosure (htwins : Twins c c') (h : Relates R c c' parts) (k : Nat) {p : Part}
    (hp : p ∈ parts) {span : Span} (hspan : p.span = span) :
    ∀ operands : List Operand, partsOfOperands operands ⊆ parts →
    AlignedEntries R (c.collectClosure k span operands) (c'.collectClosure k span operands)
  | [], _ => by
    rw [Context.collectClosure, Context.collectClosure]
    exact .nil
  | .expr _ :: operands, ho => by
    rw [partsOfOperands, List.append_subset] at ho
    rw [Context.collectClosure, Context.collectClosure]
    exact aligned_collectClosure htwins h k hp hspan operands ho.2
  | .block body :: _, ho => by
    rw [partsOfOperands, Operand.parts, List.append_subset] at ho
    rw [Context.collectClosure, Context.collectClosure, ← hspan]
    exact h.cons hp k (.closure (aligned_collect htwins h body ho.1)) .nil

theorem aligned_collectOperands (htwins : Twins c c') (h : Relates R c c' parts) (k : Nat) :
    ∀ operands : List Operand, partsOfOperands operands ⊆ parts →
    AlignedEntries R (c.collectOperands k operands) (c'.collectOperands k operands)
  | [], _ => by
    rw [Context.collectOperands, Context.collectOperands]
    exact .nil
  | .expr e :: operands, ho => by
    rw [partsOfOperands, Operand.parts, List.append_subset] at ho
    rw [Context.collectOperands, Context.collectOperands]
    exact (aligned_collectExpr htwins h k e ho.1).append
      (aligned_collectOperands htwins h k operands ho.2)
  | .block ⟨stmts, value, rules, author, span⟩ :: operands, ho => by
    rw [partsOfOperands, Operand.parts, List.append_subset] at ho
    rw [Context.collectOperands, Context.collectOperands]
    exact h.cons (ho.1 (Block.mem_parts _)) k
      (.inner (aligned_collect htwins h ⟨stmts, value, rules, author, span⟩ ho.1))
      (aligned_collectOperands htwins h k operands ho.2)

end

end Collect

/-- What can become of an origin when more names are taken for derived traits. -/
def Origin.Derives (o o' : Origin) : Prop :=
  o' = o ∨ o = .externalMacro ∧ o' = .deriveMacro

/-- What can become of an origin when definitions of macros may start with more words. -/
def Origin.Localizes (o o' : Origin) : Prop :=
  o' = o ∨ (o = .externalMacro ∨ o = .deriveMacro) ∧ o' = .localMacro

namespace SourceMap

variable {m : SourceMap} {settings : Settings} {s : Span} {x : Expansion} {o : Origin}

theorem origin_of_none (hx : m.expansion? s = none) : m.origin settings s = .ok .notMacro := by
  rw [origin, hx]

theorem origin_of_local (hx : m.expansion? s = some x) (h : m.isExternal settings x = .ok false) :
    m.origin settings s = .ok .localMacro := by
  simp only [origin, hx, h]
  rfl

theorem origin_of_external {text : String} (hx : m.expansion? s = some x)
    (h : m.isExternal settings x = .ok true) (ht : m.siteText s x = .ok text) :
    m.origin settings s =
      .ok (if settings.isDeriveName text then .deriveMacro else .externalMacro) := by
  simp only [origin, hx, h, ht]
  cases hname : settings.isDeriveName text with
  | false => simp [hname, bind, Except.bind, pure, Except.pure]
  | true => simp [hname, bind, Except.bind, pure, Except.pure]

theorem origin_cases (h : m.origin settings s = .ok o) :
    m.expansion? s = none ∨
      ∃ x, m.expansion? s = some x ∧
        (m.isExternal settings x = .ok false ∨
          m.isExternal settings x = .ok true ∧ ∃ text, m.siteText s x = .ok text) := by
  unfold origin at h
  cases hx : m.expansion? s with
  | none => exact .inl rfl
  | some x =>
    refine .inr ⟨x, rfl, ?_⟩
    rw [hx] at h
    cases hexternal : m.isExternal settings x with
    | error => simp [hexternal, bind, Except.bind] at h
    | ok external =>
      cases external with
      | false => exact .inl rfl
      | true =>
        cases hsite : m.siteText s x with
        | error => simp [hexternal, hsite, bind, Except.bind] at h
        | ok text => exact .inr ⟨rfl, text, rfl⟩

/-- With more names of derived traits, an origin turns from external to derived or stays as it
is. -/
theorem origin_derives {names extra : List String}
    (hnames : ∀ name, name ∈ settings.deriveNames ∨ name ∈ settings.extraDeriveNames →
        name ∈ names ∨ name ∈ extra)
    (h : m.origin settings s = .ok o) :
    ∃ o', m.origin { settings with deriveNames := names, extraDeriveNames := extra } s = .ok o' ∧
      o.Derives o' := by
  rcases origin_cases h with hx | ⟨x, hx, hlocal | ⟨hexternal, text, htext⟩⟩
  · rw [origin_of_none hx] at h
    exact ⟨_, origin_of_none hx, .inl (Except.ok.inj h)⟩
  · rw [origin_of_local hx hlocal] at h
    exact ⟨_, origin_of_local hx hlocal, .inl (Except.ok.inj h)⟩
  · rw [origin_of_external hx hexternal htext] at h
    refine ⟨_, origin_of_external hx hexternal htext, ?_⟩
    have hderive : settings.isDeriveName text →
        Settings.isDeriveName { settings with deriveNames := names, extraDeriveNames := extra }
          text := by
      simpa [Settings.isDeriveName] using hnames text
    rw [← Except.ok.inj h]
    by_cases hname : settings.isDeriveName text
    · rw [if_pos hname, if_pos (hderive hname)]
      exact .inl rfl
    · rw [if_neg hname]
      by_cases hname' : Settings.isDeriveName
        { settings with deriveNames := names, extraDeriveNames := extra } text
      · rw [if_pos hname']
        exact .inr ⟨rfl, rfl⟩
      · rw [if_neg hname']
        exact .inl rfl

theorem isExternal_of_subset {words : List String}
    (hwords : ∀ k ∈ settings.definitionKeywords, k ∈ words) {external : Bool}
    (h : m.isExternal settings x = .ok external) :
    ∃ external', m.isExternal { settings with definitionKeywords := words } x = .ok external' ∧
      (external' → external) := by
  unfold isExternal at h ⊢
  split at h
  · next site _ hsite =>
    cases hcode : m.snippet? site with
    | error => simp [hcode, bind, Except.bind] at h
    | ok code =>
      cases code with
      | none =>
        rw [hcode] at h
        exact ⟨true, rfl, fun _ => (Except.ok.inj h).symm⟩
      | some code =>
        rw [hcode] at h
        refine ⟨_, rfl, ?_⟩
        rw [← Except.ok.inj h]
        simp only [Bool.not_eq_true', List.any_eq_false]
        intro hnone k hk
        exact hnone k (hwords k hk)
  · exact ⟨true, rfl, fun _ => (Except.ok.inj h).symm⟩

/-- With more words that definitions start with, an origin turns to local or stays as it is. -/
theorem origin_localizes {words : List String}
    (hwords : ∀ k ∈ settings.definitionKeywords, k ∈ words) (h : m.origin settings s = .ok o) :
    ∃ o', m.origin { settings with definitionKeywords := words } s = .ok o' ∧ o.Localizes o' := by
  rcases origin_cases h with hx | ⟨x, hx, hlocal | ⟨hexternal, text, htext⟩⟩
  · rw [origin_of_none hx] at h
    exact ⟨_, origin_of_none hx, .inl (Except.ok.inj h)⟩
  · rw [origin_of_local hx hlocal] at h
    obtain ⟨external', hexternal', himp⟩ := isExternal_of_subset hwords hlocal
    cases external' with
    | true => cases himp rfl
    | false => exact ⟨_, origin_of_local hx hexternal', .inl (Except.ok.inj h)⟩
  · rw [origin_of_external hx hexternal htext] at h
    obtain ⟨external', hexternal', -⟩ := isExternal_of_subset hwords hexternal
    cases external' with
    | true => exact ⟨_, origin_of_external hx hexternal' htext, .inl (Except.ok.inj h)⟩
    | false =>
      refine ⟨_, origin_of_local hx hexternal', .inr ⟨?_, rfl⟩⟩
      rw [← Except.ok.inj h]
      split
      · exact .inr rfl
      · exact .inl rfl

end SourceMap

namespace Record

variable {N F T : Type} (shift : Origin → Origin → Prop)

/-- Entries that differ in their origin only, by a shift. What is nested in them is left out. -/
def Entry.Shifts (e e' : Entry N F T) : Prop :=
  e'.index = e.index ∧ e'.span = e.span ∧ e'.snippet = e.snippet ∧ shift e.origin e'.origin

/-- Functions that differ only in origins, by shifts: in their own and in those of the entries at
any depth. -/
structure Function.Shifts (f f' : Function N F T) : Prop where
  name : f'.name = f.name
  restricted : f'.restricted = f.restricted
  span : f'.span = f.span
  origin : shift f.origin f'.origin
  block : f.block.Aligned (Entry.Shifts shift) f'.block

structure Shifts (r r' : Record N F T) : Prop where
  name : r'.name = r.name
  crateType : r'.crateType = r.crateType
  length : r'.functions.length = r.functions.length
  function : ∀ (i : Nat) (f f' : Function N F T), r.functions[i]? = some f →
    r'.functions[i]? = some f' →
    f.Shifts shift f'

end Record

theorem Context.mark_of_canRecord {N F T : Type} {c : Context N F T} {s : Span}
    (h : c.CanRecord s) :
    ∃ snippet o, c.excerpt s = .ok snippet ∧ c.source.origin c.settings s = .ok o ∧ ∀ k item,
      c.mark k item s =
        ⟨c.leaves.count k, c.leaves.text s.text, c.leaves.text snippet, o, item⟩ := by
  obtain ⟨hkey, o, ho⟩ := h
  obtain ⟨snippet, hsnippet⟩ := (excerpt_answers (c := c)).eq_ok hkey
  refine ⟨snippet, o, hsnippet, ho, fun k item => ?_⟩
  unfold mark entry
  rw [hsnippet, ho]
  rfl

theorem Context.origin_declare {N F T : Type} {c : Context N F T} {f : FnItem} {o : Origin}
    (h : c.source.origin c.settings f.span = .ok o) : (c.declare f).origin = o := by
  simp only [declare, h]

section Shifts

variable {crate : Crate} {settings settings' : Settings} {shift : Origin → Origin → Prop}
  (htext : crate.HasTextFiles)
  (hexcerpt : ∀ s, (crate.context settings').excerpt s = (crate.context settings).excerpt s)
  (hshift : ∀ s o, crate.source.origin settings s = .ok o →
    ∃ o', crate.source.origin settings' s = .ok o' ∧ shift o o')

include htext hexcerpt hshift in
theorem Crate.relates_shifts :
    Collect.Relates (Entry.Shifts shift) (crate.context settings) (crate.context settings')
      (partsOfItems crate.items) := by
  intro p hp k item item'
  have hcan : (crate.context settings).CanRecord p.span := canRecord_of_hasTextFiles htext hp
  have hcan' : (crate.context settings').CanRecord p.span := canRecord_of_hasTextFiles htext hp
  obtain ⟨snippet, o, hsnippet, ho, hmark⟩ := Context.mark_of_canRecord hcan
  obtain ⟨snippet', o', hsnippet', ho', hmark'⟩ := Context.mark_of_canRecord hcan'
  have hsame : snippet' = snippet := by
    rw [hexcerpt, hsnippet] at hsnippet'
    exact (Except.ok.inj hsnippet').symm
  obtain ⟨o'', ho'', hchange⟩ := hshift p.span o ho
  have horigin : o' = o'' := Except.ok.inj (ho'.symm.trans ho'')
  rw [hmark, hmark', hsame, horigin]
  exact ⟨rfl, rfl, rfl, hchange⟩

include htext hexcerpt hshift in
theorem Crate.audit_shifts (hformed : Load.Formed (partsOfItems crate.items))
    (htwins : Collect.Twins (crate.context settings) (crate.context settings')) :
    ∃ r r', (crate.audit (crate.context settings)).1 = .ok r ∧
      (crate.audit (crate.context settings')).1 = .ok r' ∧
      r.Shifts shift r' := by
  refine ⟨_, _, audit_of_formed hformed htext, audit_of_formed hformed htext, rfl, rfl, ?_, ?_⟩
  · rw [List.length_map, List.length_map]
  · intro i f f' hf hf'
    rw [List.getElem?_map] at hf hf'
    obtain ⟨g, hg, rfl⟩ := Option.map_eq_some_iff.mp hf
    rw [hg] at hf'
    obtain rfl : (crate.context settings').declare g = f' := Option.some.inj hf'
    have hparts := parts_of_mem_listing (List.mem_of_getElem? hg)
    rw [Item.parts_fn, List.cons_subset] at hparts
    have hcan : (crate.context settings).CanRecord g.span :=
      canRecord_of_hasTextFiles htext hparts.1
    obtain ⟨o, ho⟩ := hcan.2
    obtain ⟨o', ho', hchange⟩ := hshift g.span o ho
    have horigin : ((crate.context settings).declare g).origin = o := Context.origin_declare ho
    have horigin' : ((crate.context settings').declare g).origin = o' := Context.origin_declare ho'
    refine ⟨rfl, rfl, rfl, ?_, ?_⟩
    · rw [horigin, horigin']
      exact hchange
    · exact Collect.aligned_collect htwins (relates_shifts htext hexcerpt hshift) g.body hparts.2

end Shifts

/-- The settings for origins work one way, over whole records of crates that were read from dumps.
More names of derived traits change nothing but origins, and those only from external to derived.
More words that definitions of macros start with change nothing but origins, and those only from
external or derived to local. -/
theorem origins_shift_of_reads (text : String) (crate : Crate) (settings : Settings)
    (hread : Load.Reads text crate) (htext : crate.HasTextFiles) :
    (∀ names extra : List String,
      (∀ name, name ∈ settings.deriveNames ∨ name ∈ settings.extraDeriveNames →
          name ∈ names ∨ name ∈ extra) →
      ∃ r r', (crate.audit (crate.context settings)).1 = .ok r ∧
        (crate.audit (crate.context
            { settings with deriveNames := names, extraDeriveNames := extra })).1 = .ok r' ∧
        r.Shifts Origin.Derives r') ∧
    ∀ words : List String, (∀ word ∈ settings.definitionKeywords, word ∈ words) →
      ∃ r r', (crate.audit (crate.context settings)).1 = .ok r ∧
        (crate.audit (crate.context { settings with definitionKeywords := words })).1 = .ok r' ∧
        r.Shifts Origin.Localizes r' := by
  have hformed := Load.formed_of_reads hread
  refine ⟨fun names extra hnames => ?_, fun words hwords => ?_⟩
  · exact audit_shifts htext (fun _ => rfl) (fun _ _ => SourceMap.origin_derives hnames) hformed
      (Collect.twins_of_settings .exact (fun _ => Iff.rfl) rfl)
  · exact audit_shifts htext (fun _ => rfl) (fun _ _ => SourceMap.origin_localizes hwords) hformed
      (Collect.twins_of_settings .exact (fun _ => Iff.rfl) rfl)

/-- A function that a macro wrote, around a closure that another macro wrote. One line of the file
defines that macro, and the others are names that may be those of traits. -/
def expandedDump : Value :=
  let place (line : Int) (expansion : Value) : Value :=
    .object [("file", .str "a.rs"), ("lo_line", .int line), ("lo_col", .int 1),
      ("hi_line", .int line), ("hi_col", .int 6), ("expn_id", expansion)]
  let deref (span : Value) : Value := .object [("kind", .str "unary"), ("op", .str "deref"),
    ("operand_ty", .str "raw_ptr"), ("span", span)]
  let stmt (expr : Value) : Value := .object [("kind", .str "semi"), ("expr", expr)]
  let body : Value :=
    .object [("stmts", .list [stmt (deref (place 2 (.int 2))), stmt (deref (place 1 (.int 1)))]),
      ("expr", deref (place 3 .null))]
  let closure : Value :=
    .object [("kind", .str "closure"), ("body", body), ("span", place 3 (.int 2))]
  .object [("name", .str "k"),
    ("items", .list [.object [("kind", .str "fn"), ("span", place 1 (.int 1)),
      ("body", .object [("stmts", .list []), ("expr", closure)])]]),
    ("files", .object [("a.rs", .str "Serde\ndef_m!\nClone")]),
    ("expansions", .list [.object [("id", .int 1), ("format", .str "attribute")],
      .object [("id", .int 2), ("def_site", place 2 .null)]])]

def Record.origins (r : ExactRecord) : List Origin :=
  r.functions.flatMap fun f => f.origin :: f.block.flatten.map Entry.origin

theorem origins_shift_expandedDump :
    ∃ crate r r' r'', Load.Reads (Json.write Json.compact expandedDump) crate ∧ crate.HasTextFiles ∧
      (crate.audit (crate.context {})).1 = .ok r ∧
      (crate.audit (crate.context { extraDeriveNames := ["Serde"] })).1 = .ok r' ∧
      (crate.audit (crate.context { definitionKeywords := ["def_m", "macro_rules"] })).1 = .ok r'' ∧
      r.origins = [.externalMacro, .deriveMacro, .externalMacro, .externalMacro, .notMacro] ∧
      r'.origins = [.deriveMacro, .deriveMacro, .externalMacro, .deriveMacro, .notMacro] ∧
      r''.origins = [.externalMacro, .localMacro, .localMacro, .externalMacro, .notMacro] ∧
      r.Shifts Origin.Derives r' ∧ r.Shifts Origin.Localizes r'' := by
  have hcheck : (Load.crate expandedDump).toOption.any (fun crate =>
      crate.spans.all Span.hasTextFile &&
        ((crate.audit (crate.context {})).1.toOption.any fun r =>
          r.origins == [.externalMacro, .deriveMacro, .externalMacro, .externalMacro, .notMacro]) &&
        ((crate.audit (crate.context { extraDeriveNames := ["Serde"] })).1.toOption.any fun r =>
          r.origins == [.deriveMacro, .deriveMacro, .externalMacro, .deriveMacro, .notMacro]) &&
        ((crate.audit (crate.context
            { definitionKeywords := ["def_m", "macro_rules"] })).1.toOption.any fun r =>
          r.origins == [.externalMacro, .localMacro, .localMacro, .externalMacro, .notMacro])) := by
    decide +kernel
  obtain ⟨crate, hread, hcheck⟩ := Load.exists_reads_write (by decide +kernel) hcheck
  simp only [Bool.and_eq_true, List.all_eq_true] at hcheck
  obtain ⟨⟨⟨hfiles, hplain⟩, hnames⟩, hwords⟩ := hcheck
  obtain ⟨hderives, hlocalizes⟩ := origins_shift_of_reads _ crate {} hread hfiles
  obtain ⟨r, r', hr, hr', hshifts⟩ := hderives ({} : Settings).deriveNames ["Serde"] (by simp)
  obtain ⟨s, r'', hs, hr'', hshifts'⟩ := hlocalizes ["def_m", "macro_rules"] (by decide)
  obtain rfl : r = s := Except.ok.inj (hr.symm.trans hs)
  rw [hr] at hplain
  rw [hr'] at hnames
  rw [hr''] at hwords
  exact ⟨crate, r, r', r'', hread, hfiles, hr, hr', hr'', eq_of_beq hplain, eq_of_beq hnames,
    eq_of_beq hwords, hshifts, hshifts'⟩

end CrateAudit
