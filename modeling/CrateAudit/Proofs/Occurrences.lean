import CrateAudit.Proofs.Totality

namespace CrateAudit

open Crate

namespace Crate

section Positions

/-- The places right below an expression or a block, in order: its operands, or one place for each
statement and one for the trailing expression, which may be empty. -/
def Operand.places : Operand → List (Option Operand)
  | .expr e => e.operands.map some
  | .block b => (b.stmts.map Stmt.expr? ++ [b.value]).map (Option.map .expr)

def Operand.below? (o : Operand) (k : Nat) : Option Operand :=
  o.places[k]?.join

/-- What stands at a position, which is given by the numbers of the places on the way to it. -/
def Operand.at? (o : Operand) : List Nat → Option Operand
  | [] => some o
  | k :: p => (o.below? k).bind fun c => c.at? p

def Operand.isBlock : Operand → Bool
  | .block _ => true
  | .expr _ => false

def Expr.bodyIndex (e : Expr) : Nat :=
  e.operands.findIdx Operand.isBlock

/-- A closure is left out of all places below it but that of its body. -/
def Operand.omits : Operand → Nat → Bool
  | .expr e, k => e.kind == .closure && k != e.bodyIndex
  | .block _, _ => false

/-- The way to a position goes through an operand of a closure that is not its body. -/
def Operand.Omitted (o : Operand) (p : List Nat) : Prop :=
  ∃ q c k r, p = q ++ k :: r ∧ o.at? q = some c ∧ c.omits k

variable {o c : Operand} {k : Nat} {p : List Nat}

theorem Operand.below_cases (h : o.below? k = some c) :
    (∃ e, o = .expr e ∧ c ∈ e.operands) ∨
      ∃ b e, o = .block b ∧ c = .expr e ∧
        ((∃ s ∈ b.stmts, s.expr? = some e) ∨ b.value = some e) := by
  rw [Operand.below?, Option.join_eq_some_iff] at h
  have hmem : some c ∈ o.places := List.mem_of_getElem? h
  cases o with
  | expr e =>
    obtain ⟨c', hc, h⟩ := List.mem_map.mp hmem
    cases h
    exact .inl ⟨e, rfl, hc⟩
  | block b =>
    obtain ⟨e, he, h⟩ := List.mem_map.mp hmem
    obtain ⟨e, rfl, rfl⟩ := Option.map_eq_some_iff.mp h
    refine .inr ⟨b, e, rfl, rfl, ?_⟩
    rcases List.mem_append.mp he with he | he
    · obtain ⟨s, hs, h⟩ := List.mem_map.mp he
      exact .inl ⟨s, hs, h⟩
    · exact .inr (List.mem_singleton.mp he).symm

theorem Stmt.eq_plain {s : Stmt} {e : Expr} (h : s.expr? = some e) :
    ∃ form span, s = .plain form span (some e) := by
  cases s with
  | item => cases h
  | plain form span e =>
    cases h
    exact ⟨form, span, rfl⟩

theorem Operand.sizeOf_below (h : o.below? k = some c) : sizeOf c < sizeOf o := by
  rcases Operand.below_cases h with ⟨e, rfl, hc⟩ | ⟨b, e, rfl, rfl, he⟩
  · obtain ⟨_, _, operands, _, _, _, _, _⟩ := e
    have hlt := List.sizeOf_lt_of_mem hc
    simp only [Operand.expr.sizeOf_spec, Expr.mk.sizeOf_spec]
    dsimp only at hlt
    omega
  · obtain ⟨stmts, value, _, _, _⟩ := b
    simp only [Operand.expr.sizeOf_spec, Operand.block.sizeOf_spec, Block.mk.sizeOf_spec]
    rcases he with ⟨s, hs, he⟩ | rfl
    · obtain ⟨form, span, rfl⟩ := Stmt.eq_plain he
      have hlt := List.sizeOf_lt_of_mem hs
      simp only [Stmt.plain.sizeOf_spec, Option.some.sizeOf_spec] at hlt
      omega
    · rw [Option.some.sizeOf_spec]
      omega

def Operand.entered (o : Operand) : List (Nat × Operand) :=
  (List.range o.places.length).filterMap fun k =>
    if o.omits k then none else (o.below? k).map (k, ·)

theorem Operand.mem_entered : (k, c) ∈ o.entered ↔ o.omits k = false ∧ o.below? k = some c := by
  rw [Operand.entered, List.mem_filterMap]
  constructor
  · rintro ⟨j, -, h⟩
    split at h
    · cases h
    · next homits =>
      obtain ⟨d, hd, hpair⟩ := Option.map_eq_some_iff.mp h
      cases hpair
      exact ⟨Bool.eq_false_iff.mpr homits, hd⟩
  · rintro ⟨homits, hbelow⟩
    refine ⟨k, ?_, by rw [homits, hbelow]; rfl⟩
    rw [Operand.below?, Option.join_eq_some_iff] at hbelow
    obtain ⟨hlt, -⟩ := List.getElem?_eq_some_iff.mp hbelow
    exact List.mem_range.mpr hlt

/-- The positions that a walk comes to, in the order of the walk. -/
def Operand.reached (o : Operand) : List (List Nat) :=
  [] :: o.entered.attach.flatMap fun way => way.val.2.reached.map (way.val.1 :: ·)
termination_by sizeOf o
decreasing_by exact Operand.sizeOf_below (Operand.mem_entered.mp way.property).2

theorem Operand.reached_eq (o : Operand) :
    o.reached = [] :: o.entered.flatMap fun way => way.2.reached.map (way.1 :: ·) := by
  have hflat : (o.entered.attach.flatMap fun way => way.val.2.reached.map (way.val.1 :: ·)) =
      o.entered.attach.unattach.flatMap fun way => way.2.reached.map (way.1 :: ·) :=
    List.flatMap_subtype fun _ _ => rfl
  rw [Operand.reached, hflat, List.unattach_attach]

theorem Operand.below_induction {motive : Operand → Prop}
    (step : ∀ o, (∀ k c, o.below? k = some c → motive c) → motive o) (o : Operand) : motive o := by
  induction hn : sizeOf o using Nat.strongRecOn generalizing o with
  | ind n ih => exact step o fun k c h => ih (sizeOf c) (hn ▸ Operand.sizeOf_below h) c rfl

theorem Operand.not_omitted_nil (o : Operand) : ¬o.Omitted [] := by
  rintro ⟨q, c, k, r, h, -⟩
  exact absurd h.symm (by simp)

theorem Operand.omitted_cons :
    o.Omitted (k :: p) ↔ o.omits k ∨ ∃ c, o.below? k = some c ∧ c.Omitted p := by
  constructor
  · rintro ⟨q, c, j, r, h, hc, homits⟩
    cases q with
    | nil =>
      rw [List.nil_append, List.cons.injEq] at h
      cases hc
      exact .inl (h.1 ▸ homits)
    | cons i q =>
      rw [List.cons_append, List.cons.injEq] at h
      obtain ⟨rfl, rfl⟩ := h
      obtain ⟨d, hd, hc⟩ := Option.bind_eq_some_iff.mp hc
      exact .inr ⟨d, hd, q, c, j, r, rfl, hc, homits⟩
  · rintro (homits | ⟨d, hd, q, c, j, r, rfl, hc, homits⟩)
    · exact ⟨[], o, k, p, rfl, rfl, homits⟩
    · exact ⟨k :: q, c, j, r, rfl, Option.bind_eq_some_iff.mpr ⟨d, hd, hc⟩, homits⟩

/-- A walk comes to all positions where something stands but those that are omitted. -/
theorem Operand.mem_reached (o : Operand) (p : List Nat) :
    p ∈ o.reached ↔ (o.at? p).isSome ∧ ¬o.Omitted p := by
  induction p generalizing o with
  | nil =>
    rw [Operand.reached_eq]
    exact ⟨fun _ => ⟨rfl, o.not_omitted_nil⟩, fun _ => List.mem_cons_self⟩
  | cons k p ih =>
    have hreached : k :: p ∈ o.reached ↔ ∃ c, (k, c) ∈ o.entered ∧ p ∈ c.reached := by
      rw [Operand.reached_eq, List.mem_cons, List.mem_flatMap]
      constructor
      · rintro (h | ⟨⟨j, c⟩, hway, h⟩)
        · cases h
        · obtain ⟨q, hq, h⟩ := List.mem_map.mp h
          cases h
          exact ⟨c, hway, hq⟩
      · rintro ⟨c, hway, hp⟩
        exact .inr ⟨(k, c), hway, List.mem_map_of_mem hp⟩
    rw [hreached, Operand.omitted_cons, Operand.at?]
    cases hbelow : o.below? k with
    | none => simp [Operand.mem_entered, hbelow]
    | some c => simp [Operand.mem_entered, hbelow, ih, and_left_comm, and_assoc]

theorem Operand.entered_pairwise (o : Operand) :
    o.entered.Pairwise fun way way' => way.1 < way'.1 := by
  have hfst {k : Nat} {way : Nat × Operand}
      (h : (if o.omits k then none else (o.below? k).map (k, ·)) = some way) : way.1 = k := by
    split at h
    · cases h
    · obtain ⟨c, -, rfl⟩ := Option.map_eq_some_iff.mp h
      rfl
  rw [Operand.entered, List.pairwise_filterMap]
  refine List.pairwise_lt_range.imp fun {j k} hlt way hway way' hway' => ?_
  rw [hfst hway, hfst hway']
  exact hlt

/-- A walk goes through the positions in the order of the text, and so to none twice. -/
theorem Operand.reached_pairwise (o : Operand) : o.reached.Pairwise (List.Lex (· < ·)) := by
  induction o using Operand.below_induction with
  | step o ih =>
    rw [Operand.reached_eq, List.pairwise_cons, List.pairwise_flatMap]
    refine ⟨?_, ?_, o.entered_pairwise.imp ?_⟩
    · intro p hp
      obtain ⟨way, -, hp⟩ := List.mem_flatMap.mp hp
      obtain ⟨q, -, rfl⟩ := List.mem_map.mp hp
      exact .nil
    · intro way hway
      have hbelow := (Operand.mem_entered.mp hway).2
      exact List.pairwise_map.mpr ((ih way.1 way.2 hbelow).imp .cons)
    · intro way way' hlt p hp p' hp'
      obtain ⟨q, -, rfl⟩ := List.mem_map.mp hp
      obtain ⟨q', -, rfl⟩ := List.mem_map.mp hp'
      exact .rel hlt

theorem Operand.reached_nodup (o : Operand) : o.reached.Nodup := by
  refine o.reached_pairwise.imp fun {p q} h heq => ?_
  exact List.lex_irrefl Nat.lt_irrefl q (heq ▸ h)

end Positions

section Walk

variable {α β : Type} {o : Operand}

def Visit.operand? : Visit → Option Operand
  | .expr e => some (.expr e)
  | .block b => some (.block b)
  | .item _ | .nested _ | .fn _ _ | .stmt _ => none

def met (visits : List Visit) : List Operand :=
  visits.filterMap Visit.operand?

def Operand.meets : Operand → List Operand
  | .expr e => met e.walk
  | .block b => met b.walk

theorem met_append (visits visits' : List Visit) :
    met (visits ++ visits') = met visits ++ met visits' :=
  List.filterMap_append

theorem Operand.flatMap_entered (f : Operand → List β) :
    (o.entered.flatMap fun way => f way.2) =
      (List.range o.places.length).flatMap fun k =>
        if o.omits k then [] else (o.below? k).toList.flatMap f := by
  rw [Operand.entered]
  induction List.range o.places.length with
  | nil => rfl
  | cons k ks ih =>
    rw [List.flatMap_cons, ← ih]
    cases homits : o.omits k with
    | true => simp [homits]
    | false => cases hbelow : o.below? k <;> simp [homits, hbelow]

theorem flatMap_range_getElem? (as : List α) (f : Option α → List β) :
    ((List.range as.length).flatMap fun k => f as[k]?) = as.flatMap fun a => f (some a) := by
  have hmap : (List.range as.length).map (fun k => as[k]?) = as.map some := by
    apply List.ext_getElem <;> simp
  calc ((List.range as.length).flatMap fun k => f as[k]?)
      = ((List.range as.length).map fun k => as[k]?).flatMap f := by rw [List.flatMap_map]
    _ = as.flatMap fun a => f (some a) := by rw [hmap, List.flatMap_map]

theorem Operand.flatMap_entered_of_not_omits (h : ∀ k, o.omits k = false) (f : Operand → List β) :
    (o.entered.flatMap fun way => f way.2) = o.places.flatMap fun c => c.toList.flatMap f := by
  have hplaces := flatMap_range_getElem? o.places fun c => c.join.toList.flatMap f
  rw [o.flatMap_entered]
  simp only [h, Bool.false_eq_true, if_false]
  exact hplaces

theorem met_walkOptional (e : Option Expr) :
    met (walkOptional e) = (e.map .expr).toList.flatMap Operand.meets := by
  cases e with
  | none => rfl
  | some e => simp [walkOptional, Operand.meets]

theorem met_walkStmts (stmts : List Stmt) :
    met (walkStmts stmts) =
      stmts.flatMap fun s => (s.expr?.map .expr).toList.flatMap Operand.meets := by
  induction stmts with
  | nil => rfl
  | cons s stmts ih =>
    have hstmt : met s.walk = (s.expr?.map .expr).toList.flatMap Operand.meets := by
      cases s with
      | item span i => rfl
      | plain form span e =>
        rw [Stmt.walk]
        exact met_walkOptional e
    rw [walkStmts, met_append, List.flatMap_cons, ih, hstmt]

theorem met_walkOperands (operands : List Operand) :
    met (walkOperands operands) = operands.flatMap Operand.meets := by
  induction operands with
  | nil => rfl
  | cons c operands ih =>
    cases c with
    | expr e => rw [walkOperands, met_append, ih, List.flatMap_cons, Operand.meets]
    | block b => rw [walkOperands, met_append, ih, List.flatMap_cons, Operand.meets]

theorem met_walkBody (operands : List Operand) :
    met (walkBody operands) = (List.range operands.length).flatMap fun k =>
      if k = operands.findIdx Operand.isBlock then operands[k]?.toList.flatMap Operand.meets
      else [] := by
  induction operands with
  | nil => rfl
  | cons c operands ih =>
    cases c with
    | expr e =>
      simp [walkBody, ih, List.range_succ_eq_map, List.flatMap_map, List.findIdx_cons,
        Operand.isBlock]
    | block b =>
      simp [walkBody, List.range_succ_eq_map, List.flatMap_map, List.findIdx_cons, Operand.isBlock,
        Operand.meets]

theorem Operand.below?_expr (e : Expr) (k : Nat) : (Operand.expr e).below? k = e.operands[k]? := by
  rw [Operand.below?, Operand.places, List.getElem?_map]
  cases e.operands[k]? <;> rfl

theorem Operand.omits_closure {e : Expr} (h : e.kind = .closure) (k : Nat) :
    (Operand.expr e).omits k = true ↔ k ≠ e.bodyIndex := by
  simp [Operand.omits, h]

/-- A walk meets what it starts from, and then what it meets from the places below that it goes on
to. -/
theorem Operand.meets_eq (o : Operand) :
    o.meets = o :: o.entered.flatMap fun way => way.2.meets := by
  cases o with
  | block b =>
    obtain ⟨stmts, value, rules, author, span⟩ := b
    rw [Operand.flatMap_entered_of_not_omits (by intro k; rfl), Operand.places,
      Operand.meets, Block.walk]
    have hbelow : met (walkStmts stmts ++ walkOptional value) =
        ((stmts.map Stmt.expr? ++ [value]).map (Option.map .expr)).flatMap
          fun c => c.toList.flatMap Operand.meets := by
      simp [met_append, met_walkStmts, met_walkOptional, List.flatMap_map]
    exact congrArg _ hbelow
  | expr e =>
    obtain ⟨kind, span, operands, tag, op, signature, operandType, target⟩ := e
    rw [Operand.meets, Expr.walk]
    by_cases hk : kind = .closure
    · subst hk
      rw [if_pos rfl, Operand.flatMap_entered]
      simp only [Operand.places, List.length_map, Operand.below?_expr,
        Operand.omits_closure, ite_not]
      exact congrArg _ (met_walkBody operands)
    · rw [if_neg hk, Operand.flatMap_entered_of_not_omits (fun k => by simp [Operand.omits, hk]),
        Operand.places, List.flatMap_map]
      have hbelow : met (walkOperands operands) =
          operands.flatMap fun c => (some c).toList.flatMap Operand.meets := by
        simp [met_walkOperands]
      exact congrArg _ hbelow

/-- What a walk meets is what stands at the positions that it comes to. -/
theorem Operand.map_at?_reached (o : Operand) : o.reached.map o.at? = o.meets.map some := by
  induction o using Operand.below_induction with
  | step o ih =>
    have hway : ∀ way ∈ o.entered, (way.2.reached.map (way.1 :: ·)).map o.at? =
        way.2.meets.map some := by
      intro way hway
      have hbelow := (Operand.mem_entered.mp hway).2
      rw [List.map_map, ← ih way.1 way.2 hbelow]
      apply List.map_congr_left
      intro p _
      change o.at? (way.1 :: p) = way.2.at? p
      rw [Operand.at?, hbelow, Option.bind_some]
    rw [Operand.reached_eq, o.meets_eq, List.map_cons, List.map_cons, List.map_flatMap,
      List.map_flatMap, List.flatMap_def, List.flatMap_def, List.map_congr_left hway]
    rfl

mutual

theorem Item.met_walk : ∀ i : Item, met i.walk = i.functions.flatMap fun f => met f.body.walk
  | .fn f => by
    rw [Item.walk, Item.functions, met_append, List.flatMap_singleton]
    rfl
  | .container c => by
    rw [Item.walk, Item.functions, ← c.met_walk]
    rfl

theorem Container.met_walk :
    ∀ c : Container, met c.walk = c.functions.flatMap fun f => met f.body.walk
  | ⟨_, _, items, _⟩ => by
    rw [Container.walk, Container.functions, met_walkItems items]

theorem met_walkItems : ∀ items : List Item,
    met (walkItems items) = (functionsOf items).flatMap fun f => met f.body.walk
  | [] => rfl
  | i :: items => by
    rw [walkItems, functionsOf, met_append, List.flatMap_append, i.met_walk, met_walkItems items]

end

end Walk

section Closures

variable {o c : Operand} {p q : List Nat}

theorem Operand.at?_append (o : Operand) (p q : List Nat) :
    o.at? (p ++ q) = (o.at? p).bind fun c => c.at? q := by
  induction p generalizing o with
  | nil => rfl
  | cons k p ih =>
    rw [List.cons_append, Operand.at?, Operand.at?]
    cases o.below? k with
    | none => rfl
    | some c => exact ih c

theorem Operand.parts_below {k : Nat} (h : o.below? k = some c) : c.parts ⊆ o.parts := by
  intro part hpart
  rcases Operand.below_cases h with ⟨e, rfl, hc⟩ | ⟨b, e, rfl, rfl, he⟩
  · cases e
    rw [Operand.parts, Expr.parts, partsOfOperands_eq]
    exact List.mem_cons_of_mem _ (List.mem_flatMap.mpr ⟨c, hc, hpart⟩)
  · cases b
    rw [Operand.parts] at hpart
    rw [Operand.parts, Block.parts, partsOfStmts_eq]
    apply List.mem_cons_of_mem
    rcases he with ⟨s, hs, he⟩ | rfl
    · obtain ⟨form, span, rfl⟩ := Stmt.eq_plain he
      refine List.mem_append_left _ (List.mem_flatMap.mpr ⟨_, hs, ?_⟩)
      rw [Stmt.parts, partsOfOptional]
      exact List.mem_cons_of_mem _ hpart
    · rw [partsOfOptional]
      exact List.mem_append_right _ hpart

theorem Operand.parts_at? (h : o.at? p = some c) : c.parts ⊆ o.parts := by
  induction p generalizing o with
  | nil =>
    cases h
    exact List.Subset.refl _
  | cons k p ih =>
    obtain ⟨d, hd, hc⟩ := Option.bind_eq_some_iff.mp h
    exact List.Subset.trans (ih hc) (Operand.parts_below hd)

theorem Operand.exists_body (hformed : Load.Formed o.parts) {e : Expr}
    (h : o.at? p = some (.expr e)) (hk : e.kind = .closure) : ∃ b, .block b ∈ e.operands := by
  have hmem : Part.expr e ∈ o.parts := by
    apply Operand.parts_at? h
    cases e
    rw [Operand.parts, Expr.parts]
    exact List.mem_cons_self
  have hruns := Part.runs_of_wellFormed (hformed _ hmem)
  simp only [Part.runs, hk, ne_eq, not_true_eq_false, decide_false, Bool.false_or] at hruns
  exact Expr.isSome_body?_iff.mp hruns

/-- Nothing is omitted if and only if each closure, which must have a body, has no other operand. -/
theorem Operand.not_omitted_iff
    (hbody : ∀ p e, o.at? p = some (.expr e) → e.kind = .closure → ∃ b, .block b ∈ e.operands) :
    (∀ p, (o.at? p).isSome → ¬o.Omitted p) ↔
      ∀ p e, o.at? p = some (.expr e) → e.kind = .closure → ∃ b, e.operands = [.block b] := by
  constructor
  · intro h p e hp hk
    obtain ⟨b, hb⟩ := hbody p e hp hk
    -- an operand that is not at the place of the body would stand at a position that is omitted
    have honly : ∀ k, k < e.operands.length → k = e.bodyIndex := by
      intro k hk'
      apply Decidable.byContradiction
      intro hne
      refine h (p ++ [k]) ?_ ⟨p, .expr e, k, [], rfl, hp, (Operand.omits_closure hk k).mpr hne⟩
      simp [Operand.at?_append, hp, Operand.at?, Operand.below?_expr, hk']
    have hlength : e.operands.length = 1 := by
      have hpos := List.length_pos_of_mem hb
      apply Decidable.byContradiction
      intro hlong
      have hfirst := honly 0 hpos
      have hsecond := honly 1 (by omega)
      omega
    obtain ⟨c, hc⟩ := List.length_eq_one_iff.mp hlength
    rw [hc, List.mem_singleton] at hb
    exact ⟨b, by rw [hc, hb]⟩
  · rintro h p hp ⟨q, c, k, r, rfl, hq, homits⟩
    cases c with
    | block b => cases homits
    | expr e =>
      have hk : e.kind = .closure := by
        simp only [Operand.omits, Bool.and_eq_true, beq_iff_eq] at homits
        exact homits.1
      obtain ⟨b, hb⟩ := h q e hq hk
      have hne := (Operand.omits_closure hk k).mp homits
      have hindex : e.bodyIndex = 0 := by
        rw [Expr.bodyIndex, hb]
        rfl
      rw [Operand.at?_append, hq, Option.bind_some, Operand.at?, Operand.below?_expr, hb,
        List.getElem?_eq_none (by rw [List.length_singleton]; omega)] at hp
      cases hp

theorem formed_of_mem_functions {text : String} {crate : Crate} (hread : Load.Reads text crate)
    {f : FnItem} (hf : f ∈ crate.functions) : Load.Formed (Operand.block f.body).parts := by
  have hparts := parts_of_mem_functionsOf crate.items hf
  rw [Item.parts_fn, List.cons_subset] at hparts
  intro part hpart
  rw [Operand.parts] at hpart
  exact Load.formed_of_reads hread part (hparts.2 hpart)

end Closures

end Crate

/-- A walk of a crate that was read from a dump meets the expressions and blocks of the functions
outside of function bodies, one function after the other. In each it comes once, and in the order of
the text, to every position of the body but those in operands of closures that are not the closure's
body. So it comes to all of them if and only if each closure has its body for its only operand. -/
theorem walk_reaches_iff (text : String) (crate : Crate) (hread : Load.Reads text crate) :
    met crate.walk = crate.functions.flatMap (fun f => met f.body.walk) ∧
      ∀ f ∈ crate.functions,
        (∃ positions : List (List Nat), positions.Nodup ∧ positions.Pairwise (List.Lex (· < ·)) ∧
          (∀ p, p ∈ positions ↔
            ((Operand.block f.body).at? p).isSome ∧ ¬(Operand.block f.body).Omitted p) ∧
          (met f.body.walk).map some = positions.map (Operand.block f.body).at?) ∧
        ((∀ p, ((Operand.block f.body).at? p).isSome → ¬(Operand.block f.body).Omitted p) ↔
          ∀ p e, (Operand.block f.body).at? p = some (.expr e) → e.kind = .closure →
            ∃ b, e.operands = [.block b]) := by
  refine ⟨met_walkItems crate.items, fun f hf => ⟨⟨(Operand.block f.body).reached, ?_⟩, ?_⟩⟩
  · exact ⟨Operand.reached_nodup _, Operand.reached_pairwise _, Operand.mem_reached _,
      (Operand.block f.body).map_at?_reached.symm⟩
  · exact Operand.not_omitted_iff
      fun p e hp hk => Operand.exists_body (formed_of_mem_functions hread hf) hp hk

/-- A function whose value is a closure with a path for an operand besides its body. -/
def sideOperandDump : Value :=
  let closure : Value :=
    .object [("kind", .str "closure"), ("operands", .list [.object [("kind", .str "path")]]),
      ("body", .object [("stmts", .list [])])]
  .object [("name", .str "k"), ("items", .list [.object [("kind", .str "fn"),
    ("body", .object [("stmts", .list []), ("expr", closure)])]])]

theorem walk_reaches_iff_sideOperandDump :
    ∃ crate f, Load.Reads (Json.write Json.compact sideOperandDump) crate ∧ f ∈ crate.functions ∧
      ((Operand.block f.body).at? [0, 0]).isSome ∧ ((Operand.block f.body).at? [0, 1]).isSome ∧
      ∃ positions : List (List Nat), positions.Nodup ∧ [0, 0] ∉ positions ∧
        (met f.body.walk).map some = positions.map (Operand.block f.body).at? := by
  have hcheck : (Load.crate sideOperandDump).toOption.any (fun crate => crate.functions.any fun f =>
      ((Operand.block f.body).at? [0, 0]).isSome && ((Operand.block f.body).at? [0, 1]).isSome &&
        ((Operand.block f.body).at? [0]).any fun c => c.omits 0) := rfl
  obtain ⟨crate, hread, hcheck⟩ := Load.exists_reads_write rfl hcheck
  obtain ⟨f, hf, hcheck⟩ := List.any_eq_true.mp hcheck
  rw [Bool.and_eq_true, Bool.and_eq_true] at hcheck
  obtain ⟨⟨hpath, hbody⟩, homits⟩ := hcheck
  obtain ⟨c, hc, homits⟩ := (Option.any_eq_true _ _).mp homits
  obtain ⟨⟨positions, hnodup, -, hmem, hmap⟩, -⟩ := (walk_reaches_iff _ crate hread).2 f hf
  refine ⟨crate, f, hread, hf, hpath, hbody, positions, hnodup, fun hin => ?_, hmap⟩
  exact ((hmem [0, 0]).mp hin).2 ⟨[0], c, 0, [], rfl, hc, homits⟩

end CrateAudit
