import CrateAudit.Proofs.DumpFormat

namespace CrateAudit

open Crate

namespace Load

/-- How a step of loading ends: with a result of which `P` holds, with an error that `F` admits, or
by raising what `R` admits. -/
inductive Loads {α : Type} (R : Raised → Prop) (F : DumpError → Prop) (P : α → Prop) :
    Except LoadFailure α → Prop where
  | ok {a : α} (h : P a) : Loads R F P (.ok a)
  | refused {e : DumpError} (h : F e) : Loads R F P (refuse e)
  | raised {r : Raised} (h : R r) : Loads R F P (raise r)

namespace Loads

variable {α β : Type} {R S : Raised → Prop} {F G : DumpError → Prop} {P Q : α → Prop}
  {T : β → Prop} {r : Except LoadFailure α}

theorem bind {f : α → Except LoadFailure β} (hr : Loads R F P r)
    (hf : ∀ a, P a → Loads R F T (f a)) : Loads R F T (r >>= f) := by
  cases hr with
  | ok h => exact hf _ h
  | refused h => exact .refused h
  | raised h => exact .raised h

theorem mono (hr : Loads R F P r) (hRS : ∀ k, R k → S k) (hFG : ∀ e, F e → G e)
    (hPQ : ∀ a, P a → Q a) : Loads S G Q r := by
  cases hr with
  | ok h => exact .ok (hPQ _ h)
  | refused h => exact .refused (hFG _ h)
  | raised h => exact .raised (hRS _ h)

theorem post (hr : Loads R F P r) {a : α} (h : r = .ok a) : P a := by
  cases hr with
  | ok hP =>
    cases h
    exact hP
  | refused => cases h
  | raised => cases h

theorem map {f : α → β} (hr : Loads R F P r) (hf : ∀ a, P a → T (f a)) :
    Loads R F T (f <$> r) := by
  cases hr with
  | ok h => exact .ok (hf _ h)
  | refused h => exact .refused h
  | raised h => exact .raised h

/-- What is caught becomes an error, and what is not is raised still. -/
theorem catching {kinds : List Raised} {e : DumpError} (hr : Loads R F P r)
    (hcaught : ∀ k ∈ kinds, R k → F e) (hpassed : ∀ k, k ∉ kinds → R k → S k) :
    Loads S F P (Load.catching kinds e r) := by
  cases hr with
  | ok h => exact .ok h
  | refused h => exact .refused h
  | @raised k h =>
    change Loads S F P (if k ∈ kinds then refuse e else raise k)
    split
    next hk => exact .refused (hcaught k hk h)
    next hk => exact .raised (hpassed k hk h)

theorem mapM {f : β → Except LoadFailure α} {P : β → α → Prop} {xs : List β}
    (hf : ∀ x ∈ xs, Loads R F (P x) (f x)) :
    Loads R F (fun as => (∀ a ∈ as, ∃ x ∈ xs, P x a) ∧ ∀ x ∈ xs, ∃ a ∈ as, P x a) (xs.mapM f) := by
  induction xs with
  | nil => exact .ok (by simp)
  | cons x xs ih =>
    rw [List.forall_mem_cons] at hf
    rw [List.mapM_cons]
    refine hf.1.bind fun a ha => ?_
    refine (ih hf.2).bind fun as has => ?_
    refine .ok ⟨List.forall_mem_cons.mpr ⟨⟨x, .head _, ha⟩, fun b hb => ?_⟩,
      List.forall_mem_cons.mpr ⟨⟨a, .head _, ha⟩, fun y hy => ?_⟩⟩
    · obtain ⟨y, hy, hP⟩ := has.1 b hb
      exact ⟨y, .tail _ hy, hP⟩
    · obtain ⟨b, hb, hP⟩ := has.2 y hy
      exact ⟨b, .tail _ hb, hP⟩

end Loads

section

variable {R : Raised → Prop} {F : DumpError → Prop} {α : Type} {P : α → Prop} {v : Value}

theorem index_loads {key : String} (hR : v.get? key = none → ∀ r ∈ [.noKey, .wrongType], R r) :
    Loads R F (fun w => v.get? key = some w) (index v key) := by
  unfold index Value.under
  split
  · split
    next h => exact .ok h
    next h => exact .raised (hR h .noKey (by decide))
  next hobject =>
    refine .raised (hR ?_ .wrongType (by decide))
    cases v with
    | object fields => exact absurd rfl (hobject fields)
    | _ => rfl

theorem require_loads {key owner : String}
    (hF : v.get? key = none → F (.missingField owner key)) :
    Loads R F (fun w => v.get? key = some w) (require v key owner) := by
  have hindex : Loads (fun r => r ∈ [.noKey, .wrongType] ∧ v.get? key = none) F
      (fun w => v.get? key = some w) (index v key) := index_loads fun h _ hr => ⟨hr, h⟩
  exact hindex.catching (fun _ _ h => hF h.2) fun _ hnot h => absurd h.1 hnot

theorem parts_loads (hR : v.parts? = none → R .wrongType) :
    Loads R F (fun vs => v.parts? = some vs) (parts v) := by
  unfold parts Value.partsOr
  split
  next h => exact .ok h
  next h => exact .raised (hR h)

theorem partsIfAny_loads (hR : v.truthy → v.parts? = none → R .wrongType) :
    Loads R F (fun vs => (v.truthy → v.parts? = some vs) ∧ ∀ w, w ∈ vs ↔ v.HasPart w)
      (partsIfAny v) := by
  unfold partsIfAny
  split
  next hgiven =>
    refine (parts_loads (hR hgiven)).mono (fun _ => id) (fun _ => id) fun vs h =>
      ⟨fun _ => h, fun w => ?_⟩
    exact Value.mem_iff_hasPart h
  next hgiven =>
    refine .ok ⟨fun h => absurd h hgiven, fun w => ⟨nofun, fun hw => ?_⟩⟩
    exact absurd hw (Value.not_hasPart_of_not_truthy (by simpa using hgiven))

theorem choice_loads {all : List α} {word : α → String} {what : String}
    (hF : (∀ s ∈ all.map word, v ≠ .str s) → F (.unknownWord what v)) :
    Loads R F (fun a => v = .str (word a) ∧ word a ∈ all.map word) (choice all word what v) := by
  have hword : Loads (fun r => r = .badValue ∧ ∀ s ∈ all.map word, v ≠ .str s) F
      (fun a => v = .str (word a) ∧ word a ∈ all.map word)
      (v.wordOr (.raised .badValue) all word) := by
    unfold Value.wordOr
    split
    next s =>
      split
      next a h =>
        have hword : word a = s := by simpa using List.find?_some h
        exact .ok ⟨congrArg Value.str hword.symm,
          List.mem_map_of_mem (List.mem_of_find?_eq_some h)⟩
      next h =>
        refine .raised ⟨rfl, fun t ht hst => ?_⟩
        obtain ⟨a, ha, rfl⟩ := List.mem_map.mp ht
        exact List.find?_eq_none.mp h a ha (by simpa using (Value.str.inj hst).symm)
    next h => exact .raised ⟨rfl, fun t _ => h t⟩
  refine hword.catching (fun _ _ h => hF h.2) fun r hnot h => ?_
  exact absurd (List.mem_singleton.mpr h.1) hnot

theorem optional_loads {load : Value → Except LoadFailure α}
    (h : v.isNull = false → Loads R F P (load v)) :
    Loads R F (fun o => (o = none → v.isNull) ∧ ∀ a, o = some a → P a) (optional load v) := by
  unfold optional
  split
  next hnull => exact .ok ⟨fun _ => hnull, by simp⟩
  next hnull => exact (h (by simpa using hnull)).map fun a ha =>
    ⟨nofun, fun b hb => Option.some.inj hb ▸ ha⟩

theorem isInfinite_of_toInt (h : v.toInt = .error .infinite) : v.IsInfinite := by
  cases v with
  | float x =>
    refine ⟨x, rfl, ?_⟩
    simp only [Value.toInt] at h
    split at h
    · assumption
    · cases h
    · cases h
  | str s =>
    simp only [Value.toInt] at h
    split at h
    · cases h
    · cases h
  | null | bool | int | list | object | symbol | quoted | brackets => cases h

theorem int_loads (hR : v.toInt = .error .unreadable → ∀ r ∈ [.wrongType, .badValue], R r)
    (hinf : v.IsInfinite → R .overflow) : Loads R F (fun n => v.toInt = .ok n) (int v) := by
  unfold int
  split
  next h => exact .ok h
  next h => exact .raised (hinf (isInfinite_of_toInt h))
  next h => exact .raised (hR h .badValue (by decide))
  next h => exact .raised (hR h .badValue (by decide))
  next h => exact .raised (hR h .wrongType (by decide))

/-- What may be raised: one of `kinds` at a fault, and an overflow at an infinite number. -/
def Raises (kinds : List Raised) (fault infinite : Prop) (r : Raised) : Prop :=
  (r ∈ kinds ∧ fault) ∨ (r = .overflow ∧ infinite)

theorem raises_of_mem {few kinds : List Raised} {fault infinite : Prop} (h : fault)
    (hfew : few ⊆ kinds) : ∀ r ∈ few, Raises kinds fault infinite r :=
  fun _ hr => .inl ⟨hfew hr, h⟩

/-- Where the faults are caught, only an overflow is raised still. -/
theorem Loads.caught {kinds : List Raised} {fault infinite : Prop} {e : DumpError}
    {r : Except LoadFailure α} (hr : Loads (Raises kinds fault infinite) F P r)
    (hover : .overflow ∉ kinds) (hF : fault → F e) :
    Loads (fun k => k = .overflow ∧ infinite) F P (Load.catching kinds e r) := by
  refine hr.catching (fun k hk h => ?_) fun k hk h => ?_
  · rcases h with ⟨-, hfault⟩ | ⟨rfl, -⟩
    · exact hF hfault
    · exact absurd hk hover
  · exact h.resolve_left fun h => hk h.1

/-- What reading the coordinates of a span may raise. -/
abbrev RaisesAt (v : Value) : Raised → Prop :=
  Raises [.noKey, .wrongType, .badValue] (BadSpan v (.badSpan v)) v.HasInfiniteCoordinate

theorem coordinate_loads {w : Value} {key : String} (hkey : key ∈ Value.coordinateKeys)
    (hget : v.get? key = some w) (hgiven : key ∈ Value.endKeys ∨ w.isNull = false) :
    Loads (RaisesAt v) (BadSpan v) (fun _ => True) (int w) :=
  (int_loads (fun h => raises_of_mem (.coordinate hkey hget hgiven h) (by decide)) fun h =>
    .inr ⟨rfl, key, hkey, w, hget, h⟩).mono (fun _ => id) (fun _ => id) fun _ _ => trivial

theorem indexed_loads {key : String} (hobject : v.isObject) (hkey : key ∈ "file" :: Value.endKeys) :
    Loads (RaisesAt v) (BadSpan v) (fun w => v.get? key = some w) (index v key) :=
  index_loads fun h => raises_of_mem (.missing hobject hkey h) (by decide)

theorem end_loads {key : String} (hobject : v.isObject) (hkey : key ∈ Value.endKeys) {β : Type}
    {f : Int → Except LoadFailure β} {T : β → Prop}
    (hf : ∀ n, Loads (RaisesAt v) (BadSpan v) T (f n)) :
    Loads (RaisesAt v) (BadSpan v) T (do f (← int (← index v key))) := by
  refine (indexed_loads hobject (.tail _ hkey)).bind fun w hw => ?_
  exact (coordinate_loads (List.mem_append_left _ hkey) hw (.inl hkey)).bind fun n _ => hf n

theorem coordinates_loads (hobject : v.isObject) :
    Loads (RaisesAt v) (BadSpan v) (fun _ => True) (coordinates v) := by
  unfold coordinates
  refine (indexed_loads hobject (.head _)).bind fun file _ => ?_
  refine end_loads hobject (by decide) fun loLine => ?_
  refine end_loads hobject (by decide) fun loColumn => ?_
  refine end_loads hobject (by decide) fun hiLine => ?_
  refine end_loads hobject (by decide) fun hiColumn => ?_
  refine (optional_loads (P := fun _ => True) fun hgiven => ?_).bind fun expansion _ => .ok trivial
  exact coordinate_loads (by decide) (Value.get?_of_field hgiven) (.inr hgiven)

theorem span_loads (v : Value) :
    Loads (fun r => r = .overflow ∧ v.HasInfiniteCoordinate) (BadSpan v)
      (fun s => span v = .ok s) (span v) := by
  -- that a span is what it was read as needs no look at how it is read
  have hself {r : Except LoadFailure Span} {R : Raised → Prop}
      (h : Loads R (BadSpan v) (fun _ => True) r) : Loads R (BadSpan v) (fun s => r = .ok s) r := by
    cases h with
    | ok => exact .ok rfl
    | refused h => exact .refused h
    | raised h => exact .raised h
  apply hself
  unfold span
  split
  · exact .ok trivial
  next s =>
    unfold spanText
    split
    · exact .ok trivial
    next h => exact .refused (.text h)
  next fields =>
    have hobject : (Value.object fields).isObject := rfl
    exact (coordinates_loads hobject).caught (by decide) id
  next hnull hstr hobject =>
    exact .refused (.kind (Value.isNull_eq_false hnull) hstr (Value.isObject_eq_false hobject))

theorem checkBody_loads {e : Expr}
    (hF : e.kind = .closure ∨ e.kind = .block → (∀ b, .block b ∉ e.operands) →
      F (.noBody e.tag e.span)) :
    Loads R F
      (fun e' => e' = e ∧ (e.kind = .closure ∨ e.kind = .block → ∃ b, .block b ∈ e.operands))
      (checkBody e) := by
  have hbody : e.body?.isNone ↔ ¬∃ b, .block b ∈ e.operands := by
    rw [← Expr.isSome_body?_iff]
    simp
  unfold checkBody
  split
  next h => exact .refused (hF h.1 fun b hb => hbody.mp h.2 ⟨b, hb⟩)
  next h =>
    exact .ok ⟨rfl, fun hk => Classical.byContradiction fun hnone => h ⟨hk, hbody.mpr hnone⟩⟩

end

section

variable {root : Value}

theorem stems_cons {v : Value} {p : Part} {ps : List Part} (hv : Reached root (role p) v)
    (hp : Fits v p) (hps : Stems root ps) : Stems root (p :: ps) :=
  List.forall_mem_cons.mpr ⟨⟨v, hv, hp⟩, hps⟩

theorem stems_append {ps qs : List Part} (hps : Stems root ps) (hqs : Stems root qs) :
    Stems root (ps ++ qs) :=
  List.forall_mem_append.mpr ⟨hps, hqs⟩

theorem stems_flatMap {α : Type} {xs : List α} {f : α → List Part}
    (h : ∀ x ∈ xs, Stems root (f x)) :
    Stems root (xs.flatMap f) := by
  intro p hp
  obtain ⟨x, hx, hpx⟩ := List.mem_flatMap.mp hp
  exact h x hx p hpx

theorem stems_optional {e : Option Expr} (h : ∀ x, e = some x → Stems root x.parts) :
    Stems root (partsOfOptional e) := by
  cases e with
  | none => exact fun p hp => by cases hp
  | some x =>
    rw [partsOfOptional]
    exact h x rfl

/-- What reading the parts of a dump may raise. -/
abbrev RaisesIn (root : Value) : Raised → Prop :=
  Raises [.noFields, .wrongType, .badValue] (Faulty root .malformed) (Overflows root)

abbrev LoadsPart {α : Type} (root : Value) (parts : α → List Part) (r : Except LoadFailure α) :
    Prop :=
  Loads (RaisesIn root) (Faulty root) (fun a => Stems root (parts a)) r

theorem raisesIn_wrongType (h : Faulty root .malformed) : RaisesIn root .wrongType :=
  .inl ⟨by decide, h⟩

theorem listed_loads {α : Type} {parts : α → List Part} {load : Value → Except LoadFailure α}
    {vs : List Value} (h : ∀ w ∈ vs, LoadsPart root parts (load w)) :
    LoadsPart root (List.flatMap parts) (vs.mapM load) := by
  refine (Loads.mapM h).mono (fun _ => id) (fun _ => id) fun as has => stems_flatMap fun a ha => ?_
  obtain ⟨w, -, hw⟩ := has.1 a ha
  exact hw

theorem given_loads {α : Type} {parts : α → List Part} {load : Value → Except LoadFailure α}
    {v : Value} {key : String}
    (h : ∀ {w}, v.get? key = some w → w.isNull = false → LoadsPart root parts (load w)) :
    Loads (RaisesIn root) (Faulty root)
      (fun o => (o = none → (v.field key).isNull) ∧ ∀ a, o = some a → Stems root (parts a))
      (optional load (v.field key)) :=
  optional_loads fun hnull => h (Value.get?_of_field hnull) hnull

theorem spanOf_loads {v : Value} (hv : Spans root v) :
    Loads (RaisesIn root) (Faulty root) (fun s => span v = .ok s) (span v) :=
  (span_loads v).mono (fun _ h => .inr ⟨h.1, .span hv h.2⟩) (fun _ => .badSpan hv) fun _ => id

theorem signatureOf_loads {v : Value}
    (hv : (v.field "sig").isNull = false → Signs root (v.field "sig")) :
    Loads (RaisesIn root) (Faulty root) (fun _ => True) (optional signature (v.field "sig")) := by
  refine (optional_loads (P := fun _ => True) fun hnull => ?_).mono (fun _ => id) (fun _ => id)
    fun _ _ => trivial
  unfold signature
  split
  next h => exact .raised (.inl ⟨by decide, .signature (hv hnull) (by simpa using h)⟩)
  next => exact (choice_loads (.unknownWord (.safety (hv hnull)))).bind fun _ _ => .ok trivial

theorem targetOf_loads {v : Value} (hv : Reached root .expr v) :
    Loads (RaisesIn root) (Faulty root) (fun _ => True) (optional target (v.field "res")) := by
  refine (optional_loads (P := fun _ => True) fun hnull => ?_).mono (fun _ => id) (fun _ => id)
    fun _ _ => trivial
  unfold target
  exact (require_loads (.missingField (.target hv hnull))).bind fun _ _ => .ok trivial

variable {depth : Nat}
  (block_loads : ∀ {v}, Reached root .block v → v.depth < depth →
    LoadsPart root Block.parts (block depth v))
  (stmt_loads : ∀ {v}, Reached root .stmt v → v.depth < depth →
    LoadsPart root Stmt.parts (stmt depth v))
  (expr_loads : ∀ {v}, Reached root .expr v → v.depth < depth →
    LoadsPart root Expr.parts (expr depth v))
  (item_loads : ∀ {v}, Reached root .item v → v.depth < depth →
    LoadsPart root Item.parts (item depth v))
  {v : Value} (hdepth : v.depth < depth + 1)

include hdepth in
theorem depth_of_get? {w : Value} {key : String} (h : v.get? key = some w) : w.depth < depth :=
  Nat.lt_of_lt_of_le (Value.depth_get? h) (Nat.le_of_lt_succ hdepth)

include hdepth in
theorem depth_of_part {w : Value} {key : String} (h : (v.field key).HasPart w) : w.depth < depth :=
  Nat.lt_of_lt_of_le (Value.depth_part_field h) (Nat.le_of_lt_succ hdepth)

include stmt_loads expr_loads hdepth in
theorem block_loads_succ (hv : Reached root .block v) :
    LoadsPart root Block.parts (block (depth + 1) v) := by
  rw [block]
  refine (require_loads (.missingField (.block hv))).bind fun stmtsValue hstmts => ?_
  refine (parts_loads fun h => raisesIn_wrongType (.noParts (.stmts hv hstmts) h)).bind
    fun stmtValues hparts => ?_
  have hstmt : ∀ w ∈ stmtValues, LoadsPart root Stmt.parts (stmt depth w) := by
    intro w hw
    have hpart := (Value.mem_iff_hasPart hparts).mp hw
    exact stmt_loads (.stmt hv hstmts hpart)
      (Nat.lt_of_le_of_lt (Value.depth_part hpart) (depth_of_get? hdepth hstmts))
  refine (listed_loads hstmt).bind fun stmts hs => ?_
  refine (given_loads fun hget hnull => expr_loads (.value hv hget hnull)
      (depth_of_get? hdepth hget)).bind
    fun value hvalue => ?_
  refine (choice_loads (.unknownWord (.rules hv))).bind fun rules _ => ?_
  refine (choice_loads (.unknownWord (.author hv))).bind fun author _ => ?_
  refine (spanOf_loads (.part hv)).bind fun span _ => ?_
  refine .ok ?_
  rw [Block.parts, partsOfStmts_eq]
  refine stems_cons hv ?_ (stems_append hs (stems_optional hvalue.2))
  rw [Fits, isBlock, hstmts]
  rfl

include expr_loads item_loads hdepth in
theorem stmt_loads_succ (hv : Reached root .stmt v) :
    LoadsPart root Stmt.parts (stmt (depth + 1) v) := by
  rw [stmt]
  refine (require_loads (.missingField (.stmt hv))).bind fun kind hkind => ?_
  refine (choice_loads (.unknownWord (.stmtKind hv hkind))).bind fun form hform => ?_
  refine (spanOf_loads (.part hv)).bind fun span _ => ?_
  rw [hform.1] at hkind
  -- the word alone decides whether an item or an expression is read, not which of them is there
  cases form with
  | none =>
    refine (require_loads (.missingField (.itemStmt hv hkind))).bind fun itemValue hitem => ?_
    refine (item_loads (.declared hv hkind hitem) (depth_of_get? hdepth hitem)).bind fun i hi => ?_
    refine .ok ?_
    rw [Stmt.parts]
    exact stems_cons hv ⟨hkind, fun _ => ⟨rfl, rfl⟩, fun h => absurd rfl h⟩ hi
  | some form =>
    have hother : form.word ≠ "item" := by cases form <;> decide
    have hcarried : v.get? "kind" ≠ some (.str "item") := by
      rw [hkind]
      simpa using hother
    refine (given_loads fun hget hnull => expr_loads (.carried hv hcarried hget hnull)
        (depth_of_get? hdepth hget)).bind
      fun e he => ?_
    refine .ok ?_
    rw [Stmt.parts]
    exact stems_cons hv ⟨hkind, fun h => absurd h hother, fun _ => rfl⟩ (stems_optional he.2)

include block_loads expr_loads hdepth in
theorem operand_loads (hv : Reached root .expr v) {o : Value}
    (ho : (v.field "operands").HasPart o) :
    Loads (RaisesIn root) (Faulty root)
      (fun o' => (isBlock o → ∃ b, o' = Operand.block b) ∧ Stems root o'.parts)
      (if isBlock o then .block <$> block depth o else .expr <$> expr depth o) := by
  have hin := depth_of_part hdepth ho
  split
  next h =>
    refine (block_loads (.blockOperand hv h ho) hin).map fun b hb => ⟨fun _ => ⟨b, rfl⟩, ?_⟩
    rwa [Operand.parts]
  next h =>
    refine (expr_loads (.operand hv (by simpa using h) ho) hin).map
      fun e he => ⟨fun hblock => absurd hblock h, ?_⟩
    rwa [Operand.parts]

include block_loads expr_loads hdepth in
theorem expr_loads_succ (hv : Reached root .expr v) :
    LoadsPart root Expr.parts (expr (depth + 1) v) := by
  rw [expr]
  refine (require_loads (.missingField (.expr hv))).bind fun kind hkind => ?_
  have htag : tag? v = some kind.text := by rw [tag?, hkind]; rfl
  refine (partsIfAny_loads fun hgiven h => raisesIn_wrongType
      (.noParts (.operands hv hgiven) h)).bind fun operandValues hparts => ?_
  refine (Loads.mapM fun o ho =>
    operand_loads block_loads expr_loads hdepth hv
      ((hparts.2 o).mp ho)).bind fun operands hoperands => ?_
  refine (given_loads fun hget hnull => block_loads (.exprBody hv hget hnull)
      (depth_of_get? hdepth hget)).bind
    fun body hbody => ?_
  refine (spanOf_loads (.part hv)).bind fun span hspan => ?_
  refine (signatureOf_loads (.expr hv)).bind fun signature _ => ?_
  refine (targetOf_loads hv).bind fun target _ => ?_
  -- the check comes last, so that it is the whole expression that has a body
  refine (checkBody_loads fun hkind hblock => ?_).mono (fun _ => id) (fun _ => id) ?_
  · refine .noBody hv htag hkind hspan (fun o ho => ?_) (hbody.1 ?_)
    · obtain ⟨o', ho', hkeeps, -⟩ := hoperands.2 o ((hparts.2 o).mpr ho)
      rw [← Bool.not_eq_true]
      intro h
      obtain ⟨b, rfl⟩ := hkeeps h
      exact hblock b (List.mem_append_left _ ho')
    · cases body with
      | none => rfl
      | some b => exact absurd (List.mem_append_right _ (.head _)) (hblock b)
  rintro _ ⟨rfl, hwell⟩
  rw [Expr.parts, partsOfOperands_eq, List.flatMap_append]
  refine stems_cons hv ⟨htag, rfl, hwell⟩ (stems_append (stems_flatMap fun o ho => ?_) ?_)
  · obtain ⟨w, -, -, hw⟩ := hoperands.1 o ho
    exact hw
  cases body with
  | none => exact fun p hp => by cases hp
  | some b =>
    change Stems root (Operand.parts (.block b) ++ [])
    rw [List.append_nil, Operand.parts]
    exact hbody.2 b rfl

include block_loads item_loads hdepth in
theorem item_loads_succ (hv : Reached root .item v) :
    LoadsPart root Item.parts (item (depth + 1) v) := by
  rw [item]
  refine (require_loads (.missingField (.item hv))).bind fun kind hkind => ?_
  have htag : tag? v = some kind.text := by rw [tag?, hkind]; rfl
  refine (spanOf_loads (.part hv)).bind fun span _ => ?_
  split
  next fnKind hfind =>
    obtain ⟨hfn, hword, hkinds⟩ := mem_fnTags hfind
    refine (require_loads (.missingField (.fn hv htag hfn))).bind fun bodyValue hvalue => ?_
    refine (block_loads (.fnBody hv htag hfn hvalue) (depth_of_get? hdepth hvalue)).bind
      fun body hbody => ?_
    refine (signatureOf_loads (.fn hv htag hfn)).bind fun signature _ => ?_
    refine .ok ?_
    rw [Item.parts, FnItem.parts]
    exact stems_cons hv ⟨htag.trans (congrArg some hword.symm), hkinds⟩ hbody
  next hfind =>
    have hfn := not_mem_fnTags hfind
    refine (partsIfAny_loads fun hgiven h =>
      raisesIn_wrongType (.noParts (.nested hv htag hfn hgiven) h)).bind fun itemValues hparts => ?_
    have hitem : ∀ w ∈ itemValues, LoadsPart root Item.parts (item depth w) := by
      intro w hw
      have hpart := (hparts.2 w).mp hw
      exact item_loads (.nested hv htag hfn hpart) (depth_of_part hdepth hpart)
    refine (listed_loads hitem).bind fun items hitems => ?_
    refine .ok ?_
    rw [Item.parts, Container.parts, partsOfItems_eq]
    exact stems_cons hv ⟨htag, hfn⟩ hitems

end

section

variable {root v : Value}

/-- Loading that may go deeper than the value is nested never fails for its depth. The four loaders
call each other one level down, so that they go by one induction. -/
theorem loads (root : Value) (depth : Nat) :
    (∀ {v}, Reached root .block v → v.depth < depth → LoadsPart root Block.parts (block depth v)) ∧
    (∀ {v}, Reached root .stmt v → v.depth < depth → LoadsPart root Stmt.parts (stmt depth v)) ∧
    (∀ {v}, Reached root .expr v → v.depth < depth → LoadsPart root Expr.parts (expr depth v)) ∧
    (∀ {v}, Reached root .item v → v.depth < depth → LoadsPart root Item.parts (item depth v)) := by
  induction depth with
  | zero => exact ⟨fun _ => nofun, fun _ => nofun, fun _ => nofun, fun _ => nofun⟩
  | succ depth ih =>
    obtain ⟨hblock, hstmt, hexpr, hitem⟩ := ih
    exact ⟨fun hv h => block_loads_succ hstmt hexpr h hv,
      fun hv h => stmt_loads_succ hexpr hitem h hv,
      fun hv h => expr_loads_succ hblock hexpr h hv, fun hv h => item_loads_succ hblock hitem h hv⟩

theorem files_loads (root : Value) :
    Loads (RaisesIn root) (Faulty root) (fun _ => True) (files (root.field "files")) := by
  unfold files
  split
  · exact .ok trivial
  · exact .ok trivial
  next hnull hobject =>
    have hlist := Value.isObject_eq_false hobject
    refine (parts_loads fun h =>
      raisesIn_wrongType
        (.noParts (.files (Value.isNull_eq_false hnull)) h)).bind fun fileValues hparts => ?_
    refine (Loads.mapM (P := fun _ _ => True) fun f hf => ?_).bind fun _ _ => .ok trivial
    have hpart := (Value.mem_iff_hasPart hparts).mp hf
    refine (require_loads (.missingField (.file hlist hpart (by decide)))).bind fun _ _ => ?_
    refine (require_loads (.missingField (.file hlist hpart (by decide)))).bind fun _ _ => ?_
    exact .ok trivial

theorem site_loads (hv : Expands root v) {key : String} (hkey : key ∈ ["call_site", "def_site"]) :
    Loads (RaisesIn root) (Faulty root) (fun _ => True) (site (v.field key)) := by
  unfold site
  split
  next hgiven => exact (spanOf_loads (.site hv hkey hgiven)).map fun _ _ => trivial
  next => exact .ok trivial

theorem expansion_loads (hv : Expands root v) :
    Loads (RaisesIn root) (Faulty root) (fun _ => True) (expansion v) := by
  unfold expansion
  refine (require_loads (.missingField (.expansion hv))).bind fun idValue hid => ?_
  refine (int_loads (fun h => raises_of_mem (.identity hv hid h) (by decide)) fun h =>
    .inr ⟨rfl, .id hv hid h⟩).bind fun id _ => ?_
  refine (choice_loads (.unknownWord (.format hv))).bind fun format _ => ?_
  refine (site_loads hv (by decide)).bind fun callSite _ => ?_
  refine (site_loads hv (by decide)).bind fun defSite _ => ?_
  exact .ok trivial

theorem expansions_loads (root : Value) :
    Loads (RaisesIn root) (Faulty root) (fun _ => True) (expansions (root.field "expansions")) := by
  have hall (entries : List Value) (h : ∀ w ∈ entries, Expands root w) :
      Loads (RaisesIn root) (Faulty root) (fun _ => True)
        (do return Table.ofPairs ((← entries.mapM expansion).map fun e => (e.id, e))) :=
    (Loads.mapM fun w hw => expansion_loads (h w hw)).bind fun _ _ => .ok trivial
  unfold expansions
  split
  · exact .ok trivial
  next fields hfields =>
    apply hall
    intro w hw
    obtain ⟨f, hf, rfl⟩ := List.mem_map.mp hw
    rw [Expands, hfields]
    exact ⟨f.1, hf⟩
  next hnull hobject =>
    refine (parts_loads fun h =>
      raisesIn_wrongType
        (.noParts (.expansions (Value.isNull_eq_false hnull)) h)).bind fun entries hparts =>
      hall entries fun w hw => ?_
    unfold Expands
    split
    next fields hfields => exact absurd hfields (hobject fields)
    next => exact (Value.mem_iff_hasPart hparts).mp hw

end

theorem contents_loads (v : Value) : LoadsPart v (fun c => partsOfItems c.items) (contents v) := by
  unfold contents
  refine (require_loads (.missingField .crate)).bind fun name _ => ?_
  refine (partsIfAny_loads fun hgiven h => raisesIn_wrongType (.noParts (.items hgiven) h)).bind
    fun itemValues hparts => ?_
  have hitem : ∀ w ∈ itemValues, LoadsPart v Item.parts (item v.depth w) := by
    intro w hw
    have hpart := (hparts.2 w).mp hw
    exact (loads v v.depth).2.2.2 (.top hpart) (Value.depth_part_field hpart)
  refine (listed_loads hitem).bind fun items hitems => ?_
  refine (files_loads v).bind fun files _ => ?_
  refine (expansions_loads v).bind fun expansions _ => ?_
  refine .ok ?_
  change Stems v (partsOfItems items)
  rw [partsOfItems_eq]
  exact hitems

/-- A dump gives a crate whose parts stem from it, or is refused for a fault that it has, or gives
an infinite number for a coordinate or an identity. Nothing else that is raised on the way gets
out. -/
theorem crate_stems (v : Value) :
    Loads (fun r => r = .overflow ∧ Overflows v) (Faulty v)
      (fun c => Stems v (partsOfItems c.items)) (crate v) := by
  unfold crate
  split
  next => exact (contents_loads v).caught (by decide) id
  next hobject => exact .refused (.notRecord (by simpa using hobject))

def Formed (ps : List Part) : Prop :=
  ∀ p ∈ ps, p.wellFormed

theorem formed_of_stems {root : Value} {ps : List Part} (h : Stems root ps) : Formed ps := by
  intro p hp
  obtain ⟨v, -, hfits⟩ := h p hp
  cases p with
  | item i =>
    cases i with
    | fn f => rcases hfits.2 with hkind | hkind <;> simp [Part.wellFormed, hkind]
    | container c => rfl
  | expr e =>
    have hbody := hfits.2.2
    simp only [Part.wellFormed, Bool.or_eq_true, Bool.and_eq_true, decide_eq_true_eq]
    rw [Classical.or_iff_not_imp_right, Expr.isSome_body?_iff]
    intro hnone
    rw [← not_or]
    exact fun hkind => hnone (hbody hkind)
  | block | stmt => rfl

theorem crate_loads (v : Value) :
    Loads (fun r => r = .overflow ∧ Overflows v) (fun _ => True)
      (fun c => Formed (partsOfItems c.items)) (crate v) :=
  (crate_stems v).mono (fun _ => id) (fun _ _ => trivial) fun _ => formed_of_stems

end Load

end CrateAudit
