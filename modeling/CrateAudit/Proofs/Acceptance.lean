import CrateAudit.Proofs.Loading

namespace CrateAudit.Load

open Crate

def Succeeds {α : Type} (r : Except LoadFailure α) : Prop :=
  ∃ a, r = .ok a

section

variable {α β : Type} {r : Except LoadFailure α} {v w : Value}

theorem not_succeeds_error {e : LoadFailure} : ¬Succeeds (.error e : Except LoadFailure α) :=
  nofun

theorem Succeeds.bind {f : α → Except LoadFailure β} (h : Succeeds (r >>= f)) :
    ∃ a, r = .ok a ∧ Succeeds (f a) := by
  cases r with
  | error e => exact absurd h not_succeeds_error
  | ok a => exact ⟨a, rfl, h⟩

theorem Succeeds.map {f : α → β} (h : Succeeds (f <$> r)) : Succeeds r := by
  cases r with
  | error e => exact absurd h not_succeeds_error
  | ok a => exact ⟨a, rfl⟩

theorem Succeeds.catching {kinds : List Raised} {e : DumpError}
    (h : Succeeds (Load.catching kinds e r)) : Succeeds r := by
  obtain ⟨a, h⟩ := h
  unfold Load.catching at h
  split at h
  · split at h
    · cases h
    · cases h
  · exact ⟨a, h⟩

theorem mapM_eq_ok {f : β → Except LoadFailure α} {xs : List β} {as : List α}
    (h : xs.mapM f = .ok as) :
    (∀ a ∈ as, ∃ x ∈ xs, f x = .ok a) ∧ ∀ x ∈ xs, Succeeds (f x) := by
  induction xs generalizing as with
  | nil =>
    cases h
    exact ⟨nofun, nofun⟩
  | cons x xs ih =>
    rw [List.mapM_cons] at h
    obtain ⟨a, ha, as', has', hcons⟩ : ∃ a, f x = .ok a ∧ ∃ as', xs.mapM f = .ok as' ∧
        as = a :: as' := by
      obtain ⟨a, ha, hrest⟩ := Succeeds.bind ⟨as, h⟩
      obtain ⟨as', has', -⟩ := hrest.bind
      rw [ha, has'] at h
      cases h
      exact ⟨a, ha, as', has', rfl⟩
    obtain ⟨hback, hforth⟩ := ih has'
    rw [hcons]
    refine ⟨List.forall_mem_cons.mpr ⟨⟨x, .head _, ha⟩, fun b hb => ?_⟩,
      List.forall_mem_cons.mpr ⟨⟨a, ha⟩, hforth⟩⟩
    obtain ⟨y, hy, hf⟩ := hback b hb
    exact ⟨y, .tail _ hy, hf⟩

theorem Succeeds.optional {load : Value → Except LoadFailure α}
    (h : Succeeds (Load.optional load v)) (hgiven : v.isNull = false) : Succeeds (load v) := by
  rw [Load.optional, if_neg (by simp [hgiven])] at h
  exact h.map

theorem get?_of_require {key owner : String} (h : require v key owner = .ok w) :
    v.get? key = some w :=
  (require_loads (R := fun _ => True) (F := fun _ => True) fun _ => trivial).post h

theorem parts?_of_partsIfAny {vs : List Value} (h : partsIfAny v = .ok vs) :
    (v.truthy → v.parts? = some vs) ∧ ∀ w, w ∈ vs ↔ v.HasPart w :=
  (partsIfAny_loads (R := fun _ => True) (F := fun _ => True) fun _ _ => trivial).post h

theorem word_of_choice {all : List α} {word : α → String} {what : String} {a : α}
    (h : choice all word what v = .ok a) :
    v = .str (word a) ∧ word a ∈ all.map word :=
  (choice_loads (R := fun _ => True) (F := fun _ => True) fun _ => trivial).post h

end

/-- Whether a value is accepted as what it is read as. -/
def Accepts : Role → Value → Prop
  | .item, v => ∃ depth, Succeeds (item depth v)
  | .block, v => ∃ depth, Succeeds (block depth v)
  | .stmt, v => ∃ depth, Succeeds (stmt depth v)
  | .expr, v => ∃ depth, Succeeds (expr depth v)

def IsWord (v : Value) (words : List String) : Prop :=
  ∃ word ∈ words, v = .str word

structure AcceptedItem (v : Value) (tag : String) : Prop where
  htag : tag? v = some tag
  span : Succeeds (span (v.field "span"))
  body : tag ∈ fnTags → ∃ w, v.get? "body" = some w ∧ Accepts .block w
  signature : tag ∈ fnTags → Succeeds (optional signature (v.field "sig"))
  list : tag ∉ fnTags → (v.field "items").truthy → ∃ vs, (v.field "items").parts? = some vs
  items : tag ∉ fnTags → ∀ w, (v.field "items").HasPart w → Accepts .item w

structure AcceptedBlock (v stmts : Value) : Prop where
  hstmts : v.get? "stmts" = some stmts
  list : ∃ vs, stmts.parts? = some vs
  stmts : ∀ w, stmts.HasPart w → Accepts .stmt w
  value : (v.field "expr").isNull = false → Accepts .expr (v.field "expr")
  rules : IsWord ((v.get? "rules").getD (.str "default"))
    ["default", "unsafe", "push_unsafe", "pop_unsafe"]
  author : IsWord ((v.get? "unsafe_source").getD (.str "user")) ["user", "compiler"]
  span : Succeeds (span (v.field "span"))

structure AcceptedStmt (v kind : Value) : Prop where
  hkind : v.get? "kind" = some kind
  word : IsWord kind ["local", "expr", "semi", "item"]
  span : Succeeds (span (v.field "span"))
  item : kind = .str "item" → ∃ w, v.get? "item" = some w ∧ Accepts .item w
  expr : kind ≠ .str "item" → (v.field "expr").isNull = false → Accepts .expr (v.field "expr")

structure AcceptedExpr (v : Value) (tag : String) : Prop where
  htag : tag? v = some tag
  list : (v.field "operands").truthy → ∃ vs, (v.field "operands").parts? = some vs
  operands : ∀ w, (v.field "operands").HasPart w →
    if isBlock w then Accepts .block w else Accepts .expr w
  body : (v.field "body").isNull = false → Accepts .block (v.field "body")
  span : Succeeds (span (v.field "span"))
  signature : Succeeds (optional signature (v.field "sig"))
  target : Succeeds (optional target (v.field "res"))
  runs : exprKind tag = .closure ∨ exprKind tag = .block →
    (∃ o, (v.field "operands").HasPart o ∧ isBlock o) ∨ (v.field "body").isNull = false

section

variable {v : Value}

theorem tag?_of_require {owner : String} {kind : Value} (h : require v "kind" owner = .ok kind) :
    tag? v = some kind.text := by
  rw [tag?, get?_of_require h]
  rfl

theorem Accepts.item (h : Accepts .item v) : ∃ tag, AcceptedItem v tag := by
  obtain ⟨depth | depth, h⟩ := h
  · -- nothing is accepted at no depth
    rw [Load.item] at h
    exact absurd h not_succeeds_error
  rw [Load.item] at h
  obtain ⟨kind, hkind, h⟩ := h.bind
  obtain ⟨s, hspan, h⟩ := h.bind
  have htag := tag?_of_require hkind
  refine ⟨kind.text, ?_⟩
  dsimp only at h
  split at h
  next fnKind hfind =>
    have hfn := (mem_fnTags hfind).1
    obtain ⟨w, hw, h⟩ := h.bind
    obtain ⟨b, hb, h⟩ := h.bind
    obtain ⟨o, ho, h⟩ := h.bind
    exact {
      htag
      span := ⟨s, hspan⟩
      body := fun _ => ⟨w, get?_of_require hw, depth, b, hb⟩
      signature := fun _ => ⟨o, ho⟩
      list := fun h => absurd hfn h
      items := fun h => absurd hfn h }
  next hfind =>
    have hfn := not_mem_fnTags hfind
    obtain ⟨vs, hvs, h⟩ := h.bind
    obtain ⟨items, hitems, h⟩ := h.bind
    obtain ⟨hlist, hparts⟩ := parts?_of_partsIfAny hvs
    exact {
      htag
      span := ⟨s, hspan⟩
      body := fun h => absurd h hfn
      signature := fun h => absurd h hfn
      list := fun _ hgiven => ⟨vs, hlist hgiven⟩
      items := fun _ w hw => ⟨depth, (mapM_eq_ok hitems).2 w ((hparts w).mpr hw)⟩ }

theorem Accepts.block (h : Accepts .block v) : ∃ stmts, AcceptedBlock v stmts := by
  obtain ⟨depth | depth, h⟩ := h
  · rw [Load.block] at h
    exact absurd h not_succeeds_error
  rw [Load.block] at h
  obtain ⟨listed, hlisted, h⟩ := h.bind
  obtain ⟨vs, hvs, h⟩ := h.bind
  obtain ⟨stmts, hstmts, h⟩ := h.bind
  obtain ⟨value, hvalue, h⟩ := h.bind
  obtain ⟨rules, hrules, h⟩ := h.bind
  obtain ⟨author, hauthor, h⟩ := h.bind
  obtain ⟨s, hspan, h⟩ := h.bind
  have hparts := Value.parts?_of_partsOr hvs
  exact ⟨listed, {
    hstmts := get?_of_require hlisted
    list := ⟨vs, hparts⟩
    stmts := fun w hw => ⟨depth, (mapM_eq_ok hstmts).2 w ((Value.mem_iff_hasPart hparts).mpr hw)⟩
    value := fun hgiven => ⟨depth, Succeeds.optional ⟨value, hvalue⟩ hgiven⟩
    rules := ⟨_, (word_of_choice hrules).2, (word_of_choice hrules).1⟩
    author := ⟨_, (word_of_choice hauthor).2, (word_of_choice hauthor).1⟩
    span := ⟨s, hspan⟩ }⟩

theorem Accepts.stmt (h : Accepts .stmt v) : ∃ kind, AcceptedStmt v kind := by
  obtain ⟨depth | depth, h⟩ := h
  · rw [Load.stmt] at h
    exact absurd h not_succeeds_error
  rw [Load.stmt] at h
  obtain ⟨kind, hkind, h⟩ := h.bind
  obtain ⟨form, hform, h⟩ := h.bind
  obtain ⟨s, hspan, h⟩ := h.bind
  obtain ⟨hword, hmem⟩ := word_of_choice hform
  refine ⟨kind, ?_⟩
  cases form with
  | none =>
    obtain ⟨w, hw, h⟩ := h.bind
    obtain ⟨i, hi, h⟩ := h.bind
    exact {
      hkind := get?_of_require hkind
      word := ⟨_, hmem, hword⟩
      span := ⟨s, hspan⟩
      item := fun _ => ⟨w, get?_of_require hw, depth, i, hi⟩
      expr := fun h => absurd hword h }
  | some form =>
    obtain ⟨e, he, h⟩ := h.bind
    have hother : kind ≠ .str "item" := by
      rw [hword]
      cases form <;> simp [StmtForm.word]
    exact {
      hkind := get?_of_require hkind
      word := ⟨_, hmem, hword⟩
      span := ⟨s, hspan⟩
      item := fun h => absurd h hother
      expr := fun _ hgiven => ⟨depth, Succeeds.optional ⟨e, he⟩ hgiven⟩ }

theorem Accepts.expr (h : Accepts .expr v) : ∃ tag, AcceptedExpr v tag := by
  obtain ⟨depth | depth, h⟩ := h
  · rw [Load.expr] at h
    exact absurd h not_succeeds_error
  rw [Load.expr] at h
  obtain ⟨kind, hkind, h⟩ := h.bind
  obtain ⟨vs, hvs, h⟩ := h.bind
  obtain ⟨operands, hoperands, h⟩ := h.bind
  obtain ⟨body, hbody, h⟩ := h.bind
  obtain ⟨s, hspan, h⟩ := h.bind
  obtain ⟨signature, hsignature, h⟩ := h.bind
  obtain ⟨target, htarget, h⟩ := h.bind
  obtain ⟨e, he⟩ := h
  obtain ⟨hlist, hparts⟩ := parts?_of_partsIfAny hvs
  obtain ⟨hback, hforth⟩ := mapM_eq_ok hoperands
  refine ⟨kind.text, {
    htag := tag?_of_require hkind
    list := fun hgiven => ⟨vs, hlist hgiven⟩
    operands := ?_
    body := fun hgiven => ⟨depth, Succeeds.optional ⟨body, hbody⟩ hgiven⟩
    span := ⟨s, hspan⟩
    signature := ⟨signature, hsignature⟩
    target := ⟨target, htarget⟩
    runs := ?_ }⟩
  · intro o ho
    have h := hforth o ((hparts o).mpr ho)
    split at h
    next hblock =>
      rw [if_pos hblock]
      exact ⟨depth, h.map⟩
    next hblock =>
      rw [if_neg hblock]
      exact ⟨depth, h.map⟩
  · intro hkind
    have hchecked :=
      (checkBody_loads (R := fun _ => True) (F := fun _ => True) fun _ _ => trivial).post he
    obtain ⟨b, hb⟩ := hchecked.2 hkind
    rcases List.mem_append.mp hb with hb | hb
    · -- only a value that is a block is loaded as one
      obtain ⟨o, ho, hload⟩ := hback _ hb
      refine .inl ⟨o, (hparts o).mp ho, ?_⟩
      split at hload
      next hblock => exact hblock
      next =>
        cases hexpr : Load.expr depth o with
        | error => rw [hexpr] at hload; cases hload
        | ok => rw [hexpr] at hload; cases hload
    · obtain ⟨b, hbody', -⟩ := List.mem_map.mp hb
      refine .inr ?_
      rw [← Bool.not_eq_true]
      intro hnull
      rw [Load.optional, if_pos hnull] at hbody
      cases hbody
      cases hbody'

theorem Accepts.item_of_tag {tag : String} (h : Accepts .item v) (htag : tag? v = some tag) :
    AcceptedItem v tag := by
  obtain ⟨tag', hitem⟩ := h.item
  cases hitem.htag.symm.trans htag
  exact hitem

theorem Accepts.block_of_stmts {stmts : Value} (h : Accepts .block v)
    (hstmts : v.get? "stmts" = some stmts) :
    AcceptedBlock v stmts := by
  obtain ⟨stmts', hblock⟩ := h.block
  cases hblock.hstmts.symm.trans hstmts
  exact hblock

theorem Accepts.stmt_of_kind {kind : Value} (h : Accepts .stmt v)
    (hkind : v.get? "kind" = some kind) :
    AcceptedStmt v kind := by
  obtain ⟨kind', hstmt⟩ := h.stmt
  cases hstmt.hkind.symm.trans hkind
  exact hstmt

theorem Accepts.expr_of_tag {tag : String} (h : Accepts .expr v) (htag : tag? v = some tag) :
    AcceptedExpr v tag := by
  obtain ⟨tag', hexpr⟩ := h.expr
  cases hexpr.htag.symm.trans htag
  exact hexpr

theorem exists_kind {tag : String} (h : tag? v = some tag) : ∃ w, v.get? "kind" = some w := by
  obtain ⟨w, hw, -⟩ := Option.map_eq_some_iff.mp h
  exact ⟨w, hw⟩

theorem Accepts.span {role : Role} (h : Accepts role v) :
    Succeeds (Load.span (v.field "span")) := by
  cases role with
  | item =>
    obtain ⟨tag, hitem⟩ := h.item
    exact hitem.span
  | block =>
    obtain ⟨stmts, hblock⟩ := h.block
    exact hblock.span
  | stmt =>
    obtain ⟨kind, hstmt⟩ := h.stmt
    exact hstmt.span
  | expr =>
    obtain ⟨tag, hexpr⟩ := h.expr
    exact hexpr.span

theorem toInt_of_int {n : Int} (h : Load.int v = .ok n) : v.toInt = .ok n :=
  (int_loads (R := fun _ => True) (F := fun _ => True) (fun _ _ _ => trivial)
    fun _ => trivial).post h

theorem Succeeds.coordinates {fields : List (String × Value)}
    (h : Succeeds (Load.span (.object fields))) :
    (∃ w, Value.get? (.object fields) "file" = some w) ∧
    (∀ key ∈ Value.endKeys,
      ∃ w n, Value.get? (.object fields) key = some w ∧ w.toInt = .ok n) ∧
    ((Value.field (.object fields) "expn_id").isNull = false →
      ∃ w n, Value.get? (.object fields) "expn_id" = some w ∧ w.toInt = .ok n) := by
  have h : Succeeds (Load.coordinates (.object fields)) := Succeeds.catching h
  unfold Load.coordinates at h
  obtain ⟨file, hfile, h⟩ := h.bind
  obtain ⟨w₁, hw₁, h⟩ := h.bind
  obtain ⟨n₁, hn₁, h⟩ := h.bind
  obtain ⟨w₂, hw₂, h⟩ := h.bind
  obtain ⟨n₂, hn₂, h⟩ := h.bind
  obtain ⟨w₃, hw₃, h⟩ := h.bind
  obtain ⟨n₃, hn₃, h⟩ := h.bind
  obtain ⟨w₄, hw₄, h⟩ := h.bind
  obtain ⟨n₄, hn₄, h⟩ := h.bind
  obtain ⟨o, ho, -⟩ := h.bind
  refine ⟨⟨file, Value.get?_of_under hfile⟩, fun key hkey => ?_, fun hgiven => ?_⟩
  · simp only [Value.endKeys, List.mem_cons, List.not_mem_nil, or_false] at hkey
    rcases hkey with rfl | rfl | rfl | rfl
    · exact ⟨w₁, n₁, Value.get?_of_under hw₁, toInt_of_int hn₁⟩
    · exact ⟨w₂, n₂, Value.get?_of_under hw₂, toInt_of_int hn₂⟩
    · exact ⟨w₃, n₃, Value.get?_of_under hw₃, toInt_of_int hn₃⟩
    · exact ⟨w₄, n₄, Value.get?_of_under hw₄, toInt_of_int hn₄⟩
  · obtain ⟨n, hn⟩ := Succeeds.optional ⟨o, ho⟩ hgiven
    exact ⟨_, n, Value.get?_of_field hgiven, toInt_of_int hn⟩

theorem Succeeds.toInt (h : Succeeds (Load.span v)) {key : String} {w : Value}
    (hkey : key ∈ Value.coordinateKeys) (hw : v.get? key = some w)
    (hgiven : key ∈ Value.endKeys ∨ w.isNull = false) : ∃ n, w.toInt = .ok n := by
  cases v with
  | object fields =>
    obtain ⟨-, hends, hexpansion⟩ := h.coordinates
    have hgets : ∃ w n, Value.get? (.object fields) key = some w ∧ w.toInt = .ok n := by
      rcases List.mem_append.mp hkey with hend | hlast
      · exact hends key hend
      · -- only the expansion may be null, and then it is not read
        cases List.mem_singleton.mp hlast
        refine hexpansion ?_
        rw [Value.field_of_get? hw]
        exact hgiven.resolve_left (by decide)
    obtain ⟨w', n, hw', hn⟩ := hgets
    cases hw'.symm.trans hw
    exact ⟨n, hn⟩
  | null | bool | int | float | str | list | symbol | quoted | brackets => cases hw

theorem not_badSpan (h : Succeeds (span v)) (e : DumpError) : ¬BadSpan v e := by
  intro hbad
  cases hbad with
  | text hread =>
    rw [span, spanText, hread] at h
    exact absurd h not_succeeds_error
  | kind hnull hstr hobject =>
    rw [span.eq_4 v (by rintro rfl; cases hnull) hstr (by rintro fields rfl; cases hobject)] at h
    exact absurd h not_succeeds_error
  | missing hobject hkey hnone =>
    cases v with
    | object fields =>
      obtain ⟨⟨file, hfile⟩, hends, -⟩ := h.coordinates
      rcases List.mem_cons.mp hkey with rfl | hend
      · cases hfile.symm.trans hnone
      · obtain ⟨w, n, hw, -⟩ := hends _ hend
        cases hw.symm.trans hnone
    | null | bool | int | float | str | list | symbol | quoted | brackets => cases hobject
  | coordinate hkey hw hgiven hint =>
    obtain ⟨n, hn⟩ := h.toInt hkey hw hgiven
    cases hn.symm.trans hint

theorem toInt_of_isInfinite {w : Value} (h : w.IsInfinite) : w.toInt = .error .infinite := by
  obtain ⟨x, rfl, hx⟩ := h
  simp only [Value.toInt, hx]

theorem not_infiniteCoordinate (h : Succeeds (span v)) : ¬v.HasInfiniteCoordinate := by
  rintro ⟨key, hkey, w, hw, hinf⟩
  have hgiven : w.isNull = false := by
    obtain ⟨x, rfl, -⟩ := hinf
    rfl
  obtain ⟨n, hn⟩ := h.toInt hkey hw (.inr hgiven)
  cases hn.symm.trans (toInt_of_isInfinite hinf)

theorem Succeeds.signature (h : Succeeds (Load.optional Load.signature v))
    (hgiven : v.isNull = false) :
    v.isObject ∧ IsWord ((v.get? "unsafety").getD (.str "normal")) ["normal", "unsafe"] := by
  have h := h.optional hgiven
  unfold Load.signature at h
  split at h
  · exact absurd h not_succeeds_error
  next hobject =>
    obtain ⟨safety, hsafety, -⟩ := h.bind
    exact ⟨by simpa using hobject, _, (word_of_choice hsafety).2, (word_of_choice hsafety).1⟩

theorem Succeeds.target (h : Succeeds (Load.optional Load.target v)) (hgiven : v.isNull = false) :
    ∃ w, v.get? "kind" = some w := by
  have h := h.optional hgiven
  unfold Load.target at h
  obtain ⟨kind, hkind, -⟩ := h.bind
  exact ⟨kind, get?_of_require hkind⟩

/-- A list of files that is accepted has the path and the text of each. -/
theorem Succeeds.files (h : Succeeds (Load.files v)) (hgiven : v.isNull = false) :
    (∃ vs, v.parts? = some vs) ∧
    (v.isObject = false → ∀ f, v.HasPart f → ∀ key ∈ ["path", "text"],
      ∃ w, f.get? key = some w) := by
  unfold Load.files at h
  split at h
  · cases hgiven
  · -- an object has the texts under their paths, and nothing in it can be missing
    exact ⟨⟨_, rfl⟩, nofun⟩
  · obtain ⟨vs, hvs, h⟩ := h.bind
    obtain ⟨pairs, hpairs, -⟩ := h.bind
    have hparts := Value.parts?_of_partsOr hvs
    refine ⟨⟨vs, hparts⟩, fun _ f hf key hkey => ?_⟩
    have hfile := (mapM_eq_ok hpairs).2 f ((Value.mem_iff_hasPart hparts).mpr hf)
    obtain ⟨path, hpath, hfile⟩ := hfile.bind
    obtain ⟨text, htext, -⟩ := hfile.bind
    simp only [List.mem_cons, List.not_mem_nil, or_false] at hkey
    rcases hkey with rfl | rfl
    · exact ⟨path, get?_of_require hpath⟩
    · exact ⟨text, get?_of_require htext⟩

structure AcceptedExpansion (v id : Value) : Prop where
  hid : v.get? "id" = some id
  int : ∃ n, id.toInt = .ok n
  format : IsWord ((v.get? "format").getD (.str "bang")) ["bang", "attribute", "compiler"]
  sites : ∀ key ∈ ["call_site", "def_site"], (v.field key).truthy → Succeeds (span (v.field key))

theorem Succeeds.site (h : Succeeds (Load.site v)) (hgiven : v.truthy) :
    Succeeds (Load.span v) := by
  rw [Load.site, if_pos hgiven] at h
  exact h.map

theorem Succeeds.expansion (h : Succeeds (Load.expansion v)) : ∃ id, AcceptedExpansion v id := by
  unfold Load.expansion at h
  obtain ⟨id, hid, h⟩ := h.bind
  obtain ⟨n, hn, h⟩ := h.bind
  obtain ⟨format, hformat, h⟩ := h.bind
  obtain ⟨callSite, hcall, h⟩ := h.bind
  obtain ⟨defSite, hdef, -⟩ := h.bind
  refine ⟨id, get?_of_require hid, ⟨n, toInt_of_int hn⟩,
    ⟨_, (word_of_choice hformat).2, (word_of_choice hformat).1⟩, fun key hkey => ?_⟩
  simp only [List.mem_cons, List.not_mem_nil, or_false] at hkey
  rcases hkey with rfl | rfl
  · exact Succeeds.site ⟨callSite, hcall⟩
  · exact Succeeds.site ⟨defSite, hdef⟩

end

structure AcceptedCrate (root : Value) : Prop where
  object : root.isObject
  name : ∃ w, root.get? "name" = some w
  list : (root.field "items").truthy → ∃ vs, (root.field "items").parts? = some vs
  items : ∀ w, (root.field "items").HasPart w → Accepts .item w
  files : Succeeds (files (root.field "files"))
  table : (root.field "expansions").isNull = false →
    ∃ vs, (root.field "expansions").parts? = some vs
  expansions : ∀ w, Expands root w → ∃ id, AcceptedExpansion w id

section

variable {root v : Value}

theorem accepted_expansions (h : Succeeds (expansions (root.field "expansions"))) :
    ((root.field "expansions").isNull = false → ∃ vs, (root.field "expansions").parts? = some vs) ∧
    ∀ w, Expands root w → ∃ id, AcceptedExpansion w id := by
  unfold expansions at h
  split at h
  next hnull =>
    constructor
    · intro hgiven
      rw [hnull] at hgiven
      cases hgiven
    · intro w hw
      rw [Expands, hnull] at hw
      obtain ⟨vs, hvs, -⟩ := hw
      cases hvs
  next fields hfields =>
    -- an object is gone through by its values here, and by its keys anywhere else
    obtain ⟨entries, hentries, h⟩ := h.bind
    obtain ⟨all, hall, -⟩ := h.bind
    cases hentries
    refine ⟨fun _ => ⟨_, by rw [hfields]; rfl⟩, fun w hw => ?_⟩
    rw [Expands, hfields] at hw
    obtain ⟨key, hmem⟩ := hw
    exact ((mapM_eq_ok hall).2 w (List.mem_map_of_mem hmem)).expansion
  next hnull hobject =>
    obtain ⟨entries, hentries, h⟩ := h.bind
    obtain ⟨all, hall, -⟩ := h.bind
    have hparts := Value.parts?_of_partsOr hentries
    refine ⟨fun _ => ⟨entries, hparts⟩, fun w hw => ?_⟩
    unfold Expands at hw
    split at hw
    next fields hfields => exact absurd hfields (hobject fields)
    next => exact ((mapM_eq_ok hall).2 w ((Value.mem_iff_hasPart hparts).mpr hw)).expansion

theorem accepted_of_crate (h : Succeeds (crate root)) : AcceptedCrate root := by
  unfold crate at h
  split at h
  next hobject =>
    have h := h.catching
    unfold contents at h
    obtain ⟨name, hname, h⟩ := h.bind
    obtain ⟨vs, hvs, h⟩ := h.bind
    obtain ⟨items, hitems, h⟩ := h.bind
    obtain ⟨files, hfiles, h⟩ := h.bind
    obtain ⟨expansions, hexpansions, -⟩ := h.bind
    obtain ⟨hlist, hparts⟩ := parts?_of_partsIfAny hvs
    obtain ⟨htable, hexpands⟩ := accepted_expansions ⟨expansions, hexpansions⟩
    exact {
      object := hobject
      name := ⟨name, get?_of_require hname⟩
      list := fun hgiven => ⟨vs, hlist hgiven⟩
      items := fun w hw => ⟨_, (mapM_eq_ok hitems).2 w ((hparts w).mpr hw)⟩
      files := ⟨files, hfiles⟩
      table := htable
      expansions := hexpands }
  next => exact absurd h not_succeeds_error

/-- All that a dump gives to be read is accepted if the dump is. -/
theorem Reached.accepted (hroot : AcceptedCrate root) {role : Role} (hv : Reached root role v) :
    Accepts role v := by
  -- from the outside in: whatever is accepted has had all that it gives accepted before
  induction hv with
  | top hv => exact hroot.items _ hv
  | nested _ htag hfn hv ih => exact (ih.item_of_tag htag).items hfn _ hv
  | fnBody _ htag hfn hv ih =>
    obtain ⟨w, hw, hblock⟩ := (ih.item_of_tag htag).body hfn
    cases hw.symm.trans hv
    exact hblock
  | stmt _ hstmts hv ih => exact (ih.block_of_stmts hstmts).stmts _ hv
  | value _ hv hgiven ih =>
    obtain ⟨stmts, hblock⟩ := ih.block
    rw [← Value.field_of_get? hv] at hgiven ⊢
    exact hblock.value hgiven
  | declared _ hkind hv ih =>
    obtain ⟨w, hw, hitem⟩ := (ih.stmt_of_kind hkind).item rfl
    cases hw.symm.trans hv
    exact hitem
  | carried _ hkind hv hgiven ih =>
    obtain ⟨kind, hstmt⟩ := ih.stmt
    rw [← Value.field_of_get? hv] at hgiven ⊢
    exact hstmt.expr (fun h => hkind (hstmt.hkind.trans (congrArg some h))) hgiven
  | operand _ hblock hv ih =>
    obtain ⟨tag, hexpr⟩ := ih.expr
    have hoperand := hexpr.operands _ hv
    rwa [if_neg (by simp [hblock])] at hoperand
  | blockOperand _ hblock hv ih =>
    obtain ⟨tag, hexpr⟩ := ih.expr
    have hoperand := hexpr.operands _ hv
    rwa [if_pos hblock] at hoperand
  | exprBody _ hv hgiven ih =>
    obtain ⟨tag, hexpr⟩ := ih.expr
    rw [← Value.field_of_get? hv] at hgiven ⊢
    exact hexpr.body hgiven

variable (hroot : AcceptedCrate root)
include hroot

theorem Spans.accepted (hv : Spans root v) : Succeeds (span v) := by
  cases hv with
  | part hv => exact (hv.accepted hroot).span
  | site hv hkey hgiven =>
    obtain ⟨id, hexpansion⟩ := hroot.expansions _ hv
    exact hexpansion.sites _ hkey hgiven

theorem Signs.accepted (hv : Signs root v) :
    v.isObject ∧ IsWord ((v.get? "unsafety").getD (.str "normal")) ["normal", "unsafe"] := by
  cases hv with
  | expr hv hgiven =>
    obtain ⟨tag, hexpr⟩ := (hv.accepted hroot).expr
    exact hexpr.signature.signature hgiven
  | fn hv htag hfn hgiven =>
    exact (((hv.accepted hroot).item_of_tag htag).signature hfn).signature hgiven

theorem Needs.accepted {owner key : String} (h : Needs root v owner key) :
    ∃ w, v.get? key = some w := by
  cases h with
  | crate => exact hroot.name
  | item hv =>
    obtain ⟨tag, hitem⟩ := (hv.accepted hroot).item
    exact exists_kind hitem.htag
  | fn hv htag hfn =>
    obtain ⟨w, hw, -⟩ := ((hv.accepted hroot).item_of_tag htag).body hfn
    exact ⟨w, hw⟩
  | block hv =>
    obtain ⟨stmts, hblock⟩ := (hv.accepted hroot).block
    exact ⟨stmts, hblock.hstmts⟩
  | stmt hv =>
    obtain ⟨kind, hstmt⟩ := (hv.accepted hroot).stmt
    exact ⟨kind, hstmt.hkind⟩
  | itemStmt hv hkind =>
    obtain ⟨w, hw, -⟩ := ((hv.accepted hroot).stmt_of_kind hkind).item rfl
    exact ⟨w, hw⟩
  | expr hv =>
    obtain ⟨tag, hexpr⟩ := (hv.accepted hroot).expr
    exact exists_kind hexpr.htag
  | target hv hgiven =>
    obtain ⟨tag, hexpr⟩ := (hv.accepted hroot).expr
    exact hexpr.target.target hgiven
  | file hobject hv hkey =>
    exact (hroot.files.files (Value.isNull_of_hasPart hv)).2 hobject _ hv _ hkey
  | expansion hv =>
    obtain ⟨id, hexpansion⟩ := hroot.expansions _ hv
    exact ⟨id, hexpansion.hid⟩

theorem Chooses.accepted {what : String} {words : List String} (h : Chooses root v what words) :
    IsWord v words := by
  cases h with
  | safety hv => exact (hv.accepted hroot).2
  | rules hv =>
    obtain ⟨stmts, hblock⟩ := (hv.accepted hroot).block
    exact hblock.rules
  | author hv =>
    obtain ⟨stmts, hblock⟩ := (hv.accepted hroot).block
    exact hblock.author
  | stmtKind hv hw => exact ((hv.accepted hroot).stmt_of_kind hw).word
  | format hv =>
    obtain ⟨id, hexpansion⟩ := hroot.expansions _ hv
    exact hexpansion.format

theorem Lists.accepted (h : Lists root v) : ∃ vs, v.parts? = some vs := by
  cases h with
  | items hgiven => exact hroot.list hgiven
  | nested hv htag hfn hgiven => exact ((hv.accepted hroot).item_of_tag htag).list hfn hgiven
  | stmts hv hw => exact ((hv.accepted hroot).block_of_stmts hw).list
  | operands hv hgiven =>
    obtain ⟨tag, hexpr⟩ := (hv.accepted hroot).expr
    exact hexpr.list hgiven
  | files hgiven => exact (hroot.files.files hgiven).1
  | expansions hgiven => exact hroot.table hgiven

/-- A dump that is accepted has no fault. -/
theorem AcceptedCrate.not_faulty (e : DumpError) : ¬Faulty root e := by
  intro hfaulty
  cases hfaulty with
  | notRecord h => rw [hroot.object] at h; cases h
  | missingField hneeds h =>
    obtain ⟨w, hw⟩ := hneeds.accepted hroot
    cases hw.symm.trans h
  | unknownWord hchooses h =>
    obtain ⟨word, hword, hv⟩ := hchooses.accepted hroot
    exact h word hword hv
  | badSpan hv h => exact not_badSpan (hv.accepted hroot) e h
  | noBody hv htag hkind _ hoperands hbody =>
    rcases ((hv.accepted hroot).expr_of_tag htag).runs hkind with ⟨o, ho, hblock⟩ | hgiven
    · rw [hoperands o ho] at hblock
      cases hblock
    · rw [hbody] at hgiven
      cases hgiven
  | noParts hv h =>
    obtain ⟨vs, hvs⟩ := hv.accepted hroot
    cases hvs.symm.trans h
  | signature hv h =>
    rw [(hv.accepted hroot).1] at h
    cases h
  | identity hv hw h =>
    obtain ⟨id, hexpansion⟩ := hroot.expansions _ hv
    obtain ⟨n, hn⟩ := hexpansion.int
    cases hexpansion.hid.symm.trans hw
    cases hn.symm.trans h

theorem AcceptedCrate.not_overflows : ¬Overflows root := by
  intro hover
  cases hover with
  | span hv hinf => exact not_infiniteCoordinate (hv.accepted hroot) hinf
  | id hv hw hinf =>
    obtain ⟨id, hexpansion⟩ := hroot.expansions _ hv
    obtain ⟨n, hn⟩ := hexpansion.int
    cases hexpansion.hid.symm.trans hw
    cases hn.symm.trans (toInt_of_isInfinite hinf)

end

/-- Closures and block expressions have a block operand, functions are named functions or methods,
and a statement has an item exactly if it is an item statement, which has no expression. -/
structure Proper (c : Crate) : Prop where
  expr : ∀ e, .expr e ∈ partsOfItems c.items → e.kind = .closure ∨ e.kind = .block →
    ∃ b, .block b ∈ e.operands
  fn : ∀ f, .item (.fn f) ∈ partsOfItems c.items → f.kind = .function ∨ f.kind = .method
  itemStmt : ∀ s, .stmt s ∈ partsOfItems c.items → s.word = "item" → s.item?.isSome ∧ s.expr? = none
  otherStmt : ∀ s, .stmt s ∈ partsOfItems c.items → s.word ≠ "item" → s.item? = none

theorem proper_of_stems {root : Value} {c : Crate} (h : Stems root (partsOfItems c.items)) :
    Proper c where
  expr e he := by
    obtain ⟨v, -, hfits⟩ := h _ he
    exact hfits.2.2
  fn f hf := by
    obtain ⟨v, -, hfits⟩ := h _ hf
    exact hfits.2
  itemStmt s hs := by
    obtain ⟨v, -, hfits⟩ := h _ hs
    exact hfits.2.1
  otherStmt s hs := by
    obtain ⟨v, -, hfits⟩ := h _ hs
    exact hfits.2.2

theorem crate_ends (v : Value) :
    (∃ c, crate v = .ok c ∧ Proper c ∧ Stems v (partsOfItems c.items)) ∨
      (∃ e, crate v = .error (.refused e) ∧ Faulty v e) ∨
      (crate v = .error .infinite ∧ Overflows v) := by
  have hloads := crate_stems v
  generalize crate v = r at hloads
  cases hloads with
  | ok h => exact .inl ⟨_, rfl, proper_of_stems h, h⟩
  | refused h => exact .inr (.inl ⟨_, rfl, h⟩)
  | raised h =>
    obtain ⟨rfl, hover⟩ := h
    exact .inr (.inr ⟨rfl, hover⟩)

/-- Whatever value a dump is, it gives a crate that is proper and stems from it, or it is refused
for a fault that it has, or it gives an infinite number for a coordinate of a span or for what
identifies an expansion. It gives a crate exactly if it has neither. -/
theorem crate_accepts_iff_faultless (v : Value) :
    ((∃ c, crate v = .ok c ∧ Proper c ∧ Stems v (partsOfItems c.items)) ∨
      (∃ e, crate v = .error (.refused e) ∧ Faulty v e) ∨
      (crate v = .error .infinite ∧ Overflows v)) ∧
    ((∃ c, crate v = .ok c) ↔ (∀ e, ¬Faulty v e) ∧ ¬Overflows v) := by
  refine ⟨crate_ends v, fun h => ?_, ?_⟩
  · have hroot := accepted_of_crate h
    exact ⟨hroot.not_faulty, hroot.not_overflows⟩
  · rintro ⟨hfaultless, hfinite⟩
    rcases crate_ends v with ⟨c, hc, -⟩ | ⟨e, -, he⟩ | ⟨-, hover⟩
    · exact ⟨c, hc⟩
    · exact absurd he (hfaultless e)
    · exact absurd hover hfinite

end CrateAudit.Load
