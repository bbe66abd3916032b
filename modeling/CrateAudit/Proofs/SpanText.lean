import CrateAudit.Proofs.SymbolicText

namespace CrateAudit

open Number Text

namespace Text

variable {cs : List Char}

theorem dropWhile_isBlank (h : ∀ c ∈ cs.head?, isBlank c = false) : cs.dropWhile isBlank = cs := by
  cases cs with
  | nil => rfl
  | cons c cs =>
    have hc : isBlank c = false := h c rfl
    rw [List.dropWhile_cons, hc]
    rfl

theorem strip_eq_self (hstart : ∀ c ∈ cs.head?, isBlank c = false)
    (hend : ∀ c ∈ cs.getLast?, isBlank c = false) :
    strip cs = cs := by
  have hback : cs.reverse.dropWhile isBlank = cs.reverse := by
    apply dropWhile_isBlank
    rw [List.head?_reverse]
    exact hend
  rw [strip, trim, dropWhile_isBlank hstart, hback, List.reverse_reverse]

theorem not_isBlank_head?_strip (cs : List Char) : ∀ c ∈ (strip cs).head?, isBlank c = false := by
  intro c hc
  -- what is left is a prefix of the text from its first character that is no blank
  have hprefix : strip cs <+: cs.dropWhile isBlank := by
    rw [strip, trim, ← List.reverse_suffix, List.reverse_reverse]
    exact List.dropWhile_suffix isBlank
  obtain ⟨rest, hrest⟩ := hprefix
  have hhead : (cs.dropWhile isBlank).head? = some c := by
    rw [← hrest, List.head?_append, Option.mem_def.mp hc]
    rfl
  have h := List.head?_dropWhile_not isBlank cs
  rw [hhead] at h
  exact h

end Text

namespace Span

section Numerals

def IsNumeral (cs : List Char) : Prop :=
  cs ≠ [] ∧ ∀ c ∈ cs, isDigit c

def Stops (rest : List Char) : Prop :=
  ∀ c ∈ rest.head?, isDigit c = false

variable {c : Char} {cs ds rest rest' : List Char}

theorem IsNumeral.exists_cons (h : IsNumeral ds) : ∃ c cs, ds = c :: cs ∧ isDigit c := by
  obtain ⟨c, cs, rfl⟩ := List.exists_cons_of_ne_nil h.1
  exact ⟨c, cs, rfl, h.2 c List.mem_cons_self⟩

theorem stops_cons (hc : isDigit c = false) (cs : List Char) : Stops (c :: cs) := by
  intro d hd
  cases hd
  exact hc

theorem takeWhile_of_stops (h : Stops rest) :
    rest.takeWhile isDigit = [] ∧ rest.dropWhile isDigit = rest := by
  cases rest with
  | nil => exact ⟨rfl, rfl⟩
  | cons c rest =>
    have hc : isDigit c = false := h c rfl
    rw [List.takeWhile_cons, List.dropWhile_cons, hc]
    exact ⟨rfl, rfl⟩

theorem expect?_eq_some_iff : expect? c cs = some rest ↔ cs = c :: rest := by
  cases cs with
  | nil => simp [expect?]
  | cons d cs =>
    by_cases hd : d = c
    · simp [expect?, hd]
    · simp [expect?, hd]

theorem number?_eq_some_iff :
    number? cs = some (ds, rest) ↔ IsNumeral ds ∧ cs = ds ++ rest ∧ Stops rest := by
  constructor
  · intro h
    have hne : cs.takeWhile isDigit ≠ [] := by
      intro hnil
      rw [number?, hnil] at h
      cases h
    unfold number? at h
    split at h
    · cases h
    · cases h
      refine ⟨⟨hne, List.all_eq_true.mp List.all_takeWhile⟩, List.takeWhile_append_dropWhile.symm,
        fun c hc => ?_⟩
      have hnot := List.head?_dropWhile_not isDigit cs
      rw [Option.mem_def.mp hc] at hnot
      exact hnot
  · rintro ⟨hds, rfl, hrest⟩
    have hstop := takeWhile_of_stops hrest
    rw [number?, List.takeWhile_append_of_pos hds.2, List.dropWhile_append_of_pos hds.2,
      hstop.1, hstop.2, List.append_nil]
    split
    · exact absurd rfl hds.1
    · rfl

end Numerals

section Positions

def Positions.chars (p : Positions) : List Char :=
  ':' :: (p.loLine ++ ':' :: (p.loColumn ++ ':' :: ' ' :: (p.hiLine ++ ':' :: p.hiColumn)))

def Positions.AreNumerals (p : Positions) : Prop :=
  IsNumeral p.loLine ∧ IsNumeral p.loColumn ∧ IsNumeral p.hiLine ∧ IsNumeral p.hiColumn

variable {p : Positions} {cs v x rest : List Char}

theorem Positions.chars_append (p : Positions) (rest : List Char) :
    p.chars ++ rest =
      ':' :: (p.loLine ++ ':' ::
        (p.loColumn ++ ':' :: ' ' :: (p.hiLine ++ ':' :: (p.hiColumn ++ rest)))) := by
  simp [Positions.chars]

theorem positions?_eq_some_iff :
    positions? cs = some (p, rest) ↔ p.AreNumerals ∧ cs = p.chars ++ rest ∧ Stops rest := by
  obtain ⟨a, b, c, d⟩ := p
  have hcolon (rest : List Char) : Stops (':' :: rest) := stops_cons (by decide) rest
  simp only [positions?, Option.bind_eq_bind, Option.bind_eq_some_iff, Prod.exists,
    expect?_eq_some_iff, number?_eq_some_iff, Positions.AreNumerals, Positions.chars_append]
  constructor
  · rintro ⟨_, rfl, _, _, ⟨ha, rfl, _⟩, _, rfl, _, _, ⟨hb, rfl, _⟩, _, rfl, _, rfl, _, _,
      ⟨hc, rfl, _⟩, _, rfl, _, _, ⟨hd, rfl, hstop⟩, h⟩
    cases h
    exact ⟨⟨ha, hb, hc, hd⟩, rfl, hstop⟩
  · rintro ⟨⟨ha, hb, hc, hd⟩, rfl, hstop⟩
    exact ⟨_, rfl, a, _, ⟨ha, rfl, hcolon _⟩, _, rfl, b, _, ⟨hb, rfl, hcolon _⟩, _, rfl,
      _, rfl, c, _, ⟨hc, rfl, hcolon _⟩, _, rfl, d, rest, ⟨hd, rfl, hstop⟩, rfl⟩

/-- Positions stand at the front of a text: what is behind the last numeral is not looked at. -/
theorem isSome_positions?_iff :
    (positions? cs).isSome ↔ ∃ p rest, Positions.AreNumerals p ∧ cs = p.chars ++ rest := by
  rw [Option.isSome_iff_exists]
  constructor
  · rintro ⟨⟨p, rest⟩, h⟩
    obtain ⟨hp, hcs, _⟩ := positions?_eq_some_iff.mp h
    exact ⟨p, rest, hp, hcs⟩
  · rintro ⟨⟨a, b, c, d⟩, rest, ⟨ha, hb, hc, hd⟩, rfl⟩
    -- the last numeral is as long as digits follow
    have hlong : number? (d ++ rest) =
        some (d ++ rest.takeWhile isDigit, rest.dropWhile isDigit) := by
      rw [number?, List.takeWhile_append_of_pos hd.2, List.dropWhile_append_of_pos hd.2]
      split
      next hnil => exact absurd (List.append_eq_nil_iff.mp hnil).1 hd.1
      next => rfl
    obtain ⟨hd', hsplit, hstop⟩ := number?_eq_some_iff.mp hlong
    refine ⟨(⟨a, b, c, d ++ rest.takeWhile isDigit⟩, rest.dropWhile isDigit),
      positions?_eq_some_iff.mpr ⟨⟨ha, hb, hc, hd'⟩, ?_, hstop⟩⟩
    rw [Positions.chars_append, Positions.chars_append, ← hsplit]

theorem IsNumeral.split {ds : List Char} (hds : IsNumeral ds) (hx : Stops x)
    (h : v ++ x = ds ++ rest) :
    ∃ w, v = ds ++ w ∧ w ++ x = rest := by
  rcases List.append_eq_append_iff.mp h with ⟨more, hds', hx'⟩ | ⟨w, hv, hrest⟩
  · cases more with
    | nil => exact ⟨[], by simpa using hds'.symm, by simpa using hx'⟩
    | cons c more =>
      have hc : isDigit c = true := hds.2 c (by simp [hds'])
      have hnot : isDigit c = false := hx c (by simp [hx'])
      rw [hc] at hnot
      cases hnot
  · exact ⟨w, hv, hrest.symm⟩

/-- Positions start here whatever positions come behind: they stand here whole, or all of them but
the last column. -/
def StartsPositions (v : List Char) : Prop :=
  (positions? v).isSome ∨
    ∃ a b c, IsNumeral a ∧ IsNumeral b ∧ IsNumeral c ∧
      v = ':' :: (a ++ ':' :: (b ++ ':' :: ' ' :: c))

theorem IsNumeral.ne_cons {ds : List Char} (hds : IsNumeral ds) {c : Char}
    (hc : isDigit c = false) :
    ds ++ v ≠ c :: rest := by
  intro h
  obtain ⟨d, ds, rfl, hd⟩ := hds.exists_cons
  rw [List.cons_append, List.cons.injEq] at h
  rw [h.1, hc] at hd
  cases hd

/-- Positions that start in front of others do not hang on what these are: they end before them, or
take the first line for their last column. Any other overlap fails at the space. -/
theorem isSome_positions?_append (hv : v ≠ []) (hp : p.AreNumerals) :
    (positions? (v ++ (p.chars ++ rest))).isSome ↔ StartsPositions v := by
  obtain ⟨first, column, _, _⟩ := p
  obtain ⟨hfirst, hcolumn, -, -⟩ := hp
  have hcolon (cs : List Char) : Stops (':' :: cs) := stops_cons (by decide) cs
  rw [Positions.chars_append]
  dsimp only at *
  generalize ':' :: ' ' :: _ = last
  constructor
  · rw [isSome_positions?_iff]
    rintro ⟨⟨a, b, c, d⟩, after, ⟨ha, hb, hc, hd⟩, h⟩
    rw [Positions.chars_append] at h
    dsimp only at *
    -- each numeral ends in `v`, so only the four marks between them can be the first beyond it
    rcases List.append_eq_cons_iff.mp h with ⟨hnil, -⟩ | ⟨v, rfl, h₁⟩
    · exact absurd hnil hv
    obtain ⟨v, rfl, h₂⟩ := ha.split (hcolon _) h₁.symm
    rcases List.append_eq_cons_iff.mp h₂ with ⟨rfl, h₃⟩ | ⟨v, rfl, h₃⟩
    · obtain ⟨w, rfl, h₄⟩ := hb.split (hcolon _) (List.cons.inj h₃).2
      rcases List.append_eq_cons_iff.mp h₄ with ⟨-, h₅⟩ | ⟨w, rfl, -⟩
      · exact absurd (List.cons.inj h₅).2 (hcolumn.ne_cons (by decide))
      · exact absurd (hfirst.2 ':' (by simp)) (by decide)
    obtain ⟨v, rfl, h₄⟩ := hb.split (hcolon _) h₃.symm
    rcases List.append_eq_cons_iff.mp h₄ with ⟨rfl, h₅⟩ | ⟨v, rfl, h₅⟩
    · exact absurd (List.cons.inj h₅).2 (hfirst.ne_cons (by decide))
    rcases List.append_eq_cons_iff.mp h₅.symm with ⟨rfl, h₆⟩ | ⟨v, rfl, h₆⟩
    · cases h₆
    obtain ⟨v, rfl, h₇⟩ := hc.split (hcolon _) h₆.symm
    rcases List.append_eq_cons_iff.mp h₇ with ⟨rfl, -⟩ | ⟨v, rfl, h₈⟩
    · exact .inr ⟨a, b, c, ha, hb, hc, by rw [List.append_nil]⟩
    obtain ⟨v, rfl, -⟩ := hd.split (hcolon _) h₈.symm
    exact .inl (isSome_positions?_iff.mpr ⟨⟨a, b, c, d⟩, v, ⟨ha, hb, hc, hd⟩,
      by rw [Positions.chars_append]⟩)
  · rw [isSome_positions?_iff]
    rintro (h | ⟨a, b, c, ha, hb, hc, rfl⟩)
    · obtain ⟨p, after, hp, rfl⟩ := isSome_positions?_iff.mp h
      exact ⟨p, _, hp, List.append_assoc ..⟩
    · exact ⟨⟨a, b, c, first⟩, ':' :: (column ++ last), ⟨ha, hb, hc, hfirst⟩,
        by simp [Positions.chars_append]⟩

end Positions

section Paths

variable {p : Positions} {path cs rest : List Char}

/-- The path goes up to the first place, behind its first character, where positions start. -/
theorem path?_eq_some_iff : path? cs = some (path, rest) ↔
    path ≠ [] ∧ '\n' ∉ path ∧ cs = path ++ rest ∧ (positions? rest).isSome ∧
      ∀ k, k + 1 < path.length → (positions? (path.drop (k + 1) ++ rest)).isSome = false := by
  induction cs generalizing path with
  | nil =>
    simp only [path?, reduceCtorEq, false_iff]
    rintro ⟨hne, -, hcs, -⟩
    exact hne (List.append_eq_nil_iff.mp hcs.symm).1
  | cons c cs ih =>
    by_cases hc : c = '\n'
    · simp only [path?, hc, if_true, reduceCtorEq, false_iff]
      rintro ⟨hne, hline, hcs, -⟩
      obtain ⟨d, path, rfl⟩ := List.exists_cons_of_ne_nil hne
      rw [List.cons_append, List.cons.injEq] at hcs
      exact hline (by simp [← hcs.1])
    rw [path?, if_neg hc]
    by_cases hfound : (positions? cs).isSome
    · rw [if_pos hfound]
      constructor
      · intro h
        cases h
        refine ⟨List.cons_ne_nil _ _, by simp [Ne.symm hc], rfl, hfound, fun k hk => ?_⟩
        rw [List.length_singleton] at hk
        omega
      · rintro ⟨hne, -, hcs, -, hclear⟩
        obtain ⟨d, path, rfl⟩ := List.exists_cons_of_ne_nil hne
        rw [List.cons_append, List.cons.injEq] at hcs
        obtain ⟨rfl, rfl⟩ := hcs
        cases path with
        | nil => rfl
        | cons e path =>
          have hnone : (positions? (e :: path ++ rest)).isSome = false := hclear 0 (by simp)
          rw [hfound] at hnone
          cases hnone
    · rw [if_neg hfound, Option.map_eq_some_iff]
      constructor
      · rintro ⟨⟨path, rest⟩, hpath, h⟩
        cases h
        obtain ⟨-, hline, rfl, hrest, hclear⟩ := ih.mp hpath
        refine ⟨List.cons_ne_nil _ _, by simp [hline, Ne.symm hc], rfl, hrest, fun k hk => ?_⟩
        cases k with
        | zero => exact Bool.eq_false_iff.mpr hfound
        | succ k => exact hclear k (Nat.lt_of_succ_lt_succ hk)
      · rintro ⟨hne, hline, hcs, hrest, hclear⟩
        obtain ⟨d, path, rfl⟩ := List.exists_cons_of_ne_nil hne
        rw [List.cons_append, List.cons.injEq] at hcs
        obtain ⟨rfl, rfl⟩ := hcs
        have hpath : path ≠ [] := by
          rintro rfl
          exact hfound hrest
        refine ⟨(path, rest),
          ih.mpr ⟨hpath, fun h => hline (List.mem_cons_of_mem _ h), rfl, hrest, ?_⟩, rfl⟩
        intro k hk
        exact hclear (k + 1) (Nat.succ_lt_succ hk)

/-- What is read as a path, whatever positions follow it: one line in which no positions start
behind the first character. -/
structure IsPath (path : List Char) : Prop where
  ne_nil : path ≠ []
  oneLine : '\n' ∉ path
  clear : ∀ k, k + 1 < path.length → ¬StartsPositions (path.drop (k + 1))

theorem path?_append_iff (hp : p.AreNumerals) :
    path? (path ++ (p.chars ++ rest)) = some (path, p.chars ++ rest) ↔ IsPath path := by
  have hfollow : (positions? (p.chars ++ rest)).isSome :=
    isSome_positions?_iff.mpr ⟨p, rest, hp, rfl⟩
  have hstarts {k : Nat} (hk : k + 1 < path.length) :
      (positions? (path.drop (k + 1) ++ (p.chars ++ rest))).isSome = false ↔
      ¬StartsPositions (path.drop (k + 1)) := by
    have hne : path.drop (k + 1) ≠ [] := by
      rw [Ne, List.drop_eq_nil_iff]
      omega
    rw [← isSome_positions?_append hne hp, Bool.not_eq_true]
  rw [path?_eq_some_iff]
  constructor
  · rintro ⟨hne, hline, -, -, hclear⟩
    exact ⟨hne, hline, fun k hk => (hstarts hk).mp (hclear k hk)⟩
  · intro h
    exact ⟨h.ne_nil, h.oneLine, rfl, hfollow, fun k hk => (hstarts hk).mpr (h.clear k hk)⟩

end Paths

section Numbers

theorem isDigit_of_ascii {c : Char} (h : c.isDigit) : isDigit c := by
  rw [SExpr.isDigit_iff] at h
  have hzero : 48 ≤ c.toNat ∧ c.toNat < 48 + 10 := by omega
  rw [isDigit, List.any_eq_true]
  exact ⟨48, by decide, by simpa using hzero⟩

theorem digit?_lt {c : Char} {d : Nat} (h : digit? c = some d) : d < 10 := by
  obtain ⟨z, -, hz⟩ := List.exists_of_findSome?_eq_some h
  split at hz
  · cases hz
    omega
  · cases hz

theorem isNumeral_toDigits (n : Nat) : IsNumeral (Nat.toDigits 10 n) :=
  ⟨Nat.toDigits_ne_nil, fun c hc => isDigit_of_ascii (Json.isDigit_of_mem n c hc)⟩

theorem readNat?_toDigits {n : Nat} (h : Json.isShort n) :
    readNat? (Nat.toDigits 10 n) = some n := by
  have hdigits : (Nat.toDigits 10 n).mapM digit? =
      some ((Nat.toDigits 10 n).map fun c => c.toNat - 48) := by
    have hall := Json.isDigit_of_mem n
    generalize Nat.toDigits 10 n = ds at hall
    induction ds with
    | nil => rfl
    | cons c ds ih =>
      rw [List.forall_mem_cons] at hall
      rw [List.mapM_cons, SExpr.digit?_of_isDigit hall.1, ih hall.2]
      rfl
  rw [readNat?, hdigits, Option.bind_eq_bind, Option.bind_some, Json.ofDigits?_toDigits, if_pos h]

theorem foldl_digits_lt {ds : List Nat} (h : ∀ d ∈ ds, d < 10) (n : Nat) :
    ds.foldl (fun n d => 10 * n + d) n < Nat.pow 10 ds.length * (n + 1) := by
  induction ds generalizing n with
  | nil => simp
  | cons d ds ih =>
    rw [List.forall_mem_cons] at h
    have hstep : 10 * n + d + 1 ≤ 10 * (n + 1) := by omega
    calc ds.foldl (fun n d => 10 * n + d) (10 * n + d)
        < Nat.pow 10 ds.length * (10 * n + d + 1) := ih h.2 _
      _ ≤ Nat.pow 10 ds.length * (10 * (n + 1)) := Nat.mul_le_mul_left _ hstep
      _ = Nat.pow 10 (d :: ds).length * (n + 1) := (Nat.mul_assoc ..).symm

theorem length_toDigits_ofDigits {ds : List Nat} (h : ∀ d ∈ ds, d < 10) {k : Nat} (hk : 0 < k)
    (hds : ds.length ≤ k) :
    (Nat.toDigits 10 (ofDigits ds)).length ≤ k := by
  have hbound := foldl_digits_lt h 0
  rw [Nat.zero_add, Nat.mul_one] at hbound
  have hpow : Nat.pow 10 ds.length ≤ Nat.pow 10 k := Nat.pow_le_pow_right (by decide) hds
  exact (Nat.length_toDigits_le_iff (by decide) hk).mpr (Nat.lt_of_lt_of_le hbound hpow)

theorem lt_of_mapM_digit? {cs : List Char} {ds : List Nat} (h : cs.mapM digit? = some ds) :
    ∀ d ∈ ds, d < 10 := by
  induction cs generalizing ds with
  | nil =>
    cases h
    exact List.forall_mem_nil _
  | cons c cs ih =>
    simp only [List.mapM_cons, Option.bind_eq_bind, Option.bind_eq_some_iff] at h
    obtain ⟨d, hd, ds, hds, h⟩ := h
    cases h
    exact List.forall_mem_cons.mpr ⟨digit?_lt hd, ih hds⟩

/-- A number that was read is not longer than its numeral, and so short enough to be read again. -/
theorem isShort_of_readNat? {cs : List Char} {n : Nat} (h : readNat? cs = some n) :
    Json.isShort n := by
  obtain ⟨ds, hds, hn⟩ := Option.bind_eq_some_iff.mp h
  rw [ofDigits?] at hn
  split at hn
  next hlength =>
    cases hn
    rw [Json.isShort, decide_eq_true_eq]
    exact length_toDigits_ofDigits (lt_of_mapM_digit? hds) (by decide) hlength
  next => cases hn

end Numbers

section Display

def numbers (s : Span) : List Int :=
  [s.loLine, s.loColumn, s.hiLine, s.hiColumn] ++ s.expansion.toList

/-- The display form with the expansion behind it. -/
def display (s : Span) : String :=
  s.text ++ s.expansion.elim "" fun n => "@" ++ toString n

/-- The spans that display forms stand for. -/
structure IsDisplayed (s : Span) : Prop where
  file : ∃ file, s.file = .str file ∧ IsPath file.toList ∧
    ∀ c ∈ file.toList.head?, isBlank c = false
  numbers : ∀ n ∈ s.numbers, 0 ≤ n ∧ Json.isShort n

def numerals (s : Span) : Positions :=
  ⟨(toString s.loLine).toList, (toString s.loColumn).toList, (toString s.hiLine).toList,
    (toString s.hiColumn).toList⟩

def expansionChars (s : Span) : List Char :=
  s.expansion.elim [] fun n => '@' :: (toString n).toList

variable {s : Span}

theorem toList_display {file : String} (h : s.file = .str file) :
    s.display.toList = file.toList ++ (s.numerals.chars ++ s.expansionChars) := by
  unfold display expansionChars
  cases s.expansion <;> simp [text, h, Value.text, numerals, Positions.chars]

theorem toList_toString_of_nonneg {n : Int} (h : 0 ≤ n) :
    (toString n).toList = Nat.toDigits 10 n.toNat := by
  obtain ⟨m, rfl⟩ := Int.eq_ofNat_of_zero_le h
  exact Json.toList_toString_ofNat m

theorem isNumeral_toString {n : Int} (h : 0 ≤ n) : IsNumeral (toString n).toList := by
  rw [toList_toString_of_nonneg h]
  exact isNumeral_toDigits n.toNat

theorem readNat?_toString {n : Int} (h : 0 ≤ n ∧ Json.isShort n) :
    readNat? (toString n).toList = some n.toNat := by
  obtain ⟨m, rfl⟩ := Int.eq_ofNat_of_zero_le h.1
  rw [toList_toString_of_nonneg h.1]
  exact readNat?_toDigits h.2

theorem IsDisplayed.areNumerals (h : s.IsDisplayed) : s.numerals.AreNumerals := by
  have hnumeral {n : Int} (hn : n ∈ s.numbers) : IsNumeral (toString n).toList :=
    isNumeral_toString (h.numbers n hn).1
  exact ⟨hnumeral (by simp [Span.numbers]), hnumeral (by simp [Span.numbers]),
    hnumeral (by simp [Span.numbers]), hnumeral (by simp [Span.numbers])⟩

theorem stops_expansionChars (s : Span) : Stops s.expansionChars := by
  unfold expansionChars
  cases s.expansion with
  | none => nofun
  | some n => exact stops_cons (by decide) _

theorem IsDisplayed.expansion?_eq (h : s.IsDisplayed) :
    expansion? s.expansionChars = some (s.expansion.map fun n => (toString n).toList) := by
  unfold expansionChars
  cases he : s.expansion with
  | none => rfl
  | some n =>
    have hn : 0 ≤ n := (h.numbers n (by simp [Span.numbers, he])).1
    have hnumber : number? (toString n).toList = some ((toString n).toList, []) :=
      number?_eq_some_iff.mpr ⟨isNumeral_toString hn, (List.append_nil _).symm, nofun⟩
    simp only [Option.elim_some, expansion?, hnumber, Option.map_some]

theorem not_isBlank_of_isDigit {c : Char} (h : c.isDigit) : isBlank c = false := by
  rw [SExpr.isDigit_iff] at h
  simp only [isBlank, Bool.or_eq_false_iff, Bool.and_eq_false_iff, decide_eq_false_iff_not,
    beq_eq_false_iff_ne]
  omega

theorem exists_number_at_end (s : Span) :
    ∃ n ∈ s.numbers, ∃ front, s.numerals.chars ++ s.expansionChars =
      front ++ (toString n).toList := by
  unfold expansionChars
  cases he : s.expansion with
  | none =>
    refine ⟨s.hiColumn, by simp [numbers],
      ':' :: (s.numerals.loLine ++ ':' :: (s.numerals.loColumn ++ ':' :: ' ' ::
      (s.numerals.hiLine ++ [':']))), ?_⟩
    simp [numerals, Positions.chars]
  | some n => exact ⟨n, by simp [numbers, he], s.numerals.chars ++ ['@'], by simp⟩

theorem head?_append_of_ne_nil {path : List Char} (hne : path ≠ []) (rest : List Char) :
    (path ++ rest).head? = path.head? := by
  obtain ⟨c, path, rfl⟩ := List.exists_cons_of_ne_nil hne
  rfl

theorem IsDisplayed.strip_display (h : s.IsDisplayed) :
    strip s.display.toList = s.display.toList := by
  obtain ⟨file, hfile, hpath, hstart⟩ := h.file
  rw [toList_display hfile]
  apply strip_eq_self
  · rw [head?_append_of_ne_nil hpath.ne_nil]
    exact hstart
  · obtain ⟨n, hn, front, hend⟩ := s.exists_number_at_end
    intro c hc
    rw [hend, toList_toString_of_nonneg (h.numbers n hn).1, ← List.append_assoc,
      List.getLast?_append, List.getLast?_eq_some_getLast Nat.toDigits_ne_nil, Option.some_or] at hc
    cases hc
    exact not_isBlank_of_isDigit (Json.isDigit_of_mem _ _ (List.getLast_mem _))

theorem IsDisplayed.mapM_expansion (h : s.IsDisplayed) :
    (s.expansion.map fun n => (toString n).toList).mapM readNat? =
      some (s.expansion.map Int.toNat) ∧
      (s.expansion.map Int.toNat).map Int.ofNat = s.expansion := by
  cases he : s.expansion with
  | none => exact ⟨rfl, rfl⟩
  | some n =>
    have hn := h.numbers n (by simp [Span.numbers, he])
    rw [Option.map_some, Option.mapM_some, readNat?_toString hn]
    exact ⟨rfl, congrArg some (Int.toNat_of_nonneg hn.1)⟩

theorem IsDisplayed.read?_display (h : s.IsDisplayed) : read? s.display = some s := by
  obtain ⟨file, hfile, hpath, -⟩ := h.file
  have hread : path? (file.toList ++ (s.numerals.chars ++ s.expansionChars)) =
      some (file.toList, s.numerals.chars ++ s.expansionChars) :=
        (path?_append_iff h.areNumerals).mpr hpath
  have hpositions : positions? (s.numerals.chars ++ s.expansionChars) =
      some (s.numerals, s.expansionChars) :=
    positions?_eq_some_iff.mpr ⟨h.areNumerals, rfl, s.stops_expansionChars⟩
  have hnumber {n : Int} (hn : n ∈ s.numbers) : readNat? (toString n).toList = some n.toNat ∧
      (n.toNat : Int) = n :=
    ⟨readNat?_toString (h.numbers n hn), Int.toNat_of_nonneg (h.numbers n hn).1⟩
  obtain ⟨hloLine, hloLine'⟩ := hnumber (n := s.loLine) (by simp [Span.numbers])
  obtain ⟨hloColumn, hloColumn'⟩ := hnumber (n := s.loColumn) (by simp [Span.numbers])
  obtain ⟨hhiLine, hhiLine'⟩ := hnumber (n := s.hiLine) (by simp [Span.numbers])
  obtain ⟨hhiColumn, hhiColumn'⟩ := hnumber (n := s.hiColumn) (by simp [Span.numbers])
  obtain ⟨hexpansion, hexpansion'⟩ := h.mapM_expansion
  rw [read?, h.strip_display, toList_display hfile]
  simp only [hread, hpositions, h.expansion?_eq, Option.bind_eq_bind, Option.bind_some]
  simp only [numerals, hloLine, hloColumn, hhiLine, hhiColumn, hexpansion, Option.bind_some,
    hloLine', hloColumn', hhiLine', hhiColumn', hexpansion', String.ofList_toList, ← hfile]
  rfl

theorem isDisplayed_of_read? {t : String} (h : read? t = some s) : s.IsDisplayed := by
  simp only [read?, Option.bind_eq_bind, Option.bind_eq_some_iff, Prod.exists] at h
  obtain ⟨path, cs, hpath, p, rest, hpositions, numeral, -, a, ha, b, hb, c, hc, d, hd, e, he,
    h⟩ := h
  cases h
  obtain ⟨hp, rfl, -⟩ := positions?_eq_some_iff.mp hpositions
  obtain ⟨hne, -, hstrip, -⟩ := path?_eq_some_iff.mp hpath
  have hstart := not_isBlank_head?_strip t.toList
  rw [hstrip] at hpath hstart
  rw [head?_append_of_ne_nil hne] at hstart
  have hexpansion : ∀ n ∈ (e.map Int.ofNat).toList, 0 ≤ n ∧ Json.isShort n := by
    cases numeral with
    | none =>
      cases he
      exact List.forall_mem_nil _
    | some numeral =>
      obtain ⟨n, hn, rfl⟩ := Option.map_eq_some_iff.mp (Option.mapM_some numeral readNat? ▸ he)
      simpa using isShort_of_readNat? hn
  have hnumber {cs : List Char} {n : Nat} (hn : readNat? cs = some n) : 0 ≤ (n : Int) ∧
      Json.isShort n :=
    ⟨Int.natCast_nonneg n, isShort_of_readNat? hn⟩
  refine ⟨⟨String.ofList path, rfl, ?_⟩, ?_⟩
  · rw [String.toList_ofList]
    exact ⟨(path?_append_iff hp).mp hpath, hstart⟩
  · simp only [Span.numbers, List.forall_mem_append, List.forall_mem_cons]
    exact ⟨⟨hnumber ha, hnumber hb, hnumber hc, hnumber hd, List.forall_mem_nil _⟩, hexpansion⟩

/-- Wherever positions start, a space stands behind a colon. -/
theorem colonSpace_of_startsPositions {v : List Char} (h : StartsPositions v) :
    [':', ' '] <:+: v := by
  rcases h with h | ⟨a, b, c, -, -, -, rfl⟩
  · obtain ⟨p, rest, -, rfl⟩ := isSome_positions?_iff.mp h
    refine ⟨':' :: (p.loLine ++ ':' :: p.loColumn), p.hiLine ++ ':' :: (p.hiColumn ++ rest), ?_⟩
    simp [Positions.chars]
  · exact ⟨':' :: (a ++ ':' :: b), c, by simp⟩

theorem isPath_of_not_colonSpace {path : List Char} (hne : path ≠ []) (hline : '\n' ∉ path)
    (hcolon : ¬[':', ' '] <:+: path) : IsPath path := by
  refine ⟨hne, hline, fun k _ hstarts => hcolon ?_⟩
  exact (colonSpace_of_startsPositions hstarts).trans (List.drop_suffix (k + 1) path).isInfix

end Display

end Span

namespace Load

open CrateAudit.Span

theorem spanText_eq_ok_iff {t : String} {s : Span} : spanText t = .ok s ↔ read? t = some s := by
  unfold spanText
  cases read? t with
  | none => exact ⟨nofun, nofun⟩
  | some _ => simp

/-- A span is read back from its display form if its file is a line that starts with no blank and
has no space behind a colon, and its numbers are natural and not too long. -/
theorem spanText_display (s : Span) (file : String) (hfile : s.file = .str file) (hne : file ≠ "")
    (hline : '\n' ∉ file.toList) (hstart : file.toList.head?.any isBlank = false)
    (hcolon : ¬[':', ' '] <:+: file.toList) (hnumbers : ∀ n ∈ s.numbers, 0 ≤ n ∧ Json.isShort n) :
    spanText s.display = .ok s := by
  have hpath : IsPath file.toList := isPath_of_not_colonSpace (by simpa using hne) hline hcolon
  have hfirst : ∀ c ∈ file.toList.head?, isBlank c = false := by
    intro c hc
    rw [Option.mem_def.mp hc] at hstart
    exact hstart
  have hs : s.IsDisplayed := ⟨⟨file, hfile, hpath, hfirst⟩, hnumbers⟩
  exact spanText_eq_ok_iff.mpr hs.read?_display

theorem spanText_display_drivePath :
    display ⟨.str "C:\\a:1:2", 3, 4, 50, 6, some 7⟩ = "C:\\a:1:2:3:4: 50:6@7" ∧
      spanText (display ⟨.str "C:\\a:1:2", 3, 4, 50, 6, some 7⟩) =
        .ok ⟨.str "C:\\a:1:2", 3, 4, 50, 6, some 7⟩ := by
  refine ⟨rfl, spanText_display _ "C:\\a:1:2" rfl (by decide) (by decide) rfl ?_ (by decide)⟩
  simp [List.infix_cons_iff]

/-- Whatever text a span is read from, its display form gives the same span again. -/
theorem spanText_display_of_spanText (t : String) (s : Span) (h : spanText t = .ok s) :
    (∃ file, s.file = .str file ∧ file ≠ "" ∧ '\n' ∉ file.toList) ∧ (∀ n ∈ s.numbers, 0 ≤ n) ∧
      spanText s.display = .ok s := by
  have hs := isDisplayed_of_read? (spanText_eq_ok_iff.mp h)
  obtain ⟨file, hfile, hpath, -⟩ := hs.file
  refine ⟨⟨file, hfile, ?_, hpath.oneLine⟩, fun n hn => (hs.numbers n hn).1,
    spanText_eq_ok_iff.mpr hs.read?_display⟩
  rintro rfl
  exact hpath.ne_nil rfl

/-- A path with a space behind a colon and numbers in it, between blanks, with zeros in front of a
number and a digit of another script. -/
theorem spanText_display_untidyText :
    ∃ s, spanText " \u3000C: x:1:2: y@3:007:\u0664: 5:6@08\t" = .ok s ∧
      s.display = "C: x:1:2: y@3:7:4: 5:6@8" ∧
      (∃ file, s.file = .str file ∧ file ≠ "" ∧ '\n' ∉ file.toList) ∧ (∀ n ∈ s.numbers, 0 ≤ n) ∧
      spanText s.display = .ok s := by
  have hcheck : (spanText " \u3000C: x:1:2: y@3:007:\u0664: 5:6@08\t").toOption.map display =
      some "C: x:1:2: y@3:7:4: 5:6@8" := rfl
  cases h : spanText " \u3000C: x:1:2: y@3:007:\u0664: 5:6@08\t" with
  | error e =>
    rw [h] at hcheck
    cases hcheck
  | ok s =>
    rw [h] at hcheck
    exact ⟨s, rfl, Option.some.inj hcheck, spanText_display_of_spanText _ s h⟩

end Load

end CrateAudit
