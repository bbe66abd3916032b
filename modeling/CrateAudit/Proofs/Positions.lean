import CrateAudit.SourceMap.Lines

namespace CrateAudit.SourceMap

/-- The line of an offset: lines count from one, and each line feed before the offset starts
another. -/
def lineOf (text : List Char) (offset : Nat) : Int :=
  1 + (text.take offset).count '\n'

/-- The column of an offset: columns count from one, at the start of the text and after each line
feed. -/
def columnOf (text : List Char) (offset : Nat) : Int :=
  1 + ((text.take offset).reverse.takeWhile (· ≠ '\n')).length

def spanOf (name : String) (text : List Char) (lo hi : Nat) (expansion : Option Int) : Span :=
  ⟨.str name, lineOf text lo, columnOf text lo, lineOf text hi, columnOf text hi, expansion⟩

def IsPlace (text : List Char) (line column : Int) (offset : Nat) : Prop :=
  offset ≤ text.length ∧ line = lineOf text offset ∧ column = columnOf text offset

/-- The lines and columns of a span are those of two offsets, in order. -/
def Covers (text : List Char) (s : Span) (lo hi : Nat) : Prop :=
  lo ≤ hi ∧ IsPlace text s.loLine s.loColumn lo ∧ IsPlace text s.hiLine s.hiColumn hi

variable {text cs : List Char} {c : Char} {line column : Int} {n o start : Nat}

section Positions

@[simp] theorem lineOf_zero (text : List Char) : lineOf text 0 = 1 := by
  simp [lineOf]

@[simp] theorem columnOf_zero (text : List Char) : columnOf text 0 = 1 := by
  simp [columnOf]

theorem lineOf_cons (c : Char) (cs : List Char) (o : Nat) :
    lineOf (c :: cs) (o + 1) = lineOf cs o + if c = '\n' then 1 else 0 := by
  unfold lineOf
  rw [List.take_succ_cons, List.count_cons]
  by_cases hc : c = '\n'
  · simp [hc]
    omega
  · simp [hc]

theorem lineOf_eq_one_iff : lineOf text o = 1 ↔ ∀ c ∈ text.take o, c ≠ '\n' := by
  have hcount : lineOf text o = 1 ↔ (text.take o).count '\n' = 0 := by
    unfold lineOf
    omega
  rw [hcount, List.count_eq_zero]
  exact ⟨fun h c hc heq => h (heq ▸ hc), fun h hmem => h _ hmem rfl⟩

theorem takeWhile_of_lineOf (h : lineOf text o = 1) :
    (text.take o).reverse.takeWhile (· ≠ '\n') = (text.take o).reverse := by
  have hall : ((text.take o).reverse ++ []).takeWhile (· ≠ '\n') = (text.take o).reverse ++ [] := by
    apply List.takeWhile_append_of_pos
    intro c hc
    simpa using lineOf_eq_one_iff.mp h c (List.mem_reverse.mp hc)
  rwa [List.append_nil] at hall

theorem lineOf_of_takeWhile
    (h : ((text.take o).reverse.takeWhile (· ≠ '\n')).length = (text.take o).reverse.length) :
    lineOf text o = 1 := by
  have hself := (List.takeWhile_prefix (· ≠ '\n')).eq_of_length h
  have hall := List.all_takeWhile (p := (· ≠ '\n')) (l := (text.take o).reverse)
  rw [hself, List.all_eq_true] at hall
  refine lineOf_eq_one_iff.mpr fun c hc => ?_
  simpa using hall c (List.mem_reverse.mpr hc)

theorem columnOf_cons (c : Char) (cs : List Char) (o : Nat) :
    columnOf (c :: cs) (o + 1) = columnOf cs o + if c ≠ '\n' ∧ lineOf cs o = 1 then 1 else 0 := by
  unfold columnOf
  rw [List.take_succ_cons, List.reverse_cons, List.takeWhile_append]
  by_cases hline : lineOf cs o = 1
  · rw [takeWhile_of_lineOf hline, if_pos rfl]
    by_cases hc : c = '\n'
    · simp [hc]
    · simp [hc, hline]
      omega
  · rw [if_neg (mt lineOf_of_takeWhile hline)]
    simp [hline]

theorem isPlace_zero : IsPlace text line column 0 ↔ line = 1 ∧ column = 1 := by
  simp [IsPlace]

/-- Behind the first character a place is one of the rest of the text: a line up after a line feed,
and else a column further on the first line. -/
theorem isPlace_succ : IsPlace (c :: cs) line column (o + 1) ↔
    if c = '\n' then IsPlace cs (line - 1) column o
    else if line = 1 then IsPlace cs 1 (column - 1) o else IsPlace cs line column o := by
  unfold IsPlace
  rw [lineOf_cons, columnOf_cons, List.length_cons]
  by_cases hc : c = '\n'
  · simp only [hc, if_true, ne_eq, not_true_eq_false, false_and, if_false]
    omega
  · simp only [hc, if_false, ne_eq, not_false_eq_true, true_and]
    split
    · split
      · omega
      · omega
    · split
      · omega
      · omega

end Positions

section Offsets

theorem offset?_of_lt (h : line < 1) : offset? text line column = none := by
  simp [offset?, h]

theorem offset?_nil_later (h : 1 < line) : offset? [] line column = none := by
  obtain ⟨n, hn⟩ : ∃ n : Nat, (line - 1).toNat = n + 1 := ⟨(line - 2).toNat, by omega⟩
  simp [offset?, hn, lineStart?]

theorem offset?_first (text : List Char) (column : Int) :
    offset? text 1 column =
      if 1 ≤ column ∧ column - 1 ≤ (text.takeWhile (· ≠ '\n')).length then some (column - 1).toNat
      else none := by
  by_cases h : column < 1
  · have hnot : ¬1 ≤ column := by omega
    simp [offset?, h, hnot]
  · have hle : 1 ≤ column := by omega
    simp [offset?, lineStart?, h, hle]

theorem offset?_cons_first (c : Char) (cs : List Char) (column : Int) :
    offset? (c :: cs) 1 column =
      if column = 1 then some 0 else if c = '\n' then none
      else (offset? cs 1 (column - 1)).map (· + 1) := by
  rw [offset?_first, offset?_first]
  by_cases hone : column = 1
  · subst hone
    simp
  · rw [if_neg hone]
    by_cases hc : c = '\n'
    · have hnot : ¬(1 ≤ column ∧ column - 1 ≤ (0 : Nat)) := by omega
      rw [List.takeWhile_cons_of_neg (by simp [hc]), List.length_nil, if_neg hnot, if_pos hc]
    · have hiff : (1 ≤ column ∧ column - 1 ≤ ((cs.takeWhile (· ≠ '\n')).length + 1 : Nat)) ↔
          (1 ≤ column - 1 ∧ column - 1 - 1 ≤ (cs.takeWhile (· ≠ '\n')).length) := by
        omega
      rw [List.takeWhile_cons_of_pos (by simp [hc]), List.length_cons, if_neg hc]
      by_cases hin : 1 ≤ column - 1 ∧ column - 1 - 1 ≤ (cs.takeWhile (· ≠ '\n')).length
      · have hnat : (column - 1).toNat = (column - 1 - 1).toNat + 1 := by omega
        rw [if_pos (hiff.mpr hin), if_pos hin, hnat, Option.map_some]
      · rw [if_neg (mt hiff.mp hin), if_neg hin, Option.map_none]

theorem offset?_cons_later (c : Char) (cs : List Char) (column : Int) (h : 1 < line) :
    offset? (c :: cs) line column =
      (offset? cs (if c = '\n' then line - 1 else line) column).map (· + 1) := by
  obtain ⟨n, rfl⟩ : ∃ n : Nat, line = n + 2 := ⟨(line - 2).toNat, by omega⟩
  have hline : ((n + 2 : Int) - 1).toNat = n + 1 := by omega
  have hnext : ((if c = '\n' then (n + 2 : Int) - 1 else n + 2) - 1).toNat =
      if c = '\n' then n else n + 1 := by
    split <;> omega
  have hpos : ¬(if c = '\n' then (n + 2 : Int) - 1 else n + 2) < 1 := by
    split <;> omega
  have hpos' : ¬(n + 2 : Int) < 1 := by omega
  by_cases hcolumn : column < 1
  · simp [offset?, hcolumn]
  · simp only [offset?, hline, hnext, hpos, hpos', hcolumn, or_self, if_false, lineStart?]
    cases lineStart? cs (if c = '\n' then n else n + 1) with
    | none => rfl
    | some start =>
      simp only [Option.map_some, Option.bind_eq_bind, Option.bind_some, List.drop_succ_cons]
      split
      · rw [Option.map_some]
        congr 1
        omega
      · rfl

theorem offset?_nil_ne_succ : offset? [] line column ≠ some (o + 1) := by
  rcases Int.lt_trichotomy line 1 with hline | rfl | hline
  · rw [offset?_of_lt hline]
    nofun
  · rw [offset?_first]
    split
    next h =>
      rw [List.takeWhile_nil, List.length_nil] at h
      rw [ne_eq, Option.some.injEq]
      omega
    next => nofun
  · rw [offset?_nil_later hline]
    nofun

theorem offset?_eq_zero_iff : offset? text line column = some 0 ↔ line = 1 ∧ column = 1 := by
  rcases Int.lt_trichotomy line 1 with hline | rfl | hline
  · rw [offset?_of_lt hline]
    constructor
    · nofun
    · omega
  · rw [offset?_first]
    by_cases hin : 1 ≤ column ∧ column - 1 ≤ (text.takeWhile (· ≠ '\n')).length
    · rw [if_pos hin, Option.some.injEq]
      omega
    · rw [if_neg hin]
      constructor
      · nofun
      · omega
  · cases text with
    | nil =>
      rw [offset?_nil_later hline]
      constructor
      · nofun
      · omega
    | cons c cs =>
      rw [offset?_cons_later _ _ _ hline, Option.map_eq_some_iff]
      constructor
      · rintro ⟨o, -, ho⟩
        cases ho
      · omega

theorem offset?_eq_succ_iff : offset? (c :: cs) line column = some (o + 1) ↔
    if c = '\n' then offset? cs (line - 1) column = some o
    else if line = 1 then offset? cs 1 (column - 1) = some o
    else offset? cs line column = some o := by
  rcases Int.lt_trichotomy line 1 with hline | rfl | hline
  · have hne : line ≠ 1 := by omega
    have hlt : line - 1 < 1 := by omega
    rw [offset?_of_lt hline, offset?_of_lt hline, offset?_of_lt hlt, if_neg hne]
    simp
  · have hfeed : offset? cs (1 - 1) column = none := offset?_of_lt (by decide)
    rw [offset?_cons_first, hfeed, if_pos rfl]
    by_cases hcolumn : column = 1
    · rw [if_pos hcolumn, hcolumn, offset?_first]
      simp
    · rw [if_neg hcolumn]
      split
      · simp
      · simp
  · rw [offset?_cons_later _ _ _ hline, if_neg (show line ≠ 1 by omega)]
    split
    · simp
    · simp

/-- An offset is found for a line and a column exactly if they are its own. -/
theorem offset?_eq_some_iff : offset? text line column = some o ↔ IsPlace text line column o := by
  -- both sides go down a character in the same way, to another line and column of the rest
  induction text generalizing line column o with
  | nil =>
    cases o with
    | zero => rw [offset?_eq_zero_iff, isPlace_zero]
    | succ o =>
      refine ⟨fun h => absurd h offset?_nil_ne_succ, fun h => ?_⟩
      exact absurd h.1 (Nat.not_succ_le_zero o)
  | cons c cs ih =>
    cases o with
    | zero => rw [offset?_eq_zero_iff, isPlace_zero]
    | succ o => simp only [offset?_eq_succ_iff, isPlace_succ, ih]

theorem IsPlace.unique {o' : Nat} (h : IsPlace text line column o)
    (h' : IsPlace text line column o') : o' = o := by
  rw [← offset?_eq_some_iff] at h h'
  exact Option.some.inj (h'.symm.trans h)

theorem between?_of_covers {s : Span} {lo hi : Nat} (h : Covers text s lo hi) :
    between? text s = some ((text.take hi).drop lo) := by
  obtain ⟨hle, hlo, hhi⟩ := h
  rw [← offset?_eq_some_iff] at hlo hhi
  simp [between?, hlo, hhi, hle]

theorem covers_of_between? {s : Span} (h : between? text s = some cs) :
    ∃ lo hi, Covers text s lo hi := by
  unfold between? at h
  simp only [Option.bind_eq_bind, Option.bind_eq_some_iff] at h
  obtain ⟨lo, hlo, hi, hhi, h⟩ := h
  split at h
  next hle => exact ⟨lo, hi, hle, offset?_eq_some_iff.mp hlo, offset?_eq_some_iff.mp hhi⟩
  next => cases h

end Offsets

section Tables

theorem getElem?_laterStarts (n k : Nat) (text : List Char) :
    (laterStarts n text)[k]? = (lineStart? text (k + 1)).map (· + n) := by
  induction text generalizing n k with
  | nil => rfl
  | cons c cs ih =>
    rw [laterStarts, lineStart?, Option.map_map]
    split
    · cases k with
      | zero =>
        rw [List.getElem?_cons_zero, lineStart?, Option.map_some]
        simp
        omega
      | succ k =>
        rw [List.getElem?_cons_succ, ih]
        congr 1
        funext start
        simp
        omega
    · rw [ih]
      congr 1
      funext start
      simp
      omega

theorem getElem?_lineStarts (text : List Char) (k : Nat) :
    (lineStarts text)[k]? = lineStart? text k := by
  cases k with
  | zero => cases text <;> rfl
  | succ k =>
    rw [lineStarts, List.getElem?_cons_succ, getElem?_laterStarts]
    simp

theorem lineStart?_zero (text : List Char) : lineStart? text 0 = some 0 := by
  cases text <;> rfl

theorem pos_of_lineStart? (h : lineStart? text (n + 1) = some start) : 0 < start := by
  cases text with
  | nil => cases h
  | cons c cs =>
    rw [lineStart?, Option.map_eq_some_iff] at h
    obtain ⟨before, -, rfl⟩ := h
    exact Nat.succ_pos before

theorem lineEnd_succ (cs : List Char) (n : Nat) :
    ((lineStart? cs (n + 1)).map (· + 1)).elim (cs.length + 1) (· - 1) =
      (lineStart? cs (n + 1)).elim cs.length (· - 1) + 1 := by
  cases h : lineStart? cs (n + 1) with
  | none => rfl
  | some start =>
    have hpos := pos_of_lineStart? h
    rw [Option.map_some, Option.elim_some, Option.elim_some]
    omega

/-- A line reaches up to the line feed before the next one or, if it is the last, to the end of the
text. -/
theorem lineEnd_eq (h : lineStart? text n = some start) :
    (lineStart? text (n + 1)).elim text.length (· - 1) =
      start + ((text.drop start).takeWhile (· ≠ '\n')).length := by
  induction text generalizing n start with
  | nil =>
    cases n with
    | zero =>
      cases h
      rfl
    | succ n => cases h
  | cons c cs ih =>
    rw [lineStart?, List.length_cons]
    -- the first line is left for the second at a line feed only; a later one is a line of the rest
    cases n with
    | zero =>
      rw [lineStart?_zero] at h
      cases h
      rw [List.drop_zero, Nat.zero_add]
      by_cases hc : c = '\n'
      · rw [if_pos hc, lineStart?_zero, List.takeWhile_cons_of_neg (by simp [hc])]
        rfl
      · have hend := ih (lineStart?_zero cs)
        rw [List.drop_zero] at hend
        rw [if_neg hc, lineEnd_succ, hend, List.takeWhile_cons_of_pos (by simp [hc]),
          List.length_cons, Nat.zero_add, Nat.zero_add]
    | succ n =>
      rw [lineStart?, Option.map_eq_some_iff] at h
      obtain ⟨before, hbefore, rfl⟩ := h
      have hnext : (if c = '\n' then n + 1 else n + 1 + 1) =
          (if c = '\n' then n else n + 1) + 1 := by
        split <;> rfl
      rw [hnext, lineEnd_succ, ih hbefore, List.drop_succ_cons]
      omega

/-- Looking a place up in the table of a text finds the same offset as going through the text. -/
theorem offsetBy?_lineStarts (text : List Char) (line column : Int) :
    offsetBy? (lineStarts text) text.length line column = offset? text line column := by
  unfold offsetBy? offset?
  split
  · rfl
  next hpos =>
    rw [not_or] at hpos
    have hnext : line.toNat = (line - 1).toNat + 1 := by omega
    rw [getElem?_lineStarts, getElem?_lineStarts, hnext]
    cases hstart : lineStart? text (line - 1).toNat with
    | none => rfl
    | some start =>
      simp only [Option.bind_eq_bind, Option.bind_some, lineEnd_eq hstart]
      congr 1
      rw [eq_iff_iff]
      omega

theorem betweenBy?_lineStarts (text : List Char) (s : Span) :
    betweenBy? (lineStarts text) text s = between? text s := by
  unfold betweenBy? between?
  rw [offsetBy?_lineStarts, offsetBy?_lineStarts]

namespace Cached

variable {name file : String}

/-- Whether it is made now or was kept, the table of a file is that of its text. -/
theorem starts_eq (m : Cached) (h : m.source.files.get? name = some file) :
    (m.starts h).1 = lineStarts file.toList ∧ (m.starts h).2.source = m.source := by
  unfold starts
  split
  next table htable =>
    -- a file has one text, so that the table was made from the one that is asked about
    obtain ⟨text, htext, rfl⟩ := m.sound name table htable
    cases htext.symm.trans h
    exact ⟨rfl, rfl⟩
  next => exact ⟨rfl, rfl⟩

theorem inFile_eq (m : Cached) (h : m.source.files.get? name = some file) {s : Span}
    (hs : s.file = .str name) :
    (m.inFile h s).1 = m.source.snippet s ∧ (m.inFile h s).2.source = m.source := by
  obtain ⟨hstarts, hsource⟩ := m.starts_eq h
  refine ⟨?_, hsource⟩
  simp only [inFile, hstarts, betweenBy?_lineStarts, SourceMap.snippet, hs, file?, h]
  rfl

/-- With its tables, a source map gives the answers that it gives without them. -/
theorem snippet_eq (m : Cached) (s : Span) :
    (m.snippet s).1 = m.source.snippet s ∧ (m.snippet s).2.source = m.source := by
  unfold snippet
  split
  next hkey =>
    rw [SourceMap.snippet, if_pos hkey]
    exact ⟨rfl, rfl⟩
  next hkey =>
    split
    next name hname =>
      split
      next h => exact m.inFile_eq h hname
      next h =>
        simp only [SourceMap.snippet, hname, file?, h]
        exact ⟨rfl, trivial⟩
    next hne =>
      have hfile : m.source.file? s.file = none := by
        unfold file?
        split
        next name hname => exact absurd hname (hne name)
        next => rfl
      rw [SourceMap.snippet, if_neg hkey, hfile]
      exact ⟨rfl, rfl⟩

theorem source_after (m : Cached) (spans : List Span) : (m.after spans).source = m.source := by
  induction spans generalizing m with
  | nil => rfl
  | cons s spans ih => exact (ih _).trans (snippet_eq m s).2

end Cached

end Tables

section Snippets

variable {m : SourceMap} {name file : String} {s : Span}

theorem snippet_of_loaded (hfile : m.files.get? name = some file) (hs : s.file = .str name) :
    m.snippet s = (between? file.toList s).elim (.error (.outside s))
      fun cs => .ok (String.ofList cs) := by
  simp only [snippet, hs, file?, hfile]
  cases between? file.toList s with
  | none => rfl
  | some cs => rfl

theorem snippet_of_covers {lo hi : Nat} (hfile : m.files.get? name = some file)
    (hs : s.file = .str name) (h : Covers file.toList s lo hi) :
    m.snippet s = .ok (String.ofList ((file.toList.take hi).drop lo)) := by
  rw [snippet_of_loaded hfile hs, between?_of_covers h]
  rfl

theorem snippet_of_not_covers (hfile : m.files.get? name = some file) (hs : s.file = .str name)
    (h : ¬∃ lo hi, Covers file.toList s lo hi) : m.snippet s = .error (.outside s) := by
  rw [snippet_of_loaded hfile hs]
  cases hb : between? file.toList s with
  | none => rfl
  | some cs => exact absurd (covers_of_between? hb) h

theorem covers_spanOf (name : String) (text : List Char) {lo hi : Nat} (expansion : Option Int)
    (hle : lo ≤ hi) (hhi : hi ≤ text.length) :
    Covers text (spanOf name text lo hi expansion) lo hi :=
  ⟨hle, ⟨Nat.le_trans hle hhi, rfl, rfl⟩, ⟨hhi, rfl, rfl⟩⟩

/-- From one offset of a file to another the source text is what stands between them. A span of the
file has a source text only if its lines and columns are those of two offsets in order, which are
then the only ones; any other span is outside of the file. Whatever was asked before, the answer is
the same. -/
theorem snippet_exact (m : SourceMap) (name file : String) (hfile : m.files.get? name = some file) :
    (∀ lo hi expansion, lo ≤ hi → hi ≤ file.toList.length →
      m.snippet (spanOf name file.toList lo hi expansion) =
        .ok (String.ofList ((file.toList.take hi).drop lo))) ∧
    (∀ s : Span, s.file = .str name →
      (∃ lo hi, Covers file.toList s lo hi ∧
          (∀ lo' hi', Covers file.toList s lo' hi' → lo' = lo ∧ hi' = hi) ∧
        m.snippet s = .ok (String.ofList ((file.toList.take hi).drop lo))) ∨
      ((¬∃ lo hi, Covers file.toList s lo hi) ∧ m.snippet s = .error (.outside s))) ∧
    ∀ (earlier : List Span) (s : Span), (((Cached.ofSource m).after earlier).snippet s).1 =
      m.snippet s := by
  refine ⟨fun lo hi expansion hle hhi => ?_, fun s hs => ?_, fun earlier s => ?_⟩
  · exact snippet_of_covers hfile rfl (covers_spanOf name file.toList expansion hle hhi)
  · by_cases h : ∃ lo hi, Covers file.toList s lo hi
    · obtain ⟨lo, hi, hcovers⟩ := h
      refine .inl ⟨lo, hi, hcovers, fun lo' hi' h' => ?_, snippet_of_covers hfile hs hcovers⟩
      exact ⟨hcovers.2.1.unique h'.2.1, hcovers.2.2.unique h'.2.2⟩
    · exact .inr ⟨h, snippet_of_not_covers hfile hs h⟩
  · have hsource := (Cached.ofSource m).source_after earlier
    rw [(Cached.snippet_eq _ s).1, hsource]
    rfl

/-- A file whose second line is blank and whose last line has no end. -/
def blankLine : SourceMap :=
  ⟨[("a.rs", "x\n\nyz")], []⟩

theorem snippet_exact_blankLine :
    blankLine.files.get? "a.rs" = some "x\n\nyz" ∧
      blankLine.snippet ⟨.str "a.rs", 1, 2, 3, 2, none⟩ = .ok "\n\ny" ∧
      (¬∃ lo hi, Covers "x\n\nyz".toList ⟨.str "a.rs", 2, 2, 3, 1, none⟩ lo hi) ∧
      (((Cached.ofSource blankLine).after [⟨.str "a.rs", 2, 2, 3, 1, none⟩]).snippet
        ⟨.str "a.rs", 1, 2, 3, 2, none⟩).1 = .ok "\n\ny" := by
  have hfile : blankLine.files.get? "a.rs" = some "x\n\nyz" := rfl
  obtain ⟨hinside, houtside, hearlier⟩ := snippet_exact blankLine "a.rs" "x\n\nyz" hfile
  have hsnippet : blankLine.snippet ⟨.str "a.rs", 1, 2, 3, 2, none⟩ = .ok "\n\ny" :=
    hinside 1 4 none (by decide) (by decide)
  refine ⟨hfile, hsnippet, ?_, (hearlier _ _).trans hsnippet⟩
  rcases houtside ⟨.str "a.rs", 2, 2, 3, 1, none⟩ rfl with ⟨lo, hi, -, -, hok⟩ | ⟨hnot, -⟩
  · cases hok
  · exact hnot

end Snippets

end CrateAudit.SourceMap
