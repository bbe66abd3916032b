import CrateAudit.Crate.Load
import CrateAudit.Proofs.JsonText

namespace CrateAudit

namespace SExpr

open Number Text

section Atoms

def isAtomChar (c : Char) : Bool :=
  c.isAlphanum || c == '_' || c == ':' || c == '-'

def isName (s : String) : Bool :=
  s.toList.head?.any (fun c => c.isAlpha || c == '_') &&
    s.toList.all fun c => c.isAlphanum || c == '_'

/-- The names that read as floating point numbers, whatever their case. -/
def numberNames : List String :=
  ["nan", "inf", "infinity"]

def isKind (s : String) : Bool :=
  isName s && !numberNames.contains (String.ofList (s.toList.map Char.toLower))

def Follows (rest : List Char) : Prop :=
  ∀ c ∈ rest.head?, endsAtom c

variable {c : Char} {cs rest : List Char}

theorem isAlpha_iff :
    c.isAlpha ↔ (65 ≤ c.toNat ∧ c.toNat ≤ 90) ∨ (97 ≤ c.toNat ∧ c.toNat ≤ 122) := by
  change (decide (65 ≤ c.val ∧ c.val ≤ 90) || (decide (97 ≤ c.val) && decide (c.val ≤ 122))) =
    true ↔ _
  simp only [Bool.or_eq_true, Bool.and_eq_true, decide_eq_true_eq, UInt32.le_iff_toNat_le]
  rfl

theorem isDigit_iff : c.isDigit ↔ 48 ≤ c.toNat ∧ c.toNat ≤ 57 := by
  simp only [Char.isDigit, Bool.and_eq_true, decide_eq_true_eq, ge_iff_le, UInt32.le_iff_toNat_le]
  rfl

theorem isAlphanum_iff :
    c.isAlphanum ↔ (65 ≤ c.toNat ∧ c.toNat ≤ 90) ∨ (97 ≤ c.toNat ∧ c.toNat ≤ 122) ∨
    (48 ≤ c.toNat ∧ c.toNat ≤ 57) := by
  rw [Char.isAlphanum, Bool.or_eq_true, isAlpha_iff, isDigit_iff, or_assoc]

theorem toNat_of_isAtomChar (h : isAtomChar c) :
    45 ≤ c.toNat ∧ c.toNat ≤ 122 ∧ c.toNat ≠ 59 ∧ (c.toNat < 91 ∨ 93 < c.toNat) := by
  simp only [isAtomChar, Bool.or_eq_true, beq_iff_eq, isAlphanum_iff] at h
  rcases h with ((h | rfl) | rfl) | rfl
  · omega
  · decide
  · decide
  · decide

theorem not_isPlainBlank_of_isAtomChar (h : isAtomChar c) : isPlainBlank c = false := by
  have hc := toNat_of_isAtomChar h
  simp only [isPlainBlank, Bool.or_eq_false_iff, Bool.and_eq_false_iff, decide_eq_false_iff_not,
    beq_eq_false_iff_ne]
  omega

theorem ne_of_isAtomChar (h : isAtomChar c) {d : Char} (hd : isAtomChar d = false) : c ≠ d := by
  rintro rfl
  rw [h] at hd
  exact absurd hd (by decide)

theorem endsAtom_of_isAtomChar (h : isAtomChar c) : endsAtom c = false := by
  have hne : ∀ d, isAtomChar d = false → (c == d) = false :=
    fun d hd => beq_eq_false_iff_ne.mpr (ne_of_isAtomChar h hd)
  simp only [endsAtom, not_isPlainBlank_of_isAtomChar h, hne '(' (by decide), hne ')' (by decide),
    hne '[' (by decide), hne ']' (by decide), hne '"' (by decide), hne ';' (by decide),
    Bool.or_self]

theorem atomChars?_append (hcs : ∀ d ∈ cs, isAtomChar d) (h : Follows rest) :
    atomChars? (cs ++ rest) = some (cs, rest) := by
  induction cs with
  | nil =>
    cases rest with
    | nil => rfl
    | cons d rest =>
      have hd : endsAtom d := h d rfl
      have hb : d ≠ '\\' := by
        rintro rfl
        exact absurd hd (by decide)
      rw [List.nil_append, atomChars?.eq_4 _ _ (by simp [hb]) (by simp [hb]), if_pos hd]
  | cons c cs ih =>
    rw [List.forall_mem_cons] at hcs
    have hb : c ≠ '\\' := ne_of_isAtomChar hcs.1 (by decide)
    have he : ¬endsAtom c := by simp [endsAtom_of_isAtomChar hcs.1]
    rw [List.cons_append, atomChars?.eq_4 _ _ (by simp [hb]) (by simp [hb]), if_neg he, ih hcs.2]
    rfl

end Atoms

section Numerals

variable {c : Char} {cs : List Char}

theorem asciiForm_of_isAtomChar (h : isAtomChar c) : asciiForm c = c := by
  have hc := toNat_of_isAtomChar h
  rw [asciiForm, if_pos (by omega)]

theorem map_asciiForm (hcs : ∀ d ∈ cs, isAtomChar d) : cs.map asciiForm = cs := by
  rw [List.map_congr_left fun d hd => asciiForm_of_isAtomChar (hcs d hd), List.map_id']

theorem trim_of_isAtomChar (hcs : ∀ d ∈ cs, isAtomChar d) : trim isPlainBlank cs = cs := by
  have hdrop : ∀ ds : List Char, (∀ d ∈ ds, isAtomChar d) → ds.dropWhile isPlainBlank = ds := by
    intro ds hds
    cases ds with
    | nil => rfl
    | cons d ds =>
      rw [List.dropWhile_cons_of_neg]
      simp [not_isPlainBlank_of_isAtomChar (hds d List.mem_cons_self)]
  rw [trim, hdrop cs hcs, hdrop cs.reverse (by simpa using hcs), List.reverse_reverse]

theorem zeros_cases : ∀ z ∈ zeros, z = 48 ∨ 127 ≤ z := by
  decide

theorem digit?_of_isDigit (h : c.isDigit) : digit? c = some (c.toNat - 48) := by
  rw [isDigit_iff] at h
  have hif : (48 ≤ c.toNat ∧ c.toNat < 48 + 10) := by omega
  rw [digit?, zeros, List.findSome?_cons, if_pos hif]

theorem digit?_of_isAtomChar (h : isAtomChar c) (hd : c.isDigit = false) : digit? c = none := by
  have hc := toNat_of_isAtomChar h
  have hn : ¬(48 ≤ c.toNat ∧ c.toNat ≤ 57) := by
    rw [← isDigit_iff, hd]
    decide
  rw [digit?, List.findSome?_eq_none_iff]
  intro z hz
  rw [if_neg]
  rcases zeros_cases z hz with rfl | hz <;> omega

theorem groupedDigits?_of_isDigit (hcs : ∀ d ∈ c :: cs, d.isDigit) :
    groupedDigits? (c :: cs) = some ((c :: cs).map fun d => d.toNat - 48) := by
  induction cs generalizing c with
  | nil =>
    have hc := digit?_of_isDigit (hcs c List.mem_cons_self)
    rw [groupedDigits?, hc]
    rfl
  | cons d cs ih =>
    rw [List.forall_mem_cons] at hcs
    have hd : d ≠ '_' := by
      rintro rfl
      exact absurd (hcs.2 '_' List.mem_cons_self) (by decide)
    rw [groupedDigits?.eq_4 _ _ (by simp) (by simp [hd]), digit?_of_isDigit hcs.1, ih hcs.2]
    rfl

theorem isAtomChar_of_isDigit (h : c.isDigit) : isAtomChar c := by
  simp [isAtomChar, Char.isAlphanum, h]

theorem groupedDigits?_toDigits (n : Nat) :
    groupedDigits? (Nat.toDigits 10 n) = some ((Nat.toDigits 10 n).map fun d => d.toNat - 48) := by
  have hdigits := Json.isDigit_of_mem n
  obtain ⟨c, ds, _, hn⟩ := Json.toDigits_cons n
  rw [hn] at hdigits ⊢
  exact groupedDigits?_of_isDigit hdigits

theorem splitSign_toDigits (n : Nat) :
    splitSign (Nat.toDigits 10 n) = (false, Nat.toDigits 10 n) := by
  obtain ⟨c, ds, hc, hn⟩ := Json.toDigits_cons n
  rw [hn, splitSign.eq_3]
  · rintro _ ⟨⟩
    exact absurd hc (by decide)
  · rintro _ ⟨⟩
    exact absurd hc (by decide)

theorem isAtomChar_toString (n : Int) : ∀ d ∈ (toString n).toList, isAtomChar d := by
  intro d hd
  cases n with
  | ofNat m =>
    rw [Json.toList_toString_ofNat] at hd
    exact isAtomChar_of_isDigit (Json.isDigit_of_mem m d hd)
  | negSucc m =>
    rw [Json.toList_toString_negSucc, List.mem_cons] at hd
    rcases hd with rfl | hd
    · decide
    · exact isAtomChar_of_isDigit (Json.isDigit_of_mem (m + 1) d hd)

theorem readInt?_toString {n : Int} (h : Json.isShort n) :
    readInt? (toString n).toList = some n := by
  have hn := isAtomChar_toString n
  rw [readInt?, map_asciiForm hn, trim_of_isAtomChar hn]
  cases n with
  | ofNat m =>
    have hm : Json.isShort (m : Nat) := h
    rw [Json.toList_toString_ofNat, splitSign_toDigits]
    simp only [groupedDigits?_toDigits, Option.bind_eq_bind, Option.bind_some,
      Json.ofDigits?_toDigits, if_pos hm]
    rfl
  | negSucc m =>
    have hm : Json.isShort (m + 1 : Nat) := h
    rw [Json.toList_toString_negSucc, splitSign]
    simp only [groupedDigits?_toDigits, Option.bind_eq_bind, Option.bind_some,
      Json.ofDigits?_toDigits, if_pos hm]
    rfl

theorem atom_toString {n : Int} (h : Json.isShort n) : atom (toString n).toList = .int n := by
  rw [atom, readInt?_toString h]

end Numerals

section Symbols

variable {c : Char} {cs : List Char} (hcs : ∀ d ∈ c :: cs, isAtomChar d)
include hcs

theorem splitSign_of_start (hs : c ≠ '-') :
    splitSign (trim isPlainBlank ((c :: cs).map asciiForm)) = (false, c :: cs) := by
  have hp : c ≠ '+' := ne_of_isAtomChar (hcs c List.mem_cons_self) (by decide)
  rw [map_asciiForm hcs, trim_of_isAtomChar hcs, splitSign.eq_3 _ (by simp [hs]) (by simp [hp])]

theorem readInt?_of_start (hd : c.isDigit = false) (hs : c ≠ '-') : readInt? (c :: cs) = none := by
  have hdigit : digit? c = none := digit?_of_isAtomChar (hcs c List.mem_cons_self) hd
  have hgrouped : groupedDigits? (c :: cs) = none := by
    rw [groupedDigits?.eq_def]
    split <;> simp_all
  rw [readInt?, splitSign_of_start hcs hs]
  simp [hgrouped]

/-- What starts with neither a digit nor an underscore is no decimal, whatever follows. -/
theorem readDecimal?_of_start (hd : c.isDigit = false) (h : c ≠ '_') :
    readDecimal? false ((c :: cs).filter (· ≠ '_')) = none := by
  have hdigit : digit? c = none := digit?_of_isAtomChar (hcs c List.mem_cons_self) hd
  have hpoint : c ≠ '.' := ne_of_isAtomChar (hcs c List.mem_cons_self) (by decide)
  rw [List.filter_cons_of_pos (by simpa using h), readDecimal?, spanDigits, hdigit]
  dsimp only
  split
  next hdot => exact absurd (List.cons.inj hdot).1 hpoint
  next => rfl

theorem readDouble?_of_start (hd : c.isDigit = false) (hs : c ≠ '-')
    (hlower : String.ofList ((c :: cs).map Char.toLower) ∉ numberNames) :
    readDouble? (c :: cs) = none := by
  simp only [numberNames, List.mem_cons, List.not_mem_nil, or_false, not_or] at hlower
  rw [readDouble?, splitSign_of_start hcs hs]
  dsimp only
  rw [if_neg (not_or.mpr hlower.2), if_neg hlower.1]
  -- an underscore in front is refused; any other first character stays when underscores are dropped
  by_cases hu : c = '_'
  · rw [hu, underscoresBetweenDigits]
    rfl
  · rw [readDecimal?_of_start hcs hd hu, ite_self]

theorem atom_of_start (hd : c.isDigit = false) (hs : c ≠ '-')
    (hlower : String.ofList ((c :: cs).map Char.toLower) ∉ numberNames) :
    atom (c :: cs) = .symbol (String.ofList (c :: cs)) := by
  rw [atom, readInt?_of_start hcs hd hs, readDouble?_of_start hcs hd hs hlower]

end Symbols

section Names

variable {s : String}

theorem isAtomChar_of_isName (h : isName s) : ∀ d ∈ s.toList, isAtomChar d := by
  intro d hd
  rw [isName, Bool.and_eq_true, List.all_eq_true] at h
  simp [isAtomChar, h.2 d hd]

theorem exists_start_of_isName (h : isName s) :
    ∃ c cs, s.toList = c :: cs ∧ c.isDigit = false ∧ c ≠ '-' ∧ c ≠ ':' := by
  rw [isName, Bool.and_eq_true] at h
  cases hs : s.toList with
  | nil => simp [hs] at h
  | cons c cs =>
    simp only [hs, List.head?_cons, Option.any_some, Bool.or_eq_true, beq_iff_eq, isAlpha_iff] at h
    refine ⟨c, cs, rfl, ?_, ?_, ?_⟩
    · rw [← Bool.not_eq_true, isDigit_iff]
      rcases h.1 with h | rfl
      · omega
      · decide
    · rintro rfl
      simp at h
    · rintro rfl
      simp at h

theorem atom_of_isKind (h : isKind s) : atom s.toList = .symbol s := by
  rw [isKind, Bool.and_eq_true] at h
  have hchars := isAtomChar_of_isName h.1
  obtain ⟨c, cs, hs, hd, hm, _⟩ := exists_start_of_isName h.1
  rw [hs] at hchars h
  rw [hs, atom_of_start hchars hd hm (by simpa using h.2), ← hs, String.ofList_toList]

theorem atom_of_key (h : isName s) : atom (':' :: s.toList) = .symbol (":" ++ s) := by
  have hchars : ∀ d ∈ ':' :: s.toList, isAtomChar d := by
    rw [List.forall_mem_cons]
    exact ⟨by decide, isAtomChar_of_isName h⟩
  have hlower : String.ofList ((':' :: s.toList).map Char.toLower) ∉ numberNames := by
    have hcolon : Char.toLower ':' = ':' := by decide
    simp [numberNames, ← String.toList_inj, hcolon]
  have hcolon : String.ofList (':' :: s.toList) = ":" ++ s := by
    simp
  rw [atom_of_start hchars (by decide) (by decide) hlower, hcolon]

end Names

section Expressions

/-- A quote and a backslash have a backslash in front of them; all else is written as it is. -/
def charText (c : Char) : List Char :=
  if c = '"' ∨ c = '\\' then ['\\', c] else [c]

mutual

/-- The text of an expression that is made of integers, texts, symbols and lists. Nothing else is
written. -/
def chars : Value → List Char
  | .int n => (toString n).toList
  | .str s => '"' :: s.toList.flatMap charText ++ ['"']
  | .symbol name => name.toList
  | .list items => '(' :: listChars items
  | _ => []

def listChars : List Value → List Char
  | [] => [')']
  | e :: es => chars e ++ restChars es

def restChars : List Value → List Char
  | [] => [')']
  | e :: es => ' ' :: chars e ++ restChars es

end

def write (e : Value) : String :=
  String.ofList (chars e)

/-- An expression that can be read back: its integers are not too long, and its symbols read as
symbols. -/
inductive Writable : Value → Prop where
  | int {n : Int} (h : Json.isShort n) : Writable (.int n)
  | str (s : String) : Writable (.str s)
  | symbol {name : String} {c : Char} {cs : List Char} (hname : name.toList = c :: cs)
      (hchars : ∀ d ∈ name.toList, isAtomChar d) (hatom : atom name.toList = .symbol name) :
          Writable (.symbol name)
  | list {items : List Value} (h : ∀ e ∈ items, Writable e) : Writable (.list items)

/-- The reader finds these expressions in a text, and this after them, if its bound exceeds the
length. -/
def Gives (cs : List Char) (items : List Value) (after : List Char) : Prop :=
  ∀ fuel, cs.length ≤ fuel → sequence? (fuel + 1) cs = some (items, after)

theorem Gives.eq {cs : List Char} {items : List Value} {after : List Char}
    (h : Gives cs items after) {fuel : Nat} (hfuel : cs.length < fuel) :
    sequence? fuel cs = some (items, after) := by
  obtain ⟨fuel, rfl⟩ := Nat.exists_eq_add_one_of_ne_zero (Nat.ne_zero_of_lt hfuel)
  exact h fuel (by omega)

variable {c : Char} {cs rest after : List Char} {items vs : List Value}

theorem gives_nil : Gives [] [] [] := by
  intro fuel _
  rw [sequence?]

theorem gives_close (rest : List Char) : Gives (')' :: rest) [] (')' :: rest) := by
  intro fuel _
  rw [sequence?]
  rfl

theorem gives_blank (h : Gives cs items after) : Gives (' ' :: cs) items after := by
  intro fuel hfuel
  rw [List.length_cons] at hfuel
  rw [sequence?, if_pos (by decide), h.eq (by omega)]

theorem gives_list (hcs : Gives cs vs (')' :: rest)) (hlength : rest.length < cs.length)
    (h : Gives rest items after) :
    Gives ('(' :: cs) (.list vs :: items) after := by
  intro fuel hfuel
  rw [List.length_cons] at hfuel
  rw [sequence?, if_neg (by decide), if_neg (by decide), if_neg (by decide), if_pos rfl,
    hcs.eq (by omega)]
  simp [h.eq (by omega : rest.length < fuel)]

theorem stringChars?_flatMap (cs rest : List Char) :
    stringChars? (cs.flatMap charText ++ '"' :: rest) = some (cs, rest) := by
  induction cs with
  | nil => rw [List.flatMap_nil, List.nil_append, stringChars?]
  | cons c cs ih =>
    rw [List.flatMap_cons, charText, List.append_assoc]
    by_cases hq : c = '"'
    · rw [if_pos (.inl hq), hq]
      simp [stringChars?, ih, unescaped?]
    · by_cases hb : c = '\\'
      · rw [if_pos (.inr hb), hb]
        simp [stringChars?, ih, unescaped?]
      · rw [if_neg (by simp [hq, hb]), List.singleton_append,
          stringChars?.eq_5 _ _ (by simp [hq]) (by simp [hb]) (by simp [hb]), ih]
        rfl

theorem gives_string (s : String) (h : Gives rest items after) :
    Gives (chars (.str s) ++ rest) (.str s :: items) after := by
  intro fuel hfuel
  have hchars : chars (.str s) ++ rest = '"' :: (s.toList.flatMap charText ++ '"' :: rest) := by
    simp [chars]
  rw [hchars] at hfuel ⊢
  simp only [List.length_cons, List.length_append] at hfuel
  rw [sequence?, if_neg (by decide), if_neg (by decide), if_neg (by decide), if_neg (by decide),
    if_neg (by decide), if_neg (by decide), if_pos rfl, stringChars?_flatMap]
  simp [h.eq (by omega : rest.length < fuel)]

theorem gives_atom (hcs : ∀ d ∈ c :: cs, isAtomChar d) (hrest : Follows rest)
    (h : Gives rest items after) :
    Gives (c :: cs ++ rest) (atom (c :: cs) :: items) after := by
  intro fuel hfuel
  have hc := hcs c List.mem_cons_self
  have hne : ∀ d, isAtomChar d = false → ¬c = d := fun d => ne_of_isAtomChar hc
  simp only [List.length_cons, List.length_append] at hfuel
  rw [List.cons_append, sequence?, if_neg (by simp [not_isPlainBlank_of_isAtomChar hc]),
    if_neg (hne ';' (by decide)), if_neg (not_or.mpr ⟨hne ')' (by decide), hne ']' (by decide)⟩),
    if_neg (hne '(' (by decide)), if_neg (hne '[' (by decide)), if_neg (hne '\'' (by decide)),
    if_neg (hne '"' (by decide)), ← List.cons_append, atomChars?_append hcs hrest]
  simp [h.eq (by omega : rest.length < fuel)]

theorem follows_nil : Follows [] := by
  intro c hc
  cases hc

theorem follows_restChars (es : List Value) (rest : List Char) :
    Follows (restChars es ++ rest) := by
  intro c hc
  cases es with
  | nil =>
    simp only [restChars, List.singleton_append, List.head?_cons, Option.mem_some_iff] at hc
    rw [← hc]
    decide
  | cons e es =>
    simp only [restChars, List.cons_append, List.head?_cons, Option.mem_some_iff] at hc
    rw [← hc]
    decide

theorem length_restChars_pos (es : List Value) : 0 < (restChars es).length := by
  cases es <;> simp [restChars]

theorem gives_restChars {es : List Value}
    (hes : ∀ e ∈ es, ∀ rest items after, Follows rest → Gives rest items after →
      Gives (chars e ++ rest) (e :: items) after) (rest : List Char) :
    Gives (restChars es ++ rest) es (')' :: rest) := by
  induction es with
  | nil => exact gives_close rest
  | cons e es ih =>
    rw [List.forall_mem_cons] at hes
    rw [restChars, List.cons_append, List.cons_append, List.append_assoc]
    apply gives_blank
    exact hes.1 _ _ _ (follows_restChars es rest) (ih hes.2)

/-- The text of an expression is found as that expression, and what follows as if it stood alone. -/
theorem gives_chars {e : Value} (he : Writable e) (rest : List Char) (items : List Value)
    (after : List Char) (hrest : Follows rest) (h : Gives rest items after) :
    Gives (chars e ++ rest) (e :: items) after := by
  induction he generalizing rest items after with
  | @int n hn =>
    have hchars := isAtomChar_toString n
    obtain ⟨c, cs, hc⟩ : ∃ c cs, (toString n).toList = c :: cs := by
      obtain ⟨c, cs, _, hs | hs⟩ := Json.toString_cons n
      · exact ⟨c, cs, hs⟩
      · exact ⟨'-', c :: cs, hs⟩
    rw [chars, ← atom_toString hn]
    rw [hc] at hchars ⊢
    exact gives_atom hchars hrest h
  | str s => exact gives_string s h
  | symbol hname hchars hatom =>
    rw [chars, ← hatom]
    rw [hname] at hchars ⊢
    exact gives_atom hchars hrest h
  | @list es hes ih =>
    rw [chars, List.cons_append]
    cases es with
    | nil => exact gives_list (gives_close rest) (by simp [listChars]) h
    | cons e es =>
      rw [List.forall_mem_cons] at ih
      rw [listChars, List.append_assoc]
      -- each expression is followed by a blank or by the bracket, which end an atom
      have htail := gives_restChars ih.2 rest
      have hlength := length_restChars_pos es
      exact gives_list (ih.1 _ _ _ (follows_restChars es rest) htail)
        (by simp only [List.length_append]; omega) h

theorem read?_write {e : Value} (he : Writable e) : read? (write e) = some e := by
  have hgives := gives_chars he [] [] [] follows_nil gives_nil
  rw [List.append_nil] at hgives
  rw [read?, write, String.toList_ofList, hgives _ (Nat.le_refl _)]

end Expressions

section Meanings

mutual

/-- The expression for a value: an object is the list of its kind, which its first field gives, and
of the other fields as keywords with their values; null, true and false are symbols. -/
def express : Value → Value
  | .null => .symbol "nil"
  | .bool true => .symbol "true"
  | .bool false => .symbol "false"
  | .list items => .list (expressItems items)
  | .object ((_, .str kind) :: fields) => .list (.symbol kind :: expressFields fields)
  | v => v

def expressItems : List Value → List Value
  | [] => []
  | v :: vs => express v :: expressItems vs

def expressFields : List (String × Value) → List Value
  | [] => []
  | (k, v) :: fields => .symbol (":" ++ k) :: express v :: expressFields fields

end

def isLoneConstant : List Value → Bool
  | [.null] | [.bool _] => true
  | _ => false

mutual

/-- Whether every object leads with its kind, all its keys are names, and no list is a lone
constant. -/
def isKeyed : Value → Bool
  | .null | .bool _ | .int _ | .str _ => true
  | .list items => !isLoneConstant items && keyedItems items
  | .object ((k, .str kind) :: fields) => k == "kind" && isKind kind && keyedFields fields
  | _ => false

def keyedItems : List Value → Bool
  | [] => true
  | v :: vs => isKeyed v && keyedItems vs

def keyedFields : List (String × Value) → Bool
  | [] => true
  | (k, v) :: fields => isName k && isKeyed v && keyedFields fields

end

theorem writable_symbol_of_isKind {kind : String} (h : isKind kind) : Writable (.symbol kind) := by
  have hname : isName kind := by
    rw [isKind, Bool.and_eq_true] at h
    exact h.1
  obtain ⟨c, cs, hs, _⟩ := exists_start_of_isName hname
  exact .symbol hs (isAtomChar_of_isName hname) (atom_of_isKind h)

theorem toList_keyword (k : String) : (":" ++ k).toList = ':' :: k.toList := by
  simp

theorem writable_keyword {k : String} (h : isName k) : Writable (.symbol (":" ++ k)) := by
  apply Writable.symbol (toList_keyword k)
  · rw [toList_keyword, List.forall_mem_cons]
    exact ⟨by decide, isAtomChar_of_isName h⟩
  · rw [toList_keyword]
    exact atom_of_key h

mutual

/-- The expression for a keyed value can be written. -/
theorem writable_express : ∀ v : Value, isKeyed v → v.isPlain Json.isReadable → Writable (express v)
  | .null, _, _ => by
    rw [express]
    exact writable_symbol_of_isKind (by decide)
  | .bool true, _, _ => by
    rw [express]
    exact writable_symbol_of_isKind (by decide)
  | .bool false, _, _ => by
    rw [express]
    exact writable_symbol_of_isKind (by decide)
  | .int n, _, hp => by
    rw [Value.isPlain] at hp
    exact .int hp
  | .str s, _, _ => .str s
  | .list items, hk, hp => by
    rw [isKeyed, Bool.and_eq_true] at hk
    rw [Value.isPlain] at hp
    rw [express]
    exact .list (writable_expressItems items hk.2 hp)
  | .object ((k, .str kind) :: fields), hk, hp => by
    rw [isKeyed, Bool.and_eq_true, Bool.and_eq_true] at hk
    rw [Value.isPlain, Value.plainFields, Bool.and_eq_true, Bool.and_eq_true] at hp
    rw [express]
    apply Writable.list
    rw [List.forall_mem_cons]
    exact ⟨writable_symbol_of_isKind hk.1.2, writable_expressFields fields hk.2 hp.2.2⟩

theorem writable_expressItems :
    ∀ items : List Value, keyedItems items → Value.plainItems Json.isReadable items →
    ∀ e ∈ expressItems items, Writable e
  | [], _, _ => by simp [expressItems]
  | v :: vs, hk, hp => by
    rw [keyedItems, Bool.and_eq_true] at hk
    rw [Value.plainItems, Bool.and_eq_true] at hp
    rw [expressItems, List.forall_mem_cons]
    exact ⟨writable_express v hk.1 hp.1, writable_expressItems vs hk.2 hp.2⟩

theorem writable_expressFields : ∀ fields : List (String × Value), keyedFields fields →
    Value.plainFields Json.isReadable fields → ∀ e ∈ expressFields fields, Writable e
  | [], _, _ => by simp [expressFields]
  | (k, v) :: fields, hk, hp => by
    rw [keyedFields, Bool.and_eq_true, Bool.and_eq_true] at hk
    rw [Value.plainFields, Bool.and_eq_true, Bool.and_eq_true] at hp
    rw [expressFields, List.forall_mem_cons, List.forall_mem_cons]
    exact ⟨writable_keyword hk.1.1, writable_express v hk.1.2 hp.1.2,
      writable_expressFields fields hk.2 hp.2⟩

end

theorem head?_of_isKind {kind : String} (h : isKind kind) : head? (.symbol kind) = some kind := by
  rw [isKind, Bool.and_eq_true] at h
  obtain ⟨c, cs, hs, _, _, hc⟩ := exists_start_of_isName h.1
  have hcolon : kind.startsWith ":" = false := by
    simp [hs, Ne.symm hc]
  rw [head?, hcolon]
  rfl

theorem keyword?_keyword (k : String) : keyword? (.symbol (":" ++ k)) = some k := by
  rw [keyword?, toList_keyword]
  simp only [String.ofList_toList]

theorem alternates_expressFields (fields : List (String × Value)) :
    alternates (expressFields fields) := by
  induction fields with
  | nil => rw [expressFields, alternates]
  | cons field fields ih =>
    obtain ⟨k, v⟩ := field
    rw [expressFields, alternates, keyword?_keyword, ih]
    rfl

/-- No value is expressed as a keyword, and only constants as what can be a head. -/
theorem marks_express : ∀ v : Value, isKeyed v →
    keyword? (express v) = none ∧ (isLoneConstant [v] = false → head? (express v) = none)
  | .null, _ | .bool true, _ | .bool false, _ => by
    rw [express]
    exact ⟨by decide, by simp [isLoneConstant]⟩
  | .int _, _ | .str _, _ => by
    rw [express, keyword?, head?]
    all_goals simp
  | .list items, _ => by
    rw [express, keyword?, head?]
    all_goals simp
  | .object ((_, .str _) :: _), _ => by
    rw [express, keyword?, head?]
    all_goals simp

/-- The items of a list never read as keywords with their values. -/
theorem alternates_expressItems {v : Value} {vs : List Value} (h : keyedItems (v :: vs)) :
    alternates (expressItems (v :: vs)) = false := by
  rw [keyedItems, Bool.and_eq_true] at h
  cases vs with
  | nil => rfl
  | cons w vs =>
    rw [expressItems, expressItems, alternates, (marks_express v h.1).1]
    rfl

theorem meaning_list {first : Value} {rest : List Value}
    (h : head? first = none ∨ alternates rest = false) :
    meaning (.list (first :: rest)) = .list (meaning first :: meanings rest) := by
  rw [meaning]
  rcases h with h | h
  · rw [h]
  · rw [h]
    cases head? first <;> rfl

/-- Where the first item of a list reads as a head, the others do not read as keywords with their
values. -/
theorem head?_or_alternates {v : Value} {vs : List Value} (hlone : isLoneConstant (v :: vs) = false)
    (h : keyedItems (v :: vs)) :
    head? (express v) = none ∨ alternates (expressItems vs) = false := by
  rw [keyedItems, Bool.and_eq_true] at h
  -- after a single item nothing is left to contradict a head, so the item itself must not be one
  cases vs with
  | nil => exact .inl ((marks_express v h.1).2 hlone)
  | cons w vs => exact .inr (alternates_expressItems h.2)

mutual

/-- The expression for a keyed value means that value. -/
theorem meaning_express :
    ∀ v : Value, isKeyed v → v.isPlain Json.isReadable → meaning (express v) = v
  | .null, _, _ => by
    rw [express, meaning]
    simp [constant]
  | .bool true, _, _ => by
    rw [express, meaning]
    simp [constant]
  | .bool false, _, _ => by
    rw [express, meaning]
    simp [constant]
  | .int n, _, _ => by
    rw [express, meaning]
    all_goals simp
  | .str s, _, _ => by
    rw [express, meaning]
    all_goals simp
  | .list [], _, _ => by
    rw [express, expressItems, meaning]
  | .list (v :: vs), hk, hp => by
    rw [isKeyed, Bool.and_eq_true, Bool.not_eq_true'] at hk
    rw [Value.isPlain] at hp
    have hitems := meanings_expressItems (v :: vs) hk.2 hp
    rw [expressItems, meanings] at hitems
    rw [express, expressItems, meaning_list (head?_or_alternates hk.1 hk.2), hitems]
  | .object ((k, .str kind) :: fields), hk, hp => by
    rw [isKeyed, Bool.and_eq_true, Bool.and_eq_true, beq_iff_eq] at hk
    rw [Value.isPlain, Value.plainFields, Bool.and_eq_true, Bool.and_eq_true,
      decide_eq_true_eq] at hp
    have hfields := fieldMeanings_expressFields fields hk.2 hp.2.2
    obtain ⟨⟨rfl, hkind⟩, _⟩ := hk
    -- the head is a kind for its shape alone, and with no key twice the table is the fields as they
    -- stand
    rw [express, meaning, head?_of_isKind hkind, alternates_expressFields fields]
    dsimp only
    rw [hfields, Table.ofPairs_of_nodup _ hp.1]

theorem meanings_expressItems :
    ∀ items : List Value, keyedItems items → Value.plainItems Json.isReadable items →
    meanings (expressItems items) = items
  | [], _, _ => by rw [expressItems, meanings]
  | v :: vs, hk, hp => by
    rw [keyedItems, Bool.and_eq_true] at hk
    rw [Value.plainItems, Bool.and_eq_true] at hp
    rw [expressItems, meanings, meaning_express v hk.1 hp.1, meanings_expressItems vs hk.2 hp.2]

theorem fieldMeanings_expressFields : ∀ fields : List (String × Value), keyedFields fields →
    Value.plainFields Json.isReadable fields → fieldMeanings (expressFields fields) = fields
  | [], _, _ => by
    rw [expressFields, fieldMeanings]
    all_goals simp
  | (k, v) :: fields, hk, hp => by
    rw [keyedFields, Bool.and_eq_true, Bool.and_eq_true] at hk
    rw [Value.plainFields, Bool.and_eq_true, Bool.and_eq_true] at hp
    rw [expressFields, fieldMeanings, keyword?_keyword, meaning_express v hk.1.2 hp.1.2,
      fieldMeanings_expressFields fields hk.2 hp.2]
    rfl

end

end Meanings

end SExpr

/-- A dump loads alike in both formats. The value may be any that JSON text has, without fractions,
whose objects lead with their kind and in which neither a name reads as a number nor a list as an
object: both of its texts are read as the value itself, and its symbolic text loads as the same
crate, or with the same failure, as its JSON text, however that is laid out. -/
theorem symbolic_eq_json (v : Value) (hplain : v.isPlain Json.isReadable)
    (hkeyed : SExpr.isKeyed v) :
    (SExpr.read? (SExpr.write (SExpr.express v))).map SExpr.meaning = some v ∧
      Json.parse (Json.write Json.compact v) = .ok v ∧
      Load.symbolic (SExpr.write (SExpr.express v)) = Load.json (Json.write Json.compact v) ∧
      ∀ text, Json.parse text = .ok v →
        Load.symbolic (SExpr.write (SExpr.express v)) = Load.json text := by
  have hread := SExpr.read?_write (SExpr.writable_express v hkeyed hplain)
  have hmeaning := SExpr.meaning_express v hkeyed hplain
  have hsymbolic : Load.symbolic (SExpr.write (SExpr.express v)) = Load.crate v := by
    rw [Load.symbolic, hread]
    dsimp only
    rw [hmeaning]
  have hjson : ∀ text, Json.parse text = .ok v → Load.json text = Load.crate v := by
    intro text htext
    rw [Load.json, htext]
  have hwrite : Json.parse (Json.write Json.compact v) = .ok v :=
    Json.parse_write (fun _ h => h) hplain
  refine ⟨?_, hwrite, ?_, fun text htext => ?_⟩
  · rw [hread, Option.map_some, hmeaning]
  · rw [hsymbolic, hjson _ hwrite]
  · rw [hsymbolic, hjson text htext]

/-- A crate with a module whose kind is spelled like a constant, and a file whose path needs both
escapes. -/
def escapedDump : Value :=
  .object [("kind", .str "crate"), ("name", .str "k"),
    ("items", .list [.object [("kind", .str "nil"), ("name", .str "t"), ("items", .list [])]]),
    ("files",
      .list [.object [("kind", .str "_file2"), ("path", .str "\"a\\.rs"), ("text", .str "fn\n"),
        ("marks", .list [.null, .bool true, .int (-70), .list []])]])]

theorem symbolic_eq_json_escapedDump :
    escapedDump.isPlain Json.isReadable ∧ SExpr.isKeyed escapedDump ∧
      SExpr.write (SExpr.express escapedDump) =
        "(crate :name \"k\" :items ((nil :name \"t\" :items ())) :files " ++
        "((_file2 :path \"\\\"a\\\\.rs\" :text \"fn
\" :marks (nil true -70 ()))))" ∧
      (Load.json (Json.write Json.compact escapedDump)).toOption.any (fun crate =>
        crate.items.map Crate.Item.name == ["t"] && crate.files == [("\"a\\.rs", "fn\n")]) ∧
      (SExpr.read? (SExpr.write (SExpr.express escapedDump))).map SExpr.meaning =
        some escapedDump ∧
      Json.parse (Json.write Json.compact escapedDump) = .ok escapedDump ∧
      Load.symbolic (SExpr.write (SExpr.express escapedDump)) =
        Load.json (Json.write Json.compact escapedDump) := by
  have hplain : escapedDump.isPlain Json.isReadable := by decide +kernel
  have hkeyed : SExpr.isKeyed escapedDump := by decide +kernel
  obtain ⟨hread, hparse, heq, -⟩ := symbolic_eq_json escapedDump hplain hkeyed
  exact ⟨hplain, hkeyed, by decide +kernel, by decide +kernel, hread, hparse, heq⟩

end CrateAudit
