import CrateAudit.Json.Reader
import CrateAudit.Json.Writer

namespace CrateAudit

namespace Table

variable {κ α : Type} [DecidableEq κ]

theorem put_append (k : κ) (a : α) (t : Table κ α) (h : k ∉ t.map Prod.fst) :
    put k a t = t ++ [(k, a)] := by
  induction t with
  | nil => rfl
  | cons entry t ih =>
    simp only [List.map_cons, List.mem_cons, not_or] at h
    rw [put, if_neg (Ne.symm h.1), ih h.2, List.cons_append]

theorem ofPairs_of_nodup (pairs : List (κ × α)) (h : (pairs.map Prod.fst).Nodup) :
    ofPairs pairs = pairs := by
  suffices ∀ (rest t : List (κ × α)), ((t ++ rest).map Prod.fst).Nodup →
      rest.foldl (fun t entry => put entry.1 entry.2 t) t = t ++ rest from this pairs [] h
  intro rest
  induction rest with
  | nil => simp
  | cons entry rest ih =>
    intro t ht
    have hk : entry.1 ∉ t.map Prod.fst := by
      rw [List.map_append, List.nodup_append] at ht
      intro hm
      exact ht.2.2 _ hm _ List.mem_cons_self rfl
    rw [List.foldl_cons, put_append _ _ _ hk, ih _ (by simpa using ht), List.append_assoc,
      List.singleton_append]

end Table

namespace Value

mutual

/-- Whether a value is made only of what JSON text has apart from fractions, with integers and texts
that `ok` admits and no key twice in an object. -/
def isPlain (ok : Value → Bool) : Value → Bool
  | .null | .bool _ => true
  | .int n => ok (.int n)
  | .str s => ok (.str s)
  | .list items => plainItems ok items
  | .object fields => decide (fields.map Prod.fst).Nodup && plainFields ok fields
  | .float _ | .symbol _ | .quoted _ | .brackets _ => false

def plainItems (ok : Value → Bool) : List Value → Bool
  | [] => true
  | v :: vs => v.isPlain ok && plainItems ok vs

def plainFields (ok : Value → Bool) : List (String × Value) → Bool
  | [] => true
  | (k, v) :: fs => ok (.str k) && v.isPlain ok && plainFields ok fs

end

end Value

namespace Json

section Strings

variable (cs : List Char)

theorem units?_escape {c : Char} {u : Nat} (hc : c ≠ 'u') (h : escaped? c = some u) :
    units? ('\\' :: c :: cs) = (units? cs).map fun found => (u :: found.1, found.2) := by
  rw [units?.eq_4 _ _ (by rintro _ _ _ _ _ rfl; exact absurd rfl hc), h]
  cases units? cs <;> rfl

theorem units?_unitEscape {a b c d : Char} {u : Nat} (h : hexUnit? a b c d = some u) :
    units? ('\\' :: 'u' :: a :: b :: c :: d :: cs) =
      (units? cs).map fun found => (u :: found.1, found.2) := by
  rw [units?, h]
  cases units? cs <;> rfl

theorem units?_unescaped {c : Char} (hq : c ≠ '"') (hb : c ≠ '\\') (hc : 32 ≤ c.toNat) :
    units? (c :: cs) = (units? cs).map fun found => (c.toNat :: found.1, found.2) := by
  rw [units?.eq_5 _ _ hq (by intros; simp_all) (by intros; simp_all), if_neg (Nat.not_lt.2 hc)]
  cases units? cs <;> rfl

theorem hexUnit?_hex :
    ∀ n < 32, Text.hex 4 n = ['0', '0', Nat.digitChar (n / 16), Nat.digitChar (n % 16)] ∧
    hexUnit? '0' '0' (Nat.digitChar (n / 16)) (Nat.digitChar (n % 16)) = some n := by
  decide

/-- A character is written as an escape of one letter, by its number, or as it is. -/
theorem charText_cases (c : Char) :
    (∃ e, e ≠ 'u' ∧ escaped? e = some c.toNat ∧ charText compact c = ['\\', e]) ∨
      (c.toNat < 32 ∧ charText compact c = unitEscape c.toNat) ∨
      (c ≠ '"' ∧ c ≠ '\\' ∧ 32 ≤ c.toNat ∧ charText compact c = [c]) := by
  by_cases h : c ∈ ['"', '\\', '\n', '\r', '\t', '\x08', '\x0c']
  · simp only [List.mem_cons, List.not_mem_nil, or_false] at h
    left
    rcases h with rfl | rfl | rfl | rfl | rfl | rfl | rfl <;> exact ⟨_, by decide, rfl, rfl⟩
  · simp only [List.mem_cons, List.not_mem_nil, or_false, not_or] at h
    right
    by_cases hc : c.toNat < 32
    · exact .inl ⟨hc, by simp [charText, h, hc]⟩
    · exact .inr ⟨h.1, h.2.1, Nat.not_lt.1 hc, by simp [charText, h, hc, compact]⟩

theorem units?_charText (c : Char) :
    units? (charText compact c ++ cs) =
      (units? cs).map fun found => (c.toNat :: found.1, found.2) := by
  obtain ⟨e, he, hu, h⟩ | ⟨hc, h⟩ | ⟨hq, hb, hc, h⟩ := charText_cases c
  · rw [h]
    exact units?_escape cs he hu
  · obtain ⟨hx, hu⟩ := hexUnit?_hex c.toNat hc
    rw [h, unitEscape, hx]
    exact units?_unitEscape cs hu
  · rw [h]
    exact units?_unescaped cs hq hb hc

theorem not_surrogate (c : Char) : isHigh c.toNat = false ∧ isLow c.toNat = false := by
  have h := c.valid
  simp only [isHigh, isLow, Char.toNat]
  simp only [UInt32.isValidChar, Nat.isValidChar] at h
  grind

/-- The units of a character: its number or, for one that is wanted so and does not fit into one
unit, a pair of surrogates. -/
def unitsOf (c : Char) (paired : Bool) : List Nat :=
  if paired && 0x10000 ≤ c.toNat then
    [0xd800 + (c.toNat - 0x10000) / 0x400, 0xdc00 + (c.toNat - 0x10000) % 0x400]
  else [c.toNat]

theorem ofUnits_unitsOf_append (c : Char) (paired : Bool) (us : List Nat) :
    ofUnits (unitsOf c paired ++ us) = c :: ofUnits us := by
  unfold unitsOf
  split
  next hlarge =>
    rw [Bool.and_eq_true, decide_eq_true_eq] at hlarge
    have hsmall : c.toNat < 0x110000 := by
      have h := c.valid
      simp only [UInt32.isValidChar, Nat.isValidChar] at h
      simp only [Char.toNat]
      omega
    have hhigh : isHigh (0xd800 + (c.toNat - 0x10000) / 0x400) := by
      simp only [isHigh, Bool.and_eq_true, decide_eq_true_eq]
      omega
    have hlow : isLow (0xdc00 + (c.toNat - 0x10000) % 0x400) := by
      simp only [isLow, Bool.and_eq_true, decide_eq_true_eq]
      omega
    have hjoin : 0x10000 + (0xd800 + (c.toNat - 0x10000) / 0x400 - 0xd800) * 0x400 +
        (0xdc00 + (c.toNat - 0x10000) % 0x400 - 0xdc00) = c.toNat := by omega
    rw [List.cons_append, List.singleton_append, ofUnits, hhigh, hlow, hjoin, Char.ofNat_toNat]
    rfl
  next =>
    have hc := not_surrogate c
    cases us with
    | nil => simp [ofUnits, hc]
    | cons u us => simp [ofUnits, hc]

/-- A text is read from its units whichever of its characters come in pairs. -/
theorem ofUnits_flatMap (cs : List (Char × Bool)) :
    ofUnits (cs.flatMap fun c => unitsOf c.1 c.2) = cs.map Prod.fst := by
  induction cs with
  | nil => rfl
  | cons c cs ih => rw [List.flatMap_cons, ofUnits_unitsOf_append, ih, List.map_cons]

theorem ofUnits_toNat : ofUnits (cs.map Char.toNat) = cs := by
  have hunits : cs.map Char.toNat = (cs.map (·, false)).flatMap fun c => unitsOf c.1 c.2 := by
    rw [List.flatMap_map, ← List.flatMap_singleton' (cs.map Char.toNat), List.flatMap_map]
    rfl
  rw [hunits, ofUnits_flatMap, List.map_map]
  exact List.map_id cs

theorem units?_flatMap (s : List Char) :
    units? (s.flatMap (charText compact) ++ '"' :: cs) = some (s.map Char.toNat, cs) := by
  induction s with
  | nil => rfl
  | cons c s ih => rw [List.flatMap_cons, List.append_assoc, units?_charText, ih]; rfl

theorem string?_stringText (s : String) :
    string? (s.toList.flatMap (charText compact) ++ '"' :: cs) = some (s, cs) := by
  rw [string?, units?_flatMap]
  simp [ofUnits_toNat]

end Strings

section Numbers

def isShort (n : Int) : Bool :=
  (Nat.toDigits 10 n.natAbs).length ≤ Number.maxDigits

/-- What stands after a value: nothing, or the next mark of the list or object that it stands in. -/
def Follows (rest : List Char) : Prop :=
  ∀ c ∈ rest.head?, c = ',' ∨ c = ']' ∨ c = '\x7d'

theorem digits_append {ds rest : List Char} (hd : ∀ c ∈ ds, c.isDigit) (h : Follows rest) :
    digits (ds ++ rest) = (ds.map fun c => c.toNat - 48, rest) := by
  have hr : rest.takeWhile Char.isDigit = [] ∧ rest.dropWhile Char.isDigit = rest := by
    cases rest with
    | nil => simp
    | cons c rest => rcases h c rfl with rfl | rfl | rfl <;> exact ⟨rfl, rfl⟩
  rw [digits, List.takeWhile_append_of_pos hd, List.dropWhile_append_of_pos hd, hr.1, hr.2,
    List.append_nil]

theorem ofDigits_toDigits (n : Nat) :
    Number.ofDigits ((Nat.toDigits 10 n).map fun c => c.toNat - 48) = n := by
  rw [Number.ofDigits, List.foldl_map]
  have h := Nat.ofDigitChars_ten_toDigits (n := n)
  rw [Nat.ofDigitChars_eq_foldl] at h
  exact h

theorem toDigits_of_pos {n : Nat} (hn : 0 < n) : ∃ c ds, Nat.toDigits 10 n = c :: ds ∧ c ≠ '0' := by
  induction n using Nat.strongRecOn with
  | ind n ih =>
    by_cases h : n < 10
    · refine ⟨_, [], Nat.toDigits_of_lt_base h, ?_⟩
      rw [Ne, Nat.digitChar_eq_zero]
      exact Nat.ne_of_gt hn
    · obtain ⟨c, ds, hd, hc⟩ := ih (n / 10) (by omega) (by omega)
      exact ⟨c, _,
        by rw [Nat.toDigits_of_base_le (by decide) (Nat.not_lt.1 h), hd, List.cons_append], hc⟩

theorem isDigit_of_mem (n : Nat) : ∀ c ∈ Nat.toDigits 10 n, c.isDigit :=
  fun _ => Nat.isDigit_of_mem_toDigits (by decide) (by decide)

theorem toDigits_cons (n : Nat) : ∃ c ds, c.isDigit ∧ Nat.toDigits 10 n = c :: ds := by
  obtain ⟨c, ds, h⟩ := List.exists_cons_of_ne_nil (Nat.toDigits_ne_nil (n := n) (b := 10))
  exact ⟨c, ds, isDigit_of_mem n c (h ▸ List.mem_cons_self), h⟩

theorem whole?_toDigits (n : Nat) {rest : List Char} (h : Follows rest) :
    whole? (Nat.toDigits 10 n ++ rest) =
      some ((Nat.toDigits 10 n).map fun c => c.toNat - 48, rest) := by
  have hd := digits_append (isDigit_of_mem n) h
  cases n with
  | zero => rw [Nat.toDigits_zero]; rfl
  | succ n =>
    obtain ⟨c, ds, hn, hc⟩ := toDigits_of_pos (Nat.succ_pos n)
    rw [hn] at hd ⊢
    rw [List.cons_append, whole?.eq_2 _ (by rintro _ ⟨⟩; exact hc rfl), ← List.cons_append, hd]
    rfl

theorem fraction_of_follows {rest : List Char} (h : Follows rest) : fraction rest = ([], rest) := by
  cases rest with
  | nil => rfl
  | cons c rest => rcases h c rfl with rfl | rfl | rfl <;> rfl

theorem exponent?_of_follows {rest : List Char} (h : Follows rest) : exponent? rest = none := by
  cases rest with
  | nil => rfl
  | cons c rest => rcases h c rfl with rfl | rfl | rfl <;> rfl

theorem ofDigits?_toDigits (n : Nat) :
    Number.ofDigits? ((Nat.toDigits 10 n).map fun c => c.toNat - 48) =
      if isShort n then some n else none := by
  simp [Number.ofDigits?, ofDigits_toDigits, isShort]

theorem number_toDigits (n : Nat) {rest : List Char} (h : Follows rest) :
    number (Nat.toDigits 10 n ++ rest) =
      if isShort n then .ok (.int n, rest) else .error .longInteger := by
  unfold number
  split
  next negative body hs =>
    split at hs
    next rest' hn =>
      -- A numeral starts with a digit, not with a sign.
      obtain ⟨c, ds, hd, hc⟩ := toDigits_cons n
      rw [hc, List.cons_append, List.cons.injEq] at hn
      rw [hn.1] at hd
      exact absurd hd (by decide)
    next =>
      obtain ⟨rfl, rfl⟩ := Prod.mk.inj hs
      simp only [whole?_toDigits n h, fraction_of_follows h, exponent?_of_follows h,
        ofDigits?_toDigits]
      by_cases hp : isShort n <;> simp [hp]

theorem toList_toString_ofNat (n : Nat) : (toString (Int.ofNat n)).toList = Nat.toDigits 10 n :=
  Nat.toList_repr

theorem toList_toString_negSucc (n : Nat) :
    (toString (Int.negSucc n)).toList = '-' :: Nat.toDigits 10 (n + 1) := by
  rw [Int.toString_eq_repr, Int.repr, String.toList_append, Nat.toList_repr]
  rfl

/-- A written integer is read back, unless it is too long. -/
theorem number_toString (n : Int) {rest : List Char} (h : Follows rest) :
    number ((toString n).toList ++ rest) =
      if isShort n then .ok (.int n, rest) else .error .longInteger := by
  cases n with
  | ofNat m =>
    rw [toList_toString_ofNat]
    exact number_toDigits m h
  | negSucc m =>
    rw [toList_toString_negSucc, List.cons_append]
    simp only [number, whole?_toDigits (m + 1) h, fraction_of_follows h, exponent?_of_follows h,
      ofDigits?_toDigits]
    rw [show isShort (Int.negSucc m) = isShort (m + 1 : Nat) from rfl]
    by_cases hp : isShort (m + 1 : Nat)
    · simp only [hp, if_true]
      rfl
    · simp only [hp, Bool.false_eq_true, if_false]

end Numbers

section Values

/-- Whether a scalar is read back from its text: integers that are too long are not. -/
def isReadable : Value → Bool
  | .int n => isShort n
  | _ => true

theorem value_digit (fuel : Nat) {c : Char} (hc : c.isDigit) (cs : List Char) :
    value (fuel + 1) (c :: cs) = number (c :: cs) := by
  rw [value.eq_11] <;> rintro _ ⟨⟩ <;> exact absurd hc (by decide)

theorem value_minus_digit (fuel : Nat) {c : Char} (hc : c.isDigit) (cs : List Char) :
    value (fuel + 1) ('-' :: c :: cs) = number ('-' :: c :: cs) := by
  rw [value.eq_11] <;> rintro _ ⟨⟩
  exact absurd hc (by decide)

theorem toString_cons (n : Int) : ∃ c cs, c.isDigit ∧
    ((toString n).toList = c :: cs ∨ (toString n).toList = '-' :: c :: cs) := by
  cases n with
  | ofNat m =>
    obtain ⟨c, ds, hc, hm⟩ := toDigits_cons m
    exact ⟨c, ds, hc, .inl (by rw [toList_toString_ofNat, hm])⟩
  | negSucc m =>
    obtain ⟨c, ds, hc, hm⟩ := toDigits_cons (m + 1)
    exact ⟨c, ds, hc, .inr (by rw [toList_toString_negSucc, hm])⟩

theorem value_int (fuel : Nat) (n : Int) {rest : List Char} (h : Follows rest) :
    value (fuel + 1) ((toString n).toList ++ rest) =
      if isShort n then .ok (.int n, rest) else .error .longInteger := by
  have hn := number_toString n h
  obtain ⟨c, cs, hc, hs | hs⟩ := toString_cons n
  · rw [hs] at hn ⊢
    exact (value_digit fuel hc _).trans hn
  · rw [hs] at hn ⊢
    exact (value_minus_digit fuel hc _).trans hn

/-- The start of a value inside a list or object: no white space, and no mark that closes the list
or object. -/
def Opens (cs : List Char) : Prop :=
  ∀ c ∈ cs.head?, isSpace c = false ∧ c ≠ ']' ∧ c ≠ '\x7d'

section Steps

variable (fuel : Nat) {cs : List Char} (hs : Opens cs)
include hs

theorem skipSpace_of_opens : skipSpace cs = cs := by
  cases cs with
  | nil => rfl
  | cons c cs => rw [skipSpace, List.dropWhile_cons, (hs c rfl).1]; rfl

theorem value_list :
    value (fuel + 1) ('[' :: cs) =
      (elements fuel cs).map fun found => (.list found.1, found.2) := by
  rw [value, skipSpace_of_opens hs]
  split
  next => exact absurd rfl (hs _ rfl).2.1
  next => cases elements fuel cs <;> rfl

theorem value_object :
    value (fuel + 1) ('\x7b' :: cs) =
      (members fuel cs).map fun found => (.object (Table.ofPairs found.1), found.2) := by
  rw [value, skipSpace_of_opens hs]
  split
  next => exact absurd rfl (hs _ rfl).2.2
  next => cases members fuel cs <;> rfl

theorem elements_comma {text : List Char} {v : Value} (h : value fuel text = .ok (v, ',' :: cs)) :
    elements (fuel + 1) text = (elements fuel cs).map fun found => (v :: found.1, found.2) := by
  have hc : skipSpace (',' :: cs) = ',' :: cs := rfl
  rw [elements, h]
  simp only [bind, Except.bind, hc, skipSpace_of_opens hs]
  cases elements fuel cs <;> rfl

end Steps

theorem elements_bracket {fuel : Nat} {text rest : List Char} {v : Value}
    (h : value fuel text = .ok (v, ']' :: rest)) : elements (fuel + 1) text = .ok ([v], rest) := by
  rw [elements, h]
  rfl

section Members

variable {fuel : Nat} {cs text rest : List Char} {k : String} {v : Value} (hs : Opens text)
  (hk : string? cs = some (k, ':' :: text))
include hs hk

theorem members_comma (hr : Opens rest) (h : value fuel text = .ok (v, ',' :: rest)) :
    members (fuel + 1) ('"' :: cs) =
      (members fuel rest).map fun found => ((k, v) :: found.1, found.2) := by
  have hc : skipSpace (':' :: text) = ':' :: text := rfl
  have hc' : skipSpace (',' :: rest) = ',' :: rest := rfl
  rw [members, hk]
  simp only [bind, Except.bind, hc, skipSpace_of_opens hs, h, hc', skipSpace_of_opens hr]
  cases members fuel rest <;> rfl

theorem members_brace (h : value fuel text = .ok (v, '\x7d' :: rest)) :
    members (fuel + 1) ('"' :: cs) = .ok ([(k, v)], rest) := by
  have hc : skipSpace (':' :: text) = ':' :: text := rfl
  rw [members, hk]
  simp only [bind, Except.bind, hc, skipSpace_of_opens hs, h]
  rfl

end Members

section Compact

variable (level : Nat)

theorem itemChars_singleton (v : Value) :
    itemChars compact level [v] = chars compact (level + 1) v := by
  simp [itemChars, Layout.lineBreak, compact]

theorem itemChars_cons (v w : Value) (vs : List Value) :
    itemChars compact level (v :: w :: vs) =
      chars compact (level + 1) v ++ ',' :: itemChars compact level (w :: vs) := by
  rw [itemChars.eq_3 _ _ _ _ (by simp)]
  simp [Layout.lineBreak, compact]

theorem stringText_append (s : String) (rest : List Char) :
    stringText compact s ++ rest = '"' :: (s.toList.flatMap (charText compact) ++ '"' :: rest) := by
  simp [stringText]

theorem fieldChars_singleton (k : String) (v : Value) :
    fieldChars compact level [(k, v)] =
      '"' ::
        (k.toList.flatMap (charText compact) ++ '"' :: ':' :: chars compact (level + 1) v) := by
  simp [fieldChars, stringText, Layout.lineBreak, compact]

theorem fieldChars_cons (k : String) (v : Value) (f : String × Value) (fs : List (String × Value)) :
    fieldChars compact level ((k, v) :: f :: fs) =
      '"' :: (k.toList.flatMap (charText compact) ++
        '"' :: ':' ::
          (chars compact (level + 1) v ++ ',' :: fieldChars compact level (f :: fs))) := by
  rw [fieldChars.eq_3 _ _ _ _ _ (by simp)]
  simp [stringText, Layout.lineBreak, compact]

variable {ok : Value → Bool}

theorem opens_chars {v : Value} (hv : v.isPlain ok) (rest : List Char) :
    chars compact level v ≠ [] ∧ Opens (chars compact level v ++ rest) := by
  have hd : ∀ {c : Char} {cs text : List Char}, text = c :: cs → isSpace c = false ∧ c ≠ ']' ∧
      c ≠ '\x7d' →
      text ≠ [] ∧ Opens (text ++ rest) := by
    rintro c cs _ rfl hc
    exact ⟨by simp, by rintro _ ⟨⟩; exact hc⟩
  cases v with
  | null => exact hd (by rw [chars]) (by decide)
  | bool b => cases b <;> exact hd (by rw [chars]) (by decide)
  | int n =>
    obtain ⟨c, cs, hc, hn | hn⟩ := toString_cons n
    · refine hd (by rw [chars, hn]) ⟨?_, ?_, ?_⟩
      · rw [Bool.eq_false_iff]
        intro h
        simp only [isSpace, Bool.or_eq_true, beq_iff_eq] at h
        rcases h with ((rfl | rfl) | rfl) | rfl <;> exact absurd hc (by decide)
      all_goals
        rintro rfl
        exact absurd hc (by decide)
    · exact hd (by rw [chars, hn]) (by decide)
  | str s => exact hd (by rw [chars, stringText, List.cons_append]) (by decide)
  | list items => exact hd (by rw [chars, List.cons_append]) (by decide)
  | object fields => exact hd (by rw [chars, List.cons_append]) (by decide)
  | float | symbol | quoted | brackets => simp [Value.isPlain] at hv

theorem opens_itemChars {items : List Value} (hi : items ≠ []) (hv : Value.plainItems ok items)
    (rest : List Char) : Opens (itemChars compact level items ++ rest) := by
  match items with
  | [] => exact absurd rfl hi
  | [v] =>
    rw [Value.plainItems, Bool.and_eq_true] at hv
    rw [itemChars_singleton]
    exact (opens_chars _ hv.1 _).2
  | v :: w :: vs =>
    rw [Value.plainItems, Bool.and_eq_true] at hv
    rw [itemChars_cons, List.append_assoc]
    exact (opens_chars _ hv.1 _).2

theorem opens_fieldChars {fields : List (String × Value)} (hi : fields ≠ []) (rest : List Char) :
    Opens (fieldChars compact level fields ++ rest) := by
  match fields with
  | [] => exact absurd rfl hi
  | [(k, v)] => rw [fieldChars_singleton]; rintro _ ⟨⟩; decide
  | (k, v) :: f :: fs => rw [fieldChars_cons]; rintro _ ⟨⟩; decide

end Compact

theorem follows_nil : Follows [] := by
  rintro _ ⟨⟩

theorem follows_cons {c : Char} {rest : List Char} (hc : c = ',' ∨ c = ']' ∨ c = '\x7d') :
    Follows (c :: rest) := by
  rintro _ ⟨⟩
  exact hc

variable {ok : Value → Bool}

mutual

/-- A written value is read back and what follows it is left. -/
theorem value_chars (hok : ∀ n, ok (.int n) → isShort n) (v : Value) (hv : v.isPlain ok)
    (level fuel : Nat) (rest : List Char) (hr : Follows rest)
    (hf : 2 * (chars compact level v).length ≤ fuel) :
    value fuel (chars compact level v ++ rest) = .ok (v, rest) := by
  obtain ⟨fuel, rfl⟩ : ∃ n, fuel = n + 1 := by
    have := List.length_pos_iff.2 (opens_chars level hv rest).1
    exact ⟨fuel - 1, by omega⟩
  cases v with
  | null => rw [chars]; rfl
  | bool b => cases b <;> (rw [chars]; rfl)
  | int n =>
    rw [Value.isPlain] at hv
    rw [chars, value_int fuel n hr, if_pos (hok n hv)]
  | str s => rw [chars, stringText_append, value, string?_stringText]
  | list items =>
    rw [Value.isPlain] at hv
    by_cases hi : items = []
    · rw [hi, chars, itemChars]; rfl
    · simp only [chars, List.cons_append, List.append_assoc, List.nil_append, List.length_cons,
        List.length_append] at hf ⊢
      rw [value_list fuel (opens_itemChars level hi hv _),
        elements_itemChars hok items hi hv level fuel rest (by omega)]
      rfl
  | object fields =>
    simp only [Value.isPlain, Bool.and_eq_true, decide_eq_true_eq] at hv
    by_cases hi : fields = []
    · rw [hi, chars, fieldChars]; rfl
    · simp only [chars, List.cons_append, List.append_assoc, List.nil_append, List.length_cons,
        List.length_append] at hf ⊢
      rw [value_object fuel (opens_fieldChars level hi _),
        members_fieldChars hok fields hi hv.2 level fuel rest (by omega)]
      simp only [Except.map, Table.ofPairs_of_nodup _ hv.1]
  | float | symbol | quoted | brackets => simp [Value.isPlain] at hv

theorem elements_itemChars (hok : ∀ n, ok (.int n) → isShort n) (items : List Value)
    (hi : items ≠ []) (hv : Value.plainItems ok items) (level fuel : Nat) (rest : List Char)
    (hf : 2 * (itemChars compact level items).length + 1 ≤ fuel) :
    elements fuel (itemChars compact level items ++ ']' :: rest) = .ok (items, rest) := by
  obtain ⟨fuel, rfl⟩ : ∃ n, fuel = n + 1 := ⟨fuel - 1, by omega⟩
  match items with
  | [] => exact absurd rfl hi
  | [v] =>
    rw [Value.plainItems, Bool.and_eq_true] at hv
    rw [itemChars_singleton] at hf ⊢
    exact elements_bracket
      (value_chars hok v hv.1 _ fuel _ (follows_cons (.inr (.inl rfl))) (by omega))
  | v :: w :: vs =>
    rw [Value.plainItems, Bool.and_eq_true] at hv
    simp only [itemChars_cons, List.append_assoc, List.cons_append, List.length_append,
      List.length_cons] at hf ⊢
    rw [elements_comma fuel (opens_itemChars level (List.cons_ne_nil w vs) hv.2 _)
      (value_chars hok v hv.1 _ fuel _ (follows_cons (.inl rfl)) (by omega)),
      elements_itemChars hok (w :: vs) (List.cons_ne_nil w vs) hv.2 level fuel rest (by omega)]
    rfl

theorem members_fieldChars (hok : ∀ n, ok (.int n) → isShort n) (fields : List (String × Value))
    (hi : fields ≠ []) (hv : Value.plainFields ok fields) (level fuel : Nat) (rest : List Char)
    (hf : 2 * (fieldChars compact level fields).length + 1 ≤ fuel) :
    members fuel (fieldChars compact level fields ++ '\x7d' :: rest) = .ok (fields, rest) := by
  obtain ⟨fuel, rfl⟩ : ∃ n, fuel = n + 1 := ⟨fuel - 1, by omega⟩
  match fields with
  | [] => exact absurd rfl hi
  | [(k, v)] =>
    rw [Value.plainFields, Bool.and_eq_true, Bool.and_eq_true] at hv
    simp only [fieldChars_singleton, List.append_assoc, List.cons_append, List.length_append,
      List.length_cons] at hf ⊢
    exact members_brace (opens_chars _ hv.1.2 _).2 (string?_stringText _ _)
      (value_chars hok v hv.1.2 _ fuel _ (follows_cons (.inr (.inr rfl))) (by omega))
  | (k, v) :: f :: fs =>
    rw [Value.plainFields, Bool.and_eq_true, Bool.and_eq_true] at hv
    simp only [fieldChars_cons, List.append_assoc, List.cons_append, List.length_append,
      List.length_cons] at hf ⊢
    rw [members_comma (opens_chars _ hv.1.2 _).2 (string?_stringText _ _)
      (opens_fieldChars level (List.cons_ne_nil f fs) _)
      (value_chars hok v hv.1.2 _ fuel _ (follows_cons (.inl rfl)) (by omega)),
      members_fieldChars hok (f :: fs) (List.cons_ne_nil f fs) hv.2 level fuel rest (by omega)]
    rfl

end

theorem parse_write (hok : ∀ n, ok (.int n) → isShort n) {v : Value} (hv : v.isPlain ok) :
    parse (write compact v) = .ok v := by
  have ho : Opens (chars compact 0 v) := by simpa using (opens_chars 0 hv []).2
  have hr := value_chars hok v hv 0 (2 * (chars compact 0 v).length + 2) [] follows_nil (by omega)
  rw [List.append_nil] at hr
  rw [parse, write, String.toList_ofList, skipSpace_of_opens ho, hr]
  rfl

end Values

end Json

end CrateAudit
