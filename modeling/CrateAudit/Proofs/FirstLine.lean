import CrateAudit.Proofs.JsonText
import CrateAudit.Text.Lines

namespace CrateAudit

namespace Text

/-- The ends of lines outside ASCII: the next line control and the separators of lines and
paragraphs. -/
def isSeparator (c : Char) : Bool :=
  c == '\x85' || c == '\u2028' || c == '\u2029'

def isVisible (c : Char) : Bool :=
  32 ≤ c.toNat && c.toNat < 127

def firstLine (cs : List Char) : List Char :=
  cs.takeWhile fun c => !isLineEnd c

theorem isLineEnd_of_le {c : Char} (h : 32 ≤ c.toNat) : isLineEnd c = isSeparator c := by
  have hc : ∀ d : Char, (c == d) = (c.toNat == d.toNat) := by
    intro d
    rw [Bool.eq_iff_iff, beq_iff_eq, beq_iff_eq, Char.toNat_inj]
  simp only [isLineEnd, isSeparator, hc]
  grind

theorem isVisible_iff {c : Char} : isVisible c ↔ 32 ≤ c.toNat ∧ c.toNat < 127 := by
  rw [isVisible, Bool.and_eq_true, decide_eq_true_iff, decide_eq_true_iff]

theorem isLineEnd_of_isVisible {c : Char} (h : isVisible c) : isLineEnd c = false := by
  rw [isVisible_iff] at h
  simp only [isLineEnd]
  grind

theorem firstLine_append {cs : List Char} (h : ∀ c ∈ cs, isLineEnd c = false) (rest : List Char) :
    firstLine (cs ++ rest) = cs ++ firstLine rest :=
  List.takeWhile_append_of_pos fun c hc => by rw [h c hc]; rfl

theorem firstLine_visible {cs : List Char} (h : cs.all isVisible) (rest : List Char) :
    firstLine (cs ++ rest) = cs ++ firstLine rest :=
  firstLine_append (fun c hc => isLineEnd_of_isVisible (List.all_eq_true.mp h c hc)) rest

theorem firstLine_eq_self {cs : List Char} (h : ∀ c ∈ cs, isLineEnd c = false) :
    firstLine cs = cs := by
  have hnil : firstLine [] = [] := rfl
  have happend := firstLine_append h []
  rwa [List.append_nil, hnil, List.append_nil] at happend

theorem firstLine_cons {c : Char} (h : isLineEnd c = false) (rest : List Char) :
    firstLine (c :: rest) = c :: firstLine rest := by
  rw [firstLine, List.takeWhile_cons, h]
  rfl

theorem firstLine_of_isLineEnd {c : Char} (h : isLineEnd c) (rest : List Char) :
    firstLine (c :: rest) = [] := by
  rw [firstLine, List.takeWhile_cons, h]
  rfl

theorem lines_append {line : List Char} (hl : ∀ c ∈ line, isLineEnd c = false) {c : Char}
    (hc : isLineEnd c) (hr : c ≠ '\r') (rest : List Char) :
    lines (line ++ c :: rest) = line :: lines rest := by
  induction line with
  | nil => rw [List.nil_append, lines.eq_3 _ _ (fun _ h => absurd h hr), if_pos hc]
  | cons d line ih =>
    rw [List.forall_mem_cons] at hl
    have hd : d ≠ '\r' := by
      rintro rfl
      exact absurd hl.1 (by decide)
    rw [List.cons_append, lines.eq_3 _ _ (fun _ h => absurd h hd), if_neg (by simp [hl.1]), ih hl.2]

theorem lines_firstLine {text : List Char} (ht : ∀ c ∈ text, 32 ≤ c.toNat) (rest : List Char) :
    ∃ more, lines (text ++ '\n' :: rest) = firstLine text :: more := by
  induction text with
  | nil => exact ⟨lines rest, rfl⟩
  | cons c text ih =>
    rw [List.forall_mem_cons] at ht
    obtain ⟨more, hmore⟩ := ih ht.2
    have hr : c ≠ '\r' := by
      rintro rfl
      exact absurd ht.1 (by decide)
    rw [List.cons_append, lines.eq_3 _ _ (fun _ h => absurd h hr)]
    cases hc : isLineEnd c with
    | true => exact ⟨_, by rw [firstLine_of_isLineEnd hc]; rfl⟩
    | false => exact ⟨more, by rw [firstLine_cons hc, hmore]; rfl⟩

theorem unifyLineEnds_eq {cs : List Char} (h : '\r' ∉ cs) : unifyLineEnds cs = cs := by
  induction cs with
  | nil => rfl
  | cons c cs ih =>
    rw [List.mem_cons, not_or] at h
    rw [unifyLineEnds.eq_4 _ _ (fun _ hc => absurd hc.symm h.1) (fun hc => absurd hc.symm h.1),
      ih h.2]

end Text

namespace Json

open Text

section Strings

theorem isVisible_of_escaped? {c : Char} {u : Nat} (h : escaped? c = some u) : isVisible c := by
  unfold escaped? at h
  split at h
  case h_9 => cases h
  all_goals decide

theorem isVisible_unitEscape : ∀ n < 32, (unitEscape n).all isVisible := by
  decide

/-- A character is written in ASCII or as it is. -/
theorem mem_charText {c d : Char} (h : d ∈ charText compact c) :
    isVisible d ∨ (d = c ∧ 32 ≤ c.toNat) := by
  obtain ⟨e, -, hu, ht⟩ | ⟨hc, ht⟩ | ⟨-, -, hc, ht⟩ := charText_cases c
  · rw [ht, List.mem_cons, List.mem_singleton] at h
    left
    rcases h with rfl | rfl
    · decide
    · exact isVisible_of_escaped? hu
  · rw [ht] at h
    exact .inl (List.all_eq_true.mp (isVisible_unitEscape _ hc) d h)
  · rw [ht, List.mem_singleton] at h
    exact .inr ⟨h, hc⟩

theorem not_isLineEnd_charText {c : Char} (hc : isSeparator c = false) :
    ∀ d ∈ charText compact c, isLineEnd d = false := by
  intro d hd
  rcases mem_charText hd with h | ⟨rfl, h⟩
  · exact isLineEnd_of_isVisible h
  · rw [isLineEnd_of_le h, hc]

theorem charText_separator {c : Char} (hc : isSeparator c) :
    charText compact c = [c] ∧ isLineEnd c := by
  simp only [isSeparator, Bool.or_eq_true, beq_iff_eq] at hc
  rcases hc with (rfl | rfl) | rfl <;> decide

theorem units?_firstLine (cs rest : List Char) :
    units? (firstLine (cs.flatMap (charText compact) ++ '"' :: rest)) =
      if cs.all (!isSeparator ·) then some (cs.map Char.toNat, firstLine rest) else none := by
  induction cs with
  | nil => rw [List.flatMap_nil, List.nil_append, firstLine_cons (by decide)]; rfl
  | cons c cs ih =>
    rw [List.flatMap_cons, List.append_assoc, List.all_cons]
    cases hc : isSeparator c with
    | false =>
      rw [firstLine_append (not_isLineEnd_charText hc), units?_charText, ih]
      simp only [Bool.not_false, Bool.true_and]
      split <;> rfl
    | true =>
      obtain ⟨ht, he⟩ := charText_separator hc
      rw [ht, List.singleton_append, firstLine_of_isLineEnd he]
      rfl

def isUnbroken (s : String) : Bool :=
  s.toList.all (!isSeparator ·)

/-- A written text that a line ends in is not closed. -/
theorem string?_firstLine (s : String) (rest : List Char) :
    string? (firstLine (s.toList.flatMap (charText compact) ++ '"' :: rest)) =
      if isUnbroken s then some (s, firstLine rest) else none := by
  rw [string?, units?_firstLine, isUnbroken]
  split
  · simp [ofUnits_toNat]
  · rfl

end Strings

section Values

/-- Whether a scalar is read back from the first line of its text. -/
def isLegible : Value → Bool
  | .int n => isShort n
  | .str s => isUnbroken s
  | _ => true

theorem isVisible_of_isDigit {c : Char} (h : c.isDigit) : isVisible c := by
  rw [Char.isDigit_iff_toNat] at h
  rw [isVisible_iff]
  have h0 : '0'.toNat = 48 := rfl
  have h9 : '9'.toNat = 57 := rfl
  omega

theorem isVisible_toString (n : Int) : (toString n).toList.all isVisible := by
  rw [List.all_eq_true]
  intro c hc
  cases n with
  | ofNat m =>
    rw [toList_toString_ofNat] at hc
    exact isVisible_of_isDigit (isDigit_of_mem m c hc)
  | negSucc m =>
    rw [toList_toString_negSucc, List.mem_cons] at hc
    rcases hc with rfl | hc
    · decide
    · exact isVisible_of_isDigit (isDigit_of_mem _ c hc)

section Characters

variable {ok : Value → Bool} {p : Char → Prop}

theorem mem_flatMap_charText (hp : ∀ c, isVisible c → p c) {cs : List Char}
    (hs : ∀ c ∈ cs, 32 ≤ c.toNat → p c) : ∀ c ∈ cs.flatMap (charText compact), p c := by
  intro c hc
  obtain ⟨d, hd, hc⟩ := List.mem_flatMap.mp hc
  rcases mem_charText hc with h | ⟨rfl, h⟩
  · exact hp c h
  · exact hs c hd h

mutual

/-- The text of a value is made of ASCII characters and of those in its own texts. -/
theorem mem_chars (hp : ∀ c, isVisible c → p c)
    (hok : ∀ s, ok (.str s) → ∀ c ∈ s.toList, 32 ≤ c.toNat → p c) (v : Value) (hv : v.isPlain ok)
    (level : Nat) :
    ∀ c ∈ chars compact level v, p c := by
  have hword : ∀ {cs : List Char}, cs.all isVisible → ∀ c ∈ cs, p c :=
    fun h c hc => hp c (List.all_eq_true.mp h c hc)
  cases v with
  | null => rw [chars]; exact hword (by decide)
  | bool b => cases b <;> (rw [chars]; exact hword (by decide))
  | int n => rw [chars]; exact hword (isVisible_toString n)
  | str s =>
    rw [Value.isPlain] at hv
    rw [chars, stringText, List.cons_append, List.forall_mem_cons, List.forall_mem_append]
    exact ⟨hp _ (by decide), mem_flatMap_charText hp (hok s hv), hword (by decide)⟩
  | list items =>
    rw [Value.isPlain] at hv
    rw [chars, List.cons_append, List.forall_mem_cons, List.forall_mem_append]
    exact ⟨hp _ (by decide), mem_itemChars hp hok items hv level, hword (by decide)⟩
  | object fields =>
    rw [Value.isPlain, Bool.and_eq_true] at hv
    rw [chars, List.cons_append, List.forall_mem_cons, List.forall_mem_append]
    exact ⟨hp _ (by decide), mem_fieldChars hp hok fields hv.2 level, hword (by decide)⟩
  | float | symbol | quoted | brackets => simp [Value.isPlain] at hv

theorem mem_itemChars (hp : ∀ c, isVisible c → p c)
    (hok : ∀ s, ok (.str s) → ∀ c ∈ s.toList, 32 ≤ c.toNat → p c) (items : List Value)
    (hv : Value.plainItems ok items) (level : Nat) : ∀ c ∈ itemChars compact level items, p c := by
  match items with
  | [] => rw [itemChars]; nofun
  | [v] =>
    rw [Value.plainItems, Bool.and_eq_true] at hv
    rw [itemChars_singleton]
    exact mem_chars hp hok v hv.1 _
  | v :: w :: vs =>
    rw [Value.plainItems, Bool.and_eq_true] at hv
    rw [itemChars_cons, List.forall_mem_append, List.forall_mem_cons]
    exact ⟨mem_chars hp hok v hv.1 _, hp _ (by decide), mem_itemChars hp hok (w :: vs) hv.2 level⟩

theorem mem_fieldChars (hp : ∀ c, isVisible c → p c)
    (hok : ∀ s, ok (.str s) → ∀ c ∈ s.toList, 32 ≤ c.toNat → p c) (fields : List (String × Value))
    (hv : Value.plainFields ok fields) (level : Nat) :
    ∀ c ∈ fieldChars compact level fields, p c := by
  have hquote : p '"' := hp _ (by decide)
  have hcolon : p ':' := hp _ (by decide)
  match fields with
  | [] => rw [fieldChars]; nofun
  | [(k, v)] =>
    rw [Value.plainFields, Bool.and_eq_true, Bool.and_eq_true] at hv
    simp only [fieldChars_singleton, List.forall_mem_append, List.forall_mem_cons]
    exact ⟨hquote, mem_flatMap_charText hp (hok k hv.1.1), hquote, hcolon,
      mem_chars hp hok v hv.1.2 _⟩
  | (k, v) :: f :: fs =>
    rw [Value.plainFields, Bool.and_eq_true, Bool.and_eq_true] at hv
    simp only [fieldChars_cons, List.forall_mem_append, List.forall_mem_cons]
    exact ⟨hquote, mem_flatMap_charText hp (hok k hv.1.1), hquote, hcolon,
      mem_chars hp hok v hv.1.2 _, hp _ (by decide), mem_fieldChars hp hok (f :: fs) hv.2 level⟩

end

end Characters

theorem le_of_mem_chars {ok : Value → Bool} {v : Value} (hv : v.isPlain ok) (level : Nat) :
    ∀ c ∈ chars compact level v, 32 ≤ c.toNat :=
  mem_chars (fun _ h => (isVisible_iff.mp h).1) (fun _ _ _ _ h => h) v hv level

theorem not_isLineEnd_chars {v : Value} (hv : v.isPlain isLegible) (level : Nat) :
    ∀ c ∈ chars compact level v, isLineEnd c = false := by
  refine mem_chars (fun _ h => isLineEnd_of_isVisible h) (fun s hs c hc h => ?_) v hv level
  rw [isLegible, isUnbroken, List.all_eq_true] at hs
  rw [isLineEnd_of_le h]
  simpa using hs c hc

theorem follows_firstLine {rest : List Char} (h : Follows rest) : Follows (firstLine rest) := by
  cases rest with
  | nil => exact h
  | cons c rest =>
    have hc : isLineEnd c = false := by rcases h c rfl with rfl | rfl | rfl <;> decide
    rw [firstLine_cons hc]
    exact follows_cons (h c rfl)

theorem opens_firstLine {cs : List Char} (h : Opens cs) : Opens (firstLine cs) := by
  cases cs with
  | nil => exact h
  | cons c cs =>
    cases hc : isLineEnd c with
    | true => rw [firstLine_of_isLineEnd hc]; nofun
    | false => rw [firstLine_cons hc]; rintro _ ⟨⟩; exact h c rfl

section FirstLine

variable {ok : Value → Bool}

theorem value_of_elements {fuel : Nat} {text : List Char} {found : List Value × List Char}
    (h : elements (fuel + 1) text = .ok found) : ∃ first, value fuel text = .ok first := by
  rw [elements] at h
  cases hv : value fuel text with
  | ok first => exact ⟨first, rfl⟩
  | error e => rw [hv] at h; cases h

theorem value_of_members {fuel : Nat} {cs text : List Char} {k : String}
    {found : List (String × Value) × List Char} (hs : Opens text)
    (hk : string? cs = some (k, ':' :: text)) (h : members (fuel + 1) ('"' :: cs) = .ok found) :
    ∃ first, value fuel text = .ok first := by
  have hc : skipSpace (':' :: text) = ':' :: text := rfl
  rw [members, hk] at h
  simp only [bind, Except.bind, hc, skipSpace_of_opens hs] at h
  cases hv : value fuel text with
  | ok first => exact ⟨first, rfl⟩
  | error e => rw [hv] at h; cases h

theorem key_of_members {fuel : Nat} {k : String} {more : List Char}
    {found : List (String × Value) × List Char}
    (h : members (fuel + 1) ('"' :: firstLine
        (k.toList.flatMap (charText compact) ++ '"' :: ':' :: more)) = .ok found) :
    isUnbroken k ∧ string? (firstLine (k.toList.flatMap (charText compact) ++ '"' :: ':' :: more)) =
      some (k, ':' :: firstLine more) := by
  have hs := string?_firstLine k (':' :: more)
  by_cases hk : isUnbroken k
  · rw [if_pos hk, firstLine_cons (by decide)] at hs
    exact ⟨hk, hs⟩
  · rw [if_neg hk] at hs
    rw [members, hs] at h
    cases h

theorem ok_of_map {α β ε : Type} {f : α → β} {x : Except ε α} {b : β} (h : x.map f = .ok b) :
    ∃ a, x = .ok a ∧ f a = b := by
  cases x with
  | ok a => exact ⟨a, rfl, Except.ok.inj h⟩
  | error e => cases h

mutual

/-- From the first line of a text a value is read only if the whole value stands there and none of
its integers is too long. -/
theorem value_firstLine (v : Value) (hv : v.isPlain ok) (level fuel : Nat) (rest : List Char)
    (hr : Follows rest) (found : Value × List Char)
    (h : value fuel (firstLine (chars compact level v ++ rest)) = .ok found) :
    v.isPlain isLegible ∧ found.2 = firstLine rest := by
  obtain ⟨fuel, rfl⟩ : ∃ n, fuel = n + 1 := by
    cases fuel with
    | zero => rw [value] at h; cases h
    | succ n => exact ⟨n, rfl⟩
  cases v with
  | null =>
    rw [chars, firstLine_visible (by decide)] at h
    cases h
    exact ⟨rfl, rfl⟩
  | bool b =>
    cases b <;>
    · rw [chars, firstLine_visible (by decide)] at h
      cases h
      exact ⟨rfl, rfl⟩
  | int n =>
    rw [chars, firstLine_visible (isVisible_toString n),
      value_int fuel n (follows_firstLine hr)] at h
    split at h
    · next hs => cases h; exact ⟨by rw [Value.isPlain, isLegible, hs], rfl⟩
    · cases h
  | str s =>
    rw [chars, stringText_append, firstLine_cons (by decide), value, string?_firstLine] at h
    by_cases hs : isUnbroken s
    · rw [if_pos hs] at h
      cases h
      exact ⟨by rw [Value.isPlain, isLegible, hs], rfl⟩
    · rw [if_neg hs] at h
      cases h
  | list items =>
    rw [Value.isPlain] at hv ⊢
    by_cases hi : items = []
    · subst hi
      rw [chars, itemChars, firstLine_visible (by decide)] at h
      cases h
      exact ⟨by rw [Value.plainItems], rfl⟩
    · rw [chars, List.append_assoc, List.cons_append, firstLine_cons (by decide),
        value_list fuel (opens_firstLine (opens_itemChars level hi hv _))] at h
      obtain ⟨found', he, rfl⟩ := ok_of_map h
      exact elements_firstLine items hi hv level fuel rest found' he
  | object fields =>
    rw [Value.isPlain, Bool.and_eq_true] at hv ⊢
    by_cases hi : fields = []
    · subst hi
      rw [chars, fieldChars, firstLine_visible (by decide)] at h
      cases h
      exact ⟨⟨hv.1, by rw [Value.plainFields]⟩, rfl⟩
    · rw [chars, List.append_assoc, List.cons_append, firstLine_cons (by decide),
        value_object fuel (opens_firstLine (opens_fieldChars level hi _))] at h
      obtain ⟨found', he, rfl⟩ := ok_of_map h
      obtain ⟨hl, hr⟩ := members_firstLine fields hi hv.2 level fuel rest found' he
      exact ⟨⟨hv.1, hl⟩, hr⟩
  | float | symbol | quoted | brackets => simp [Value.isPlain] at hv

theorem elements_firstLine (items : List Value) (hi : items ≠ []) (hv : Value.plainItems ok items)
    (level fuel : Nat) (rest : List Char) (found : List Value × List Char)
    (h : elements fuel (firstLine (itemChars compact level items ++ ']' :: rest)) = .ok found) :
    Value.plainItems isLegible items ∧ found.2 = firstLine rest := by
  obtain ⟨fuel, rfl⟩ : ∃ n, fuel = n + 1 := by
    cases fuel with
    | zero => rw [elements] at h; cases h
    | succ n => exact ⟨n, rfl⟩
  obtain ⟨⟨w, after⟩, hf⟩ := value_of_elements h
  match items with
  | [] => exact absurd rfl hi
  | [v] =>
    rw [Value.plainItems, Bool.and_eq_true] at hv
    rw [itemChars_singleton] at h hf
    obtain ⟨hl, hr⟩ := value_firstLine v hv.1 _ fuel _ (follows_cons (.inr (.inl rfl))) _ hf
    rw [firstLine_cons (by decide)] at hr
    subst hr
    rw [elements_bracket hf] at h
    cases h
    exact ⟨by rw [Value.plainItems, hl, Value.plainItems]; rfl, rfl⟩
  | v :: u :: vs =>
    rw [Value.plainItems, Bool.and_eq_true] at hv
    rw [itemChars_cons, List.append_assoc, List.cons_append] at h hf
    obtain ⟨hl, hr⟩ := value_firstLine v hv.1 _ fuel _ (follows_cons (.inl rfl)) _ hf
    rw [firstLine_cons (by decide)] at hr
    subst hr
    rw [elements_comma fuel
        (opens_firstLine (opens_itemChars level (List.cons_ne_nil u vs) hv.2 _)) hf] at h
    obtain ⟨found', he, rfl⟩ := ok_of_map h
    obtain ⟨hl', hr⟩ :=
      elements_firstLine (u :: vs) (List.cons_ne_nil u vs) hv.2 level fuel rest found' he
    exact ⟨by rw [Value.plainItems, hl, hl']; rfl, hr⟩

theorem members_firstLine (fields : List (String × Value)) (hi : fields ≠ [])
    (hv : Value.plainFields ok fields) (level fuel : Nat) (rest : List Char)
    (found : List (String × Value) × List Char)
    (h : members fuel (firstLine (fieldChars compact level fields ++ '\x7d' :: rest)) = .ok found) :
    Value.plainFields isLegible fields ∧ found.2 = firstLine rest := by
  obtain ⟨fuel, rfl⟩ : ∃ n, fuel = n + 1 := by
    cases fuel with
    | zero => rw [members.eq_2 _ _ (by intros; omega)] at h; cases h
    | succ n => exact ⟨n, rfl⟩
  match fields with
  | [] => exact absurd rfl hi
  | [(k, v)] =>
    rw [Value.plainFields, Bool.and_eq_true, Bool.and_eq_true] at hv
    simp only [fieldChars_singleton, List.append_assoc, List.cons_append] at h
    rw [firstLine_cons (by decide)] at h
    obtain ⟨hk, hs⟩ := key_of_members h
    have ho := opens_firstLine (opens_chars (level + 1) hv.1.2 ('\x7d' :: rest)).2
    obtain ⟨⟨w, after⟩, hf⟩ := value_of_members ho hs h
    obtain ⟨hl, hr⟩ := value_firstLine v hv.1.2 _ fuel _ (follows_cons (.inr (.inr rfl))) _ hf
    rw [firstLine_cons (by decide)] at hr
    subst hr
    rw [members_brace ho hs hf] at h
    cases h
    exact ⟨by rw [Value.plainFields, isLegible, hk, hl, Value.plainFields]; rfl, rfl⟩
  | (k, v) :: f :: fs =>
    rw [Value.plainFields, Bool.and_eq_true, Bool.and_eq_true] at hv
    simp only [fieldChars_cons, List.append_assoc, List.cons_append] at h
    rw [firstLine_cons (by decide)] at h
    obtain ⟨hk, hs⟩ := key_of_members h
    have ho := opens_firstLine
      (opens_chars (level + 1) hv.1.2
          (',' :: (fieldChars compact level (f :: fs) ++ '\x7d' :: rest))).2
    obtain ⟨⟨w, after⟩, hf⟩ := value_of_members ho hs h
    obtain ⟨hl, hr⟩ := value_firstLine v hv.1.2 _ fuel _ (follows_cons (.inl rfl)) _ hf
    rw [firstLine_cons (by decide)] at hr
    subst hr
    rw [members_comma ho hs (opens_firstLine (opens_fieldChars level (List.cons_ne_nil f fs) _)) hf]
      at h
    obtain ⟨found', he, rfl⟩ := ok_of_map h
    obtain ⟨hl', hr⟩ :=
      members_firstLine (f :: fs) (List.cons_ne_nil f fs) hv.2 level fuel rest found' he
    exact ⟨by rw [Value.plainFields, isLegible, hk, hl, hl']; rfl, hr⟩

end

end FirstLine

/-- A written value is read back from its first line only if that is all of it, and it is
legible. -/
theorem isLegible_of_parse {ok : Value → Bool} {v w : Value} (hv : v.isPlain ok)
    (h : parse (String.ofList (firstLine (chars compact 0 v))) = .ok w) : v.isPlain isLegible := by
  have ho : Opens (chars compact 0 v) := by simpa using (opens_chars 0 hv []).2
  rw [parse, String.toList_ofList, skipSpace_of_opens (opens_firstLine ho)] at h
  generalize 2 * (firstLine (chars compact 0 v)).length + 2 = fuel at h
  cases hr : value fuel (firstLine (chars compact 0 v)) with
  | error e => rw [hr] at h; cases h
  | ok found =>
    rw [← List.append_nil (chars compact 0 v)] at hr
    exact (value_firstLine v hv 0 fuel [] follows_nil found hr).1

end Values

end Json

end CrateAudit
