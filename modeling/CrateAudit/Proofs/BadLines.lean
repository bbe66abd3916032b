import CrateAudit.Command.Run
import CrateAudit.Proofs.FirstLine

namespace CrateAudit

namespace Record

mutual

/-- A block with an entry, at any depth, that should nest a block and has an empty field list
instead. -/
inductive HollowBlock : Value → Prop where
  | entry {v contents e item : Value} {entries : List Value}
      (hcontents : v.get? "contents" = some contents)
      (hparts : contents.parts? = some entries) (he : e ∈ entries)
      (hitem : e.get? "item" = some item)
      (hhollow : HollowNode item) : HollowBlock v

/-- A node that should nest a block. An absent field list counts as an empty one, and so does an
empty text. -/
inductive HollowNode : Value → Prop where
  | empty {v : Value} {variant : String} (hnests : variant ∈ ["Closure", "InnerBlock"])
      (hvariant : v.get? "variant" = some (.str variant))
      (hfields : (v.get? "fields").getD (.list []) ∈ [.list [], .str ""]) : HollowNode v
  | nested {v b : Value} {variant : String} {more : List Value}
      (hnests : variant ∈ ["Closure", "InnerBlock"])
      (hvariant : v.get? "variant" = some (.str variant))
      (hfields : v.get? "fields" = some (.list (b :: more)))
      (hhollow : HollowBlock b) : HollowNode v

end

def IsHollow (v : Value) : Prop :=
  ∃ listed fs f b, v.get? "functions" = some listed ∧ listed.parts? = some fs ∧ f ∈ fs ∧
    f.get? "block" = some b ∧ HollowBlock b

/-- A part can be missing only if `A` holds. -/
def Misses {α : Type} (A : Prop) (r : Except RecordError α) : Prop :=
  r = .error .missingPart → A

namespace Misses

variable {α β : Type} {A B : Prop} {r : Except RecordError α}

theorem bind {f : α → Except RecordError β} (hr : Misses A r)
    (hf : ∀ a, r = .ok a → Misses A (f a)) :
    Misses A (r >>= f) := by
  cases r with
  | error e =>
    intro h
    cases h
    exact hr rfl
  | ok a => exact hf a rfl

theorem pure (a : α) : Misses A (.ok a) := by
  intro h
  cases h

theorem error {e : RecordError} (he : e.isLineError) :
    Misses A (.error e : Except RecordError α) := by
  intro h
  cases h
  cases he

theorem mono (hr : Misses A r) (hAB : A → B) : Misses B r :=
  fun h => hAB (hr h)

theorem mapM {f : β → Except RecordError α} {xs : List β} (hf : ∀ x ∈ xs, Misses A (f x)) :
    Misses A (xs.mapM f) := by
  induction xs with
  | nil => exact pure []
  | cons x xs ih =>
    rw [List.forall_mem_cons] at hf
    rw [List.mapM_cons]
    refine hf.1.bind fun _ _ => ?_
    refine (ih hf.2).bind fun _ _ => ?_
    exact pure _

end Misses

section

variable {A : Prop} {v w : Value} {name : String}

theorem key_misses (v : Value) (name : String) : Misses A (key v name) := by
  unfold key Value.under
  split
  · split
    · exact .pure _
    · exact .error rfl
  · exact .error rfl

theorem parts_misses (v : Value) : Misses A (parts v) := by
  unfold parts Value.partsOr
  split
  · exact .pure _
  · exact .error rfl

theorem origin_misses (v : Value) : Misses A (origin v) := by
  unfold origin Value.wordOr
  split
  · split
    · exact .pure _
    · exact .error rfl
  · exact .error rfl

theorem call_misses (fields : Value) : Misses A (call fields) := by
  unfold call
  refine (parts_misses fields).bind fun vs _ => ?_
  split
  · refine (key_misses _ _).bind fun _ _ => ?_
    exact (key_misses _ _).bind fun _ _ => .pure _
  · exact .error rfl

theorem variantOf_misses (v : Value) : Misses A (variantOf v) := by
  unfold variantOf
  simp only [pure_bind]
  split
  · split
    · exact .pure _
    · exact .error rfl
  · refine (key_misses _ _).bind fun _ _ => ?_
    split
    · split
      · exact .pure _
      · exact .error rfl
    · split
      · exact .error rfl
      · exact .error rfl

theorem variantOf_eq_ok {fields : Value} (h : variantOf v = .ok (name, some fields)) :
    v.get? "variant" = some (.str name) ∧ (v.get? "fields").getD (.list []) = fields := by
  unfold variantOf at h
  simp only [pure_bind] at h
  split at h
  · -- a bare name has no field list, known or not
    split at h
    · cases h
    · cases h
  cases hname : key v "variant" with
  | error e =>
    rw [hname] at h
    cases h
  | ok named =>
    rw [hname] at h
    dsimp only [bind, Except.bind] at h
    split at h
    · split at h
      · have hp := Except.ok.inj h
        rw [Prod.mk.injEq] at hp
        obtain ⟨rfl, hgiven⟩ := hp
        refine ⟨Value.get?_of_under hname, ?_⟩
        split at hgiven
        · cases hgiven
        · exact Option.some.inj hgiven
      · cases h
    · split at h
      · cases h
      · cases h

theorem firstPart_misses (v : Value) : Misses (v ∈ [.list [], .str ""]) (firstPart v) := by
  unfold firstPart
  split
  · exact .pure _
  · exact fun _ => .head _
  next s =>
    split
    · exact .pure _
    next hs =>
      intro _
      obtain rfl := String.toList_eq_nil_iff.mp hs
      exact .tail _ (.head _)
  · exact .error rfl
  · exact .error rfl

end

theorem not_hollowBlock_str (s : String) : ¬HollowBlock (.str s) := by
  rintro ⟨hcontents, _, _, _, _⟩
  cases hcontents

theorem HollowNode.of_firstPart {v fields b : Value} {variant : String}
    (hnests : variant ∈ ["Closure", "InnerBlock"]) (hv : variantOf v = .ok (variant, some fields))
    (hb : firstPart fields = .ok b) (hhollow : HollowBlock b) :
    HollowNode v := by
  obtain ⟨hvariant, hfields⟩ := variantOf_eq_ok hv
  unfold firstPart at hb
  split at hb
  next first more =>
    cases hb
    cases hget : v.get? "fields" with
    | none =>
      rw [hget] at hfields
      cases hfields
    | some listed =>
      rw [hget] at hfields
      exact .nested hnests hvariant (hget.trans (congrArg some hfields)) hhollow
  next => cases hb
  next =>
    -- a text in place of a list gives its first character, and that is no block
    split at hb
    · cases hb
      exact absurd hhollow (not_hollowBlock_str _)
    · cases hb
  next => cases hb
  next => cases hb

section

variable {depth : Nat}

theorem node_misses_succ (block_misses : ∀ v, Misses (HollowBlock v) (block depth v)) (v : Value) :
    Misses (HollowNode v) (node (depth + 1) v) := by
  have hnested {variant : String} {fields : Value} (hnests : variant ∈ ["Closure", "InnerBlock"])
      (hv : variantOf v = .ok (variant, some fields)) :
      Misses (HollowNode v) (firstPart fields >>= block depth) := by
    obtain ⟨hvariant, hfields⟩ := variantOf_eq_ok hv
    refine ((firstPart_misses fields).mono fun hempty => ?_).bind fun b hb => ?_
    · exact .empty hnests hvariant (hfields ▸ hempty)
    · exact (block_misses b).mono (HollowNode.of_firstPart hnests hv hb)
  rw [node]
  refine (variantOf_misses v).bind fun p hp => ?_
  split
  · exact .pure _
  · exact .pure _
  · exact .pure _
  · exact call_misses _
  -- a closure and an inner block read the first of their fields as a block
  · rw [← bind_assoc]
    exact (hnested (by decide) hp).bind fun _ _ => .pure _
  · rw [← bind_assoc]
    exact (hnested (by decide) hp).bind fun _ _ => .pure _
  · exact .error rfl

theorem entry_misses_succ (node_misses : ∀ v, Misses (HollowNode v) (node depth v)) (v : Value) :
    Misses (∃ item, v.get? "item" = some item ∧ HollowNode item) (entry (depth + 1) v) := by
  rw [entry]
  refine (key_misses v "index").bind fun _ _ => ?_
  refine (key_misses v "span").bind fun _ _ => ?_
  refine (key_misses v "snippet").bind fun _ _ => ?_
  refine (key_misses v "macro_origin").bind fun _ _ => ?_
  refine (origin_misses _).bind fun _ _ => ?_
  refine (key_misses v "item").bind fun item hitem => ?_
  refine ((node_misses item).mono fun h => ⟨item, Value.get?_of_under hitem, h⟩).bind fun _ _ => ?_
  exact .pure _

theorem block_misses_succ
    (entry_misses : ∀ v,
      Misses (∃ item, v.get? "item" = some item ∧ HollowNode item) (entry depth v)) (v : Value) :
    Misses (HollowBlock v) (block (depth + 1) v) := by
  rw [block]
  refine (key_misses v "size").bind fun _ _ => ?_
  refine (key_misses v "unsaf").bind fun _ _ => ?_
  refine (key_misses v "contents").bind fun contents hcontents => ?_
  refine (parts_misses contents).bind fun entries hentries => ?_
  refine (Misses.mapM fun e he => (entry_misses e).mono ?_).bind fun _ _ => .pure _
  rintro ⟨item, hitem, hhollow⟩
  exact .entry (Value.get?_of_under hcontents) (Value.parts?_of_partsOr hentries) he hitem hhollow

end

/-- Reading at any depth misses a part only of a hollow value. The three readers call each other one
level down, so that they go by one induction. -/
theorem misses (depth : Nat) :
    (∀ v, Misses (HollowNode v) (node depth v)) ∧ (∀ v, Misses (HollowBlock v) (block depth v)) ∧
      ∀ v, Misses (∃ item, v.get? "item" = some item ∧ HollowNode item) (entry depth v) := by
  induction depth with
  | zero =>
    refine ⟨fun v => ?_, fun v => ?_, fun v => ?_⟩
    · rw [node]
      exact .error rfl
    · rw [block]
      exact .error rfl
    · rw [entry]
      exact .error rfl
  | succ depth ih =>
    obtain ⟨hnode, hblock, hentry⟩ := ih
    exact ⟨node_misses_succ hblock, block_misses_succ hentry, entry_misses_succ hnode⟩

theorem function_misses (v : Value) :
    Misses (∃ b, v.get? "block" = some b ∧ HollowBlock b) (function v) := by
  unfold function
  refine (key_misses v "name").bind fun _ _ => ?_
  refine (key_misses v "unsaf").bind fun _ _ => ?_
  refine (key_misses v "span").bind fun _ _ => ?_
  refine (key_misses v "macro_origin").bind fun _ _ => ?_
  refine (origin_misses _).bind fun _ _ => ?_
  refine (key_misses v "block").bind fun body hbody => ?_
  refine (((misses _).2.1 body).mono fun h => ⟨body, Value.get?_of_under hbody, h⟩).bind
    fun _ _ => ?_
  exact .pure _

theorem ofValue_misses (v : Value) : Misses (IsHollow v) (ofValue v) := by
  unfold ofValue
  refine (key_misses v "name").bind fun _ _ => ?_
  refine (key_misses v "ty").bind fun _ _ => ?_
  refine (key_misses v "functions").bind fun listed hlisted => ?_
  refine (parts_misses listed).bind fun fs hfs => ?_
  refine (Misses.mapM fun f hf => (function_misses f).mono ?_).bind fun _ _ => .pure _
  rintro ⟨b, hb, hhollow⟩
  exact ⟨listed, fs, f, b, Value.get?_of_under hlisted, Value.parts?_of_partsOr hfs, hf,
    hb, hhollow⟩

theorem isHollow_of_decode {text : String} (h : decode text = .error .missingPart) :
    ∃ v, Json.parse text = .ok v ∧ IsHollow v := by
  unfold decode at h
  split at h
  next v hv => exact ⟨v, hv, ofValue_misses v h⟩
  next => cases h
  next => cases h

end Record

namespace Command

/-- The lines that are not blank, each with its number. -/
def entriesFrom (number : Nat) (lines : List (List Char)) : List (String × Nat) :=
  ((lines.zipIdx number).filter fun p => !(Text.strip p.1).isEmpty).map
    fun p => (String.ofList p.1, p.2)

def entries (text : String) : List (String × Nat) :=
  entriesFrom 1 (Text.lines text.toList)

def isRecord (entry : String × Nat) : Bool :=
  (Record.decode entry.1).isOk

def halts (entry : String × Nat) : Bool :=
  match Record.decode entry.1 with
  | .error e => !e.isLineError
  | .ok _ => false

/-- What is printed for lines: the summary of every record among them. -/
def printed (l : Json.Layout) (entries : List (String × Nat)) : String :=
  String.join (entries.filterMap fun entry =>
    (Record.decode entry.1).toOption.map fun r => Json.write l r.summary.toValue ++ "\n")

/-- What is logged for lines: the number of every one that is no record, and why it is none. -/
def complaints (d : Decode) (entries : List (String × Nat)) : List Log.Entry :=
  entries.filterMap fun entry =>
    match Record.decode entry.1 with
    | .error e => some (speak .error
        (d.records ++ ":" ++ toString entry.2 ++ ": not an unsafe-AST record: ") (some (.record e)))
    | .ok _ => none

theorem halts_iff {entry : String × Nat} :
    halts entry ↔ Record.decode entry.1 = .error .missingPart := by
  unfold halts
  cases Record.decode entry.1 with
  | error e => cases e <;> simp [RecordError.isLineError]
  | ok r => simp

theorem entriesFrom_cons (number : Nat) (line : List Char) (lines : List (List Char)) :
    entriesFrom number (line :: lines) =
      if (Text.strip line).isEmpty then entriesFrom (number + 1) lines
      else (String.ofList line, number) :: entriesFrom (number + 1) lines := by
  unfold entriesFrom
  rw [List.zipIdx_cons, List.filter_cons]
  split <;> split <;> simp_all

theorem printed_cons (l : Json.Layout) (entry : String × Nat) (entries : List (String × Nat)) :
    printed l (entry :: entries) = printed l [entry] ++ printed l entries := by
  simp only [printed, List.filterMap_cons, List.filterMap_nil]
  split <;> simp

theorem complaints_cons (d : Decode) (entry : String × Nat) (entries : List (String × Nat)) :
    complaints d (entry :: entries) = complaints d [entry] ++ complaints d entries := by
  simp only [complaints, List.filterMap_cons, List.filterMap_nil]
  split <;> simp

/-- What summarising comes to by lines that do not end it. -/
def Summaries.after (s : Summaries) (d : Decode) (l : Json.Layout) (entries : List (String × Nat)) :
    Summaries where
  stdout := s.stdout ++ printed l entries
  log := s.log ++ complaints d entries
  bad := s.bad || !entries.all isRecord

theorem Summaries.after_nil (s : Summaries) (d : Decode) (l : Json.Layout) :
    s.after d l [] = s := by
  simp [Summaries.after, printed, complaints]

theorem Summaries.after_cons (s : Summaries) (d : Decode) (l : Json.Layout) (entry : String × Nat)
    (entries : List (String × Nat)) :
    s.after d l (entry :: entries) = (s.after d l [entry]).after d l entries := by
  simp only [Summaries.after, printed_cons l entry entries, complaints_cons d entry entries,
    List.all_cons, List.all_nil, Bool.and_true, Bool.not_and, Bool.or_assoc, String.append_assoc,
    List.append_assoc]

section

variable {site : Site} {d : Decode} {l : Json.Layout} (hl : layout d.indent = .ok l)
  (hstdout : site.stdoutWorks)
include hl hstdout

/-- One line: a blank one is passed over, and any other does no more than what is told of it, unless
it ends the run. -/
theorem summarize_eq (number : Nat) (line : List Char) (s : Summaries) :
    summarize site d number line s =
      if (Text.strip line).isEmpty then .ok s
      else if halts (String.ofList line, number) then .error (.record .missingPart)
      else .ok (s.after d l [(String.ofList line, number)]) := by
  unfold summarize halts
  by_cases hblank : (Text.strip line).isEmpty
  · rw [if_pos hblank, if_pos hblank]
  rw [if_neg hblank, if_neg hblank]
  cases h : Record.decode (String.ofList line) with
  | ok r =>
    -- with a layout and a working output nothing stands between a record and its summary
    simp only [hl, bind, Except.bind]
    rw [if_pos hstdout]
    simp [Summaries.after, printed, complaints, isRecord, h, Except.toOption, Except.isOk,
      Except.toBool, String.append_assoc]
    rfl
  | error e =>
    have hafter : s.after d l [(String.ofList line, number)] =
        { s with
          bad := true
          log := s.log ++ [speak .error
            (d.records ++ ":" ++ toString number ++ ": not an unsafe-AST record: ")
            (some (.record e))] } := by
      simp [Summaries.after, printed, complaints, isRecord, h, Except.toOption, Except.isOk,
        Except.toBool]
    rw [hafter]
    cases e <;> rfl

/-- Line after line: what is told of the lines before the first that ends the run, if there is
one. -/
theorem summarizeLines_eq (lines : List (List Char)) (number : Nat) (s : Summaries) :
    summarizeLines site d number s lines =
      (if (entriesFrom number lines).any halts then .error (.record .missingPart)
        else .ok (if !s.bad && (entriesFrom number lines).all isRecord then 0 else 1),
        s.after d l ((entriesFrom number lines).takeWhile fun entry => !halts entry)) := by
  -- for every number and every state: a line moves the one on, and the other unless it is blank
  induction lines generalizing number s with
  | nil => cases hbad : s.bad <;> simp [summarizeLines, entriesFrom, Summaries.after_nil, hbad]
  | cons line lines ih =>
    rw [summarizeLines, summarize_eq hl hstdout, entriesFrom_cons]
    by_cases hblank : (Text.strip line).isEmpty
    · rw [if_pos hblank, if_pos hblank]
      exact ih (number + 1) s
    · rw [if_neg hblank, if_neg hblank, List.any_cons, List.all_cons, List.takeWhile_cons]
      generalize (String.ofList line, number) = entry
      cases hhalts : halts entry with
      | true => simp [Summaries.after_nil]
      | false =>
        simp only [Bool.false_eq_true, if_false, Bool.not_false, if_true, Bool.false_or]
        have hbad (good : Bool) : (!(s.after d l [entry]).bad && good) =
            (!s.bad && (isRecord entry && good)) := by
          simp [Summaries.after, Bool.and_assoc]
        rw [ih, ← Summaries.after_cons, hbad]

end

theorem takeWhile_halts {before : List (String × Nat)} (h : ∀ entry ∈ before, ¬halts entry)
    (more : List (String × Nat)) :
    ((before ++ more).takeWhile fun entry => !halts entry) =
      before ++ more.takeWhile fun entry => !halts entry :=
  List.takeWhile_append_of_pos fun entry hentry => by simp [h entry hentry]

section

variable {site : Site} {d : Decode} {l : Json.Layout} (hnull : '\x00' ∉ d.records.toList)
include hnull

theorem decode_of_text (hl : layout d.indent = .ok l) (hstdout : site.stdoutWorks) {text : String}
    (hread : (site.store.look d.records).read? = some text) :
    decode site d =
      { exit := if (entries text).any halts then .error (.record .missingPart)
          else .ok (if (entries text).all isRecord then 0 else 1)
        stdout := printed l ((entries text).takeWhile fun entry => !halts entry)
        log := complaints d ((entries text).takeWhile fun entry => !halts entry)
        store := site.store } := by
  have hcontains : d.records.toList.contains '\x00' = false := by simpa using hnull
  simp only [decode, hcontains, hread, summarizeLines_eq hl hstdout, Summaries.after,
    String.empty_append]
  rfl

theorem decode_of_no_halts (hl : layout d.indent = .ok l) (hstdout : site.stdoutWorks)
    {text : String} (hread : (site.store.look d.records).read? = some text)
    (h : ∀ entry ∈ entries text, ¬halts entry) :
    (decode site d).exit = .ok (if ∀ entry ∈ entries text, isRecord entry then 0 else 1) ∧
      (decode site d).stdout = printed l (entries text) ∧
      (decode site d).log = complaints d (entries text) := by
  have hany : ¬(entries text).any halts := by simpa using h
  have hall := takeWhile_halts h []
  rw [List.append_nil, List.takeWhile_nil, List.append_nil] at hall
  rw [decode_of_text hnull hl hstdout hread, hall, if_neg hany]
  simp only [List.all_eq_true, and_self]

theorem decode_of_undecodable (hlook : site.store.look d.records = .undecodable) :
    decode site d = { exit := .error .undecodable, store := site.store } := by
  have hcontains : d.records.toList.contains '\x00' = false := by simpa using hnull
  simp only [decode, hcontains, hlook, FileState.read?]
  rfl

theorem exit_of_unreadable
    (hlook : site.store.look d.records = .missing ∨ site.store.look d.records = .directory) :
    (decode site d).exit = .ok 2 ∧ (decode site d).stdout = "" := by
  have hcontains : d.records.toList.contains '\x00' = false := by simpa using hnull
  rcases hlook with hlook | hlook
  · simp only [decode, hcontains, hlook, FileState.read?]
    exact ⟨rfl, rfl⟩
  · simp only [decode, hcontains, hlook, FileState.read?]
    exact ⟨rfl, rfl⟩

end

/-- Summarising a file comes to an exit code exactly if the file is no text of undecodable bytes and
none of its lines ends the run. Then every record among the lines is summarised, in order, whatever
the others are, each of the others is named in the log, and the exit tells whether there are any. A
line that ends the run is hollow, and leaves what the lines before it gave. -/
theorem decode_isolates_lines (site : Site) (d : Decode) {l : Json.Layout}
    (hl : layout d.indent = .ok l) (hstdout : site.stdoutWorks)
    (hnull : '\x00' ∉ d.records.toList) :
    ((∃ code, (decode site d).exit = .ok code) ↔
      site.store.look d.records ≠ .undecodable ∧
        ∀ text, (site.store.look d.records).read? = some text →
          ∀ entry ∈ entries text, ¬halts entry) ∧
    (∀ text, (site.store.look d.records).read? = some text →
        (∀ entry ∈ entries text, ¬halts entry) →
      (decode site d).exit = .ok (if ∀ entry ∈ entries text, isRecord entry then 0 else 1) ∧
        (decode site d).stdout = printed l (entries text) ∧
        (decode site d).log = complaints d (entries text)) ∧
    (∀ text before entry after, (site.store.look d.records).read? = some text →
      entries text = before ++ entry :: after → (∀ entry ∈ before, ¬halts entry) → halts entry →
      (decode site d).exit = .error (.record .missingPart) ∧
        (decode site d).stdout = printed l before ∧ (decode site d).log = complaints d before ∧
        ∃ v, Json.parse entry.1 = .ok v ∧ Record.IsHollow v) ∧
    (site.store.look d.records = .undecodable →
      (decode site d).exit = .error .undecodable ∧ (decode site d).stdout = "") ∧
    (site.store.look d.records = .missing ∨ site.store.look d.records = .directory →
      (decode site d).exit = .ok 2 ∧ (decode site d).stdout = "") := by
  refine ⟨⟨?_, ?_⟩, fun _ => decode_of_no_halts hnull hl hstdout, ?_, ?_, exit_of_unreadable hnull⟩
  · rintro ⟨code, hcode⟩
    constructor
    · intro hlook
      rw [decode_of_undecodable hnull hlook] at hcode
      cases hcode
    · intro text hread entry hentry hhalts
      rw [decode_of_text hnull hl hstdout hread,
        if_pos (List.any_eq_true.mpr ⟨entry, hentry, hhalts⟩)] at hcode
      cases hcode
  · -- a file that is not there is no failure: it has an exit code of its own
    rintro ⟨hlook, h⟩
    cases hstate : site.store.look d.records with
    | missing => exact ⟨2, (exit_of_unreadable hnull (.inl hstate)).1⟩
    | directory => exact ⟨2, (exit_of_unreadable hnull (.inr hstate)).1⟩
    | text s =>
      have hread : (site.store.look d.records).read? =
          some (String.ofList (Text.unifyLineEnds s.toList)) := by
        rw [hstate, FileState.read?]
      exact ⟨_, (decode_of_no_halts hnull hl hstdout hread (h _ hread)).1⟩
    | undecodable => exact absurd hstate hlook
  · intro text before entry after hread hentries hbefore hhalts
    have hany : (entries text).any halts :=
      List.any_eq_true.mpr ⟨entry, hentries ▸ List.mem_append_right before (.head _), hhalts⟩
    have hreached : ((entries text).takeWhile fun entry => !halts entry) = before := by
      rw [hentries, takeWhile_halts hbefore, List.takeWhile_cons_of_neg (by simp [hhalts]),
        List.append_nil]
    rw [decode_of_text hnull hl hstdout hread, hreached, if_pos hany]
    exact ⟨rfl, rfl, rfl, Record.isHollow_of_decode (halts_iff.mp hhalts)⟩
  · intro hlook
    rw [decode_of_undecodable hnull hlook]
    exact ⟨rfl, rfl⟩

def fileOf (lines : List (List Char)) : String :=
  String.ofList (lines.flatMap fun line => line ++ ['\n'])

section

variable {lines : List (List Char)} (h : ∀ line ∈ lines, ∀ c ∈ line, Text.isLineEnd c = false)
include h

theorem entries_fileOf : entries (fileOf lines) = entriesFrom 1 lines := by
  rw [entries, fileOf, String.toList_ofList]
  congr 1
  induction lines with
  | nil => rfl
  | cons line lines ih =>
    rw [List.forall_mem_cons] at h
    rw [List.flatMap_cons, List.append_assoc, List.singleton_append,
      Text.lines_append h.1 (by decide) (by decide), ih h.2]

theorem read?_fileOf : (FileState.text (fileOf lines)).read? = some (fileOf lines) := by
  have hreturn : '\r' ∉ lines.flatMap fun line => line ++ ['\n'] := by
    intro hmem
    obtain ⟨line, hline, hmem⟩ := List.mem_flatMap.mp hmem
    rcases List.mem_append.mp hmem with hmem | hmem
    · exact absurd (h line hline _ hmem) (by decide)
    · exact absurd hmem (by decide)
  rw [FileState.read?, fileOf, String.toList_ofList, Text.unifyLineEnds_eq hreturn]

end

def bare : Value :=
  .object [("name", .int 1), ("ty", .int 2), ("functions", .list [])]

def bareSummary : String :=
  "\x7b\"name\": 1, \"ty\": 2, \"functions\": [], \"totals\": \x7b\x7d\x7d\n"

def hollow : Value :=
  let item :=
    .object [("index", .int 0), ("span", .int 0), ("snippet", .int 0),
      ("macro_origin", .str "NotMacro"),
    ("item", .object [("variant", .str "Closure")])]
  let block := .object [("size", .int 1), ("unsaf", .int 0), ("contents", .list [item])]
  .object [("name", .int 0), ("ty", .int 0), ("functions", .list [
    .object [("name", .int 0), ("unsaf", .int 0), ("span", .int 0),
      ("macro_origin", .str "NotMacro"), ("block", block)]])]

def lineOf (v : Value) : List Char :=
  Json.chars Json.compact 0 v

theorem decode_lineOf {v : Value} (hv : v.isPlain Json.isLegible) :
    Record.decode (String.ofList (lineOf v)) = Record.ofValue v := by
  have hparse : Json.parse (String.ofList (lineOf v)) = .ok v := Json.parse_write (fun _ h => h) hv
  rw [Record.decode, hparse]

theorem isPlain_bare : bare.isPlain Json.isLegible := rfl

theorem isPlain_hollow : hollow.isPlain Json.isLegible := rfl

theorem decode_bare : Record.decode (String.ofList (lineOf bare)) = .ok ⟨.int 1, .int 2, []⟩ := by
  rw [decode_lineOf isPlain_bare]
  rfl

theorem halts_bare (number : Nat) : halts (String.ofList (lineOf bare), number) = false := by
  simp only [halts, decode_bare]

theorem printed_bare (number : Nat) :
    printed Json.spaced [(String.ofList (lineOf bare), number)] = bareSummary := by
  simp only [printed, List.filterMap_cons, decode_bare]
  rfl

def badFiles : Store where
  entries := [(["mixed"], .text (fileOf [lineOf bare, [], ['x'], lineOf bare])),
    (["hollow"], .text (fileOf [lineOf bare, lineOf hollow, lineOf bare])),
    (["bytes"], .undecodable)]

theorem decode_isolates_lines_badFiles :
    ((decode ⟨badFiles, true⟩ { records := "mixed" }).exit = .ok 1 ∧
      (decode ⟨badFiles, true⟩ { records := "mixed" }).stdout = bareSummary ++ bareSummary) ∧
    ((decode ⟨badFiles, true⟩ { records := "hollow" }).exit = .error (.record .missingPart) ∧
      (decode ⟨badFiles, true⟩ { records := "hollow" }).stdout = bareSummary) ∧
    ((decode ⟨badFiles, true⟩ { records := "bytes" }).exit = .error .undecodable ∧
      (decode ⟨badFiles, true⟩ { records := "bytes" }).stdout = "") := by
  have hbare := Json.not_isLineEnd_chars isPlain_bare 0
  have hhollow := Json.not_isLineEnd_chars isPlain_hollow 0
  have hmixedLines : ∀ line ∈ [lineOf bare, [], ['x'], lineOf bare],
      ∀ c ∈ line, Text.isLineEnd c = false := by
    simpa using ⟨hbare, rfl, hbare⟩
  have hhollowLines : ∀ line ∈ [lineOf bare, lineOf hollow, lineOf bare],
      ∀ c ∈ line, Text.isLineEnd c = false := by
    simpa using ⟨hbare, hhollow, hbare⟩
  have hmixed : entries (fileOf [lineOf bare, [], ['x'], lineOf bare]) =
      [(String.ofList (lineOf bare), 1), ("x", 3), (String.ofList (lineOf bare), 4)] := by
    rw [entries_fileOf hmixedLines]
    rfl
  have hentries : entries (fileOf [lineOf bare, lineOf hollow, lineOf bare]) =
      [(String.ofList (lineOf bare), 1)] ++ (String.ofList (lineOf hollow), 2) ::
        [(String.ofList (lineOf bare), 3)] := by
    rw [entries_fileOf hhollowLines]
    rfl
  have hgoes : halts ("x", 3) = false := rfl
  have hhalts : halts (String.ofList (lineOf hollow), 2) := by
    rw [halts_iff, decode_lineOf isPlain_hollow]
    rfl
  obtain ⟨hcode, hprinted, -⟩ :=
    (decode_isolates_lines ⟨badFiles, true⟩ { records := "mixed" } rfl rfl (by decide)).2.1 _
      (read?_fileOf hmixedLines) (by simp [hmixed, halts_bare, hgoes])
  obtain ⟨hcode', hprinted', -⟩ :=
    (decode_isolates_lines ⟨badFiles, true⟩ { records := "hollow" } rfl rfl (by decide)).2.2.1
      _ _ _ _ (read?_fileOf hhollowLines) hentries (by simp [halts_bare]) hhalts
  refine ⟨⟨?_, ?_⟩, ⟨hcode', hprinted'.trans (printed_bare 1)⟩,
    (decode_isolates_lines ⟨badFiles, true⟩ { records := "bytes" } rfl rfl (by decide)).2.2.2.1 rfl⟩
  · have hbad : ¬∀ entry ∈ entries (fileOf [lineOf bare, [], ['x'], lineOf bare]),
        isRecord entry := by
      rw [hmixed]
      exact fun h => absurd (h ("x", 3) (.tail _ (.head _))) (by decide)
    rw [hcode, if_neg hbad]
  · rw [hprinted, hmixed, printed_cons, printed_bare, printed_cons, printed_bare]
    rfl

end Command

end CrateAudit
