import CrateAudit.Proofs.Origins
import CrateAudit.Proofs.Positions

namespace CrateAudit

open Record Crate

namespace Record

variable {N F T : Type} {R : Entry N F T → Entry N F T → Prop}

mutual

theorem Block.Aligned.related {b b' : Block N F T} : b.Aligned R b' → ∀ e ∈ b.flatten, ∃ e', R e e'
  | .mk h => by
    rw [Block.flatten]
    exact h.related

theorem AlignedEntries.related {entries entries' : List (Entry N F T)} :
    AlignedEntries R entries entries' → ∀ e ∈ flattenEntries entries, ∃ e', R e e'
  | .nil => by
    rw [flattenEntries]
    exact List.forall_mem_nil _
  | .cons (e := ⟨_, _, _, _, _⟩) h hitem hrest => by
    rw [flattenEntries, List.forall_mem_cons, List.forall_mem_append]
    exact ⟨⟨_, h⟩, hitem.related, hrest.related⟩

theorem Node.Aligned.related {item item' : Node N F T} :
    item.Aligned R item' → ∀ e ∈ item.flatten, ∃ e', R e e'
  | .leaf h => by
    rw [Node.flatten_of_body?_eq_none h]
    exact List.forall_mem_nil _
  | .closure h => by
    rw [Node.flatten]
    exact h.related
  | .inner h => by
    rw [Node.flatten]
    exact h.related

end

end Record

namespace Settings

variable {length : Int} {marker snippet : String}

theorem truncate_of_le (h : (snippet.toList.length : Int) ≤ length) :
    truncate length marker snippet = snippet := by
  have hnot : ¬length < snippet.toList.length := by omega
  rw [truncate, if_neg hnot]

theorem truncate_of_lt (hmarker : (marker.toList.length : Int) ≤ length)
    (h : length < snippet.toList.length) :
    (truncate length marker snippet).toList =
      snippet.toList.take (length - marker.toList.length).toNat ++ marker.toList := by
  have hnot : ¬length - marker.toList.length < 0 := by omega
  rw [truncate, if_pos h, String.toList_ofList, cut, if_neg hnot]

theorem length_truncate_le (hmarker : (marker.toList.length : Int) ≤ length) :
    ((truncate length marker snippet).toList.length : Int) ≤ length := by
  by_cases h : length < snippet.toList.length
  · rw [truncate_of_lt hmarker h, List.length_append, List.length_take]
    omega
  · have hle : (snippet.toList.length : Int) ≤ length := by omega
    rw [truncate_of_le hle]
    exact hle

end Settings

namespace SourceMap

variable {m : SourceMap} {s : Span} {text : List Char}

/-- The text between the two places of a span in a file that is loaded. -/
def Shows (m : SourceMap) (s : Span) (text : List Char) : Prop :=
  ∃ name file lo hi, s.file = .str name ∧ m.files.get? name = some file ∧
    Covers file.toList s lo hi ∧
    text = (file.toList.take hi).drop lo

theorem snippet?_of_shows (h : m.Shows s text) :
    m.snippet? s = .ok (some (String.ofList text)) := by
  obtain ⟨name, file, lo, hi, hs, hfile, hcovers, rfl⟩ := h
  rw [snippet?, snippet_of_covers hfile hs hcovers]

theorem snippet?_of_not_shows (hs : s.hasTextFile) (h : ¬∃ text, m.Shows s text) :
    m.snippet? s = .ok none := by
  obtain ⟨name, hname⟩ : ∃ name, s.file = .str name := by
    unfold Span.hasTextFile at hs
    split at hs
    · next name hname => exact ⟨name, hname⟩
    · cases hs
  cases hfile : m.files.get? name with
  | none => simp [snippet?, snippet, hname, Value.isKey, file?, hfile]
  | some file =>
    have hnot : ¬∃ lo hi, Covers file.toList s lo hi := by
      rintro ⟨lo, hi, hcovers⟩
      exact h ⟨_, name, file, lo, hi, hname, hfile, hcovers, rfl⟩
    rw [snippet?, snippet_of_not_covers hfile hname hnot]

theorem Shows.unique {text' : List Char} (h : m.Shows s text) (h' : m.Shows s text') :
    text' = text := by
  have hsame := (snippet?_of_shows h').symm.trans (snippet?_of_shows h)
  exact String.ofList_injective (Option.some.inj (Except.ok.inj hsame))

end SourceMap

/-- What a record shows of a place: its source text, whole if it is short enough and cut in front of
the marker if it is not, and nothing where there is none. -/
structure Settings.Excerpt (settings : Settings) (m : SourceMap) (s : Span) (shown : List Char) :
    Prop where
  bounded : (shown.length : Int) ≤ settings.snippetLength
  whole : ∀ text, m.Shows s text → (text.length : Int) ≤ settings.snippetLength → shown = text
  cut : ∀ text, m.Shows s text → settings.snippetLength < text.length →
    shown = text.take (settings.snippetLength - settings.truncationMarker.toList.length).toNat ++
      settings.truncationMarker.toList
  absent : (¬∃ text, m.Shows s text) → shown = []

namespace Context

variable {N F T : Type} {c : Context N F T} {s : Span}

theorem excerpt_of_shows {text : List Char} (h : c.source.Shows s text) :
    c.excerpt s =
      .ok (Settings.truncate c.settings.snippetLength c.settings.truncationMarker
          (String.ofList text)) := by
  rw [excerpt, SourceMap.snippet?_of_shows h]
  rfl

theorem excerpt_of_not_shows (hs : s.hasTextFile) (h : ¬∃ text, c.source.Shows s text) :
    c.excerpt s = .ok "" := by
  rw [excerpt, SourceMap.snippet?_of_not_shows hs h]
  rfl

theorem shown_of_excerpt {shown : String} (hs : s.hasTextFile)
    (hmarker : (c.settings.truncationMarker.toList.length : Int) ≤ c.settings.snippetLength)
    (h : c.excerpt s = .ok shown) : c.settings.Excerpt c.source s shown.toList := by
  by_cases htext : ∃ text, c.source.Shows s text
  · obtain ⟨text, hshows⟩ := htext
    rw [excerpt_of_shows hshows] at h
    obtain rfl := Except.ok.inj h
    refine ⟨Settings.length_truncate_le hmarker, fun text' h' hle => ?_, fun text' h' hlt => ?_,
      fun hnone => absurd ⟨text, hshows⟩ hnone⟩
    · obtain rfl := hshows.unique h'
      rw [Settings.truncate_of_le (by rwa [String.toList_ofList]), String.toList_ofList]
    · obtain rfl := hshows.unique h'
      rw [Settings.truncate_of_lt hmarker (by rwa [String.toList_ofList]), String.toList_ofList]
  · rw [excerpt_of_not_shows hs htext] at h
    obtain rfl := Except.ok.inj h
    refine ⟨?_, fun text h' => absurd ⟨text, h'⟩ htext, fun text h' => absurd ⟨text, h'⟩ htext,
      fun _ => rfl⟩
    have hempty : "".toList.length = 0 := rfl
    omega

end Context

/-- An entry is made for a part of the tree: it tells where the part stands, what its source text is
and which code it comes from. -/
def Crate.Shown (crate : Crate) (settings : Settings) (e : Entry Nat Bool String) : Prop :=
  ∃ p ∈ partsOfItems crate.items, e.span = p.span.text ∧
    settings.Excerpt crate.source p.span e.snippet.toList ∧
    crate.source.origin settings p.span = .ok e.origin

theorem Crate.relates_shown {crate : Crate} {settings : Settings} (htext : crate.HasTextFiles)
    (hmarker : (settings.truncationMarker.toList.length : Int) ≤ settings.snippetLength) :
    Collect.Relates (fun e _ => crate.Shown settings e) (crate.context settings)
      (crate.context settings)
      (partsOfItems crate.items) := by
  intro p hp k item _
  have hcan : (crate.context settings).CanRecord p.span := canRecord_of_hasTextFiles htext hp
  obtain ⟨shown, o, hshown, ho, hmark⟩ := Context.mark_of_canRecord hcan
  have hfile : p.span.hasTextFile := htext _ (List.mem_append_left _ (List.mem_map_of_mem hp))
  have hexcerpt := Context.shown_of_excerpt (c := crate.context settings) hfile hmarker hshown
  rw [hmark]
  exact ⟨p, hp, rfl, hexcerpt, ho⟩

/-- Every entry in the record of a crate that was read from a dump, at any depth, shows the source
text of a part of the tree: at most as much of it as the settings allow, and all of it if that is no
more. -/
theorem excerpts_of_reads (text : String) (crate : Crate) (settings : Settings)
    (hread : Load.Reads text crate) (htext : crate.HasTextFiles)
    (hmarker : (settings.truncationMarker.toList.length : Int) ≤ settings.snippetLength) :
    ∃ r, (crate.audit (crate.context settings)).1 = .ok r ∧
      ∀ g ∈ r.functions, ∀ e ∈ g.block.flatten, crate.Shown settings e := by
  refine ⟨_, audit_of_reads hread htext, fun g hg => ?_⟩
  obtain ⟨f, hf, rfl⟩ := List.mem_map.mp hg
  have hparts := parts_of_mem_listing hf
  rw [Item.parts_fn, List.cons_subset] at hparts
  have haligned :=
    Collect.aligned_collect ⟨rfl, fun _ => rfl⟩ (relates_shown htext hmarker) f.body hparts.2
  intro e he
  obtain ⟨_, hshown⟩ := haligned.related e he
  exact hshown

/-- Four flagged places: one holds as much as three characters, one less, one more, and one is in no
loaded file. The last two are inside a closure. -/
def longLineDump : Value :=
  let place (file : String) (lo hi : Int) : Value :=
    .object [("file", .str file), ("lo_line", .int 1), ("lo_col", .int lo), ("hi_line", .int 1),
      ("hi_col", .int hi)]
  let deref (span : Value) : Value := .object [("kind", .str "unary"), ("op", .str "deref"),
    ("operand_ty", .str "raw_ptr"), ("span", span)]
  let stmt (expr : Value) : Value := .object [("kind", .str "semi"), ("expr", expr)]
  let inside : Value :=
    .object [("stmts", .list [stmt (deref (place "a.rs" 1 9))]), ("expr", deref (place "b.rs" 1 2))]
  let closure : Value :=
    .object [("kind", .str "closure"), ("body", inside), ("span", place "a.rs" 1 1)]
  .object [("name", .str "k"),
    ("items", .list [.object [("kind", .str "fn"), ("span", place "a.rs" 1 9),
      ("body", .object [
        ("stmts", .list [stmt (deref (place "a.rs" 6 9)), stmt (deref (place "a.rs" 1 3))]),
        ("expr", closure)])]]),
    ("files", .object [("a.rs", .str "*π + **q")])]

theorem excerpts_longLineDump :
    ∃ crate r, Load.Reads (Json.write Json.compact longLineDump) crate ∧ crate.HasTextFiles ∧
      ("..".toList.length : Int) ≤ 3 ∧
      (crate.audit (crate.context { snippetLength := 3, truncationMarker := ".." })).1 = .ok r ∧
      (r.functions.map fun g => g.block.flatten.map Entry.snippet) =
        [["**q", "*π", "", "*..", ""]] ∧
      ∀ g ∈ r.functions, ∀ e ∈ g.block.flatten,
        crate.Shown { snippetLength := 3, truncationMarker := ".." } e := by
  have hcheck : (Load.crate longLineDump).toOption.any (fun crate =>
      crate.spans.all Span.hasTextFile &&
        ((crate.audit (crate.context
            { snippetLength := 3, truncationMarker := ".." })).1.toOption.any fun r =>
          (r.functions.map fun g => g.block.flatten.map Entry.snippet) ==
            [["**q", "*π", "", "*..", ""]])) := by
    decide +kernel
  have hmarker : ("..".toList.length : Int) ≤ 3 := by decide
  obtain ⟨crate, hread, hcheck⟩ := Load.exists_reads_write (by decide +kernel) hcheck
  rw [Bool.and_eq_true, List.all_eq_true] at hcheck
  obtain ⟨hfiles, hshown⟩ := hcheck
  obtain ⟨r, hr, hentries⟩ :=
    excerpts_of_reads _ crate { snippetLength := 3, truncationMarker := ".." } hread hfiles hmarker
  rw [hr] at hshown
  exact ⟨crate, r, hread, hfiles, hmarker, hr, eq_of_beq hshown, hentries⟩

end CrateAudit
