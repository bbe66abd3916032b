import CrateAudit.Collector
import CrateAudit.Proofs.Parts

namespace CrateAudit

open Record Crate

theorem Span.isKey_of_hasTextFile {s : Span} (h : s.hasTextFile) : s.file.isKey := by
  rcases s with ⟨file, _, _, _, _, _⟩
  cases file <;> simp_all [hasTextFile, Value.isKey]

/-- A look-up answers, or fails because a file cannot be looked up; where `u` holds it answers. -/
inductive Answers {α : Type} (u : Prop) : Except SourceError α → Prop where
  | found (a : α) : Answers u (.ok a)
  | unusable (h : ¬u) : Answers u (.error .unusableFile)

namespace Answers

variable {α β : Type} {u : Prop} {r : Except SourceError α}

theorem bind {f : α → Except SourceError β} (hr : Answers u r) (hf : ∀ a, Answers u (f a)) :
    Answers u (r >>= f) := by
  cases hr with
  | found a => exact hf a
  | unusable h => exact .unusable h

theorem eq_ok (hr : Answers u r) (h : u) : ∃ a, r = .ok a := by
  cases hr with
  | found a => exact ⟨a, rfl⟩
  | unusable h' => exact absurd h h'

theorem eq_error (hr : Answers u r) (h : ¬∃ a, r = .ok a) : r = .error .unusableFile := by
  cases hr with
  | found a => exact absurd ⟨a, rfl⟩ h
  | unusable _ => rfl

theorem error_eq {e : SourceError} (hr : Answers u (.error e : Except SourceError α)) :
    e = .unusableFile := by
  cases hr
  rfl

end Answers

namespace SourceMap

variable {m : SourceMap} {settings : Settings} {s : Span} {x : Expansion} {u : Prop}

/-- The span itself and where the macro behind it was called and defined. -/
def sites (m : SourceMap) (s : Span) : List Span :=
  s :: ((m.expansion? s).map fun x => x.callSite.toList ++ x.defSite.toList).getD []

theorem snippet?_answers (h : u → s.file.isKey) : Answers u (m.snippet? s) := by
  unfold snippet? snippet
  cases hk : s.file.isKey with
  | false => exact .unusable fun hu => Bool.false_ne_true (hk ▸ h hu)
  | true =>
    cases m.file? s.file with
    | none => exact .found none
    | some text =>
      cases hb : between? text.toList s with
      | none =>
        simp only [Bool.not_true, Bool.false_eq_true, if_false, hb]
        exact .found none
      | some cs =>
        simp only [Bool.not_true, Bool.false_eq_true, if_false, hb]
        exact .found (some (String.ofList cs))

theorem snippet?_of_not_isKey (h : ¬s.file.isKey) : m.snippet? s = .error .unusableFile := by
  rw [Bool.not_eq_true] at h
  unfold snippet? snippet
  rw [h]
  rfl

theorem isExternal_answers (h : u → ∀ site, x.defSite = some site → site.file.isKey) :
    Answers u (m.isExternal settings x) := by
  unfold isExternal
  split
  · next site _ hd =>
    apply Answers.bind (snippet?_answers fun hu => h hu site hd)
    intro code
    cases code with
    | none => exact .found true
    | some code => exact .found _
  · exact .found true

theorem siteText_answers (hs : u → s.file.isKey)
    (h : u → ∀ site, x.callSite = some site → site.file.isKey) : Answers u (m.siteText s x) := by
  unfold siteText
  apply Answers.bind (snippet?_answers hs)
  intro text
  split
  · exact .found _
  · next site hc =>
    apply Answers.bind (snippet?_answers fun hu => h hu site hc)
    intro called
    exact .found (called.getD "")
  · exact .found ""

/-- The origin of a span is found if its file and those of the sites behind it can be looked up. -/
theorem origin_answers (h : u → ∀ t ∈ m.sites s, t.file.isKey) :
    Answers u (m.origin settings s) := by
  unfold origin
  cases hx : m.expansion? s with
  | none => exact .found Origin.notMacro
  | some x =>
    simp only [sites, hx, Option.map_some, Option.getD_some, List.mem_cons, List.mem_append,
      Option.mem_toList] at h
    apply Answers.bind (isExternal_answers fun hu site hd => h hu site (.inr (.inr hd)))
    intro external
    split
    · exact .found Origin.localMacro
    · apply Answers.bind (siteText_answers (fun hu => h hu s (.inl rfl))
        fun hu site hc => h hu site (.inr (.inl hc)))
      intro text
      split
      · exact .found Origin.deriveMacro
      · exact .found Origin.externalMacro

end SourceMap

namespace Context

variable {N F T : Type} {c : Context N F T} {s : Span}

def CanRecord (c : Context N F T) (s : Span) : Prop :=
  s.file.isKey ∧ ∃ o, c.source.origin c.settings s = .ok o

theorem canRecord_of_isKey (h : ∀ t ∈ c.source.sites s, t.file.isKey) : c.CanRecord s := by
  refine ⟨h s (List.mem_cons_self ..), ?_⟩
  exact (SourceMap.origin_answers (u := True) fun _ => h).eq_ok trivial

theorem canRecord_of_hasTextFile (h : ∀ t ∈ c.source.sites s, t.hasTextFile) : c.CanRecord s :=
  canRecord_of_isKey fun t ht => Span.isKey_of_hasTextFile (h t ht)

/-- The entry of an item that is flagged at a statement. Where the file of the span cannot be looked
up there is none, and this stands in for it without text or origin. -/
def mark (c : Context N F T) (index : Nat) (item : Node N F T) (s : Span) : Entry N F T :=
  match c.entry index item s with
  | .ok e => e
  | .error _ => ⟨c.leaves.count index, c.leaves.text s.text, c.leaves.text "", .notMacro, item⟩

theorem excerpt_answers : Answers (s.file.isKey) (c.excerpt s) := by
  unfold excerpt
  apply Answers.bind (SourceMap.snippet?_answers id)
  intro text
  cases text with
  | none => exact .found ""
  | some text => exact .found _

theorem entry_of_canRecord (h : c.CanRecord s) (index : Nat) (item : Node N F T) :
    c.entry index item s = .ok (c.mark index item s) := by
  obtain ⟨hk, o, ho⟩ := h
  obtain ⟨text, ht⟩ := (excerpt_answers (c := c)).eq_ok hk
  unfold mark entry
  simp [ht, ho, bind, Except.bind, pure, Except.pure]

theorem entry_of_not_canRecord (h : ¬c.CanRecord s) (index : Nat) (item : Node N F T) :
    c.entry index item s = .error .unusableFile := by
  unfold entry
  by_cases hk : s.file.isKey
  · obtain ⟨text, ht⟩ := (excerpt_answers (c := c)).eq_ok hk
    have ho : c.source.origin c.settings s = .error .unusableFile :=
      (SourceMap.origin_answers (u := False) False.elim).eq_error fun ho => h ⟨hk, ho⟩
    rw [ht, ho]
    rfl
  · have ht : c.excerpt s = .error .unusableFile := by
      unfold excerpt
      rw [SourceMap.snippet?_of_not_isKey hk]
      rfl
    rw [ht]
    rfl

end Context

end CrateAudit
