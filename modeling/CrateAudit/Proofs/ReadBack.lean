import CrateAudit.Proofs.Appending
import CrateAudit.Proofs.BadLines
import CrateAudit.Proofs.RecordText
import CrateAudit.Proofs.Written

namespace CrateAudit

namespace Record

variable {N F T : Type} [Leaf N] [Leaf F] [Leaf T]

section Summary

mutual

theorem Node.flatten_loose (n : Node N F T) : n.loose.flatten = n.flatten.map Entry.loose := by
  cases n with
  | deref | mutStatic | inlineAsm | call => rw [Node.loose, Node.flatten, Node.flatten]; rfl
  | closure body | inner body => rw [Node.loose, Node.flatten, Node.flatten, body.flatten_loose]

theorem Block.flatten_loose (b : Block N F T) : b.loose.flatten = b.flatten.map Entry.loose := by
  obtain ⟨size, restricted, contents⟩ := b
  rw [Block.loose, Block.flatten, Block.flatten, flattenEntries_loose contents]

theorem flattenEntries_loose (entries : List (Entry N F T)) :
    flattenEntries (looseEntries entries) = (flattenEntries entries).map Entry.loose := by
  match entries with
  | [] => rw [looseEntries, flattenEntries, flattenEntries]; rfl
  | ⟨index, span, snippet, origin, item⟩ :: entries =>
    rw [looseEntries, Entry.loose, flattenEntries, flattenEntries, item.flatten_loose,
      flattenEntries_loose entries, List.map_cons, List.map_append, Entry.loose]

end

theorem Node.tally_loose (t : Tally) (n : Node N F T) : n.loose.tally t = n.tally t := by
  cases n with
  | deref | mutStatic | inlineAsm | call => rw [Node.loose]; rfl
  | closure body | inner body =>
    obtain ⟨size, restricted, contents⟩ := body
    rw [Node.loose, Block.loose]
    rfl

theorem Function.counts_loose (f : Function N F T) : f.loose.counts = f.counts := by
  have he : ∀ (t : Tally) (e : Entry N F T), e.loose.item.tally t = e.item.tally t := by
    intro t e
    obtain ⟨index, span, snippet, origin, item⟩ := e
    rw [Entry.loose]
    exact item.tally_loose t
  rw [Function.counts, Function.loose, f.block.flatten_loose, List.foldl_map]
  simp only [he]
  rfl

/-- A record has the same summary when it is read back. -/
theorem summary_loose (r : Record N F T) : r.loose.summary = r.summary := by
  have hf : ∀ f : Function N F T, f.loose.counts = f.counts := Function.counts_loose
  simp only [summary, totals, loose, List.map_map, List.foldl_map, Function.comp_def, hf]
  rfl

end Summary

section Leaves

variable {p : Value → Prop}

mutual

theorem Node.forall_leaves (hN : ∀ n : N, p (Leaf.value n)) (hF : ∀ f : F, p (Leaf.value f))
    (hT : ∀ t : T, p (Leaf.value t)) (n : Node N F T) : ∀ v ∈ n.leaves, p v := by
  cases n with
  | deref | mutStatic | inlineAsm => rw [Node.leaves]; nofun
  | call restricted foreign =>
    rw [Node.leaves, List.forall_mem_cons, List.forall_mem_singleton]
    exact ⟨hF restricted, hF foreign⟩
  | closure body | inner body =>
    rw [Node.leaves]
    exact body.forall_leaves hN hF hT

theorem Block.forall_leaves (hN : ∀ n : N, p (Leaf.value n)) (hF : ∀ f : F, p (Leaf.value f))
    (hT : ∀ t : T, p (Leaf.value t)) (b : Block N F T) : ∀ v ∈ b.leaves, p v := by
  obtain ⟨size, restricted, contents⟩ := b
  rw [Block.leaves, List.forall_mem_cons, List.forall_mem_cons]
  exact ⟨hN size, hF restricted, forall_entryLeaves hN hF hT contents⟩

theorem forall_entryLeaves (hN : ∀ n : N, p (Leaf.value n)) (hF : ∀ f : F, p (Leaf.value f))
    (hT : ∀ t : T, p (Leaf.value t)) (entries : List (Entry N F T)) :
    ∀ v ∈ entryLeaves entries, p v := by
  match entries with
  | [] => rw [entryLeaves]; nofun
  | ⟨index, span, snippet, origin, item⟩ :: entries =>
    rw [entryLeaves, Entry.leaves, List.forall_mem_append, List.forall_mem_cons,
      List.forall_mem_cons, List.forall_mem_cons]
    exact ⟨⟨hN index, hT span, hT snippet, item.forall_leaves hN hF hT⟩,
      forall_entryLeaves hN hF hT entries⟩

end

theorem forall_leaves (hN : ∀ n : N, p (Leaf.value n)) (hF : ∀ f : F, p (Leaf.value f))
    (hT : ∀ t : T, p (Leaf.value t)) (r : Record N F T) : ∀ v ∈ r.leaves, p v := by
  rw [leaves, List.forall_mem_cons, List.forall_mem_cons]
  refine ⟨hT _, hT _, ?_⟩
  intro v hv
  obtain ⟨f, -, hv⟩ := List.mem_flatMap.mp hv
  rw [Function.leaves, List.mem_cons, List.mem_cons, List.mem_cons] at hv
  rcases hv with rfl | rfl | rfl | hv
  · exact hT _
  · exact hF _
  · exact hT _
  · exact f.block.forall_leaves hN hF hT v hv

theorem isPlain_exact (r : ExactRecord) : r.toValue.isPlain (fun _ => true) := by
  rw [isPlain_toValue (fun _ _ => rfl), List.all_eq_true]
  exact forall_leaves (fun _ => rfl) (fun _ => rfl) (fun _ => rfl) r

end Leaves

end Record

namespace Command

/-- Whether a record can be read back from a file of them: its texts have no separators of lines in
them and its numbers are not too long. -/
def Legible (r : ExactRecord) : Prop :=
  ∀ v ∈ r.leaves, v.isPlain Json.isLegible

instance (r : ExactRecord) : Decidable (Legible r) :=
  inferInstanceAs (Decidable (∀ v ∈ r.leaves, v.isPlain Json.isLegible))

theorem isPlain_of_legible {r : ExactRecord} (h : Legible r) :
    r.toValue.isPlain Json.isLegible := by
  rw [Record.isPlain_toValue (by decide), List.all_eq_true]
  exact h

theorem legible_of_isPlain {r : ExactRecord} (h : r.toValue.isPlain Json.isLegible) :
    Legible r := by
  rw [Record.isPlain_toValue (by decide), List.all_eq_true] at h
  exact h

theorem toList_encode (r : ExactRecord) :
    r.encode.toList = Json.chars Json.compact 0 r.toValue := by
  rw [Record.encode, Json.write, String.toList_ofList]

theorem le_of_mem_encode (r : ExactRecord) : ∀ c ∈ r.encode.toList, 32 ≤ c.toNat := by
  rw [toList_encode]
  exact Json.le_of_mem_chars (Record.isPlain_exact r) 0

theorem not_isLineEnd_encode {r : ExactRecord} (h : Legible r) :
    ∀ c ∈ r.encode.toList, Text.isLineEnd c = false := by
  rw [toList_encode]
  exact Json.not_isLineEnd_chars (isPlain_of_legible h) 0

theorem firstLine_encode {r : ExactRecord} (h : Legible r) :
    Text.firstLine r.encode.toList = r.encode.toList :=
  Text.firstLine_eq_self (not_isLineEnd_encode h)

theorem toList_recordLines (r : ExactRecord) (records : List ExactRecord) :
    (recordLines (r :: records)).toList =
      r.encode.toList ++ '\n' :: (recordLines records).toList := by
  simp [recordLines]

theorem lines_recordLines {r : ExactRecord} (h : Legible r) (records : List ExactRecord) :
    Text.lines (recordLines (r :: records)).toList =
      r.encode.toList :: Text.lines (recordLines records).toList := by
  rw [toList_recordLines, Text.lines_append (not_isLineEnd_encode h) (by decide) (by decide)]

def summaries (l : Json.Layout) (records : List ExactRecord) : String :=
  String.join (records.map fun r => Json.write l r.summary.toValue ++ "\n")

variable {store : Store} {d : Decode} {l : Json.Layout}

theorem strip_cons {c : Char} (hc : Text.isBlank c = false) (cs : List Char) :
    (Text.strip (c :: cs)).isEmpty = false := by
  have hdrop : (c :: cs).dropWhile Text.isBlank = c :: cs := by
    rw [List.dropWhile_cons, hc]
    rfl
  rw [Text.strip, Text.trim, hdrop, List.isEmpty_reverse, List.reverse_cons, List.dropWhile_append]
  split
  · rw [List.dropWhile_cons, hc]
    rfl
  · simp

theorem strip_firstLine (r : ExactRecord) :
    (Text.strip (Text.firstLine r.encode.toList)).isEmpty = false := by
  rw [toList_encode, Record.toValue, Json.chars, List.cons_append, Text.firstLine_cons (by decide)]
  exact strip_cons (by decide) _

section Lines

variable {site : Site} {number : Nat} {line : List Char} {s s' : Summaries}

theorem summarize_cases (h : summarize site d number line s = .ok s') :
    ((Text.strip line).isEmpty ∧ s' = s) ∨ s'.bad ∨
      (s'.bad = s.bad ∧ ∃ r, Record.decode (String.ofList line) = .ok r) := by
  unfold summarize at h
  split at h
  next hblank =>
    cases h
    exact .inl ⟨hblank, rfl⟩
  next =>
    split at h
    next e _ =>
      split at h
      · cases h
        exact .inr (.inl rfl)
      · cases h
    next r hr =>
      cases hl : layout d.indent with
      | error f => rw [hl] at h; cases h
      | ok l =>
        rw [hl] at h
        simp only [bind, Except.bind] at h
        split at h
        · cases h
          exact .inr (.inr ⟨rfl, r, hr⟩)
        · cases h

theorem exit_of_bad (hs : s.bad) (lines : List (List Char)) :
    (summarizeLines site d number s lines).1 ≠ .ok 0 := by
  induction lines generalizing s number with
  | nil => simp [summarizeLines, hs]
  | cons line lines ih =>
    rw [summarizeLines]
    cases h : summarize site d number line s with
    | error f =>
      intro hexit
      cases hexit
    | ok s' =>
      apply ih
      rcases summarize_cases h with ⟨-, rfl⟩ | hbad | ⟨hbad, -⟩
      · exact hs
      · exact hbad
      · rw [hbad, hs]

theorem summarize_legible (hl : layout d.indent = .ok l) (hstdout : site.stdoutWorks)
    {r : ExactRecord} (h : Legible r) :
    summarize site d number r.encode.toList s =
      .ok { s with stdout := s.stdout ++ Json.write l r.summary.toValue ++ "\n" } := by
  have hblank := strip_firstLine r
  have hdecode : Record.decode r.encode = .ok r.loose :=
    Record.decode_encode (by decide) (fun _ h => h) h
  rw [firstLine_encode h] at hblank
  rw [summarize, if_neg (by simp [hblank]), String.ofList_toList, hdecode]
  simp only [hl, hstdout, bind, Except.bind, if_true, Record.summary_loose]
  rfl

/-- A record whose first line is read is legible, and that line is all of it. -/
theorem legible_of_decode {r : ExactRecord} {found : LooseRecord}
    (h : Record.decode (String.ofList (Text.firstLine r.encode.toList)) = .ok found) :
    Legible r := by
  rw [toList_encode, Record.decode] at h
  split at h
  next v hv => exact legible_of_isPlain (Json.isLegible_of_parse (Record.isPlain_exact r) hv)
  next => cases h
  next => cases h

end Lines

section Records

variable (hl : layout d.indent = .ok l) {site : Site} (hstdout : site.stdoutWorks)
include hl hstdout

theorem summarizeLines_legible {records : List ExactRecord} (h : ∀ r ∈ records, Legible r)
    (number : Nat) (s : Summaries) :
    summarizeLines site d number s (Text.lines (recordLines records).toList) =
      (.ok (if s.bad then 1 else 0), { s with stdout := s.stdout ++ summaries l records }) := by
  induction records generalizing number s with
  | nil => simp [recordLines, summaries, Text.lines, summarizeLines]
  | cons r records ih =>
    rw [List.forall_mem_cons] at h
    rw [lines_recordLines h.1, summarizeLines, summarize_legible hl hstdout h.1]
    dsimp only
    rw [ih h.2]
    simp [summaries, String.append_assoc]

end Records

theorem legible_of_exit {site : Site} {records : List ExactRecord} {number : Nat} {s : Summaries}
    (h : (summarizeLines site d number s (Text.lines (recordLines records).toList)).1 = .ok 0) :
    ∀ r ∈ records, Legible r := by
  induction records generalizing number s with
  | nil => nofun
  | cons r records ih =>
    obtain ⟨more, hmore⟩ := Text.lines_firstLine (le_of_mem_encode r) (recordLines records).toList
    rw [← toList_recordLines] at hmore
    have hr : Legible r := by
      rw [hmore, summarizeLines] at h
      cases hs : summarize site d number (Text.firstLine r.encode.toList) s with
      | error f => rw [hs] at h; cases h
      | ok s' =>
        rw [hs] at h
        rcases summarize_cases hs with ⟨hblank, -⟩ | hbad | ⟨-, found, hfound⟩
        · rw [strip_firstLine] at hblank
          cases hblank
        · exact absurd h (exit_of_bad hbad more)
        · exact legible_of_decode hfound
    rw [List.forall_mem_cons]
    refine ⟨hr, ?_⟩
    rw [lines_recordLines hr, summarizeLines] at h
    cases hs : summarize site d number r.encode.toList s with
    | error f => rw [hs] at h; cases h
    | ok s' =>
      rw [hs] at h
      exact ih h

section Analysis

def Analyze.planInto (a : Analyze) (place : List String) (opened : Store) : Batch.Plan :=
  a.plan fun written => (opened.append place written).look

/-- The records that an analysis writes into a file. -/
def Analyze.recordsInto (a : Analyze) (place : List String) (opened : Store) : List ExactRecord :=
  Batch.records (a.planInto place opened) "" a.dumps

theorem run_of_runBatch {a : Analyze} {files : String → String → FileState} {sink : Sink}
    {code : Nat} {s : Session} (h : runBatch a files sink = (.ok code, s)) (hcode : code < 2) :
    ∃ b s', (Batch.run (a.plan files) a.dumps).run.run { sink } = (.ok b, s') ∧
      s.sink = s'.sink := by
  unfold runBatch at h
  split at h
  · cases h
  · split at h
    next b s' hrun =>
      cases h
      exact ⟨b, s', hrun, rfl⟩
    next =>
      cases h
      omega
    next => cases h

variable {site : Site} {a : Analyze} {path : String} {place : List String} {opened : Store}
  {code : Nat}

/-- An analysis into a new file that comes to its end leaves the lines of its records there. -/
theorem analyze_writes (houtput : a.output = .given path) (hdash : path ≠ "-")
    (hopen : site.store.openAppend path = .ok (place, opened))
    (hplace : site.store.at? place = .missing) (hexit : (analyze site a).exit = .ok code)
    (hcode : code < 2) :
    (∃ b s, (Batch.run (a.planInto place opened) a.dumps).run.run {} = (.ok b, s) ∧
        b.emitted = (a.recordsInto place opened).map (·.name)) ∧
      (analyze site a).store = opened.append place (recordLines (a.recordsInto place opened)) := by
  have hfull : place ≠ Store.fullDevice := by
    rintro rfl
    cases hplace
  have hinto : analyze site a = runBatchInto a place opened := by
    unfold analyze at hexit ⊢
    split at hexit
    · cases hexit
    next hderive =>
      rw [if_neg hderive, houtput]
      split
      next h => cases h
      next h => cases h
      next h => exact absurd (Setting.given.inj h) hdash
      next h =>
        cases h
        rw [hopen]
  rw [hinto] at hexit ⊢
  simp only [runBatchInto, hfull, decide_false, Bool.false_and, Bool.not_false] at hexit ⊢
  generalize hrun : runBatch a (fun written => (opened.append place written).look) {} =
    result at hexit ⊢
  obtain ⟨exit, s⟩ := result
  obtain rfl : exit = .ok code := by simpa using hexit
  obtain ⟨b, s', hbatch, hsink⟩ := run_of_runBatch hrun hcode
  obtain ⟨hwritten, hemitted⟩ := Batch.resume_writes ⟨rfl, rfl⟩ hbatch
  refine ⟨⟨b, s', hbatch, ?_⟩, ?_⟩
  · rw [hemitted]
    rfl
  · rw [hsink, hwritten]
    rfl

end Analysis

section Decoding

theorem decode_of_missing (hnull : '\x00' ∉ d.records.toList)
    (hlook : store.look d.records = .missing) : (decode ⟨store, true⟩ d).exit = .ok 2 :=
  (exit_of_unreadable hnull (.inl hlook)).1

theorem not_mem_recordLines (records : List ExactRecord) : '\r' ∉ (recordLines records).toList := by
  induction records with
  | nil => simp [recordLines]
  | cons r records ih =>
    rw [toList_recordLines, List.mem_append, List.mem_cons]
    rintro (h | h | h)
    · exact absurd (le_of_mem_encode r _ h) (by decide)
    · exact absurd h (by decide)
    · exact ih h

theorem decode_of_recordLines {records : List ExactRecord} (hnull : '\x00' ∉ d.records.toList)
    (hlook : store.look d.records = .text (recordLines records)) :
    (decode ⟨store, true⟩ d).exit =
      (summarizeLines ⟨store, true⟩ d 1 {} (Text.lines (recordLines records).toList)).1 ∧
      (decode ⟨store, true⟩ d).stdout =
        (summarizeLines ⟨store, true⟩ d 1 {}
            (Text.lines (recordLines records).toList)).2.stdout := by
  have hcontains : d.records.toList.contains '\x00' = false := by simpa using hnull
  have hread : (FileState.text (recordLines records)).read? = some (recordLines records) := by
    rw [FileState.read?, Text.unifyLineEnds_eq (not_mem_recordLines records), String.ofList_toList]
  simp only [decode, hcontains, hlook, hread]
  exact ⟨rfl, rfl⟩

end Decoding

/-- After an analysis into a new file has come to its end, summarising that file tells of every
record that was written, in order and without an error, exactly if the path leads back to the file
and every record is legible. A direct path in a sound store does lead back. -/
theorem decode_reads_back_iff (site : Site) (a : Analyze) (d : Decode) {place : List String}
    {opened : Store} {code : Nat} (houtput : a.output = .given d.records) (hdash : d.records ≠ "-")
    (hopen : site.store.openAppend d.records = .ok (place, opened))
    (hplace : site.store.at? place = .missing) (hpath : site.store.look d.records = .missing)
    (hexit : (analyze site a).exit = .ok code) (hcode : code < 2)
    (hindent : layout d.indent = .ok l) :
    (((decode ⟨(analyze site a).store, true⟩ d).exit = .ok 0 ∧
        (decode ⟨(analyze site a).store, true⟩ d).stdout =
          summaries l (a.recordsInto place opened)) ↔
      (analyze site a).store.look d.records ≠ .missing ∧
        ∀ r ∈ a.recordsInto place opened, Legible r) ∧
    (site.store.Sound → (Path.ofString d.records).isDirect →
      (analyze site a).store.look d.records ≠ .missing) ∧
    ∃ b s, (Batch.run (a.planInto place opened) a.dumps).run.run {} = (.ok b, s) ∧
      b.emitted = (a.recordsInto place opened).map (·.name) := by
  have hnull := Store.not_mem_of_openAppend hopen
  obtain ⟨hbatch, hstore⟩ := analyze_writes houtput hdash hopen hplace hexit hcode
  have hlook := Store.look_append hopen hplace hpath (recordLines (a.recordsInto place opened))
  rw [hstore]
  refine ⟨⟨?_, ?_⟩, ?_, hbatch⟩
  · rintro ⟨hzero, -⟩
    rcases hlook with hmissing | htext
    · rw [decode_of_missing hnull hmissing] at hzero
      cases hzero
    · rw [(decode_of_recordLines hnull htext).1] at hzero
      exact ⟨by rw [htext]; nofun, legible_of_exit hzero⟩
  · rintro ⟨hfound, hlegible⟩
    have htext := hlook.resolve_left hfound
    obtain ⟨hdexit, hstdout⟩ := decode_of_recordLines hnull htext
    rw [summarizeLines_legible hindent rfl hlegible] at hdexit hstdout
    exact ⟨hdexit, hstdout.trans (String.empty_append)⟩
  · intro hsound hdirect
    rw [Store.look_append_of_isDirect hopen hplace hsound hdirect]
    nofun

/-- Two dumps of crates without items, one of them with a separator of lines in its name. -/
def twoDumps : Store where
  entries := [(["a.el"], .text "(crate :name a)"), (["b.el"], .text "(crate :name \"b\u2028\")")]

def analysisOf (dump : String) : Analyze where
  dumps := [dump]
  output := .given "o"

theorem decode_reads_back_twoDumps :
    ((analyze ⟨twoDumps, true⟩ (analysisOf "a.el")).exit = .ok 0 ∧
      (decode ⟨(analyze ⟨twoDumps, true⟩ (analysisOf "a.el")).store, true⟩
          { records := "o" }).exit = .ok 0 ∧
      (decode ⟨(analyze ⟨twoDumps, true⟩ (analysisOf "a.el")).store, true⟩
          { records := "o" }).stdout =
        summaries Json.spaced
          ((analysisOf "a.el").recordsInto ["o"] (twoDumps.put ["o"] (.text "")))) ∧
    (analyze ⟨twoDumps, true⟩ (analysisOf "b.el")).exit = .ok 0 ∧
    ¬((decode ⟨(analyze ⟨twoDumps, true⟩ (analysisOf "b.el")).store, true⟩
        { records := "o" }).exit = .ok 0 ∧
      (decode ⟨(analyze ⟨twoDumps, true⟩ (analysisOf "b.el")).store, true⟩
          { records := "o" }).stdout =
        summaries Json.spaced
          ((analysisOf "b.el").recordsInto ["o"] (twoDumps.put ["o"] (.text "")))) := by
  have hopen : twoDumps.openAppend "o" = .ok (["o"], twoDumps.put ["o"] (.text "")) := by
    with_unfolding_all rfl
  have hzero : ∀ {x : Except Failure Nat}, x.toOption = some 0 → x = .ok 0 := by
    rintro (_ | _) ⟨⟩
    rfl
  have hsound : twoDumps.Sound := Store.sound_of_entries (by decide)
  have hexit : (analyze ⟨twoDumps, true⟩ (analysisOf "a.el")).exit = .ok 0 :=
    hzero (by decide +kernel)
  have hexit' : (analyze ⟨twoDumps, true⟩ (analysisOf "b.el")).exit = .ok 0 :=
    hzero (by decide +kernel)
  have hgood := decode_reads_back_iff ⟨twoDumps, true⟩ (analysisOf "a.el") { records := "o" } rfl
      (by decide) hopen
    rfl rfl hexit (by decide) rfl
  have hbad := decode_reads_back_iff ⟨twoDumps, true⟩ (analysisOf "b.el") { records := "o" } rfl
      (by decide) hopen
    rfl rfl hexit' (by decide) rfl
  refine ⟨⟨hexit, hgood.1.mpr ⟨hgood.2.1 hsound (by decide +kernel), by decide +kernel⟩⟩,
    hexit', ?_⟩
  intro h
  exact absurd (hbad.1.mp h).2 (by decide +kernel)

end Command

end CrateAudit
