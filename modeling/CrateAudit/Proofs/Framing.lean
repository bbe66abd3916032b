import CrateAudit.Proofs.ReadBack

namespace CrateAudit

open Crate Steps

/-- Cut at its line feeds, a text of records falls into the records again, with nothing after the
last. -/
theorem splitOn_recordLines (records : List ExactRecord) :
    (recordLines records).toList.splitOn '\n' = (records.map fun r => r.encode.toList) ++ [[]] := by
  induction records with
  | nil => simp [recordLines]
  | cons r records ih =>
    have hr : '\n' ∉ r.encode.toList := by
      intro hmem
      have hle := Command.le_of_mem_encode r '\n' hmem
      have hten : '\n'.toNat = 10 := rfl
      omega
    rw [Command.toList_recordLines, List.splitOn_append_cons_self_of_not_mem hr, ih, List.map_cons,
      List.cons_append]

namespace Batch

def append (b b' : Batch) : Batch :=
  ⟨b.emitted ++ b'.emitted, b.skipped ++ b'.skipped, b.failures ++ b'.failures⟩

def size (b : Batch) : Nat :=
  b.emitted.length + b.skipped.length + b.failures.length

theorem append_empty (b : Batch) : b.append {} = b := by
  simp [append]

theorem append_assoc (b b' b'' : Batch) : (b.append b').append b'' = b.append (b'.append b'') := by
  simp [append]

theorem put_eq (b : Batch) (path : String) (o : Outcome) :
    b.put path o = b.append (put {} path o) := by
  cases o with
  | emitted | skipped | failed => simp [put, append]

theorem size_put (b : Batch) (path : String) (o : Outcome) : (b.put path o).size = b.size + 1 := by
  cases o with
  | emitted | skipped | failed =>
    simp only [put, size, List.length_append, List.length_singleton]
    omega

theorem tally_cons (b : Batch) (r : String × Outcome) (results : List (String × Outcome)) :
    b.tally (r :: results) = (b.put r.1 r.2).tally results :=
  rfl

theorem tally_eq (b : Batch) (results : List (String × Outcome)) :
    b.tally results = b.append (tally {} results) := by
  induction results generalizing b with
  | nil => exact (append_empty b).symm
  | cons r results ih =>
    rw [tally_cons, tally_cons, ih, ih (put {} r.1 r.2), put_eq b, append_assoc]

theorem size_tally (b : Batch) (results : List (String × Outcome)) :
    (b.tally results).size = b.size + results.length := by
  induction results generalizing b with
  | nil => rfl
  | cons r results ih =>
    rw [tally_cons, ih, size_put, List.length_cons]
    omega

/-- The files stay as they are, whatever is written. -/
def Plan.Fixed (plan : Plan) : Prop :=
  ∀ written path, plan.files written path = plan.files "" path

def Plan.recordsOf (plan : Plan) (paths : List String) : List ExactRecord :=
  paths.filterMap (recordOf plan "")

theorem Plan.recordsOf_cons (plan : Plan) (path : String) (paths : List String) :
    plan.recordsOf (path :: paths) = (recordOf plan "" path).toList ++ plan.recordsOf paths := by
  rw [recordsOf, recordsOf, List.filterMap_cons]
  cases recordOf plan "" path with
  | none => rfl
  | some r => rfl

theorem Plan.recordsOf_append (plan : Plan) (paths paths' : List String) :
    plan.recordsOf (paths ++ paths') = plan.recordsOf paths ++ plan.recordsOf paths' :=
  List.filterMap_append

variable {plan : Plan} {path : String} {paths : List String} {b b₁ : Batch} {s s₁ : Session}

theorem recordOf_fixed (hfixed : plan.Fixed) (written path : String) :
    recordOf plan written path = recordOf plan "" path := by
  rw [recordOf, recordOf, hfixed]

theorem records_fixed (hfixed : plan.Fixed) (written : String) (paths : List String) :
    records plan written paths = plan.recordsOf paths := by
  induction paths generalizing written with
  | nil => rfl
  | cons path paths ih => rw [records, ih, recordOf_fixed hfixed, Plan.recordsOf_cons]

/-- What some dumps do to a batch and to the sink, wherever the batch stands: the same outcomes are
put down and the same records written. -/
def Frames (plan : Plan) (paths : List String) (outcomes : List Outcome) : Prop :=
  outcomes.length = paths.length ∧ ∀ b s, s.Works →
    ∃ log, (resume plan b paths).run.run s =
      (.ok (b.tally (paths.zip outcomes)), s.wrote (recordLines (plan.recordsOf paths)) log)

theorem Frames.nil (plan : Plan) : Frames plan [] [] := by
  refine ⟨rfl, fun b s _ => ⟨s.log, ?_⟩⟩
  have hwrote : s.wrote (recordLines (plan.recordsOf [])) s.log = s := Session.wrote_nil s s.log
  rw [hwrote]
  rfl

theorem Frames.cons {o : Outcome} {outcomes : List Outcome} (hfixed : plan.Fixed)
    (ho : Becomes plan path (plan.files "" path) o) (h : Frames plan paths outcomes) :
    Frames plan (path :: paths) (o :: outcomes) := by
  refine ⟨by rw [List.length_cons, List.length_cons, h.1], fun b s hs => ?_⟩
  rw [← hfixed s.sink.written] at ho
  obtain ⟨log, hstep, _⟩ := step_writes b hs ho
  obtain ⟨log', hrest⟩ := h.2 (b.put path o) (s.wrote _ log) (hs.wrote _ log)
  refine ⟨log', ?_⟩
  rw [resume_cons hstep, hrest, recordOf_fixed hfixed, Plan.recordsOf_cons, recordLines_append,
    List.zip_cons_cons, tally_cons, Session.wrote_wrote]

/-- A batch that comes to its end once does so from everywhere. -/
theorem frames_of_resume (hfixed : plan.Fixed) (hs : s.Works)
    (h : (resume plan b paths).run.run s = (.ok b₁, s₁)) :
    ∃ outcomes, Frames plan paths outcomes := by
  induction paths generalizing b s with
  | nil => exact ⟨[], Frames.nil plan⟩
  | cons path paths ih =>
    rcases becomes_or_breaks plan path (plan.files s.sink.written path) with ⟨o, ho⟩ | ⟨f, hf⟩
    · obtain ⟨s', hstep, hs'⟩ := step_of_becomes b hs ho
      rw [resume_cons hstep] at h
      obtain ⟨outcomes, houtcomes⟩ := ih hs' h
      rw [hfixed] at ho
      exact ⟨o :: outcomes, houtcomes.cons hfixed ho⟩
    · obtain ⟨s', hstep⟩ := step_of_breaks b hs hf
      rw [resume_cons_error hstep] at h
      cases h

theorem Frames.eq_of_resume {outcomes : List Outcome} (hframes : Frames plan paths outcomes)
    (hs : s.Works) (h : (resume plan b paths).run.run s = (.ok b₁, s₁)) :
    b₁ = b.tally (paths.zip outcomes) ∧
    ∃ log, s₁ = s.wrote (recordLines (plan.recordsOf paths)) log := by
  obtain ⟨log, h'⟩ := hframes.2 b s hs
  cases h.symm.trans h'
  exact ⟨rfl, log, rfl⟩

theorem run_resume {xs ys : List String} (h : (run plan (xs ++ ys)).run.run s = (.ok b, s₁)) :
    ∃ b' s', (resume plan {} xs).run.run s = (.ok b', s') ∧
      (resume plan b' ys).run.run s' = (.ok b, s₁) := by
  rw [run, List.foldlM_append, run_bind] at h
  generalize hfirst : (xs.foldlM (step plan) {} : Act Batch).run.run s = r at h
  obtain ⟨f | b', s'⟩ := r
  · cases h
  · exact ⟨b', s', hfirst, h⟩

/-- A batch over two lists of dumps that comes to its end tells of them what two batches tell, one
over each list, and writes what these write: for each dump that gives a record, in order, the record
on a line of its own, and nothing else. A line is read back as its record unless an integer in it is
too long. -/
theorem run_append_frames (plan : Plan) (hfixed : plan.Fixed) (xs ys : List String)
    (s s₁ s₂ : Session) (hs : s.Works) (hs₁ : s₁.Works) (hs₂ : s₂.Works) (b : Batch) (t : Session)
    (hrun : (run plan (xs ++ ys)).run.run s = (.ok b, t)) :
    ∃ b₁ b₂ t₁ t₂ text₁ text₂, (run plan xs).run.run s₁ = (.ok b₁, t₁) ∧
      (run plan ys).run.run s₂ = (.ok b₂, t₂) ∧
      b = b₁.append b₂ ∧ b.size = (xs ++ ys).length ∧
      t₁.sink.written = s₁.sink.written ++ text₁ ∧ t₂.sink.written = s₂.sink.written ++ text₂ ∧
      t.sink.written = s.sink.written ++ (text₁ ++ text₂) ∧
      text₁ ++ text₂ = recordLines (plan.recordsOf (xs ++ ys)) ∧
      b.emitted = (plan.recordsOf (xs ++ ys)).map (·.name) ∧
      (∀ r ∈ plan.recordsOf (xs ++ ys), ∀ c ∈ r.encode.toList, 32 ≤ c.toNat) ∧
      (text₁ ++ text₂).toList.splitOn '\n' =
        ((plan.recordsOf (xs ++ ys)).map fun r => r.encode.toList) ++ [[]] ∧
      ∀ r ∈ plan.recordsOf (xs ++ ys), (∀ v ∈ r.leaves, v.isPlain Json.isReadable) →
        Record.decode r.encode = .ok r.loose := by
  obtain ⟨b', s', hfirst, hsecond⟩ := run_resume hrun
  -- the sink that the first run leaves works still, so that the second run has a frame too
  obtain ⟨outcomes, hxs⟩ := frames_of_resume hfixed hs hfirst
  obtain ⟨rfl, log, rfl⟩ := hxs.eq_of_resume hs hfirst
  obtain ⟨outcomes', hys⟩ := frames_of_resume hfixed (hs.wrote _ log) hsecond
  obtain ⟨rfl, log', rfl⟩ := hys.eq_of_resume (hs.wrote _ log) hsecond
  obtain ⟨log₁, hrun₁⟩ := hxs.2 {} s₁ hs₁
  obtain ⟨log₂, hrun₂⟩ := hys.2 {} s₂ hs₂
  have htext : recordLines (plan.recordsOf xs) ++ recordLines (plan.recordsOf ys) =
      recordLines (plan.recordsOf (xs ++ ys)) := by
    rw [plan.recordsOf_append, recordLines_append]
  have hsize : ((tally {} (xs.zip outcomes)).tally (ys.zip outcomes')).size =
      (xs ++ ys).length := by
    have hx : (xs.zip outcomes).length = xs.length := by rw [List.length_zip, hxs.1, Nat.min_self]
    have hy : (ys.zip outcomes').length = ys.length := by rw [List.length_zip, hys.1, Nat.min_self]
    have hempty : size {} = 0 := rfl
    rw [size_tally, size_tally, hx, hy, hempty, List.length_append]
    omega
  refine ⟨_, _, _, _, recordLines (plan.recordsOf xs), recordLines (plan.recordsOf ys),
    hrun₁, hrun₂, tally_eq _ _, hsize, rfl, rfl, String.append_assoc, htext, ?_,
    fun r _ => Command.le_of_mem_encode r, ?_, fun r _ hr => ?_⟩
  · have hemitted := (resume_writes hs hrun).2
    rw [records_fixed hfixed] at hemitted
    exact hemitted
  · rw [htext]
    exact splitOn_recordLines _
  · exact Record.decode_encode (by decide) (fun _ h => h) hr

/-- Five dumps: two crates, one of a reserved name, one that is no dump, and one that is not
there. -/
def fivePlan : Plan where
  files _ path :=
    if path = "a.el" then .text "(crate :name \"a\\nb\")"
    else if path = "b.el" then .text "(crate :name build_script_build)"
    else if path = "c.el" then .text "(crate"
    else if path = "d.el" then .text "(crate :name d :items ((fn :name f :body (block :stmts ()))))"
    else .missing

theorem run_append_fivePlan :
    fivePlan.Fixed ∧ Session.Works {} ∧ ∃ b t b₁ b₂ t₁ t₂ text₁ text₂,
      (run fivePlan (["a.el", "b.el", "c.el"] ++ ["d.el", "e.el"])).run.run {} = (.ok b, t) ∧
      b.emitted = ["a\nb", "d"] ∧ b.skipped = ["build_script_build"] ∧
      b.failures.map Prod.fst = ["c.el", "e.el"] ∧
      (run fivePlan ["a.el", "b.el", "c.el"]).run.run {} = (.ok b₁, t₁) ∧
      (run fivePlan ["d.el", "e.el"]).run.run {} = (.ok b₂, t₂) ∧ b = b₁.append b₂ ∧
      t₁.sink.written = text₁ ∧ t₂.sink.written = text₂ ∧ t.sink.written = text₁ ++ text₂ ∧
      (text₁ ++ text₂).toList.splitOn '\n' =
        ((fivePlan.recordsOf ["a.el", "b.el", "c.el", "d.el", "e.el"]).map fun r =>
          r.encode.toList) ++ [[]] ∧
      ∀ r ∈ fivePlan.recordsOf ["a.el", "b.el", "c.el", "d.el", "e.el"],
        (∀ v ∈ r.leaves, v.isPlain Json.isReadable) → Record.decode r.encode = .ok r.loose := by
  have hfixed : fivePlan.Fixed := fun _ _ => rfl
  have hcheck : (match (run fivePlan (["a.el", "b.el", "c.el"] ++ ["d.el", "e.el"])).run.run {} with
      | (.ok b, _) => b.emitted == ["a\nb", "d"] && b.skipped == ["build_script_build"] &&
        b.failures.map Prod.fst == ["c.el", "e.el"]
      | (.error _, _) => false) = true := by
    decide +kernel
  generalize hrun : (run fivePlan (["a.el", "b.el", "c.el"] ++ ["d.el", "e.el"])).run.run {} =
    result at hcheck
  obtain ⟨f | b, t⟩ := result
  · cases hcheck
  · simp only [Bool.and_eq_true, beq_iff_eq] at hcheck
    obtain ⟨b₁, b₂, t₁, t₂, text₁, text₂, hrun₁, hrun₂, hb, -, ht₁, ht₂, ht, -, -, -, hsplit,
        hback⟩ :=
      run_append_frames fivePlan hfixed ["a.el", "b.el", "c.el"] ["d.el", "e.el"] {} {} {}
        ⟨rfl, rfl⟩ ⟨rfl, rfl⟩ ⟨rfl, rfl⟩ b t hrun
    exact ⟨hfixed, ⟨rfl, rfl⟩, b, t, b₁, b₂, t₁, t₂, text₁, text₂, rfl, hcheck.1.1, hcheck.1.2,
      hcheck.2, hrun₁, hrun₂, hb, by simpa using ht₁, by simpa using ht₂, by simpa using ht,
      hsplit, hback⟩

end Batch

end CrateAudit
