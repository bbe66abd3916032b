import CrateAudit.Proofs.Isolation

namespace CrateAudit

open Crate Steps

def recordLines (records : List ExactRecord) : String :=
  String.join (records.map fun r => r.encode ++ "\n")

theorem Session.wrote_nil (s : Session) (log : List Log.Entry) :
    s.wrote (recordLines []) log = ⟨s.sink, log⟩ := by
  simp [Session.wrote, recordLines]

theorem Session.wrote_wrote (s : Session) (text text' : String) (log log' : List Log.Entry) :
    (s.wrote text log).wrote text' log' = s.wrote (text ++ text') log' := by
  simp [Session.wrote, String.append_assoc]

theorem recordLines_singleton (r : ExactRecord) : recordLines [r] = r.encode ++ "\n" := by
  simp [recordLines]

theorem recordLines_append (records records' : List ExactRecord) :
    recordLines (records ++ records') = recordLines records ++ recordLines records' := by
  rw [recordLines, List.map_append, String.join_append, recordLines, recordLines]

namespace Host

theorem handOver_writes {h : Host} {crate : Crate} {r : ExactRecord}
    (haudits : (h.active && h.settings.emits crate.name false) = true)
    (haudit : (crate.audit (crate.context h.settings)).1 = .ok r) (hname : r.name = crate.name)
    {s : Session} (hs : s.Works) :
    ∃ log, (h.handOver none crate).run.run s =
      (.ok (some r, h.tell crate), s.wrote (r.encode ++ "\n") log) := by
  rw [Bool.and_eq_true] at haudits
  obtain ⟨log, hrun⟩ := Act.run_auditCrate_ok haudits.2 haudit s
  have hemit := Act.run_emit h.settings r (s := ⟨s.sink, log⟩) hs (by rw [hname]; exact haudits.2)
  unfold handOver
  rw [if_neg (by simp [haudits.1]), run_bind, hrun, run_bind, hemit]
  exact ⟨log, rfl⟩

end Host

namespace Batch

/-- The record that a dump gives, once so much has been written. -/
def recordOf (plan : Plan) (written path : String) : Option ExactRecord :=
  match Load.file path (plan.files written path) plan.format with
  | .ok crate =>
    if plan.audits crate.name then (crate.audit (crate.context plan.settings)).1.toOption else none
  | .error _ => none

/-- The records that the dumps give one after the other. -/
def records (plan : Plan) : String → List String → List ExactRecord
  | _, [] => []
  | written, path :: paths =>
    (recordOf plan written path).toList ++
      records plan (written ++ recordLines (recordOf plan written path).toList) paths

variable {plan : Plan} {path : String} {b b₁ : Batch} {s s₁ : Session}

theorem step_writes {o : Outcome} (b : Batch) (hs : s.Works)
    (h : Becomes plan path (plan.files s.sink.written path) o) :
    ∃ log, (step plan b path).run.run s =
        (.ok (b.put path o), s.wrote (recordLines (recordOf plan s.sink.written path).toList) log) ∧
      (b.put path o).emitted =
        b.emitted ++ (recordOf plan s.sink.written path).toList.map (·.name) := by
  obtain ⟨log, hdump⟩ := run_dump plan path s
  rw [run_step]
  cases h with
  | failed hload =>
    have hr : recordOf plan s.sink.written path = none := by rw [recordOf, hload]
    rw [hdump, hload, hr, Option.toList_none]
    simp only [Session.wrote_nil]
    exact ⟨_, rfl, (List.append_nil _).symm⟩
  | @skipped crate hload haudits =>
    have hr : recordOf plan s.sink.written path = none := by
      rw [recordOf, hload]
      exact if_neg (by simp [haudits])
    rw [audits_eq] at haudits
    obtain ⟨h', log', hhost⟩ := Host.handOver_skips haudits ⟨s.sink, log ++ [Act.loaded crate]⟩
    rw [hdump, hload]
    dsimp only
    rw [run_bind, hhost, hr, Option.toList_none]
    simp only [Session.wrote_nil]
    exact ⟨_, rfl, (List.append_nil _).symm⟩
  | @emitted crate hload haudits hcan =>
    have hregular : ∀ f ∈ listing crate.items, Collect.Regular f := fun f hf =>
      regular_of_formed (Load.formed_of_file hload) (parts_of_mem_listing hf)
    obtain ⟨r, haudit, hname⟩ :
        ∃ r, (crate.audit (crate.context plan.settings)).1 = .ok r ∧ r.name = crate.name :=
      ⟨_, audit_of_canRegister hregular hcan, rfl⟩
    have hr : recordOf plan s.sink.written path = some r := by
      rw [recordOf, hload]
      simp only [haudits, if_true, haudit]
      rfl
    rw [audits_eq] at haudits
    rw [← report_settings] at haudit
    obtain ⟨log', hhost⟩ :=
      Host.handOver_writes haudits haudit hname (s := ⟨s.sink, log ++ [Act.loaded crate]⟩) hs
    rw [hdump, hload]
    dsimp only
    rw [run_bind, hhost, hr, Option.toList_some, recordLines_singleton]
    exact ⟨log', rfl, by rw [← hname]; rfl⟩

/-- A batch that comes to its end has written the records that its dumps give, in order. -/
theorem resume_writes {paths : List String} (hs : s.Works)
    (h : (resume plan b paths).run.run s = (.ok b₁, s₁)) :
    s₁.sink.written = s.sink.written ++ recordLines (records plan s.sink.written paths) ∧
      b₁.emitted = b.emitted ++ (records plan s.sink.written paths).map (·.name) := by
  induction paths generalizing b s with
  | nil =>
    cases h
    simp [records, recordLines]
  | cons path paths ih =>
    rcases becomes_or_breaks plan path (plan.files s.sink.written path) with ⟨o, ho⟩ | ⟨f, hf⟩
    · obtain ⟨log, hstep, hemitted⟩ := step_writes b hs ho
      rw [resume_cons hstep] at h
      obtain ⟨hwritten, hb⟩ := ih (hs.wrote _ log) h
      rw [hwritten, hb, hemitted, records, recordLines_append, List.map_append,
        ← String.append_assoc, ← List.append_assoc]
      exact ⟨rfl, rfl⟩
    · obtain ⟨s', hstep⟩ := step_of_breaks b hs hf
      rw [resume_cons_error hstep] at h
      cases h

end Batch

end CrateAudit
