import CrateAudit.Proofs.JsonText
import CrateAudit.Proofs.Written

namespace CrateAudit

open Crate Steps

/-- A crate that was read from a dump and whose spans name their files. -/
def Crate.IsReadable (crate : Crate) : Prop :=
  (∃ text, Load.Reads text crate) ∧ crate.HasTextFiles

def Crate.built (crate : Crate) (settings : Settings) : ExactRecord :=
  ⟨crate.name, crate.crateType, (listing crate.items).map (crate.context settings).declare⟩

theorem Crate.IsReadable.audit_eq {crate : Crate} (h : crate.IsReadable) (settings : Settings) :
    (crate.audit (crate.context settings)).1 = .ok (crate.built settings) := by
  obtain ⟨⟨text, hread⟩, htext⟩ := h
  exact audit_of_reads hread htext

namespace Host

/-- What a host tells the audit while it builds: where it writes its output, and each crate once its
types are checked. -/
inductive Call where
  | report (dir : Option String)
  | handOver (crate : Crate)

namespace Call

/-- Whether the host tells that it builds dependencies only. -/
def isCutOff (settings : Settings) : Call → Bool
  | report dir => dir.any (endsIn settings.dependencyDir)
  | handOver _ => false

def crate? : Call → Option Crate
  | report _ => none
  | handOver crate => some crate

end Call

def answer (h : Host) : Call → Act (Option ExactRecord × Host)
  | .report dir => do
    Act.note (h.report dir).2
    return (none, (h.report dir).1)
  | .handOver crate => h.handOver none crate

def play (h : Host) : List Call → Act (List (Option ExactRecord) × Host)
  | [] => return ([], h)
  | call :: calls => do
    let (first, h) ← h.answer call
    let (rest, h) ← h.play calls
    return (first :: rest, h)

/-- The calls before the first that tells of a build of dependencies. -/
def beforeCutOff (settings : Settings) (calls : List Call) : List Call :=
  calls.takeWhile fun call => !call.isCutOff settings

def admitted (settings : Settings) (calls : List Call) : List Crate :=
  (beforeCutOff settings calls).filterMap Call.crate?

def wanted (settings : Settings) (calls : List Call) : List Crate :=
  (admitted settings calls).filter fun crate => !settings.reservedNames.contains crate.name

/-- The answer to an admitted crate: its record, unless the name is reserved. -/
def reply (settings : Settings) (crate : Crate) : Option ExactRecord :=
  if settings.reservedNames.contains crate.name then none else some (crate.built settings)

variable {h h' : Host} {crate : Crate} {call : Call} {calls : List Call} {settings : Settings}
  {s s' : Session}

section Steps

theorem run_report (h : Host) (dir : Option String) (s : Session) :
    ∃ log, (h.answer (.report dir)).run.run s =
      (.ok (none, { h with active := h.active && !(Call.report dir).isCutOff h.settings }),
        ⟨s.sink, log⟩) := by
  have hreport : (h.report dir).1 =
      { h with active := h.active && !(Call.report dir).isCutOff h.settings } := by
    unfold report Call.isCutOff
    cases dir with
    | none => simp
    | some d =>
      simp only [Option.any_some]
      rw [isDependencyDir_eq]
      cases endsIn h.settings.dependencyDir d <;> simp
  refine ⟨s.log ++ (h.report dir).2, ?_⟩
  rw [← hreport]
  rfl

theorem run_handOver (hactive : h.active = true) (hread : crate.IsReadable) (hs : s.Works) :
    ∃ log, (h.answer (.handOver crate)).run.run s =
      (.ok (reply h.settings crate, h.tell crate),
        s.wrote (recordLines (reply h.settings crate).toList) log) := by
  have hemits : h.settings.emits crate.name false = !h.settings.reservedNames.contains crate.name :=
    rfl
  cases hreserved : h.settings.reservedNames.contains crate.name with
  | true =>
    rw [hreserved] at hemits
    obtain ⟨log, hrun⟩ := handOver_reserved hactive hemits s
    refine ⟨log, ?_⟩
    rw [reply, if_pos hreserved, Option.toList_none, Session.wrote_nil]
    exact hrun
  | false =>
    rw [hreserved] at hemits
    have haudits : (h.active && h.settings.emits crate.name false) = true := by
      rw [hactive, hemits]
      rfl
    obtain ⟨log, hrun⟩ := handOver_writes haudits (hread.audit_eq h.settings) rfl hs
    refine ⟨log, ?_⟩
    rw [reply, if_neg (by rw [hreserved]; nofun), Option.toList_some, recordLines_singleton]
    exact hrun

theorem run_play_cons {first : Option ExactRecord} {rest : List (Option ExactRecord)} {h₁ h₂ : Host}
    {s₁ s₂ : Session} (hfirst : (h.answer call).run.run s = (.ok (first, h₁), s₁))
    (hrest : (h₁.play calls).run.run s₁ = (.ok (rest, h₂), s₂)) :
    (h.play (call :: calls)).run.run s = (.ok (first :: rest, h₂), s₂) := by
  rw [play, run_bind, hfirst]
  dsimp only
  rw [run_bind, hrest]
  rfl

end Steps

section Runs

/-- Once the latch is closed it stays closed: no call is answered, written or told of. -/
theorem run_play_inactive (hactive : h.active = false) (calls : List Call) (s : Session) :
    ∃ log, (h.play calls).run.run s = (.ok (calls.map fun _ => none, h), ⟨s.sink, log⟩) := by
  induction calls generalizing s with
  | nil => exact ⟨s.log, rfl⟩
  | cons call calls ih =>
    have hcall : ∃ log, (h.answer call).run.run s = (.ok (none, h), ⟨s.sink, log⟩) := by
      cases call with
      | report dir =>
        obtain ⟨log, hrun⟩ := h.run_report dir s
        rw [hactive, Bool.false_and, ← hactive] at hrun
        exact ⟨log, hrun⟩
      | handOver crate => exact ⟨s.log, handOver_inactive hactive none crate s⟩
    obtain ⟨log, hcall⟩ := hcall
    obtain ⟨log', hrest⟩ := ih ⟨s.sink, log⟩
    exact ⟨log', run_play_cons hcall hrest⟩

theorem beforeCutOff_of_cutOff (hcall : call.isCutOff settings = true) (calls : List Call) :
    beforeCutOff settings (call :: calls) = [] := by
  simp [beforeCutOff, hcall]

theorem beforeCutOff_cons (hcall : call.isCutOff settings = false) (calls : List Call) :
    beforeCutOff settings (call :: calls) = call :: beforeCutOff settings calls := by
  simp [beforeCutOff, hcall]

theorem admitted_report {dir : Option String} (hcall : (Call.report dir).isCutOff settings = false)
    (calls : List Call) : admitted settings (.report dir :: calls) = admitted settings calls := by
  rw [admitted, beforeCutOff_cons hcall]
  rfl

theorem admitted_handOver (crate : Crate) (calls : List Call) :
    admitted settings (.handOver crate :: calls) = crate :: admitted settings calls := by
  rw [admitted, beforeCutOff_cons rfl]
  rfl

def replies (settings : Settings) (calls : List Call) : List (Option ExactRecord) :=
  (beforeCutOff settings calls).map (fun call => call.crate?.bind (reply settings)) ++
    (calls.drop (beforeCutOff settings calls).length).map fun _ => none

theorem replies_cons (hcall : call.isCutOff settings = false) (calls : List Call) :
    replies settings (call :: calls) =
      call.crate?.bind (reply settings) :: replies settings calls := by
  rw [replies, replies, beforeCutOff_cons hcall, List.map_cons, List.length_cons,
    List.drop_succ_cons, List.cons_append]

theorem replies_of_cutOff (hcall : call.isCutOff settings = true) (calls : List Call) :
    replies settings (call :: calls) = (call :: calls).map fun _ => none := by
  rw [replies, beforeCutOff_of_cutOff hcall]
  rfl

theorem length_replies (settings : Settings) (calls : List Call) :
    (replies settings calls).length = calls.length := by
  have hle : (beforeCutOff settings calls).length ≤ calls.length :=
    (List.takeWhile_sublist _).length_le
  rw [replies, List.length_append, List.length_map, List.length_map, List.length_drop]
  omega

theorem replies_append {before : List Call} (hcut : before.any (Call.isCutOff settings) = true)
    (after : List Call) :
    replies settings (before ++ after) = replies settings before ++ after.map fun _ => none := by
  induction before with
  | nil => cases hcut
  | cons call before ih =>
    rw [List.cons_append]
    cases hcall : call.isCutOff settings with
    | true =>
      rw [replies_of_cutOff hcall, replies_of_cutOff hcall, ← List.cons_append, List.map_append]
    | false =>
      rw [List.any_cons, hcall, Bool.false_or] at hcut
      rw [replies_cons hcall, replies_cons hcall, ih hcut, List.cons_append]

/-- How the latch, what is told and what is written move on while it is open. -/
theorem run_play_active (hactive : h.active = true) (hchained : h.chained = true)
    (hcalls : ∀ crate, .handOver crate ∈ calls → crate.IsReadable) (hs : s.Works) :
    ∃ log, (h.play calls).run.run s =
      (.ok (replies h.settings calls,
        { h with active := !calls.any (Call.isCutOff h.settings),
                 told := h.told ++ admitted h.settings calls }),
        s.wrote (recordLines ((admitted h.settings calls).filterMap (reply h.settings))) log) := by
  -- on the calls, for every host and session: a call changes both, and may shut the latch for
  -- the rest
  induction calls generalizing h s with
  | nil =>
    refine ⟨s.log, ?_⟩
    have hsame :
        s.wrote (recordLines ((admitted h.settings []).filterMap (reply h.settings))) s.log = s :=
      Session.wrote_nil s s.log
    have hhost : { h with active := !([] : List Call).any (Call.isCutOff h.settings),
                          told := h.told ++ admitted h.settings [] } = h := by
      obtain ⟨settings, active, chained, told⟩ := h
      cases hactive
      simp [admitted, beforeCutOff]
    rw [hsame, hhost]
    rfl
  | cons call calls ih =>
    have hrest : ∀ crate, .handOver crate ∈ calls → crate.IsReadable := fun crate hcrate =>
      hcalls crate (List.mem_cons_of_mem _ hcrate)
    cases call with
    | report dir =>
      obtain ⟨log, hreport⟩ := h.run_report dir s
      cases hcut : (Call.report dir).isCutOff h.settings with
      | true =>
        rw [hcut, Bool.not_true, Bool.and_false] at hreport
        obtain ⟨log', hplay⟩ :=
          run_play_inactive (h := { h with active := false }) rfl calls ⟨s.sink, log⟩
        refine ⟨log', ?_⟩
        rw [run_play_cons hreport hplay]
        simp [replies, admitted, beforeCutOff_of_cutOff hcut, hcut, Session.wrote_nil]
      | false =>
        rw [hcut, Bool.not_false, Bool.and_true] at hreport
        obtain ⟨log', hplay⟩ := ih hactive hchained hrest (s := ⟨s.sink, log⟩) hs
        refine ⟨log', ?_⟩
        rw [run_play_cons hreport hplay, replies_cons hcut, admitted_report hcut, List.any_cons,
          hcut, Bool.false_or]
        rfl
    | handOver crate =>
      obtain ⟨log, hhand⟩ := run_handOver hactive (hcalls crate List.mem_cons_self) hs
      have htell : h.tell crate = { h with told := h.told ++ [crate] } :=
        by rw [tell, if_pos hchained]
      rw [htell] at hhand
      obtain ⟨log', hplay⟩ :=
        ih (h := { h with told := h.told ++ [crate] }) hactive hchained hrest (hs.wrote _ log)
      refine ⟨log', ?_⟩
      -- a reserved name has no reply, and then nothing is written before the rest
      have hrecords :
          recordLines (List.filterMap (reply h.settings) (crate :: admitted h.settings calls)) =
          recordLines (reply h.settings crate).toList ++
            recordLines ((admitted h.settings calls).filterMap (reply h.settings)) := by
        rw [← recordLines_append, List.filterMap_cons]
        cases reply h.settings crate <;> rfl
      rw [run_play_cons hhand hplay, replies_cons rfl, admitted_handOver, hrecords, List.any_cons,
        Session.wrote_wrote, ← List.append_cons]
      rfl

theorem filterMap_reply {crates : List Crate} (hread : ∀ crate ∈ crates, crate.IsReadable) :
    (crates.filterMap (reply settings)).map .ok =
      (crates.filter fun crate => !settings.reservedNames.contains crate.name).map fun crate =>
        (crate.audit (crate.context settings)).1 := by
  induction crates with
  | nil => rfl
  | cons crate crates ih =>
    rw [List.forall_mem_cons] at hread
    rw [List.filterMap_cons, List.filter_cons, reply]
    cases settings.reservedNames.contains crate.name with
    | true => exact ih hread.2
    | false =>
      simp only [Bool.false_eq_true, if_false, Bool.not_false, if_true, List.map_cons,
        hread.1.audit_eq settings, ih hread.2]

theorem mem_of_mem_admitted (h : crate ∈ admitted settings calls) : .handOver crate ∈ calls := by
  obtain ⟨call, hcall, hcrate⟩ := List.mem_filterMap.mp h
  cases call with
  | report => cases hcrate
  | handOver =>
    cases hcrate
    exact (List.takeWhile_sublist _).subset hcall

end Runs

/-- A host may report directories and hand over crates in any order. The crates that it hands over
before it first reports a directory of dependencies are told of, in order, and those of them without
a reserved name have their records written, one a line. A crate that comes later is not answered,
and neither the host nor the session changes. -/
theorem play_until_cutOff (settings : Settings) (calls : List Call)
    (hcalls : ∀ crate, .handOver crate ∈ calls → crate.IsReadable) (s : Session) (hs : s.Works) :
    ∃ answers records log,
      (play { settings, chained := true } calls).run.run s =
        (.ok (answers, ⟨settings, !calls.any (Call.isCutOff settings), true,
          admitted settings calls⟩), s.wrote (recordLines records) log) ∧
      records.map .ok =
        (wanted settings calls).map (fun crate => (crate.audit (crate.context settings)).1) ∧
      ∀ before crate after, calls = before ++ .handOver crate :: after →
        before.any (Call.isCutOff settings) = true →
        answers[before.length]? = some none ∧
        ∃ first h t, (play { settings, chained := true } before).run.run s = (.ok (first, h), t) ∧
          (h.handOver none crate).run.run t = (.ok (none, h), t) := by
  obtain ⟨log, hplay⟩ := run_play_active (h := { settings, chained := true }) rfl rfl hcalls hs
  refine ⟨_, _, log, hplay,
    filterMap_reply fun crate hcrate => hcalls crate (mem_of_mem_admitted hcrate), ?_⟩
  rintro before crate after rfl hcut
  refine ⟨?_, ?_⟩
  · rw [replies_append hcut,
      List.getElem?_append_right (Nat.le_of_eq (length_replies settings before)), length_replies,
      Nat.sub_self]
    rfl
  · have hbefore : ∀ crate, .handOver crate ∈ before → crate.IsReadable := fun crate hcrate =>
      hcalls crate (List.mem_append_left _ hcrate)
    obtain ⟨log', hplay'⟩ := run_play_active (h := { settings, chained := true }) rfl rfl hbefore hs
    refine ⟨_, _, _, hplay', handOver_inactive ?_ none crate _⟩
    rw [hcut]
    rfl

def emptyCrate (name : String) : Crate :=
  ⟨name, "????", [], [], []⟩

theorem isReadable_emptyCrate (name : String) : (emptyCrate name).IsReadable := by
  have hplain : (Value.object [("name", .str name)]).isPlain Json.isReadable := rfl
  refine ⟨⟨Json.write Json.compact (.object [("name", .str name)]), .inl ?_⟩, ?_⟩
  · rw [Load.json, Json.parse_write (fun _ h => h) hplain]
    rfl
  · intro span hspan
    cases hspan

/-- Crates of two names, one of them reserved, around a report of dependencies. Before and after it
come reports of other directories. -/
def latchCalls : List Call :=
  [.report none, .report (some "deps/x"), .handOver (emptyCrate "k"),
    .handOver (emptyCrate "build_script_build"), .report (some "x/deps/."), .report (some "x"),
    .handOver (emptyCrate "k")]

theorem play_until_cutOff_latchCalls :
    admitted {} latchCalls = [emptyCrate "k", emptyCrate "build_script_build"] ∧
      wanted {} latchCalls = [emptyCrate "k"] ∧
      ∃ answers r log, (play { settings := {}, chained := true } latchCalls).run.run {} =
          (.ok (answers, ⟨{}, false, true, [emptyCrate "k", emptyCrate "build_script_build"]⟩),
            ⟨{ written := r.encode ++ "\n" }, log⟩) ∧
        ((emptyCrate "k").audit ((emptyCrate "k").context {})).1 = .ok r ∧
        answers[6]? = some none := by
  have hcalls : ∀ crate, .handOver crate ∈ latchCalls → crate.IsReadable := by
    intro crate hcrate
    simp only [latchCalls, List.mem_cons, Call.handOver.injEq, reduceCtorEq,
      List.not_mem_nil, or_false, false_or] at hcrate
    rcases hcrate with rfl | rfl | rfl
    · exact isReadable_emptyCrate _
    · exact isReadable_emptyCrate _
    · exact isReadable_emptyCrate _
  have hdeps : (Call.report (some "x/deps/.")).isCutOff {} = true := by decide
  have hother : (Call.report (some "deps/x")).isCutOff {} = false := by decide
  have hadmitted : admitted {} latchCalls = [emptyCrate "k", emptyCrate "build_script_build"] := by
    rw [latchCalls, admitted_report rfl, admitted_report hother, admitted_handOver,
      admitted_handOver, admitted, beforeCutOff_of_cutOff hdeps]
    rfl
  have hwanted : wanted {} latchCalls = [emptyCrate "k"] := by
    rw [wanted, hadmitted]
    rfl
  obtain ⟨answers, records, log, hplay, hrecords, hlate⟩ :=
    play_until_cutOff {} latchCalls hcalls {} ⟨rfl, rfl⟩
  have hclosed : latchCalls.any (Call.isCutOff {}) = true := by simp [latchCalls, hdeps]
  rw [hwanted, List.map_singleton, List.map_eq_cons_iff] at hrecords
  obtain ⟨r, rest, rfl, hr, hrest⟩ := hrecords
  obtain rfl := List.map_eq_nil_iff.mp hrest
  rw [hadmitted, hclosed, recordLines_singleton] at hplay
  refine ⟨hadmitted, hwanted, answers, r, log, ?_, ?_, ?_⟩
  · rw [hplay]
    simp [Session.wrote]
  · exact hr.symm
  · exact (hlate (latchCalls.take 6) (emptyCrate "k") [] rfl (by simp [latchCalls, hdeps])).1

end Host

end CrateAudit
