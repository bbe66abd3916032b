import CrateAudit.Batch
import CrateAudit.Proofs.Totality

namespace CrateAudit

open Crate Steps

namespace Load

def isSymbolic (path : String) : Option String → Bool
  | some f => f = "sexp"
  | none => symbolicSuffixes.contains (Path.ofString path).suffix

/-- A file that can be read and holds a dump of the value `v`. -/
def Holds (path : String) (state : FileState) (format : Option String) (v : Value) : Prop :=
  '\x00' ∉ path.toList ∧ ∃ text, state.read? = some text ∧
    if isSymbolic path format then ∃ w, SExpr.read? text = some w ∧ v = SExpr.meaning w
    else Json.parse text = .ok v

/-- A file that can be read and holds a JSON text with an integer of too many digits. -/
def HoldsLongInteger (path : String) (state : FileState) (format : Option String) : Prop :=
  '\x00' ∉ path.toList ∧ isSymbolic path format = false ∧
    ∃ text, state.read? = some text ∧ Json.parse text = .error .longInteger

theorem file_of_null {path : String} (h : '\x00' ∈ path.toList) (state : FileState)
    (format : Option String) :
    file path state format = .error .badPath := by
  unfold file
  rw [if_pos (List.contains_iff_mem.mpr h)]

theorem file_of_text {path : String} (h : '\x00' ∉ path.toList) {state : FileState} {text : String}
    (hread : state.read? = some text) (format : Option String) :
    file path state format = if isSymbolic path format then symbolic text else json text := by
  unfold file
  rw [if_neg (mt List.contains_iff_mem.mp h), hread]
  cases format with
  | some f => simp [isSymbolic]
  | none => rfl

theorem file_of_holds {path : String} {state : FileState} {format : Option String} {v : Value}
    (h : Holds path state format v) : file path state format = crate v := by
  obtain ⟨hnull, text, hread, hv⟩ := h
  rw [file_of_text hnull hread]
  split at hv
  · next hs =>
    obtain ⟨w, hw, rfl⟩ := hv
    rw [if_pos hs, symbolic, hw]
  · next hs => rw [if_neg hs, json, hv]

theorem file_of_holdsLongInteger {path : String} {state : FileState} {format : Option String}
    (h : HoldsLongInteger path state format) : file path state format = .error .longInteger := by
  obtain ⟨hnull, hs, text, hread, hparse⟩ := h
  rw [file_of_text hnull hread, hs, json, hparse]
  rfl

theorem file_cases (path : String) (state : FileState) (format : Option String) :
    '\x00' ∈ path.toList ∨ HoldsLongInteger path state format ∨ (∃ v, Holds path state format v) ∨
      ∃ e, file path state format = .error (.refused e) := by
  by_cases hnull : '\x00' ∈ path.toList
  · exact .inl hnull
  · refine .inr ?_
    cases hread : state.read? with
    | none =>
      refine .inr (.inr ⟨.unreadable (Path.ofString path).text, ?_⟩)
      unfold file
      rw [if_neg (mt List.contains_iff_mem.mp hnull), hread]
      rfl
    | some text =>
      cases hs : isSymbolic path format with
      | true =>
        cases hv : SExpr.read? text with
        | none =>
          refine .inr (.inr ⟨.notSymbolic, ?_⟩)
          rw [file_of_text hnull hread, if_pos hs, symbolic, hv]
          rfl
        | some w => exact .inr (.inl ⟨_, hnull, text, hread, by rw [if_pos hs]; exact ⟨w, hv, rfl⟩⟩)
      | false =>
        cases hv : Json.parse text with
        | error e =>
          cases e with
          | malformed =>
            refine .inr (.inr ⟨.notJson, ?_⟩)
            rw [file_of_text hnull hread, hs, json, hv]
            rfl
          | longInteger => exact .inl ⟨hnull, hs, text, hread, hv⟩
        | ok v => exact .inr (.inl ⟨v, hnull, text, hread, by rw [hs]; exact hv⟩)

theorem formed_of_file {path : String} {state : FileState} {format : Option String} {c : Crate}
    (h : file path state format = .ok c) : Formed (partsOfItems c.items) := by
  rcases file_cases path state format with hnull | hlong | ⟨v, hholds⟩ | ⟨e, he⟩
  · cases (file_of_null hnull state format).symm.trans h
  · cases (file_of_holdsLongInteger hlong).symm.trans h
  · exact formed_of_crate ((file_of_holds hholds).symm.trans h)
  · cases he.symm.trans h

end Load

def Session.Works (s : Session) : Prop :=
  s.sink.writes = true ∧ s.sink.flushes = true

def Session.wrote (s : Session) (text : String) (log : List Log.Entry) : Session :=
  ⟨{ s.sink with written := s.sink.written ++ text }, log⟩

theorem Session.Works.wrote {s : Session} (hs : s.Works) (text : String) (log : List Log.Entry) :
    (s.wrote text log).Works :=
  hs

namespace Act

theorem run_emit (settings : Settings) (r : ExactRecord) {s : Session} (hs : s.Works)
    (hemits : settings.emits r.name false = true) :
    (discard (emit settings false r)).run.run s = (.ok ⟨⟩, s.wrote (r.encode ++ "\n") s.log) := by
  have hname : emits settings (Leaf.value r.name) false = .ok true := by
    change Except.ok (settings.emits r.name false) = _
    rw [hemits]
  obtain ⟨⟨written, writes, flushes⟩, log⟩ := s
  obtain ⟨rfl, rfl⟩ : writes = true ∧ flushes = true := hs
  unfold emit
  simp only [hname]
  rfl

section

variable {settings : Settings} {crate : Crate} (hemits : settings.emits crate.name false = true)
include hemits

theorem run_auditCrate_ok {r : ExactRecord}
    (haudit : (crate.audit (crate.context settings)).1 = .ok r) (s : Session) :
    ∃ log, (auditCrate settings false none crate).run.run s =
      (discard (emit settings false r) >>= fun _ => pure (some r)).run.run ⟨s.sink, log⟩ := by
  refine ⟨s.log ++ (crate.audit (crate.context settings)).2, ?_⟩
  unfold context at haudit
  unfold auditCrate
  simp only [hemits, Option.getD_none, haudit]
  rfl

theorem run_auditCrate_error {e : Fault Nat Bool String}
    (haudit : (crate.audit (crate.context settings)).1 = .error e) (s : Session) :
    ∃ s', (auditCrate settings false none crate).run.run s = (.error (faultFailure e), s') := by
  unfold context at haudit
  unfold auditCrate
  simp only [hemits, Option.getD_none, haudit]
  exact ⟨_, rfl⟩

theorem auditCrate_ends (hformed : Load.Formed (partsOfItems crate.items)) {s : Session}
    (hs : s.Works) :
    Ends (∀ f ∈ listing crate.items, (crate.context settings).CanRegister f) .unusableName
      (fun r s' => r.isSome = true ∧ s'.Works)
        ((auditCrate settings false none crate).run.run s) := by
  have hregular : ∀ f ∈ listing crate.items, Collect.Regular f := fun f hf =>
    regular_of_formed hformed (parts_of_mem_listing hf)
  by_cases hcan : ∀ f ∈ listing crate.items, (crate.context settings).CanRegister f
  · obtain ⟨r, haudit, hname⟩ : ∃ r, (crate.audit (crate.context settings)).1 = .ok r ∧
        r.name = crate.name :=
      ⟨_, audit_of_canRegister hregular hcan, rfl⟩
    obtain ⟨log, hrun⟩ := run_auditCrate_ok hemits haudit s
    rw [← hname] at hemits
    rw [hrun, run_bind, run_emit settings r (s := ⟨s.sink, log⟩) hs hemits]
    exact .ok hcan ⟨rfl, hs.wrote _ log⟩
  · obtain ⟨s', hrun⟩ := run_auditCrate_error hemits (audit_of_not_canRegister hregular hcan) s
    rw [hrun]
    exact .error hcan

end

end Act

namespace Host

variable {h : Host} {crate : Crate}

theorem handOver_inactive (hactive : h.active = false) (source : Option SourceMap) (crate : Crate)
    (s : Session) :
    (h.handOver source crate).run.run s = (.ok (none, h), s) := by
  unfold handOver
  rw [hactive]
  rfl

theorem handOver_reserved (hactive : h.active = true)
    (hemits : h.settings.emits crate.name false = false) (s : Session) :
    ∃ log, (h.handOver none crate).run.run s = (.ok (none, h.tell crate), ⟨s.sink, log⟩) := by
  unfold handOver Act.auditCrate
  rw [hactive, hemits]
  exact ⟨_, rfl⟩

theorem handOver_skips (haudits : (h.active && h.settings.emits crate.name false) = false)
    (s : Session) :
    ∃ h' log, (h.handOver none crate).run.run s = (.ok (none, h'), ⟨s.sink, log⟩) := by
  cases hactive : h.active with
  | false => exact ⟨h, s.log, handOver_inactive hactive none crate s⟩
  | true =>
    rw [hactive, Bool.true_and] at haudits
    exact ⟨_, handOver_reserved hactive haudits s⟩

theorem handOver_ends (hformed : Load.Formed (partsOfItems crate.items))
    (haudits : (h.active && h.settings.emits crate.name false) = true) {s : Session}
    (hs : s.Works) :
    Ends (∀ f ∈ listing crate.items, (crate.context h.settings).CanRegister f) .unusableName
      (fun x s' => x.1.isSome = true ∧ s'.Works) ((h.handOver none crate).run.run s) := by
  rw [Bool.and_eq_true] at haudits
  unfold handOver
  rw [if_neg (by simp [haudits.1])]
  refine (Act.auditCrate_ends haudits.2 hformed hs).bind_ok ?_
  intro r s' hr
  exact ⟨_, s', rfl, hr⟩

/-- Whether the last component of a directory is the name, empty components and dots left out. -/
def endsIn (name dir : String) : Bool :=
  ((dir.toList.splitOn '/').filter fun p => p ≠ [] ∧ p ≠ ['.']).getLast?.getD [] = name.toList

theorem splitSlash_eq (cs : List Char) : Path.splitSlash cs = cs.splitOn '/' := by
  induction cs with
  | nil => rfl
  | cons c cs ih =>
    have hcons : (c :: cs).splitOn '/' =
        if c = '/' then [] :: cs.splitOn '/' else (cs.splitOn '/').modifyHead (List.cons c) := by
      rw [List.splitOn, List.splitOnP_cons_eq_if_modifyHead]
      simp only [beq_iff_eq]
      rfl
    rw [Path.splitSlash, ih, hcons]
    cases hsplit : cs.splitOn '/' with
    | nil => exact absurd hsplit (List.splitOn_ne_nil _ _)
    | cons first rest => rfl

theorem isDependencyDir_eq (settings : Settings) (dir : String) :
    isDependencyDir settings dir = endsIn settings.dependencyDir dir := by
  have hname (p : List Char) (name : String) : String.ofList p = name ↔ p = name.toList := by
    constructor
    · rintro rfl
      exact String.toList_ofList.symm
    · rintro rfl
      exact String.ofList_toList
  have hparts : (Path.ofString dir).parts =
      ((dir.toList.splitOn '/').filter fun p => p ≠ [] ∧ p ≠ ['.']).map String.ofList := by
    simp only [Path.ofString, splitSlash_eq, List.filter_map]
    congr 1
    apply List.filter_congr
    intro p _
    simp only [Function.comp_apply, ne_eq, hname]
    rfl
  have hlast (p : Option (List Char)) :
      (p.map String.ofList).getD "" = String.ofList (p.getD []) := by
    cases p <;> rfl
  rw [isDependencyDir, Path.name, hparts, List.getLast?_map, hlast, endsIn, Bool.eq_iff_iff,
    beq_iff_eq, hname, decide_eq_true_eq]

end Host

namespace Batch

inductive Outcome where
  | emitted (name : String)
  | skipped (name : String)
  | failed (d : Diagnostic)

def put (b : Batch) (path : String) : Outcome → Batch
  | .emitted name => { b with emitted := b.emitted ++ [name] }
  | .skipped name => { b with skipped := b.skipped ++ [name] }
  | .failed d => { b with failures := b.failures ++ [(path, d)] }

def Plan.audits (plan : Plan) (name : String) : Bool :=
  !plan.outDir.any (Host.endsIn plan.settings.dependencyDir) && name ∉ plan.settings.reservedNames

/-- The outcomes that can be put down, each with what calls for it. -/
inductive Becomes (plan : Plan) (path : String) (state : FileState) : Outcome → Prop where
  | failed {e : DumpError} (hload : Load.file path state plan.format = .error (.refused e)) :
      Becomes plan path state (.failed e.diagnostic)
  | skipped {crate : Crate} (hload : Load.file path state plan.format = .ok crate)
      (haudits : plan.audits crate.name = false) : Becomes plan path state (.skipped crate.name)
  | emitted {crate : Crate} (hload : Load.file path state plan.format = .ok crate)
      (haudits : plan.audits crate.name = true)
      (hcan : ∀ f ∈ listing crate.items, (crate.context plan.settings).CanRegister f) :
      Becomes plan path state (.emitted crate.name)

/-- The dumps that no outcome can be put down for, and the failure they end the batch with: those
under a path with a null character, those with an integer of too many digits, those with an infinite
number where an integer belongs, and those with a function for which a file is looked up under what
is no key. -/
inductive Breaks (plan : Plan) (path : String) (state : FileState) : Failure → Prop where
  | badPath (hnull : '\x00' ∈ path.toList) : Breaks plan path state .badPath
  | longInteger (hlong : Load.HoldsLongInteger path state plan.format) :
      Breaks plan path state .longInteger
  | infinite {v : Value} (hholds : Load.Holds path state plan.format v) (hover : Load.Overflows v)
      (hcrate : Load.crate v = .error .infinite) : Breaks plan path state .infinite
  | unusableName {crate : Crate} (hload : Load.file path state plan.format = .ok crate)
      (haudits : plan.audits crate.name = true)
      (hcan : ¬∀ f ∈ listing crate.items, (crate.context plan.settings).CanRegister f) :
      Breaks plan path state .unusableName

variable {plan : Plan} {path : String} {state : FileState}

theorem becomes_or_breaks (plan : Plan) (path : String) (state : FileState) :
    (∃ o, Becomes plan path state o) ∨ ∃ f, Breaks plan path state f := by
  have hok : ∀ crate, Load.file path state plan.format = .ok crate →
      (∃ o, Becomes plan path state o) ∨ ∃ f, Breaks plan path state f := by
    intro crate hload
    cases haudits : plan.audits crate.name with
    | false => exact .inl ⟨_, .skipped hload haudits⟩
    | true =>
      by_cases hcan : ∀ f ∈ listing crate.items, (crate.context plan.settings).CanRegister f
      · exact .inl ⟨_, .emitted hload haudits hcan⟩
      · exact .inr ⟨_, .unusableName hload haudits hcan⟩
  rcases Load.file_cases path state plan.format with hnull | hlong | ⟨v, hholds⟩ | ⟨e, he⟩
  · exact .inr ⟨_, .badPath hnull⟩
  · exact .inr ⟨_, .longInteger hlong⟩
  · have hfile := Load.file_of_holds hholds
    have hloads := Load.crate_loads v
    generalize hcrate : Load.crate v = r at hloads
    rw [hcrate] at hfile
    cases hloads with
    | ok => exact hok _ hfile
    | refused => exact .inl ⟨_, .failed hfile⟩
    | raised hraised =>
      obtain ⟨rfl, hover⟩ := hraised
      exact .inr ⟨_, .infinite hholds hover hcrate⟩
  · exact .inl ⟨_, .failed he⟩

theorem Breaks.file_eq {f : Failure} (h : Breaks plan path state f) :
    (∃ e, Load.file path state plan.format = .error e ∧ f = e.toFailure ∧ ∀ d, e ≠ .refused d) ∨
      ∃ crate, Load.file path state plan.format = .ok crate ∧ plan.audits crate.name = true ∧
        f = .unusableName ∧
        ¬∀ f ∈ listing crate.items, (crate.context plan.settings).CanRegister f := by
  cases h with
  | badPath hnull => exact .inl ⟨_, Load.file_of_null hnull state _, rfl, by simp⟩
  | longInteger hlong => exact .inl ⟨_, Load.file_of_holdsLongInteger hlong, rfl, by simp⟩
  | infinite hholds _ hcrate =>
    exact .inl ⟨_, (Load.file_of_holds hholds).trans hcrate, rfl, by simp⟩
  | unusableName hload haudits hcan => exact .inr ⟨_, hload, haudits, rfl, hcan⟩

theorem breaks_of_file {e : LoadFailure} (h : Load.file path state plan.format = .error e)
    (hne : ∀ d, e ≠ .refused d) : Breaks plan path state e.toFailure := by
  rcases becomes_or_breaks plan path state with ⟨o, ho⟩ | ⟨f, hf⟩
  · cases ho with
    | failed hload =>
      cases hload.symm.trans h
      exact absurd rfl (hne _)
    | skipped hload => cases hload.symm.trans h
    | emitted hload => cases hload.symm.trans h
  · rcases hf.file_eq with ⟨e', he', rfl, _⟩ | ⟨crate, hload, _⟩
    · cases he'.symm.trans h
      exact hf
    · cases hload.symm.trans h

theorem report_active (plan : Plan) :
    (Host.report { settings := plan.settings } plan.outDir).1.active =
      !plan.outDir.any (Host.endsIn plan.settings.dependencyDir) := by
  unfold Host.report
  cases plan.outDir with
  | none => rfl
  | some d =>
    change (if Host.isDependencyDir plan.settings d then _ else _ :
        Host × List Log.Entry).1.active =
      !Host.endsIn plan.settings.dependencyDir d
    rw [Host.isDependencyDir_eq]
    cases Host.endsIn plan.settings.dependencyDir d
    · rfl
    · rfl

theorem report_settings (plan : Plan) :
    (Host.report { settings := plan.settings } plan.outDir).1.settings = plan.settings := by
  unfold Host.report
  split
  · split
    · rfl
    · rfl
  · rfl

/-- A dump is loaded from the file as it is, and then handed over. -/
theorem run_dump (plan : Plan) (path : String) (s : Session) :
    ∃ log, (dump plan path).run.run s =
      match Load.file path (plan.files s.sink.written path) plan.format with
      | .error e => (.error e.toFailure, ⟨s.sink, log⟩)
      | .ok crate =>
        ((Host.report { settings := plan.settings } plan.outDir).1.handOver none crate >>= fun x =>
          pure (crate.name, x.1.isSome) : Act (String × Bool)).run.run
            ⟨s.sink, log ++ [Act.loaded crate]⟩ := by
  refine ⟨s.log ++ Host.warnings plan.settings ++
    (Host.report { settings := plan.settings } plan.outDir).2, ?_⟩
  change (Act.load (Load.file path (plan.files s.sink.written path) plan.format) >>= fun crate =>
    (Host.report { settings := plan.settings } plan.outDir).1.handOver none crate >>= fun x =>
      pure (crate.name, x.1.isSome) : Act (String × Bool)).run.run _ = _
  cases Load.file path (plan.files s.sink.written path) plan.format with
  | error e => rfl
  | ok crate => rfl

theorem run_step (plan : Plan) (b : Batch) (path : String) (s : Session) :
    (step plan b path).run.run s =
      match (dump plan path).run.run s with
      | (.ok (name, written), s') =>
        (.ok (b.put path (if written then .emitted name else .skipped name)), s')
      | (.error (.reported d), s') =>
        (match survives path d with
          | some entry => do
            Act.note [entry]
            return b.put path (.failed d)
          | none => Act.fail (.reported d) : Act Batch).run.run s'
      | (.error f, s') => (.error f, s') := by
  unfold step
  rw [run_bind, run_tryCatch, run_bind]
  rcases (dump plan path).run.run s with ⟨f | ⟨name, written⟩, s'⟩
  · cases f with
    | reported d =>
      dsimp only
      cases survives path d with
      | none => rfl
      | some entry => rfl
    | _ => rfl
  · cases written
    · rfl
    · rfl

theorem audits_eq (plan : Plan) (name : String) :
    plan.audits name = ((Host.report { settings := plan.settings } plan.outDir).1.active &&
      (Host.report { settings := plan.settings } plan.outDir).1.settings.emits name false) := by
  rw [report_active, report_settings, Plan.audits, Settings.emits, List.contains_eq_mem,
    Bool.not_false, Bool.true_and, decide_not]

theorem dump_ends {crate : Crate} {s : Session} (hs : s.Works)
    (hload : Load.file path (plan.files s.sink.written path) plan.format = .ok crate)
    (haudits : plan.audits crate.name = true) :
    Ends (∀ f ∈ listing crate.items, (crate.context plan.settings).CanRegister f) .unusableName
      (fun x s' => x = (crate.name, true) ∧ s'.Works) ((dump plan path).run.run s) := by
  obtain ⟨log, hdump⟩ := run_dump plan path s
  rw [hdump, hload]
  rw [audits_eq] at haudits
  have hhost :=
    Host.handOver_ends (Load.formed_of_file hload) haudits
      (s := ⟨s.sink, log ++ [Act.loaded crate]⟩) hs
  rw [report_settings] at hhost
  refine hhost.bind_ok ?_
  rintro x s' ⟨hx, hs'⟩
  exact ⟨_, s', rfl, by rw [hx], hs'⟩

theorem step_of_becomes {o : Outcome} {s : Session} (b : Batch) (hs : s.Works)
    (h : Becomes plan path (plan.files s.sink.written path) o) :
    ∃ s', (step plan b path).run.run s = (.ok (b.put path o), s') ∧ s'.Works := by
  rw [run_step]
  cases h with
  | failed hload =>
    obtain ⟨log, hdump⟩ := run_dump plan path s
    rw [hdump, hload]
    exact ⟨_, rfl, hs⟩
  | @skipped crate hload haudits =>
    obtain ⟨log, hdump⟩ := run_dump plan path s
    rw [audits_eq] at haudits
    obtain ⟨h', log', hhost⟩ := Host.handOver_skips haudits ⟨s.sink, log ++ [Act.loaded crate]⟩
    rw [hdump, hload]
    dsimp only
    rw [run_bind, hhost]
    exact ⟨_, rfl, hs⟩
  | emitted hload haudits hcan =>
    -- the sink works, so that the record is written
    obtain ⟨_, s', hdump, rfl, hs'⟩ := (dump_ends hs hload haudits).eq_ok hcan
    rw [hdump]
    exact ⟨s', rfl, hs'⟩

theorem step_of_breaks {f : Failure} {s : Session} (b : Batch) (hs : s.Works)
    (h : Breaks plan path (plan.files s.sink.written path) f) :
    ∃ s', (step plan b path).run.run s = (.error f, s') := by
  rw [run_step]
  rcases h.file_eq with ⟨e, he, rfl, hne⟩ | ⟨crate, hload, haudits, rfl, hcan⟩
  · obtain ⟨log, hdump⟩ := run_dump plan path s
    rw [hdump, he]
    cases e with
    | refused d => exact absurd rfl (hne d)
    | raised | longInteger | badPath => exact ⟨_, rfl⟩
  · obtain ⟨s', hdump⟩ := (dump_ends hs hload haudits).eq_error hcan
    rw [hdump]
    exact ⟨s', rfl⟩

def resume (plan : Plan) (b : Batch) (paths : List String) : Act Batch :=
  paths.foldlM (step plan) b

def tally (b : Batch) (results : List (String × Outcome)) : Batch :=
  results.foldl (fun b r => b.put r.1 r.2) b

/-- The batch comes to the path in place `k`, with the session as it is then. -/
def Comes (plan : Plan) (b : Batch) (paths : List String) (s : Session) (k : Nat) (path : String)
    (s₁ : Session) :
    Prop :=
  paths[k]? = some path ∧ ∃ b₁, (resume plan b (paths.take k)).run.run s = (.ok b₁, s₁)

/-- The batch comes to every path, and the outcomes, one for each, are those that the files call for
then. -/
def Accounts (plan : Plan) (b : Batch) (paths : List String) (s : Session)
    (outcomes : List Outcome) : Prop :=
  outcomes.length = paths.length ∧ ∀ k path, paths[k]? = some path →
    ∃ s₁ o, Comes plan b paths s k path s₁ ∧ outcomes[k]? = some o ∧
      Becomes plan path (plan.files s₁.sink.written path) o

variable {paths : List String} {b b₁ : Batch} {s s₁ s₂ : Session} {k : Nat} {f : Failure}

theorem resume_cons (hstep : (step plan b path).run.run s = (.ok b₁, s₁)) :
    (resume plan b (path :: paths)).run.run s = (resume plan b₁ paths).run.run s₁ := by
  rw [resume, List.foldlM_cons, run_bind, hstep]
  rfl

theorem resume_cons_error (hstep : (step plan b path).run.run s = (.error f, s₁)) :
    (resume plan b (path :: paths)).run.run s = (.error f, s₁) := by
  rw [resume, List.foldlM_cons, run_bind, hstep]

theorem Comes.cons {p : String} (hstep : (step plan b path).run.run s = (.ok b₁, s₁))
    (h : Comes plan b₁ paths s₁ k p s₂) : Comes plan b (path :: paths) s (k + 1) p s₂ := by
  obtain ⟨hk, b₂, hrun⟩ := h
  refine ⟨hk, b₂, ?_⟩
  rw [List.take_succ_cons, resume_cons hstep, hrun]

/-- As long as no dump breaks it, a batch puts down an outcome for each path. -/
theorem resume_of_not_breaks (hs : s.Works)
    (h : ∀ k path s₁ f, Comes plan b paths s k path s₁ →
      ¬Breaks plan path (plan.files s₁.sink.written path) f) :
    ∃ outcomes s', Accounts plan b paths s outcomes ∧
      (resume plan b paths).run.run s = (.ok (b.tally (paths.zip outcomes)), s') := by
  induction paths generalizing b s with
  | nil => exact ⟨[], s, ⟨rfl, by simp⟩, rfl⟩
  | cons path paths ih =>
    have hpath : ¬∃ f, Breaks plan path (plan.files s.sink.written path) f := fun ⟨f, hf⟩ =>
      h 0 path s f ⟨rfl, b, rfl⟩ hf
    obtain ⟨o, ho⟩ := (becomes_or_breaks plan path _).resolve_right hpath
    obtain ⟨s₁, hstep, hs₁⟩ := step_of_becomes b hs ho
    obtain ⟨outcomes, s', ⟨hlength, houtcomes⟩, hrun⟩ := ih hs₁ fun k p s₂ f hcomes =>
      h (k + 1) p s₂ f (hcomes.cons hstep)
    refine ⟨o :: outcomes, s',
      ⟨by rw [List.length_cons, List.length_cons, hlength], fun k p hk => ?_⟩, ?_⟩
    · cases k with
      | zero =>
        cases hk
        exact ⟨s, o, ⟨rfl, b, rfl⟩, rfl, ho⟩
      | succ k =>
        obtain ⟨s₂, o', hcomes, ho', hbecomes⟩ := houtcomes k p hk
        exact ⟨s₂, o', hcomes.cons hstep, ho', hbecomes⟩
    · rw [resume_cons hstep, hrun]
      rfl

/-- A batch that comes to a dump that breaks it ends there. -/
theorem resume_of_breaks (hs : s.Works) (hcomes : Comes plan b paths s k path s₁)
    (h : Breaks plan path (plan.files s₁.sink.written path) f) :
    ∃ s₂, (resume plan b paths).run.run s = (.error f, s₂) := by
  obtain ⟨hk, b₁, hrun⟩ := hcomes
  induction k generalizing b s paths with
  | zero =>
    cases paths with
    | nil => cases hk
    | cons p paths =>
      cases hk
      cases hrun
      obtain ⟨s₂, hstep⟩ := step_of_breaks _ hs h
      exact ⟨s₂, resume_cons_error hstep⟩
  | succ k ih =>
    cases paths with
    | nil => cases hk
    | cons p paths =>
      rw [List.take_succ_cons] at hrun
      -- the batch has come past `p`, so that `p` has an outcome
      rcases becomes_or_breaks plan p (plan.files s.sink.written p) with ⟨o, ho⟩ | ⟨f', hf'⟩
      · obtain ⟨s', hstep, hs'⟩ := step_of_becomes b hs ho
        rw [resume_cons hstep] at hrun ⊢
        exact ih hs' hk hrun
      · obtain ⟨s', hstep⟩ := step_of_breaks b hs hf'
        rw [resume_cons_error hstep] at hrun
        cases hrun

/-- A batch puts down one outcome for each path exactly if it comes to no dump that breaks it; one
that does ends it with its own failure, whatever comes after. -/
theorem run_accounts_iff (plan : Plan) (paths : List String) (s : Session) (hs : s.Works) :
    ((∃ outcomes s', Accounts plan {} paths s outcomes ∧
        (run plan paths).run.run s = (.ok (tally {} (paths.zip outcomes)), s')) ↔
      ∀ k path s₁ f, Comes plan {} paths s k path s₁ →
        ¬Breaks plan path (plan.files s₁.sink.written path) f) ∧
    ∀ k path s₁ f, Comes plan {} paths s k path s₁ →
      Breaks plan path (plan.files s₁.sink.written path) f →
      ∃ s₂, (run plan paths).run.run s = (.error f, s₂) := by
  refine ⟨⟨?_, resume_of_not_breaks hs⟩, fun k path s₁ f hcomes h => resume_of_breaks hs hcomes h⟩
  rintro ⟨outcomes, s', _, hrun⟩ k path s₁ f hcomes hbreaks
  obtain ⟨s₂, herror⟩ := resume_of_breaks hs hcomes hbreaks
  cases hrun.symm.trans herror

/-- A dump with an infinite number where the number of a macro expansion belongs. -/
def infiniteDump : String :=
  "(crate :name k :expansions ((expansion :id 1e999)))"

def infinitePlan : Plan where
  files _ path := if path = "a.el" then .text infiniteDump else .missing

theorem run_accounts_infinitePlan :
    Session.Works {} ∧
    (∃ s, (run infinitePlan ["a.el", "b.el"]).run.run {} = (.error .infinite, s)) ∧
      ¬∃ outcomes s, Accounts infinitePlan {} ["a.el", "b.el"] {} outcomes ∧
        (run infinitePlan ["a.el", "b.el"]).run.run {} =
          (.ok (tally {} (["a.el", "b.el"].zip outcomes)), s) := by
  have hcheck : (match Load.file "a.el" (infinitePlan.files "" "a.el") none with
      | .error (.raised r) => r == .overflow
      | .error (.refused _) | .error .longInteger | .error .badPath | .ok _ => false) = true := by
    decide +kernel
  have hbreaks : Breaks infinitePlan "a.el" (infinitePlan.files "" "a.el") .infinite := by
    split at hcheck
    next r hfile =>
      rw [beq_iff_eq] at hcheck
      rw [hcheck] at hfile
      exact breaks_of_file (e := .infinite) hfile (by simp)
    all_goals cases hcheck
  have hcomes : Comes infinitePlan {} ["a.el", "b.el"] {} 0 "a.el" {} := ⟨rfl, {}, rfl⟩
  obtain ⟨haccounts, hends⟩ := run_accounts_iff infinitePlan ["a.el", "b.el"] {} ⟨rfl, rfl⟩
  exact ⟨⟨rfl, rfl⟩, hends 0 "a.el" {} .infinite hcomes hbreaks,
    fun h => haccounts.mp h 0 "a.el" {} .infinite hcomes hbreaks⟩

end Batch

end CrateAudit
