import CrateAudit.Batch
import CrateAudit.Command.Arguments
import CrateAudit.Record.Summary
import CrateAudit.Text.Blank

namespace CrateAudit.Command

inductive Notice where
  | help
  | usage

structure Report where
  exit : Except Failure Nat
  stdout : String := ""
  stderr : String := ""
  notice : Option Notice := none
  log : List Log.Entry := []
  store : Store

structure Site where
  store : Store
  stdoutWorks : Bool := true

def versionText : String :=
  "unsafe-ast 0.1.0\n"

def logRank (verbosity : Nat) : Nat :=
  match verbosity with
  | 0 => Log.Level.warning.rank
  | 1 => Log.Level.info.rank
  | _ => Log.Level.debug.rank

def Analyze.settings (a : Analyze) : Settings :=
  { snippetLength := match a.snippetLength with
      | .given n => n
      | _ => 40
    recordSafeCalls := a.recordAllCalls
    extraDeriveNames := a.derive.filterMap id }

/-- The format of the dumps, unless their names tell it. A format without a value is none of the
symbolic kind. -/
def Analyze.dumpFormat (a : Analyze) : Option String :=
  match a.format with
  | .absent => none
  | .bare => some ""
  | .given f => some f

/-- What is logged until a batch gives up at its first dump, if it has a snippet length or an output
directory without a value. -/
def Analyze.obstacle? (a : Analyze) : Option (List Log.Entry) :=
  match a.snippetLength, a.outDir with
  | .bare, _ => some []
  | _, .bare => some (Host.warnings a.settings)
  | _, _ => none

def Analyze.plan (a : Analyze) (files : String → String → FileState) : Batch.Plan where
  settings := a.settings
  format := a.dumpFormat
  outDir := match a.outDir with
    | .given dir => some dir
    | _ => none
  files := files

def speak (level : Log.Level) (message : String) (cause : Option Log.Cause) : Log.Entry :=
  ⟨level, .program, message, cause⟩

def runBatch (a : Analyze) (files : String → String → FileState) (sink : Sink) :
    Except Failure Nat × Session :=
  match a.obstacle? with
  | some log => (.error .bareOption, { sink, log })
  | none =>
    match (Batch.run (a.plan files) a.dumps).run.run { sink } with
    | (.ok b, s) =>
      let told :=
        speak .info (toString b.emitted.length ++ " emitted, " ++ toString b.skipped.length ++
        " skipped, " ++ toString b.failures.length ++ " failed") none
      (.ok (if b.ok then 0 else 1), { s with log := s.log ++ [told] })
    | (.error (.reported d), s) => (.ok 2, { s with log := s.log ++ [speak .error d.text none] })
    | (.error f, s) => (.error f, s)

/-- Runs a batch into a file that is open. What a full device could not take is lost when it is
closed, which ends the run. -/
def runBatchInto (a : Analyze) (place : List String) (opened : Store) : Report :=
  let full := place = Store.fullDevice
  let (exit, s) :=
    runBatch a (fun written => (opened.append place written).look) { flushes := !full }
  { exit := if full && s.sink.written ≠ "" then .error .system else exit
    log := s.log
    store := opened.append place s.sink.written }

/-- Records go to the error stream, to the output stream for a dash, or else to the end of a
file. -/
def analyze (site : Site) (a : Analyze) : Report :=
  if a.derive.contains none then { exit := .error .bareOption, store := site.store }
  else match a.output with
    | .absent =>
      let (exit, s) := runBatch a (fun _ => site.store.look) {}
      { exit, stderr := s.sink.written, log := s.log, store := site.store }
    | .bare => { exit := .error .bareOption, store := site.store }
    | .given "-" =>
      let (exit, s) := runBatch a (fun _ => site.store.look) { writes := site.stdoutWorks }
      { exit, stdout := s.sink.written, log := s.log, store := site.store }
    | .given path =>
      match site.store.openAppend path with
      | .ok (place, opened) => runBatchInto a place opened
      | .error .noHome => { exit := .error .noHome, store := site.store }
      | .error .nullCharacter => { exit := .error .badPath, store := site.store }
      | .error (.refused store) =>
        { exit := .ok 2, store
          log := [speak .error ("Cannot open output " ++ path ++ ": ") (some .system)] }

/-- So many blanks do not fit into memory. -/
def maxIndent : Int := Int.pow 2 33

def layout : Setting Int → Except Failure Json.Layout
  | .absent => .ok Json.spaced
  | .bare => .error .bareOption
  | .given n =>
    if n < -Int.pow 2 63 ∨ Int.pow 2 63 ≤ n then .error .indentRange
    else if maxIndent ≤ n then .error .outOfMemory
    else .ok (Json.indented n.toNat)

structure Summaries where
  stdout : String := ""
  log : List Log.Entry := []
  bad : Bool := false

def summarize (site : Site) (d : Decode) (number : Nat) (line : List Char) (s : Summaries) :
    Except Failure Summaries :=
  if (Text.strip line).isEmpty then .ok s
  else match Record.decode (String.ofList line) with
    | .error e =>
      if e.isLineError then
        .ok { s with
          bad := true
          log := s.log ++ [speak .error
            (d.records ++ ":" ++ toString number ++ ": not an unsafe-AST record: ")
            (some (.record e))] }
      else .error (.record e)
    | .ok r => do
      let l ← layout d.indent
      if site.stdoutWorks then
        return { s with stdout := s.stdout ++ Json.write l r.summary.toValue ++ "\n" }
      else .error .system

def summarizeLines (site : Site) (d : Decode) (number : Nat) (s : Summaries) :
    List (List Char) → Except Failure Nat × Summaries
  | [] => (.ok (if s.bad then 1 else 0), s)
  | line :: lines =>
    match summarize site d number line s with
    | .ok s => summarizeLines site d (number + 1) s lines
    | .error f => (.error f, s)

def decode (site : Site) (d : Decode) : Report :=
  if d.records.toList.contains '\x00' then { exit := .error .badPath, store := site.store }
  else
    let state := site.store.look d.records
    match state, state.read? with
    | _, some text =>
      let (exit, s) := summarizeLines site d 1 {} (Text.lines text.toList)
      { exit, stdout := s.stdout, log := s.log, store := site.store }
    | .undecodable, none => { exit := .error .undecodable, store := site.store }
    | _, none =>
      { exit := .ok 2, store := site.store
        log := [speak .error ("Cannot read " ++ d.records ++ ": ") (some .system)] }

/-- Runs a command line. What a broken output stream does not take of the program's own texts is
lost. -/
def run (site : Site) (args : List String) : Report :=
  match parse args with
  | .error .usage => { exit := .ok 2, notice := some .usage, store := site.store }
  | .error .help =>
    { exit := .ok 0, notice := if site.stdoutWorks then some .help else none, store := site.store }
  | .error .version =>
    { exit := .ok 0, stdout := if site.stdoutWorks then versionText else "", store := site.store }
  | .ok i =>
    let report := match i.request with
      | .analyze a => analyze site a
      | .decode d => decode site d
    { report with log := Log.atLeast (logRank i.verbosity) report.log }

end CrateAudit.Command
