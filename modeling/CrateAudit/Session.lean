import CrateAudit.Audit
import CrateAudit.Record.Json
import CrateAudit.Store
import CrateAudit.Crate.Load

namespace CrateAudit

inductive Failure where
  | reported (d : Diagnostic)
  /-- A name or a file that cannot be looked up. -/
  | unusableName
  | raised (r : Raised)
  | longInteger
  | badPath
  | record (e : RecordError)
  | undecodable
  | system
  /-- An option that was named without a value. -/
  | bareOption
  /-- A path that starts at the home of an unknown user. -/
  | noHome
  /-- An indentation beyond what a machine word counts. -/
  | indentRange
  | outOfMemory

@[match_pattern] abbrev Failure.infinite : Failure :=
  .raised .overflow

def LoadFailure.toFailure : LoadFailure → Failure
  | refused e => .reported e.diagnostic
  | raised r => .raised r
  | longInteger => .longInteger
  | badPath => .badPath

/-- A place for records that may refuse to be written to, or to be flushed. -/
structure Sink where
  written : String := ""
  writes : Bool := true
  flushes : Bool := true

/-- Writes a text and flushes; whether both succeeded. -/
def Sink.put (s : Sink) (text : String) : Bool × Sink :=
  if s.writes then (s.flushes, { s with written := s.written ++ text }) else (false, s)

structure Session where
  sink : Sink := {}
  log : List Log.Entry := []

/-- A step of a run; what a failed step has written and logged stays. -/
abbrev Act :=
  ExceptT Failure (StateM Session)

namespace Act

def note (entries : List Log.Entry) : Act Unit :=
  modify fun s => { s with log := s.log ++ entries }

def fail {α : Type} (f : Failure) : Act α :=
  throw f

variable {N F T : Type} [Leaf N] [Leaf F] [Leaf T]

def faultFailure : Fault N F T → Failure
  | .violation v place => .reported (v.diagnostic place)
  | .source _ => .unusableName
  | .bodiless s => .reported (.make .internal "Closure without a body block" none s.text)

/-- Whether the record of a crate with this name is written. A value that cannot be looked up is no
name. -/
def emits (settings : Settings) (name : Value) (suppress : Bool) : Except Failure Bool :=
  if suppress then .ok false
  else match name with
    | .str s => .ok (settings.emits s false)
    | _ => if name.isKey then .ok true else .error .unusableName

def emit (settings : Settings) (suppress : Bool) (r : Record N F T) : Act Bool := do
  let name := Leaf.value r.name
  match emits settings name suppress with
  | .error f => fail f
  | .ok false =>
    note [⟨.info, .records, "Not emitting unsafe AST for crate " ++ name.text, none⟩]
    return false
  | .ok true =>
    let (ok, sink) := (← get).sink.put (r.encode ++ "\n")
    modify fun s => { s with sink }
    if ok then return true
    fail (.reported
      (.make .output ("Failed writing unsafe AST for crate " ++ name.shown ++ ": ") none ""))

def auditCrate (settings : Settings) (suppress : Bool) (source : Option SourceMap) (crate : Crate) :
    Act (Option ExactRecord) := do
  if !settings.emits crate.name suppress then
    note [⟨.info, .host, "Skipping crate " ++ crate.name, none⟩]
    return none
  let (result, log) := crate.audit ⟨source.getD crate.source, settings, .exact⟩
  note log
  match result with
  | .error e => fail (faultFailure e)
  | .ok r =>
    discard <| emit settings false r
    return some r

def loaded (crate : Crate) : Log.Entry :=
  ⟨.debug, .loading,
    "Loaded crate " ++ crate.name ++ ": " ++ toString crate.items.length ++
      " top-level item(s), " ++
      toString crate.files.length ++ " file(s)", none⟩

def load (result : Except LoadFailure Crate) : Act Crate := do
  match result with
  | .ok crate =>
    note [loaded crate]
    return crate
  | .error e => fail e.toFailure

end Act

namespace Load

def symbolicSuffixes : List String :=
  [".sexp", ".lisp", ".el"]

def file (path : String) (state : FileState) (format : Option String) : Except LoadFailure Crate :=
  let p := Path.ofString path
  if path.toList.contains '\x00' then .error .badPath
  else match state.read? with
    | none => refuse (.unreadable p.text)
    | some text =>
      match format with
      | some f => if f = "sexp" then symbolic text else json text
      | none => if symbolicSuffixes.contains p.suffix then symbolic text else json text

end Load

end CrateAudit
