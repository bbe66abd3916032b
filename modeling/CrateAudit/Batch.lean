import CrateAudit.Host

namespace CrateAudit

structure Batch where
  emitted : List String := []
  skipped : List String := []
  failures : List (String × Diagnostic) := []

namespace Batch

def ok (b : Batch) : Bool :=
  b.failures.isEmpty

/-- What a batch goes by. The files may hold more once something has been written to the sink, if
the sink is one of them. -/
structure Plan where
  settings : Settings := {}
  format : Option String := none
  outDir : Option String := none
  files : String → String → FileState

variable (plan : Plan)

def dump (path : String) : Act (String × Bool) := do
  Act.note (Host.warnings plan.settings)
  let (host, log) := Host.report { settings := plan.settings } plan.outDir
  Act.note log
  let state := plan.files (← get).sink.written path
  let crate ← Act.load (Load.file path state plan.format)
  let (r, _) ← host.handOver none crate
  return (crate.name, r.isSome)

def survives (path : String) (d : Diagnostic) : Option Log.Entry :=
  match d.concern with
  | .dump => some ⟨.error, .host, "Cannot load " ++ path ++ ": " ++ d.text, none⟩
  | .internal | .invariant =>
    some ⟨.error, .host, "Aborted analysis of " ++ path ++ ": " ++ d.text, none⟩
  | _ => none

/-- One dump of a batch. A dump that cannot be loaded and an audit that goes astray are put down,
and the batch goes on. -/
def step (b : Batch) (path : String) : Act Batch := do
  try
    let (name, written) ← dump plan path
    return if written then { b with emitted := b.emitted ++ [name] }
      else { b with skipped := b.skipped ++ [name] }
  catch
    | .reported d =>
      match survives path d with
      | some entry =>
        Act.note [entry]
        return { b with failures := b.failures ++ [(path, d)] }
      | none => Act.fail (.reported d)
    | f => Act.fail f

def run (paths : List String) : Act Batch :=
  paths.foldlM (step plan) {}

end Batch

end CrateAudit
