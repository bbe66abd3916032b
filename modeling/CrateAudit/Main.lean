import CrateAudit.Command.Help

namespace CrateAudit.Command

def diskState (path : String) : IO FileState := do
  try
    let bytes ← IO.FS.readBinFile path
    match String.fromUTF8? bytes with
    | some s => return .text s
    | none => return .undecodable
  catch _ => return .missing

def gather (store : Store) (paths : List String) : IO Store :=
  paths.foldlM (fun store path => do
    match ← diskState path with
    | .missing => return store
    | state => return store.add path state) store

def openOutput? (path : String) : IO (Option IO.FS.Handle) := do
  try
    let p := Path.ofString path
    let parent : Path := { p with parts := p.parts.dropLast }
    IO.FS.createDirAll parent.text
    return some (← IO.FS.Handle.mk path .append)
  catch _ => return none

/-- The text that a run has put behind what a file held before. -/
def addition (before after : FileState) : String :=
  match before, after with
  | .text s, .text t => String.ofList (t.toList.drop s.toList.length)
  | _, .text t => t
  | _, _ => ""

def finish (r : Report) : IO UInt32 := do
  for e in r.log do
    IO.eprintln (logLine e)
  IO.eprint r.stderr
  IO.print r.stdout
  match r.notice with
  | some .help => IO.print helpText
  | some .usage => IO.eprint helpText
  | none => pure ()
  match r.exit with
  | .ok n => return n.toUInt32
  | .error f =>
    IO.eprintln (failureText f)
    return 1

/-- The path on disk that an output path stands for; a tilde in front is the home directory. -/
def diskPath (path : String) : IO String := do
  match (Path.ofString path).parts, ← IO.getEnv "HOME" with
  | "~" :: _, some home => return "/".intercalate (home :: (Path.ofString path).parts.tail)
  | _, _ => return path

def runAnalyze (a : Analyze) (args : List String) : IO UInt32 := do
  let store ← gather ⟨[]⟩ a.dumps
  match a.output with
  | .absent | .bare | .given "-" => finish (Command.run { store } args)
  | .given path =>
    match store.openAppend path with
    | .error _ => finish (Command.run { store } args)
    | .ok (place, _) =>
      match ← openOutput? (← diskPath path) with
      | none => finish (Command.run { store := store.put place .directory } args)
      | some handle =>
        let r := Command.run { store } args
        handle.putStr (addition (store.at? place) (r.store.at? place))
        finish r

end CrateAudit.Command

open CrateAudit Command in
def main (args : List String) : IO UInt32 := do
  match parse args with
  | .ok ⟨_, .analyze a⟩ => runAnalyze a args
  | .ok ⟨_, .decode d⟩ => finish (Command.run { store := ← gather ⟨[]⟩ [d.records] } args)
  | .error _ => finish (Command.run { store := ⟨[]⟩ } args)
