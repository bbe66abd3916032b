import CrateAudit.Session

namespace CrateAudit

/-- The audit as a step of a host build. Once the host reports that it builds dependencies only,
nothing is audited any more. -/
structure Host where
  settings : Settings
  active : Bool := true
  /-- Whether the host wants to hear of each crate after its audit. -/
  chained : Bool := false
  /-- The crates that the host was told of. -/
  told : List Crate := []

namespace Host

def heard (h : Host) : List String :=
  h.told.map (·.name)

def warnings (settings : Settings) : List Log.Entry :=
  settings.warnings.map fun w => ⟨.warning, .host, "AnalysisConfig: " ++ w, none⟩

def isDependencyDir (settings : Settings) (dir : String) : Bool :=
  (Path.ofString dir).name == settings.dependencyDir

def report (h : Host) (dir : Option String) : Host × List Log.Entry :=
  match dir with
  | some d =>
    if isDependencyDir h.settings d then
      ({ h with active := false },
        [⟨.debug, .host, "Output dir " ++ d ++ " is a dependency dir; analysis off", none⟩])
    else (h, [])
  | none => (h, [])

/-- The host hears of a crate, if it wants to. -/
def tell (h : Host) (crate : Crate) : Host :=
  if h.chained then { h with told := h.told ++ [crate] } else h

def handOver (h : Host) (source : Option SourceMap) (crate : Crate) :
    Act (Option ExactRecord × Host) := do
  if !h.active then return (none, h)
  let r ← Act.auditCrate h.settings false source crate
  return (r, h.tell crate)

end Host

end CrateAudit
