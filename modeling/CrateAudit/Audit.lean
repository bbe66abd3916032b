import CrateAudit.Collector
import CrateAudit.Crate.Count

namespace CrateAudit

open Record Crate

namespace Collect

variable {N F T : Type} (c : Context N F T)

/-- Visits the waiting items, first come first served, and those that come to wait meanwhile. The
argument bounds how many there are. -/
def drain : Nat → Collect N F T Unit
  | 0 => pure ()
  | fuel + 1 => do
    match (← get).waiting with
    | [] => pure ()
    | i :: rest =>
      modify fun b => { b with waiting := rest }
      visitItem c i
      drain fuel

/-- Visits an item and then whatever waits. An item holds the items declared in it, so that all of
them together bound the number of visits. -/
def visitTopLevel (i : Item) : Collect N F T Unit := do
  visitItem c i
  drain c (countItems (← get).waiting)

def visitCrate : List Item → Collect N F T Unit
  | [] => pure ()
  | i :: items => do
    visitTopLevel c i
    visitCrate items

end Collect

variable {N F T : Type}

def Collector.record (c : Context N F T) (crate : Crate) (b : Collector N F T) : Record N F T :=
  ⟨c.leaves.text crate.name, c.leaves.text crate.crateType, b.functions⟩

def Crate.context (crate : Crate) (settings : Settings) : Context Nat Bool String :=
  ⟨crate.source, settings, .exact⟩

def Crate.audit (crate : Crate) (c : Context N F T) :
    Except (Fault N F T) (Record N F T) × List Log.Entry :=
  let visiting : Log.Entry := ⟨.debug, .host,
    "Visiting crate " ++ crate.name ++ " (" ++ toString crate.functions.length ++
      " fn item(s))", none⟩
  match (Collect.visitCrate c crate.items).run.run {} with
  | (.ok (), b) => (.ok (b.record c crate), visiting :: b.log)
  | (.error e, b) => (.error e, visiting :: b.log)

end CrateAudit
