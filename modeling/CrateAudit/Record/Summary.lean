import CrateAudit.Record

namespace CrateAudit

/-- How often something was counted under each key. -/
abbrev Tally :=
  Table String Nat

namespace Tally

def add (key : String) (n : Nat) (t : Tally) : Tally :=
  Table.put key ((t.get? key).getD 0 + n) t

def update (t more : Tally) : Tally :=
  more.foldl (fun t entry => add entry.1 entry.2 t) t

def insert (entry : String × Nat) : Tally → Tally
  | [] => [entry]
  | first :: rest =>
    if entry.1 < first.1 then entry :: first :: rest else first :: insert entry rest

def sorted (t : Tally) : Tally :=
  t.foldr insert []

end Tally

structure FunctionSummary where
  name : Value
  restricted : Value
  origin : Origin
  counts : Table String Nat

structure Summary where
  name : Value
  crateType : Value
  functions : List FunctionSummary
  totals : Table String Nat

namespace Record

variable {N F T : Type} [Leaf F]

def Node.isForeignCall : Node N F T → Bool
  | .call _ foreign => (Leaf.value foreign).truthy
  | _ => false

def Node.hasRestrictedBody (item : Node N F T) : Bool :=
  item.body?.any fun body => (Leaf.value body.restricted).truthy

/-- Counts a node under what it is, and under what else it stands for. -/
def Node.tally (t : Tally) (item : Node N F T) : Tally :=
  let t := t.add item.variant 1
  let t := if item.isForeignCall then t.add "ffi_calls" 1 else t
  if item.hasRestrictedBody then t.add "unsafe_blocks" 1 else t

def Function.counts (f : Function N F T) : Tally :=
  f.block.flatten.foldl (fun t e => e.item.tally t) []

def totals (r : Record N F T) : Tally :=
  r.functions.foldl (fun t f => Tally.update t f.counts) []

variable [Leaf T]

def summary (r : Record N F T) : Summary where
  name := Leaf.value r.name
  crateType := Leaf.value r.crateType
  functions := r.functions.map fun f =>
    ⟨Leaf.value f.name, Leaf.value f.restricted, f.origin, f.counts.sorted⟩
  totals := r.totals.sorted

end Record

def countsValue (counts : Table String Nat) : Value :=
  .object (counts.map fun c => (c.1, .int c.2))

def FunctionSummary.toValue (f : FunctionSummary) : Value :=
  .object [
    ("name", f.name), ("unsaf", f.restricted), ("macro_origin", .str f.origin.word),
    ("counts", countsValue f.counts)]

def Summary.toValue (s : Summary) : Value :=
  .object [
    ("name", s.name), ("ty", s.crateType),
    ("functions", .list (s.functions.map FunctionSummary.toValue)),
    ("totals", countsValue s.totals)]

end CrateAudit
