/-- A finite table in the order in which its keys were first entered. -/
abbrev CrateAudit.Table (κ α : Type) :=
  List (κ × α)

namespace CrateAudit.Table

variable {κ α : Type} [DecidableEq κ]

def get? (t : Table κ α) (k : κ) : Option α :=
  (t.find? fun entry => entry.1 = k).map Prod.snd

/-- A key that is already there keeps its place and takes the new value. -/
def put (k : κ) (a : α) : Table κ α → Table κ α
  | [] => [(k, a)]
  | (l, b) :: rest => if l = k then (l, a) :: rest else (l, b) :: put k a rest

@[simp] theorem get?_put_self (t : Table κ α) (k : κ) (a : α) : get? (put k a t) k = some a := by
  induction t with
  | nil => simp [put, get?]
  | cons entry t ih => by_cases h : entry.1 = k <;> simp_all [put, get?]

theorem get?_put_of_ne (t : Table κ α) {k l : κ} (a : α) (h : k ≠ l) :
    get? (put k a t) l = get? t l := by
  induction t with
  | nil => simp [put, get?, h]
  | cons entry t ih =>
    by_cases hk : entry.1 = k
    · simp_all [put, get?]
    · by_cases hl : entry.1 = l <;> simp_all [put, get?]

def ofPairs (pairs : List (κ × α)) : Table κ α :=
  pairs.foldl (fun t entry => put entry.1 entry.2 t) []

end CrateAudit.Table
