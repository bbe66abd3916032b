import CrateAudit.Record.Summary
import Mathlib.Data.List.Forall2
import Mathlib.Data.Set.Card

namespace CrateAudit

namespace Record

variable {N F T : Type}

section Positions

/-- What stands at a position in an entry, which is given by the numbers on the way to it. Each is
the number of an entry in the block that is nested there. -/
def Entry.at? (e : Entry N F T) : List Nat → Option (Entry N F T)
  | [] => some e
  | k :: p => e.item.body?.bind fun body => body.contents[k]?.bind fun c => c.at? p

def entryAt? (entries : List (Entry N F T)) : List Nat → Option (Entry N F T)
  | [] => none
  | k :: p => entries[k]?.bind fun c => c.at? p

def Block.at? (b : Block N F T) : List Nat → Option (Entry N F T) :=
  entryAt? b.contents

def Node.at? (item : Node N F T) (p : List Nat) : Option (Entry N F T) :=
  item.body?.bind fun body => body.at? p

variable (P : Entry N F T → Prop)

/-- The positions at which an entry with a property stands, at any depth. -/
def positions (at? : List Nat → Option (Entry N F T)) : Set (List Nat) :=
  {p | ∃ e ∈ at? p, P e}

def later : List Nat → List Nat
  | [] => []
  | k :: p => (k + 1) :: p

theorem later_injective : Function.Injective later := by
  intro p q h
  match p, q, h with
  | [], [], _ => rfl
  | k :: p, l :: q, h =>
    obtain ⟨hk, hp⟩ := List.cons.inj h
    rw [Nat.succ.inj hk, hp]

theorem nil_notMem_positions (entries : List (Entry N F T)) :
    [] ∉ positions P (entryAt? entries) := by
  rintro ⟨e, h, -⟩
  cases h

theorem nil_notMem_positions_item (item : Node N F T) : [] ∉ positions P item.at? := by
  rintro ⟨e, h, -⟩
  obtain ⟨body, -, h⟩ := Option.bind_eq_some_iff.mp h
  cases h

theorem positions_nil : positions P (entryAt? []) = ∅ := by
  ext p
  cases p with
  | nil => simp [nil_notMem_positions]
  | cons k p => simp [positions, entryAt?]

theorem positions_cons (e : Entry N F T) (entries : List (Entry N F T)) :
    positions P (entryAt? (e :: entries)) =
      Set.image (List.cons 0) (positions P e.at?) ∪ Set.image later
        (positions P (entryAt? entries)) := by
  ext p
  constructor
  · intro hp
    match p with
    | [] => exact absurd hp (nil_notMem_positions P _)
    | 0 :: p => exact .inl ⟨p, hp, rfl⟩
    | (k + 1) :: p => exact .inr ⟨k :: p, hp, rfl⟩
  · rintro (⟨p, hp, rfl⟩ | ⟨p, hp, rfl⟩)
    · exact hp
    · cases p with
      | nil => exact absurd hp (nil_notMem_positions P _)
      | cons k p => exact hp

theorem encard_positions_cons (e : Entry N F T) (entries : List (Entry N F T)) :
    (positions P (entryAt? (e :: entries))).encard =
      (positions P e.at?).encard + (positions P (entryAt? entries)).encard := by
  rw [positions_cons, Set.encard_union_eq, List.cons_injective.encard_image,
    later_injective.encard_image]
  -- a position in the first entry starts with zero, and no later one does
  rw [Set.disjoint_left]
  rintro _ ⟨p, -, rfl⟩ ⟨q, hq, h⟩
  cases q with
  | nil => exact nil_notMem_positions P entries hq
  | cons k q => cases h

variable [DecidablePred P]

theorem Entry.encard_positions (e : Entry N F T) :
    (positions P e.at?).encard = (positions P e.item.at?).encard + if P e then 1 else 0 := by
  have hcons : ∀ k p, k :: p ∈ positions P e.at? ↔ k :: p ∈ positions P e.item.at? :=
    fun _ _ => Iff.rfl
  have hnil : [] ∈ positions P e.at? ↔ P e := by simp [positions, Entry.at?]
  by_cases h : P e
  · have hset : positions P e.at? = insert [] (positions P e.item.at?) := by
      ext p
      cases p with
      | nil => simp [hnil, h]
      | cons k p => simp [hcons]
    rw [hset, Set.encard_insert_of_notMem (nil_notMem_positions_item P _), if_pos h]
  · have hset : positions P e.at? = positions P e.item.at? := by
      ext p
      cases p with
      | nil => simp [hnil, h, nil_notMem_positions_item]
      | cons k p => rw [hcons]
    rw [hset, if_neg h, add_zero]

mutual

/-- A walk through a block meets what stands at each position once. -/
theorem Block.encard_positions : ∀ b : Block N F T, (positions P b.at?).encard = b.flatten.countP P
  | ⟨_, _, contents⟩ => by
    rw [Block.flatten]
    exact encard_positions contents

theorem encard_positions :
    ∀ entries : List (Entry N F T), (positions P (entryAt? entries)).encard =
      (flattenEntries entries).countP P
  | [] => by
    rw [positions_nil, flattenEntries]
    exact Set.encard_empty
  | ⟨index, span, snippet, origin, item⟩ :: entries => by
    rw [encard_positions_cons, Entry.encard_positions, Node.encard_positions item,
      encard_positions entries, flattenEntries, List.countP_cons, List.countP_append]
    push_cast
    simp only [decide_eq_true_eq]
    rw [add_right_comm]

theorem Node.encard_positions :
    ∀ item : Node N F T, (positions P item.at?).encard = item.flatten.countP P
  | .closure body => by
    rw [Node.flatten]
    exact Block.encard_positions body
  | .inner body => by
    rw [Node.flatten]
    exact Block.encard_positions body
  | .deref | .mutStatic | .inlineAsm | .call _ _ => by
    rw [Node.flatten]
    simp [positions, Node.at?, Node.body?]

end

end Positions

section Keys

variable [Leaf F]

/-- The keys under which a node is counted. -/
inductive Node.CountsAs : Node N F T → String → Prop where
  | variant (item : Node N F T) : CountsAs item item.variant
  | foreignCall {restricted foreign : F} (h : (Leaf.value foreign).truthy) :
      CountsAs (.call restricted foreign) "ffi_calls"
  | restrictedBlock {item : Node N F T} {body : Block N F T} (hbody : item.body? = some body)
      (h : (Leaf.value body.restricted).truthy) : CountsAs item "unsafe_blocks"

/-- The keys for what a node is, each of which is for another kind of node. -/
def variants : List String :=
  ["Call", "Closure", "Deref", "InlineASM", "InnerBlock", "MutStatic"]

theorem Node.countsAs_iff_of_mem {item : Node N F T} {key : String} (hkey : key ∈ variants) :
    item.CountsAs key ↔ item.variant = key := by
  constructor
  · rintro (_ | _ | _)
    · rfl
    · exact absurd hkey (by decide)
    · exact absurd hkey (by decide)
  · rintro rfl
    exact .variant item

theorem Node.countsAs_iff {item : Node N F T} {key : String} :
    item.CountsAs key ↔ item.variant = key ∨ (item.isForeignCall ∧ "ffi_calls" = key) ∨
      (item.hasRestrictedBody ∧ "unsafe_blocks" = key) := by
  constructor
  · intro h
    cases h with
    | variant => exact .inl rfl
    | foreignCall h => exact .inr (.inl ⟨h, rfl⟩)
    | restrictedBlock hbody h =>
      refine .inr (.inr ⟨?_, rfl⟩)
      rw [hasRestrictedBody, hbody]
      exact h
  · rintro (rfl | ⟨h, rfl⟩ | ⟨h, rfl⟩)
    · exact .variant item
    · cases item with
      | call restricted foreign => exact .foreignCall h
      | deref | mutStatic | inlineAsm | closure | inner => cases h
    · obtain ⟨body, hbody, h⟩ := (Option.any_eq_true _ _).mp h
      exact .restrictedBlock hbody h

instance (item : Node N F T) (key : String) : Decidable (item.CountsAs key) :=
  decidable_of_iff _ Node.countsAs_iff.symm

theorem sum_countsAs (item : Node N F T) :
    (variants.map fun key => if item.CountsAs key then 1 else 0).sum = 1 := by
  have hkeys : (variants.map fun key => if item.CountsAs key then 1 else 0) =
      variants.map fun key => if item.variant = key then 1 else 0 := by
    apply List.map_congr_left
    intro key hkey
    simp only [Node.countsAs_iff_of_mem hkey]
  rw [hkeys]
  cases item <;> rfl

theorem sum_countP_variants (entries : List (Entry N F T)) :
    (variants.map fun key => entries.countP fun e => e.item.CountsAs key).sum = entries.length := by
  induction entries with
  | nil => rfl
  | cons e entries ih =>
    simp only [List.countP_cons, List.sum_map_add, ih, decide_eq_true_eq, sum_countsAs,
      List.length_cons]

end Keys

end Record

namespace Table

variable {κ α : Type} [DecidableEq κ]

theorem mem_keys_put {t : Table κ α} {k l : κ} {a : α} :
    l ∈ (put k a t).map Prod.fst ↔ l = k ∨ l ∈ t.map Prod.fst := by
  induction t with
  | nil => simp [put]
  | cons entry t ih =>
    rw [put]
    split
    next h => simp [h]
    next => simp only [List.map_cons, List.mem_cons, ih, or_left_comm]

theorem nodup_put {t : Table κ α} (h : (t.map Prod.fst).Nodup) (k : κ) (a : α) :
    ((put k a t).map Prod.fst).Nodup := by
  induction t with
  | nil => simp [put]
  | cons entry t ih =>
    rw [List.map_cons, List.nodup_cons] at h
    rw [put]
    split
    next => simpa using h
    next hk =>
      rw [List.map_cons, List.nodup_cons, mem_keys_put, not_or]
      exact ⟨⟨hk, h.1⟩, ih h.2⟩

theorem get?_cons (l k : κ) (b : α) (t : Table κ α) :
    get? ((l, b) :: t) k = if l = k then some b else get? t k := by
  by_cases h : l = k <;> simp [get?, h]

theorem get?_eq_none {t : Table κ α} {k : κ} (h : k ∉ t.map Prod.fst) : t.get? k = none := by
  rw [get?, Option.map_eq_none_iff, List.find?_eq_none]
  intro entry hentry hkey
  exact h (of_decide_eq_true hkey ▸ List.mem_map_of_mem hentry)

theorem get?_eq_some_iff {t : Table κ α} (h : (t.map Prod.fst).Nodup) {k : κ} {a : α} :
    t.get? k = some a ↔ (k, a) ∈ t := by
  induction t with
  | nil => simp [get?]
  | cons entry t ih =>
    obtain ⟨l, b⟩ := entry
    rw [List.map_cons, List.nodup_cons] at h
    rw [get?_cons, List.mem_cons, ← ih h.2, Prod.mk.injEq]
    split
    next hk =>
      rw [get?_eq_none (hk ▸ h.1)]
      simp [hk, eq_comm]
    next hk => simp [Ne.symm hk]

theorem get?_perm {t u : Table κ α} (hperm : t.Perm u) (h : (u.map Prod.fst).Nodup) (k : κ) :
    t.get? k = u.get? k := by
  apply Option.ext
  intro a
  rw [get?_eq_some_iff ((hperm.map Prod.fst).nodup_iff.mpr h), get?_eq_some_iff h, hperm.mem_iff]

end Table

namespace Tally

/-- No key twice, and only those of which something was counted. -/
structure Kept (t : Tally) : Prop where
  nodup : (t.map Prod.fst).Nodup
  positive : ∀ entry ∈ t, 0 < entry.2

theorem getD_add (t : Tally) (key k : String) (n : Nat) :
    ((t.add key n).get? k).getD 0 = (t.get? k).getD 0 + if key = k then n else 0 := by
  rw [add]
  by_cases h : key = k
  · rw [h, Table.get?_put_self, Option.getD_some, if_pos rfl]
  · rw [Table.get?_put_of_ne _ _ h, if_neg h, Nat.add_zero]

theorem Kept.add {t : Tally} (h : t.Kept) (key : String) {n : Nat} (hn : 0 < n) :
    (t.add key n).Kept := by
  refine ⟨Table.nodup_put h.nodup key _, fun entry hentry => ?_⟩
  have hnodup := Table.nodup_put h.nodup key ((t.get? key).getD 0 + n)
  have hget := (Table.get?_eq_some_iff hnodup).mpr hentry
  by_cases hkey : key = entry.1
  · rw [← hkey, Table.get?_put_self] at hget
    have := Option.some.inj hget
    omega
  · rw [Table.get?_put_of_ne _ _ hkey, Table.get?_eq_some_iff h.nodup] at hget
    exact h.positive entry hget

theorem kept_nil : Kept [] :=
  ⟨List.nodup_nil, nofun⟩

theorem Kept.update {t more : Tally} (h : t.Kept) (hmore : more.Kept) : (t.update more).Kept := by
  have hpositive := hmore.positive
  unfold Tally.update
  clear hmore
  induction more generalizing t with
  | nil => exact h
  | cons entry more ih =>
    rw [List.forall_mem_cons] at hpositive
    exact ih (h.add entry.1 hpositive.1) hpositive.2

/-- What is counted under a key afterwards is what was counted before and what is added. -/
theorem getD_update (t : Tally) {more : Tally} (hmore : more.Kept) (key : String) :
    ((t.update more).get? key).getD 0 = (t.get? key).getD 0 + (more.get? key).getD 0 := by
  have hnodup := hmore.nodup
  unfold update
  clear hmore
  induction more generalizing t with
  | nil => rfl
  | cons entry more ih =>
    obtain ⟨k, n⟩ := entry
    rw [List.map_cons, List.nodup_cons] at hnodup
    rw [List.foldl_cons, ih _ hnodup.2, getD_add, Table.get?_cons]
    split
    next hkey =>
      have hnone : Table.get? more key = none := Table.get?_eq_none (hkey ▸ hnodup.1)
      rw [hnone]
      rfl
    next => rw [Nat.add_zero]

theorem insert_perm (entry : String × Nat) (t : Tally) : (insert entry t).Perm (entry :: t) := by
  induction t with
  | nil => exact .refl _
  | cons first rest ih =>
    rw [insert]
    split
    · exact .refl _
    · exact (ih.cons first).trans (.swap entry first rest)

theorem sorted_perm (t : Tally) : t.sorted.Perm t := by
  induction t with
  | nil => exact .refl _
  | cons entry t ih => exact (insert_perm entry _).trans (ih.cons entry)

theorem pairwise_insert {entry : String × Nat} {t : Tally} (hnew : entry.1 ∉ t.map Prod.fst)
    (h : (t.map Prod.fst).Pairwise (· < ·)) :
    ((insert entry t).map Prod.fst).Pairwise (· < ·) := by
  induction t with
  | nil => exact List.pairwise_singleton _ _
  | cons first rest ih =>
    rw [List.map_cons, List.mem_cons, not_or] at hnew
    rw [List.map_cons, List.pairwise_cons] at h
    rw [insert]
    split
    next hlt =>
      simp only [List.map_cons, List.pairwise_cons, List.forall_mem_cons]
      exact ⟨⟨hlt, fun k hk => String.lt_trans hlt (h.1 k hk)⟩, h⟩
    next hnot =>
      have hlt : first.1 < entry.1 :=
        Std.lt_of_le_of_ne (String.not_lt.mp hnot) fun heq => hnew.1 heq.symm
      rw [List.map_cons, List.pairwise_cons]
      refine ⟨fun k hk => ?_, ih hnew.2 h.2⟩
      rw [((insert_perm entry rest).map Prod.fst).mem_iff, List.map_cons, List.mem_cons] at hk
      rcases hk with rfl | hk
      · exact hlt
      · exact h.1 k hk

theorem pairwise_sorted {t : Tally} (h : (t.map Prod.fst).Nodup) :
    (t.sorted.map Prod.fst).Pairwise (· < ·) := by
  induction t with
  | nil => exact List.Pairwise.nil
  | cons entry t ih =>
    rw [List.map_cons, List.nodup_cons] at h
    have hnew : entry.1 ∉ (sorted t).map Prod.fst := by
      rw [((sorted_perm t).map Prod.fst).mem_iff]
      exact h.1
    exact pairwise_insert hnew (ih h.2)

/-- Keys in order and none twice, and only those of which something was counted. -/
structure Sparse (counts : Table String Nat) : Prop where
  sorted : (counts.map Prod.fst).Pairwise (· < ·)
  positive : ∀ key, (counts.get? key).isSome ↔ 0 < (counts.get? key).getD 0

theorem Kept.get?_sorted {t : Tally} (h : t.Kept) (key : String) :
    t.sorted.get? key = t.get? key :=
  Table.get?_perm (sorted_perm t) h.nodup key

theorem Kept.sparse {t : Tally} (h : t.Kept) : Sparse t.sorted := by
  refine ⟨pairwise_sorted h.nodup, fun key => ?_⟩
  rw [h.get?_sorted]
  cases hget : Table.get? t key with
  | none => simp
  | some n =>
    have hpositive := h.positive _ ((Table.get?_eq_some_iff h.nodup).mp hget)
    exact iff_of_true rfl hpositive

end Tally

namespace Record

variable {N F T : Type} [Leaf F]

theorem Node.kept_tally {t : Tally} (h : t.Kept) (item : Node N F T) : (item.tally t).Kept := by
  have hvariant := h.add item.variant Nat.one_pos
  have hforeign : (if item.isForeignCall then (t.add item.variant 1).add "ffi_calls" 1
      else t.add item.variant 1 : Tally).Kept := by
    split
    · exact hvariant.add _ Nat.one_pos
    · exact hvariant
  rw [tally]
  split
  · exact hforeign.add _ Nat.one_pos
  · exact hforeign

theorem Node.getD_tally (t : Tally) (item : Node N F T) (key : String) :
    ((item.tally t).get? key).getD 0 =
      (t.get? key).getD 0 + if item.CountsAs key then 1 else 0 := by
  have hforeign : item.variant ≠ "ffi_calls" := by cases item <;> simp [variant]
  have hblock : item.variant ≠ "unsafe_blocks" := by cases item <;> simp [variant]
  -- the keys for what a node is are none of the two others, and these differ
  simp only [tally, countsAs_iff]
  by_cases hvariant : item.variant = key
  · subst hvariant
    split <;> split <;> simp [Tally.getD_add, hforeign.symm, hblock.symm]
  · by_cases hkey : "ffi_calls" = key
    · subst hkey
      split <;> split <;> simp_all [Tally.getD_add]
    · split <;> split <;> simp_all [Tally.getD_add]

variable (entries : List (Entry N F T))

theorem kept_tallies {t : Tally} (h : t.Kept) :
    (entries.foldl (fun t e => e.item.tally t) t).Kept := by
  induction entries generalizing t with
  | nil => exact h
  | cons e entries ih => exact ih (e.item.kept_tally h)

theorem getD_tallies (t : Tally) (key : String) :
    ((entries.foldl (fun t e => e.item.tally t) t).get? key).getD 0 =
      (t.get? key).getD 0 + entries.countP fun e => e.item.CountsAs key := by
  induction entries generalizing t with
  | nil => rfl
  | cons e entries ih =>
    rw [List.foldl_cons, ih, e.item.getD_tally, List.countP_cons]
    simp only [decide_eq_true_eq]
    omega

theorem Function.kept_counts (f : Function N F T) : f.counts.Kept :=
  kept_tallies _ Tally.kept_nil

theorem Function.getD_counts (f : Function N F T) (key : String) :
    (f.counts.get? key).getD 0 = f.block.flatten.countP fun e => e.item.CountsAs key := by
  rw [counts, getD_tallies]
  exact Nat.zero_add _

variable (functions : List (Function N F T))

theorem kept_totals {t : Tally} (h : t.Kept) :
    (functions.foldl (fun t f => Tally.update t f.counts) t).Kept := by
  induction functions generalizing t with
  | nil => exact h
  | cons f functions ih => exact ih (h.update f.kept_counts)

theorem getD_totals (t : Tally) (key : String) :
    ((functions.foldl (fun t f => Tally.update t f.counts) t).get? key).getD 0 =
      (t.get? key).getD 0 + (functions.map fun f => (f.counts.get? key).getD 0).sum := by
  induction functions generalizing t with
  | nil => rfl
  | cons f functions ih =>
    rw [List.foldl_cons, ih, Tally.getD_update t f.kept_counts, List.map_cons, List.sum_cons,
      Nat.add_assoc]

end Record

open Record

variable {N F T : Type} [Leaf F]

/-- The counts for a block: under each key the number of positions in the block, at any depth, at
which something stands that is counted under the key. Under the keys for what an entry is, that
makes one for each entry. -/
structure Record.Block.CountedBy (b : Block N F T) (counts : Table String Nat) :
    Prop extends Tally.Sparse counts where
  count : ∀ key, (positions (fun e => e.item.CountsAs key) b.at?).encard = (counts.get? key).getD 0
  entries : (positions (fun _ => True) b.at?).encard =
    (variants.map fun key => (counts.get? key).getD 0).sum

theorem Record.Function.countedBy_sorted (f : Function N F T) :
    f.block.CountedBy f.counts.sorted where
  toSparse := f.kept_counts.sparse
  count key := by
    rw [Block.encard_positions, f.kept_counts.get?_sorted, f.getD_counts]
  entries := by
    simp only [Block.encard_positions, f.kept_counts.get?_sorted, f.getD_counts,
      sum_countP_variants, decide_true, List.countP_true]

variable [Leaf T]

structure Record.Function.SummedUpBy (f : Function N F T) (g : FunctionSummary) : Prop where
  name : g.name = Leaf.value f.name
  restricted : g.restricted = Leaf.value f.restricted
  origin : g.origin = f.origin
  block : f.block.CountedBy g.counts

/-- A summary counts exactly. It has the functions of the record one by one in their order, each
with its own counts, and adds up these counts under each key. -/
theorem summary_exact (r : Record N F T) :
    List.Forall₂ Function.SummedUpBy r.functions r.summary.functions ∧
    Tally.Sparse r.summary.totals ∧
    ∀ key, (r.summary.totals.get? key).getD 0 =
      (r.summary.functions.map fun g => (g.counts.get? key).getD 0).sum := by
  have htotals : r.totals.Kept := kept_totals r.functions Tally.kept_nil
  refine ⟨?_, htotals.sparse, fun key => ?_⟩
  · rw [summary, List.forall₂_map_right_iff, List.forall₂_same]
    exact fun f _ => ⟨rfl, rfl, rfl, f.countedBy_sorted⟩
  · have hsum : (r.totals.get? key).getD 0 =
        (r.functions.map fun f => (f.counts.get? key).getD 0).sum :=
      (getD_totals r.functions [] key).trans (Nat.zero_add _)
    rw [summary, htotals.get?_sorted, hsum, List.map_map]
    congr 1
    apply List.map_congr_left
    intro f _
    exact congrArg (·.getD 0) (f.kept_counts.get?_sorted key).symm

end CrateAudit
