import Mathlib.Data.List.Perm.Basic
import CrateAudit.Proofs.Totality

namespace CrateAudit

open Record Crate Steps

namespace Crate

theorem functionsOf_eq (items : List Item) : functionsOf items = items.flatMap Item.functions := by
  induction items with
  | nil => rw [functionsOf, List.flatMap_nil]
  | cons i items ih => rw [functionsOf, ih, List.flatMap_cons]

def offspring (fs : List FnItem) : List FnItem :=
  functionsOf (declaredIn fs)

/-- Functions, those declared in their bodies, those declared in the bodies of these, and so on. -/
def generation (fs : List FnItem) : Nat → List FnItem
  | 0 => fs
  | n + 1 => generation (offspring fs) n

/-- The functions of an item, generation by generation. There are no more generations than there are
items. -/
def Item.byGeneration (i : Item) : List FnItem :=
  (List.range i.count).flatMap (generation i.functions)

theorem generations_succ (fs : List FnItem) (n : Nat) :
    (List.range (n + 1)).flatMap (generation fs) =
      fs ++ (List.range n).flatMap (generation (offspring fs)) := by
  rw [List.range_succ_eq_map, List.flatMap_cons, List.flatMap_map]
  rfl

theorem one_le_count (i : Item) : 1 ≤ i.count := by
  have h := countItems_declaredIn_item i
  omega

theorem count_le_of_mem {items : List Item} {i : Item} (h : i ∈ items) :
    i.count ≤ countItems items := by
  induction items with
  | nil => cases h
  | cons j items ih =>
    rw [countItems]
    rcases List.mem_cons.mp h with rfl | h
    · omega
    · have hle := ih h
      omega

theorem eq_nil_of_countItems {items : List Item} (h : countItems items = 0) : items = [] := by
  apply List.eq_nil_iff_forall_not_mem.mpr
  intro i hi
  have hpos := one_le_count i
  have hle := count_le_of_mem hi
  omega

theorem countItems_offspring (items : List Item) :
    countItems (declaredIn (functionsOf items)) + items.length ≤ countItems items := by
  induction items with
  | nil => exact Nat.le_refl 0
  | cons i items ih =>
    have hi := countItems_declaredIn_item i
    rw [functionsOf, declaredIn_append, countItems_append, countItems, List.length_cons]
    omega

theorem offspring_of_declaredIn_nil {fs : List FnItem} (h : declaredIn fs = []) :
    offspring fs = [] := by
  rw [offspring, h, functionsOf]

theorem generation_nil (n : Nat) : generation [] n = [] := by
  induction n with
  | zero => rfl
  | succ n ih => exact ih

theorem generations_nil (n : Nat) : (List.range n).flatMap (generation []) = [] := by
  simp [List.flatMap_eq_nil_iff, generation_nil]

theorem serve_append (n : Nat) (front back : List Item) :
    serve (front.length + n) (front ++ back) =
      (functionsOf front ++ (serve n (back ++ declaredIn (functionsOf front))).1,
        (serve n (back ++ declaredIn (functionsOf front))).2) := by
  induction front generalizing back with
  | nil => simp [functionsOf, declaredIn]
  | cons i front ih =>
    have hn : (i :: front).length + n = front.length + n + 1 := by
      rw [List.length_cons]
      omega
    rw [hn, List.cons_append, serve, List.append_assoc, ih]
    simp [functionsOf, declaredIn_append]

/-- First come, first served: a queue with enough turns is served generation by generation. -/
theorem serve_generations {n m : Nat} {fs : List FnItem} (hn : countItems (declaredIn fs) ≤ n)
    (hm : n ≤ m) :
    fs ++ (serve n (declaredIn fs)).1 = (List.range (m + 1)).flatMap (generation fs) := by
  induction m generalizing n fs with
  | zero =>
    obtain rfl : n = 0 := by omega
    have hnil := eq_nil_of_countItems (Nat.le_zero.mp hn)
    simp [hnil, serve, generation]
  | succ m ih =>
    rw [generations_succ]
    by_cases hnil : declaredIn fs = []
    · have hserve : (serve n []).1 = [] := by cases n <;> rfl
      rw [offspring_of_declaredIn_nil hnil, generations_nil, hnil, hserve]
    · -- the whole queue is one generation, and what it leaves behind is the next queue
      have hused := countItems_offspring (declaredIn fs)
      have hlength : 1 ≤ (declaredIn fs).length := List.length_pos_iff.mpr hnil
      obtain ⟨k, rfl⟩ : ∃ k, n = (declaredIn fs).length + k :=
        ⟨n - (declaredIn fs).length, by omega⟩
      have hqueue := serve_append k (declaredIn fs) []
      rw [List.append_nil, List.nil_append] at hqueue
      rw [hqueue]
      congr 1
      have hnext : countItems (declaredIn (offspring fs)) ≤ k := by rw [offspring]; omega
      exact ih hnext (by omega)

theorem Item.listing_eq_byGeneration (i : Item) : i.listing = i.byGeneration := by
  have hlt := countItems_declaredIn_item i
  obtain ⟨m, hm⟩ : ∃ m, i.count = m + 1 := ⟨i.count - 1, by omega⟩
  rw [Item.listing, Item.byGeneration, hm]
  exact serve_generations (Nat.le_refl _) (by omega)

theorem offspring_append (fs fs' : List FnItem) :
    offspring (fs ++ fs') = offspring fs ++ offspring fs' := by
  rw [offspring, declaredIn_append, functionsOf_eq, List.flatMap_append, offspring, offspring,
    functionsOf_eq,
    functionsOf_eq]

theorem offspring_sublist_generations {fs : List FnItem} {n : Nat}
    (hn : countItems (declaredIn fs) ≤ n) :
    (offspring fs).Sublist ((List.range n).flatMap (generation (offspring fs))) := by
  cases n with
  | zero =>
    rw [offspring_of_declaredIn_nil (eq_nil_of_countItems (Nat.le_zero.mp hn))]
    exact List.nil_sublist _
  | succ n =>
    rw [generations_succ]
    exact List.sublist_append_left _ _

theorem offspring_sublist_of_eq {fs before after : List FnItem} {f : FnItem} {n : Nat}
    (hn : countItems (declaredIn fs) < n)
    (h : (List.range n).flatMap (generation fs) = before ++ f :: after) :
    (offspring [f]).Sublist after := by
  induction n generalizing fs before with
  | zero => omega
  | succ n ih =>
    have hlater : ∀ before, (List.range n).flatMap (generation (offspring fs)) =
        before ++ f :: after →
        (offspring [f]).Sublist after := by
      intro before heq
      have hused := countItems_offspring (declaredIn fs)
      have hne : declaredIn fs ≠ [] := by
        intro hnil
        rw [offspring_of_declaredIn_nil hnil, generations_nil] at heq
        simp at heq
      have hlength := List.length_pos_iff.mpr hne
      have hnext : countItems (declaredIn (offspring fs)) < n := by rw [offspring]; omega
      exact ih hnext heq
    rw [generations_succ] at h
    rcases List.append_eq_append_iff.mp h with ⟨between, rfl, heq⟩ | ⟨between, rfl, heq⟩
    · exact hlater between heq
    · cases between with
      | nil => exact hlater [] heq.symm
      | cons g between =>
        -- the function is of this generation, and the next one comes after all of it
        rw [List.cons_append, List.cons.injEq] at heq
        obtain ⟨rfl, rfl⟩ := heq
        have hnext := offspring_sublist_generations (Nat.le_of_lt_succ hn)
        have hf : (offspring [f]).Sublist (offspring (before ++ ([f] ++ between))) := by
          rw [offspring_append, offspring_append]
          exact (List.sublist_append_left _ _).trans (List.sublist_append_right _ _)
        exact (hf.trans hnext).trans (List.sublist_append_right _ _)

theorem count_lt_of_declared {i j : Item} {f : FnItem} (hf : f ∈ i.functions)
    (hj : j ∈ declared f.body.walk) :
    j.count < i.count := by
  have hlt := countItems_declaredIn_item i
  have hle : j.count ≤ countItems (declaredIn i.functions) :=
    count_le_of_mem (List.mem_flatMap.mpr ⟨f, hf, hj⟩)
  omega

/-- The functions that are reached from an item, each right before all that are reached from its
body. -/
def Item.reached (i : Item) : List FnItem :=
  i.functions.attach.flatMap fun ⟨f, hf⟩ =>
    f :: (declared f.body.walk).attach.flatMap fun ⟨j, hj⟩ =>
      have := count_lt_of_declared hf hj
      j.reached
termination_by i.count

theorem Item.reached_eq (i : Item) :
    i.reached = i.functions.flatMap fun f => f :: (declared f.body.walk).flatMap Item.reached := by
  rw [Item.reached]
  simp

theorem reached_of_declared (fs : List FnItem) :
    (fs.flatMap fun f => (declared f.body.walk).flatMap Item.reached) =
      (offspring fs).flatMap fun f => f :: (declared f.body.walk).flatMap Item.reached := by
  rw [offspring, functionsOf_eq, List.flatMap_assoc, ← List.flatMap_assoc]
  congr 1
  funext i
  exact i.reached_eq

/-- Every function that is reached is in exactly one generation, as often as it is reached. -/
theorem generations_perm {fs : List FnItem} {n : Nat} (hn : countItems (declaredIn fs) < n) :
    ((List.range n).flatMap (generation fs)).Perm
      (fs.flatMap fun f => f :: (declared f.body.walk).flatMap Item.reached) := by
  induction n generalizing fs with
  | zero => omega
  | succ n ih =>
    have hfirst :=
      List.map_append_flatMap_perm fs id fun f => (declared f.body.walk).flatMap Item.reached
    rw [List.map_id, reached_of_declared] at hfirst
    rw [generations_succ]
    refine List.Perm.trans (List.Perm.append_left fs ?_) hfirst
    by_cases hnil : declaredIn fs = []
    · rw [offspring_of_declaredIn_nil hnil, generations_nil, List.flatMap_nil]
    · have hused := countItems_offspring (declaredIn fs)
      have hlength := List.length_pos_iff.mpr hnil
      exact ih (by rw [offspring]; omega)

theorem Item.byGeneration_perm (i : Item) : i.byGeneration.Perm i.reached := by
  rw [i.reached_eq]
  exact generations_perm (countItems_declaredIn_item i)

theorem functions_sublist_byGeneration (items : List Item) :
    (functionsOf items).Sublist (items.flatMap Item.byGeneration) := by
  induction items with
  | nil => exact List.nil_sublist _
  | cons i items ih =>
    rw [functionsOf, List.flatMap_cons, ← i.listing_eq_byGeneration, Item.listing]
    exact (List.sublist_append_left _ _).append ih

end Crate

/-- The visit of a crate that was read from a dump comes to an end with no item left waiting, and
registers its functions item by item and, within an item, generation by generation. So each function
that is reached is registered once for each time it is declared, behind the function in whose body
it is declared, and those outside of function bodies keep their order. -/
theorem registers_by_generation (text : String) (crate : Crate) (settings : Settings)
    (hread : Load.Reads text crate) (htext : crate.HasTextFiles) :
    ∃ s, (Collect.visitCrate (crate.context settings) crate.items).run.run {} = (.ok (), s) ∧
      s.waiting = [] ∧
      (crate.audit (crate.context settings)).1 = .ok ⟨crate.name, crate.crateType, s.functions⟩ ∧
      s.functions = (crate.items.flatMap Item.byGeneration).map (crate.context settings).declare ∧
      (s.functions.map fun g => (g.name, g.restricted, g.span)) =
        ((crate.items.flatMap Item.byGeneration).map fun f =>
          (if f.path = "" then f.name else f.path, decide (f.signature.safety = .restricted),
            f.span.text)) ∧
      (∀ i ∈ crate.items, i.byGeneration.Perm i.reached) ∧
      (∀ i ∈ crate.items, ∀ before f after, i.byGeneration = before ++ f :: after →
        (offspring [f]).Sublist after) ∧
      crate.functions.Sublist (crate.items.flatMap Item.byGeneration) := by
  have hformed := Load.formed_of_reads hread
  have hlisting : listing crate.items = crate.items.flatMap Item.byGeneration := by
    rw [listing, funext Item.listing_eq_byGeneration]
  have hends := Collect.visitCrate_ends (c := crate.context settings) crate.items
    (fun _ hf => regular_of_formed hformed (parts_of_mem_listing hf)) {} rfl rfl
  obtain ⟨_, s, hrun, notes, rfl⟩ := hends.eq_ok fun _ hf =>
    canRegister_of_hasTextFiles htext (parts_of_mem_listing hf)
  rw [hlisting] at hrun
  refine ⟨_, hrun, rfl, ?_, rfl, ?_, fun i _ => i.byGeneration_perm, fun i _ before f after h => ?_,
    functions_sublist_byGeneration crate.items⟩
  · rw [audit_of_reads hread htext, hlisting]
    rfl
  · exact List.map_map
  · exact offspring_sublist_of_eq (countItems_declaredIn_item i) h

/-- Two functions declared in the body of a function, and one more in the body of the first of the
two. -/
def familyDump : String :=
  "(crate :name k :items ((fn :name f :body (block :stmts ((item :item (fn :name a :body
    (block :stmts ((item :item (fn :name b :body (block :stmts ())))))))
    (item :item (fn :name c :body (block :stmts ()))))))))"

theorem registers_by_generation_familyDump :
    ∃ crate s, Load.Reads familyDump crate ∧ crate.HasTextFiles ∧
      (crate.items.flatMap Item.byGeneration).map FnItem.name = ["f", "a", "c", "b"] ∧
      (Collect.visitCrate (crate.context {}) crate.items).run.run {} = (.ok (), s) ∧
      s.waiting = [] ∧
      (crate.audit (crate.context {})).1 = .ok ⟨crate.name, crate.crateType, s.functions⟩ ∧
      s.functions = (crate.items.flatMap Item.byGeneration).map (crate.context {}).declare ∧
      (s.functions.map fun g => (g.name, g.restricted, g.span)) =
        ((crate.items.flatMap Item.byGeneration).map fun f =>
          (if f.path = "" then f.name else f.path, decide (f.signature.safety = .restricted),
            f.span.text)) ∧
      (∀ i ∈ crate.items, i.byGeneration.Perm i.reached) ∧
      (∀ i ∈ crate.items, ∀ before f after, i.byGeneration = before ++ f :: after →
        (offspring [f]).Sublist after) ∧
      crate.functions.Sublist (crate.items.flatMap Item.byGeneration) := by
  obtain ⟨crate, hread, hcheck⟩ := Load.exists_reads
    (by decide +kernel : (Load.symbolic familyDump).toOption.any fun crate =>
      crate.spans.all Span.hasTextFile &&
        (crate.items.flatMap Item.byGeneration).map FnItem.name == ["f", "a", "c", "b"])
  rw [Bool.and_eq_true, List.all_eq_true, beq_iff_eq] at hcheck
  obtain ⟨s, hs⟩ := registers_by_generation familyDump crate {} hread hcheck.1
  exact ⟨crate, s, hread, hcheck.1, hcheck.2, hs⟩

end CrateAudit
