import CrateAudit.Proofs.Listing
import CrateAudit.Proofs.JsonText
import CrateAudit.Proofs.Loading

namespace CrateAudit

open Record Crate Steps

namespace Crate

mutual

theorem Item.parts_of_mem_functions :
    ∀ (i : Item) {f : FnItem}, f ∈ i.functions → (Item.fn f).parts ⊆ i.parts
  | .fn g, f, hf => by
    rw [Item.functions, List.mem_singleton] at hf
    rw [hf]
    exact List.Subset.refl _
  | .container c, f, hf => by
    rw [Item.functions] at hf
    rw [Item.parts]
    exact List.Subset.trans (c.parts_of_mem_functions hf) (List.subset_cons_self _ _)

theorem Container.parts_of_mem_functions :
    ∀ (c : Container) {f : FnItem}, f ∈ c.functions → (Item.fn f).parts ⊆ c.parts
  | ⟨_, _, items, _⟩, f, hf => by
    rw [Container.functions] at hf
    rw [Container.parts]
    exact parts_of_mem_functionsOf items hf

theorem parts_of_mem_functionsOf :
    ∀ (items : List Item) {f : FnItem}, f ∈ functionsOf items →
      (Item.fn f).parts ⊆ partsOfItems items
  | [], f, hf => by
    rw [functionsOf] at hf
    cases hf
  | i :: items, f, hf => by
    rw [functionsOf, List.mem_append] at hf
    rw [partsOfItems]
    rcases hf with hf | hf
    · exact List.Subset.trans (i.parts_of_mem_functions hf) (List.subset_append_left _ _)
    · exact List.Subset.trans (parts_of_mem_functionsOf items hf) (List.subset_append_right _ _)

end

theorem parts_of_mem_declared {f : FnItem} {i : Item} (h : i ∈ declared f.body.walk) :
    i.parts ⊆ (Item.fn f).parts := by
  obtain ⟨v, hv, hi⟩ := List.mem_filterMap.mp h
  have hparts := f.body.parts_of_mem_walk hv
  rw [Item.parts_fn]
  cases v with
  | nested j =>
    cases hi
    exact List.Subset.trans hparts (List.subset_cons_self _ _)
  | item | fn | block | stmt | expr => cases hi

theorem parts_declaredIn (i : Item) : partsOfItems (declaredIn i.functions) ⊆ i.parts := by
  intro p hp
  rw [partsOfItems_eq] at hp
  obtain ⟨j, hj, hpj⟩ := List.mem_flatMap.mp hp
  obtain ⟨f, hf, hjf⟩ := List.mem_flatMap.mp hj
  exact i.parts_of_mem_functions hf (parts_of_mem_declared hjf hpj)

theorem parts_requeued (i : Item) (queue : List Item) :
    partsOfItems (queue ++ declaredIn i.functions) ⊆ partsOfItems (i :: queue) := by
  rw [partsOfItems_append, partsOfItems]
  exact List.append_subset.mpr ⟨List.subset_append_right _ _,
    List.Subset.trans (parts_declaredIn i) (List.subset_append_left _ _)⟩

theorem parts_of_mem_serve {n : Nat} {queue : List Item} {f : FnItem} (h : f ∈ (serve n queue).1) :
    (Item.fn f).parts ⊆ partsOfItems queue := by
  induction n generalizing queue with
  | zero => cases h
  | succ n ih =>
    cases queue with
    | nil => cases h
    | cons i queue =>
      simp only [serve, List.mem_append] at h
      rcases h with h | h
      · rw [partsOfItems]
        exact List.Subset.trans (i.parts_of_mem_functions h) (List.subset_append_left _ _)
      · exact List.Subset.trans (ih h) (parts_requeued i queue)

theorem parts_serve_rest (n : Nat) (queue : List Item) :
    partsOfItems (serve n queue).2 ⊆ partsOfItems queue := by
  induction n generalizing queue with
  | zero => exact List.Subset.refl _
  | succ n ih =>
    cases queue with
    | nil => exact List.Subset.refl _
    | cons i queue => exact List.Subset.trans (ih _) (parts_requeued i queue)

theorem Item.parts_of_mem_listing {i : Item} {f : FnItem} (h : f ∈ i.listing) :
    (Item.fn f).parts ⊆ i.parts := by
  rw [Item.listing, List.mem_append] at h
  rcases h with h | h
  · exact i.parts_of_mem_functions h
  · exact List.Subset.trans (parts_of_mem_serve h) (parts_declaredIn i)

theorem parts_of_mem_listing {items : List Item} {f : FnItem} (h : f ∈ listing items) :
    (Item.fn f).parts ⊆ partsOfItems items := by
  obtain ⟨i, hi, hf⟩ := List.mem_flatMap.mp h
  exact List.Subset.trans (Item.parts_of_mem_listing hf) (parts_of_mem hi)

theorem regular_of_formed {items : List Item} (h : Load.Formed (partsOfItems items)) {f : FnItem}
    (hf : (Item.fn f).parts ⊆ partsOfItems items) : Collect.Regular f := by
  rw [Item.parts_fn, List.cons_subset] at hf
  refine ⟨?_, Collect.bodied_walk fun p hp => Part.runs_of_wellFormed (h p (hf.2 hp))⟩
  simpa [Part.wellFormed] using h _ hf.1

/-- The spans of a crate: those in the tree, and the sites of its macro expansions. -/
def spans (crate : Crate) : List Span :=
  (partsOfItems crate.items).map Part.span ++
    crate.expansions.flatMap fun entry => entry.2.callSite.toList ++ entry.2.defSite.toList

def HasTextFiles (crate : Crate) : Prop :=
  ∀ s ∈ crate.spans, s.hasTextFile

variable {crate : Crate} {settings : Settings}

theorem mem_spans_of_mem_sites {s t : Span} (hs : s ∈ crate.spans) (ht : t ∈ crate.source.sites s) :
    t ∈ crate.spans := by
  rw [SourceMap.sites, List.mem_cons] at ht
  rcases ht with rfl | ht
  · exact hs
  · unfold SourceMap.expansion? at ht
    cases hx : s.expansion with
    | none => simp [hx] at ht
    | some id =>
      cases hget : crate.source.expansions.get? id with
      | none => simp [hx, hget] at ht
      | some x =>
        obtain ⟨entry, hfind, rfl⟩ := Option.map_eq_some_iff.mp hget
        simp only [hx, hget, Option.map_some, Option.getD_some] at ht
        exact List.mem_append_right _
          (List.mem_flatMap.mpr ⟨entry, List.mem_of_find?_eq_some hfind, ht⟩)

theorem canRecord_of_hasTextFiles (h : crate.HasTextFiles) {p : Part}
    (hp : p ∈ partsOfItems crate.items) :
    (crate.context settings).CanRecord p.span :=
  Context.canRecord_of_hasTextFile fun _ ht =>
    h _ (mem_spans_of_mem_sites (List.mem_append_left _ (List.mem_map_of_mem hp)) ht)

theorem canRegister_of_hasTextFiles (h : crate.HasTextFiles) {f : FnItem}
    (hf : (Item.fn f).parts ⊆ partsOfItems crate.items) :
    (crate.context settings).CanRegister f := by
  rw [Item.parts_fn, List.cons_subset] at hf
  refine ⟨fun t ht => ?_, (canRecord_of_hasTextFiles h hf.1).2⟩
  obtain ⟨p, hp, rfl⟩ := Collect.lookups_subset ht
  exact canRecord_of_hasTextFiles h (hf.2 hp)

end Crate

namespace Load

/-- A text that either reader of dumps accepts, and the crate it gives. -/
def Reads (text : String) (crate : Crate) : Prop :=
  json text = .ok crate ∨ symbolic text = .ok crate

theorem formed_of_crate {v : Value} {c : Crate} (h : crate v = .ok c) :
    Formed (partsOfItems c.items) := by
  have hloads := crate_loads v
  rw [h] at hloads
  cases hloads
  assumption

theorem formed_of_reads {text : String} {c : Crate} (h : Reads text c) :
    Formed (partsOfItems c.items) := by
  rcases h with h | h
  · unfold json at h
    split at h
    · exact formed_of_crate h
    · cases h
    · cases h
  · unfold symbolic at h
    split at h
    · exact formed_of_crate h
    · cases h

theorem exists_of_any {r : Except LoadFailure Crate} {check : Crate → Bool}
    (h : r.toOption.any check) :
    ∃ crate, r = .ok crate ∧ check crate := by
  cases r with
  | error e => cases h
  | ok crate => exact ⟨crate, rfl, h⟩

theorem exists_reads {text : String} {check : Crate → Bool}
    (h : (symbolic text).toOption.any check) :
    ∃ crate, Reads text crate ∧ check crate := by
  obtain ⟨crate, hload, hcheck⟩ := exists_of_any h
  exact ⟨crate, .inr hload, hcheck⟩

/-- A dump can be written for any value that gives a crate. -/
theorem exists_reads_write {v : Value} {check : Crate → Bool} (hv : v.isPlain Json.isReadable)
    (h : (Load.crate v).toOption.any check) :
    ∃ crate, Reads (Json.write Json.compact v) crate ∧ check crate := by
  obtain ⟨crate, hload, hcheck⟩ := exists_of_any h
  refine ⟨crate, .inl ?_, hcheck⟩
  rw [json, Json.parse_write (fun _ h => h) hv]
  exact hload

end Load

theorem Crate.audit_of_formed {crate : Crate} {settings : Settings}
    (hformed : Load.Formed (partsOfItems crate.items)) (htext : crate.HasTextFiles) :
    (crate.audit (crate.context settings)).1 =
      .ok ⟨crate.name, crate.crateType,
        (listing crate.items).map (crate.context settings).declare⟩ :=
  audit_of_canRegister (fun _ hf => regular_of_formed hformed (parts_of_mem_listing hf))
    fun _ hf => canRegister_of_hasTextFiles htext (parts_of_mem_listing hf)

theorem Crate.audit_of_reads {text : String} {crate : Crate} {settings : Settings}
    (hread : Load.Reads text crate) (htext : crate.HasTextFiles) :
    (crate.audit (crate.context settings)).1 =
      .ok ⟨crate.name, crate.crateType,
        (listing crate.items).map (crate.context settings).declare⟩ :=
  audit_of_formed (Load.formed_of_reads hread) htext

namespace Collect

variable {N F T : Type} {c : Context N F T} {items : List Item}

/-- The visit of the items of a crate comes to an item, with the collector as it is then. -/
inductive Reaches (c : Context N F T) (items : List Item) : Item → Collector N F T → Prop where
  | top {before after : List Item} {i : Item} {s : Collector N F T}
      (hitems : items = before ++ i :: after)
      (hrun : (visitCrate c before).run.run {} = (.ok (), s)) : Reaches c items i s
  | inside {kind name : String} {span : Span} {before after : List Item} {i : Item}
      {s s' : Collector N F T}
      (hcontainer : Reaches c items (.container ⟨kind, name, before ++ i :: after, span⟩) s)
      (hrun : (visitItems c before).run.run s = (.ok (), s')) : Reaches c items i s'
  /-- An item that waited, after `n` others. -/
  | later {before after queue : List Item} {i j : Item} {s s' : Collector N F T} (n : Nat)
      (hitems : items = before ++ i :: after)
      (hrun : (visitCrate c before).run.run {} = (.ok (), s))
      (hturns : (visitItem c i >>= fun _ => drain c n).run.run s = (.ok (), s'))
      (hnext : s'.waiting = j :: queue) :
      Reaches c items j { s' with waiting := queue }

theorem regular_of_parts (hformed : Load.Formed (partsOfItems items)) {i : Item}
    (hi : i.parts ⊆ partsOfItems items) :
    ∀ f ∈ i.functions, Regular f :=
  fun _ hf => regular_of_formed hformed (List.Subset.trans (i.parts_of_mem_functions hf) hi)

theorem visitCrate_before (hformed : Load.Formed (partsOfItems items)) {before after : List Item}
    (hitems : items = before ++ after) :
    Ends (∀ f ∈ listing before, c.CanRegister f) (.source .unusableFile)
      (fun _ s => s.scope = .start ∧ s.waiting = []) ((visitCrate c before).run.run {}) := by
  refine (visitCrate_ends (c := c) before (fun f hf => ?_) {} rfl rfl).mono ?_
  · exact regular_of_formed hformed
      (List.Subset.trans (parts_of_mem_listing hf) (parts_of_append hitems).1)
  · rintro _ _ ⟨notes, rfl⟩
    exact ⟨rfl, rfl⟩

/-- Wherever the visit comes to an item, it is outside of all blocks, and the item is one of the
tree. -/
theorem Reaches.start (hformed : Load.Formed (partsOfItems items)) {i : Item} {s : Collector N F T}
    (h : Reaches c items i s) : s.scope = .start ∧ i.parts ⊆ partsOfItems items := by
  induction h with
  | top hitems hrun =>
    refine ⟨((visitCrate_before hformed hitems).post hrun).1,
      List.Subset.trans ?_ (parts_of_append hitems).2⟩
    exact parts_of_mem List.mem_cons_self
  | @inside _ _ _ before after i s s' _ hrun ih =>
    -- the items before it in the container register functions and leave the scope as it is
    obtain ⟨hs, hparts⟩ := ih
    rw [Item.parts, Container.parts, List.cons_subset] at hparts
    obtain ⟨hbefore, hafter⟩ := parts_of_append (rfl : before ++ i :: after = _)
    have hitems := List.Subset.trans hbefore hparts.2
    have hregular : ∀ f ∈ functionsOf before, Regular f := fun f hf =>
      regular_of_formed hformed (List.Subset.trans (parts_of_mem_functionsOf before hf) hitems)
    obtain ⟨notes, rfl⟩ := (visitItems_registers before hregular s (by rw [hs]; rfl)).post hrun
    exact ⟨hs,
      List.Subset.trans (parts_of_mem List.mem_cons_self) (List.Subset.trans hafter hparts.2)⟩
  | @later before after queue i j s s' n hitems hrun hturns hnext =>
    obtain ⟨hs, hw⟩ := (visitCrate_before hformed hitems).post hrun
    have hi := List.Subset.trans (parts_of_mem List.mem_cons_self) (parts_of_append hitems).2
    have hqueue := List.Subset.trans (parts_declaredIn i) hi
    have hserved : ∀ f ∈ (serve n (declaredIn i.functions)).1, Regular f := fun f hf =>
      regular_of_formed hformed (List.Subset.trans (parts_of_mem_serve hf) hqueue)
    -- the item comes from what the functions of the top-level item `i` have declared
    have hd : s.scope.depth = 0 := by rw [hs]; rfl
    obtain ⟨notes, rfl⟩ := ((visitItem_registers i (regular_of_parts hformed hi) s hd).bind
      (by
        rintro _ _ ⟨notes, rfl⟩
        exact drain_registered i n s hd hw notes hserved)).post hturns
    refine ⟨hs,
      List.Subset.trans (parts_of_mem ?_) (List.Subset.trans (parts_serve_rest n _) hqueue)⟩
    change (serve n (declaredIn i.functions)).2 = _ at hnext
    rw [hnext]
    exact List.mem_cons_self

end Collect

/-- A crate that was read from a dump, and whose spans name their files, has a record. The visit
that makes it comes to every top-level item; whichever item it comes to, it is outside of all blocks
then, and again after the item. -/
theorem audit_total_of_reads (text : String) (crate : Crate) (settings : Settings)
    (hread : Load.Reads text crate) (htext : crate.HasTextFiles) :
    (∃ r, (crate.audit (crate.context settings)).1 = .ok r) ∧
      (∀ i ∈ crate.items, ∃ s, Collect.Reaches (crate.context settings) crate.items i s) ∧
      ∀ i s, Collect.Reaches (crate.context settings) crate.items i s →
        s.scope = .start ∧
          ∃ s', (Collect.visitItem (crate.context settings) i).run.run s = (.ok (), s') ∧
            s'.scope = .start := by
  have hformed := Load.formed_of_reads hread
  refine ⟨⟨_, audit_of_reads hread htext⟩, fun i hi => ?_, fun i s hreach => ?_⟩
  · obtain ⟨before, after, hitems⟩ := List.append_of_mem hi
    obtain ⟨_, s, hrun, _⟩ := (Collect.visitCrate_before hformed hitems).eq_ok fun f hf =>
      canRegister_of_hasTextFiles htext
        (List.Subset.trans (parts_of_mem_listing hf) (parts_of_append hitems).1)
    exact ⟨s, .top hitems hrun⟩
  · obtain ⟨hs, hi⟩ := hreach.start hformed
    have hcan : ∀ f ∈ i.functions, (crate.context settings).CanRegister f := fun f hf =>
      canRegister_of_hasTextFiles htext (List.Subset.trans (i.parts_of_mem_functions hf) hi)
    have hends :=
      Collect.visitItem_registers (c := crate.context settings) i
        (Collect.regular_of_parts hformed hi) s
      (by rw [hs]; rfl)
    obtain ⟨_, s', hrun, notes, rfl⟩ := hends.eq_ok hcan
    exact ⟨hs, _, hrun, hs⟩

/-- A function whose value is a closure; in the closure a pointer is followed and another function
declared. -/
def closureDump : String :=
  "(crate :name k :items ((fn :body (block :stmts () :expr (closure :body (block :stmts ((item :item
    (fn :body (block :stmts ())))) :expr (unary :op deref :operand_ty raw_ptr)))))))"

theorem audit_total_closureDump :
    ∃ crate, Load.Reads closureDump crate ∧ crate.HasTextFiles ∧ crate.items.length = 1 ∧
      (∃ r, (crate.audit (crate.context {})).1 = .ok r) ∧
      (∀ i ∈ crate.items, ∃ s, Collect.Reaches (crate.context {}) crate.items i s) ∧
      ∀ i s, Collect.Reaches (crate.context {}) crate.items i s →
        s.scope = .start ∧
          ∃ s', (Collect.visitItem (crate.context {}) i).run.run s = (.ok (), s') ∧
            s'.scope = .start := by
  obtain ⟨crate, hread, hcheck⟩ := Load.exists_reads
    (by decide +kernel : (Load.symbolic closureDump).toOption.any fun crate =>
      crate.spans.all Span.hasTextFile && crate.items.length == 1)
  rw [Bool.and_eq_true, List.all_eq_true, beq_iff_eq] at hcheck
  exact ⟨crate, hread, hcheck.1, hcheck.2, audit_total_of_reads closureDump crate {} hread hcheck.1⟩

end CrateAudit
