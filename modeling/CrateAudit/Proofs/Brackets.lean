import CrateAudit.Proofs.Frames

namespace CrateAudit.Collect

open Record Steps

variable {N F T : Type}

structure Flag (N F T : Type) where
  index : Nat
  item : Node N F T
  span : Span

/-- Operations that leave every frame they enter: that of a block by its exit, and that of a
function by its exit, once the frame holds a body and nothing else. In the frame they start in they
end `n` statements and flag `flags`. -/
inductive Balanced : List (Op N F T) → Nat → List (Flag N F T) → Prop where
  | nil : Balanced [] 0 []
  | record {ops : List (Op N F T)} {n : Nat} {flags : List (Flag N F T)} (h : Balanced ops n flags)
      (item : Node N F T) (span : Span) : Balanced (ops ++ [.record item span]) n
        (flags ++ [⟨n, item, span⟩])
  | endStatement {ops : List (Op N F T)} {n : Nat} {flags : List (Flag N F T)}
      (h : Balanced ops n flags) :
      Balanced (ops ++ [.endStatement]) (n + 1) flags
  | block {ops inside : List (Op N F T)} {n m : Nat} {flags inner : List (Flag N F T)}
      (h : Balanced ops n flags)
      (hinside : Balanced inside m inner) (restricted : F) :
      Balanced (ops ++ .enter :: (inside ++ [.exitBlock restricted])) n flags
  | fn {ops inside : List (Op N F T)} {n m k : Nat} {flags : List (Flag N F T)}
      {body : Block N F T} {place : Span} (h : Balanced ops n flags)
      (hinside : Balanced inside m [⟨k, .inner body, place⟩]) (span : Option Span) :
      Balanced (ops ++ .enter :: (inside ++ [.exitFn span])) n flags

def recorded (ops : List (Op N F T)) : List Span :=
  ops.filterMap fun
    | .record _ span => some span
    | _ => none

theorem recorded_append (ops ops' : List (Op N F T)) :
    recorded (ops ++ ops') = recorded ops ++ recorded ops' :=
  List.filterMap_append

theorem recorded_frame (inside : List (Op N F T)) {leave : Op N F T} (h : recorded [leave] = []) :
    recorded (.enter :: (inside ++ [leave])) = recorded inside := by
  change recorded (inside ++ [leave]) = _
  rw [recorded_append, h, List.append_nil]

variable (c : Context N F T)

def marks (k : Nat) (flags : List (Flag N F T)) : List (Entry N F T) :=
  flags.map fun f => c.mark (f.index + k) f.item f.span

/-- Operations with one effect wherever they start: they give `answers`, and in the frame they start
in they end `n` statements and flag `flags`. -/
def Does (ops : List (Op N F T)) (answers : List (Option (Block N F T))) (n : Nat)
    (flags : List (Flag N F T)) :
    Prop :=
  Yields c (ops.mapM (Op.act c)) answers n (fun k => marks c k flags) [] (recorded ops)

variable {c} {ops ops' inside : List (Op N F T)} {answers answers' : List (Option (Block N F T))}
  {n m : Nat}
  {flags flags' inner : List (Flag N F T)}

theorem marks_later (k n : Nat) (flags : List (Flag N F T)) :
    marks c k (flags.map fun f => { f with index := f.index + n }) = marks c (k + n) flags := by
  unfold marks
  rw [List.map_map]
  apply List.map_congr_left
  intro f _
  have hindex : f.index + n + k = f.index + (k + n) := by omega
  exact congrArg (fun i => c.mark i f.item f.span) hindex

theorem Does.append (h : Does c ops answers n flags) (h' : Does c ops' answers' m flags') :
    Does c (ops ++ ops') (answers ++ answers') (n + m)
      (flags ++ flags'.map fun f => { f with index := f.index + n }) := by
  have hrest := h'.bind (q := fun as => pure (answers ++ as)) (.pure (answers ++ answers'))
  have hboth :=
    Yields.bind (q := fun as => ops'.mapM (Op.act c) >>= fun bs => pure (as ++ bs)) h hrest
  unfold Does
  rw [List.mapM_append]
  refine hboth.congr rfl (fun k => ?_) rfl (fun t => ?_)
  · rw [List.append_nil, ← marks_later]
    exact List.map_append.symm
  · rw [List.append_nil, recorded_append]

theorem Does.append_nil (h : Does c ops answers n flags) (h' : Does c ops' answers' 0 []) :
    Does c (ops ++ ops') (answers ++ answers') n flags := by
  have hboth := h.append h'
  rwa [List.map_nil, List.append_nil] at hboth

theorem does_nil : Does c [] [] 0 [] :=
  .pure []

theorem record_does (item : Node N F T) (span : Span) :
    Does c [.record item span] [none] 0 [⟨0, item, span⟩] := by
  have hrecord := (record_yields (c := c) item span).seq (.pure [(none : Option (Block N F T))])
  unfold Does
  rw [List.mapM_cons]
  simp only [Op.act, List.mapM_nil, bind_assoc, pure_bind]
  refine hrecord.congr rfl (fun k => ?_) rfl fun _ => Iff.rfl
  simp [marks]

theorem endStatement_does : Does c [.endStatement] [none] 1 [] := by
  have hend := (endStatement_yields (c := c)).seq (.pure [(none : Option (Block N F T))])
  unfold Does
  rw [List.mapM_cons]
  simp only [Op.act, List.mapM_nil, bind_assoc, pure_bind]
  exact hend

/-- A frame that is entered and left. What leaves it gives a block, by what is in the frame. -/
theorem frame_does {leave : Op N F T} {block : Block N F T} (h : Does c inside answers m inner)
    (hl : Restores (leave.act c) (some block) m (marks c 0 inner)) (hspan : recorded [leave] = []) :
    Does c (.enter :: (inside ++ [leave])) (none :: (answers ++ [some block])) 0 [] := by
  have hleave : Restores (leave.act c >>= fun b => pure (none :: (answers ++ [b])))
      (none :: (answers ++ [some block])) m (marks c 0 inner) := by
    intro s frame saved hs
    rw [run_bind, hl s frame saved hs]
    rfl
  have hframe :=
    frame_bind_yields (q := fun as => leave.act c >>= fun b => pure (none :: (as ++ [b]))) h hleave
  unfold Does
  rw [List.mapM_cons, List.mapM_append]
  simp only [Op.act, List.mapM_cons, List.mapM_nil, bind_assoc, pure_bind]
  rw [recorded_frame inside hspan]
  exact hframe

theorem exitBlock_does (h : Does c inside answers m inner) (restricted : F) :
    Does c (.enter :: (inside ++ [.exitBlock restricted]))
      (none :: (answers ++ [some ⟨c.leaves.count m, restricted, marks c 0 inner⟩])) 0 [] := by
  refine frame_does h (fun s frame saved hs => ?_) rfl
  rw [Op.act, run_bind, exitBlock_restores restricted m (marks c 0 inner) s frame saved hs]
  rfl

theorem exitFn_does {k : Nat} {body : Block N F T} {place : Span}
    (h : Does c inside answers m [⟨k, .inner body, place⟩]) (span : Option Span) :
    Does c (.enter :: (inside ++ [.exitFn span])) (none :: (answers ++ [some body])) 0 [] := by
  refine frame_does h (fun s frame saved hs => ?_) rfl
  rw [Op.act, run_bind, exitFn_restores _ m (c.mark_item k (.inner body) place) s frame saved hs]
  rfl

theorem does_of_balanced (c : Context N F T) (h : Balanced ops n flags) :
    ∃ answers, Does c ops answers n flags := by
  induction h with
  | nil => exact ⟨[], does_nil⟩
  | @record ops n flags _ item span ih =>
    obtain ⟨answers, hops⟩ := ih
    have hboth := hops.append (record_does item span)
    rw [List.map_singleton, Nat.zero_add] at hboth
    exact ⟨_, hboth⟩
  | endStatement _ ih =>
    obtain ⟨answers, hops⟩ := ih
    have hboth := hops.append endStatement_does
    rw [List.map_nil, List.append_nil] at hboth
    exact ⟨_, hboth⟩
  | block _ _ restricted ih ihinside =>
    obtain ⟨answers, hops⟩ := ih
    obtain ⟨answers', hinside⟩ := ihinside
    exact ⟨_, hops.append_nil (exitBlock_does hinside restricted)⟩
  | fn _ _ span ih ihinside =>
    obtain ⟨answers, hops⟩ := ih
    obtain ⟨answers', hinside⟩ := ihinside
    exact ⟨_, hops.append_nil (exitFn_does hinside span)⟩

theorem Balanced.span_mem (h : Balanced ops n flags) : ∀ f ∈ flags, f.span ∈ recorded ops := by
  induction h with
  | nil => exact List.forall_mem_nil _
  | record _ item span ih =>
    intro f hf
    rw [recorded_append, List.mem_append]
    rcases List.mem_append.mp hf with hf | hf
    · exact .inl (ih f hf)
    · rw [List.mem_singleton.mp hf]
      exact .inr List.mem_cons_self
  | endStatement _ ih | block _ _ _ ih _ | fn _ _ _ ih _ =>
    intro f hf
    rw [recorded_append]
    exact List.mem_append_left _ (ih f hf)

/-- Between the entry to a block and its exit, balanced operations fail nowhere if all files can be
looked up, and after the exit all is as it was before the entry, but for the log. What they answer
is the same from every collector, and so is the block that the exit gives: it holds what the
operations do in its own frame. -/
theorem restores_of_balanced (c : Context N F T) (ops : List (Op N F T)) (n : Nat)
    (flags : List (Flag N F T)) (restricted : F) (h : Balanced ops n flags)
    (hkeys : ∀ s ∈ recorded ops, ∀ t ∈ c.source.sites s, t.file.isKey) :
    ∃ answers block,
      (block.size = c.leaves.count n ∧ block.restricted = restricted ∧
        block.contents.map .ok = flags.map fun f => c.entry f.index f.item f.span) ∧
      ∀ s : Collector N F T, ∃ notes,
        ((.enter :: (ops ++ [.exitBlock restricted])).mapM (Op.act c)).run.run s =
          (.ok (answers ++ [some block]), { s with log := s.log ++ notes }) := by
  have hcan : ∀ s ∈ recorded ops, c.CanRecord s :=
    fun s hs => Context.canRecord_of_isKey (hkeys s hs)
  obtain ⟨answers, hops⟩ := does_of_balanced c h
  have hcontents : (marks c 0 flags).map .ok =
      flags.map fun f => c.entry f.index f.item f.span := by
    unfold marks
    rw [List.map_map]
    apply List.map_congr_left
    intro f hf
    exact (Context.entry_of_canRecord (hcan _ (h.span_mem f hf)) f.index f.item).symm
  refine ⟨none :: answers, ⟨c.leaves.count n, restricted, marks c 0 flags⟩, ⟨rfl, rfl, hcontents⟩,
    fun s => ?_⟩
  have hends := exitBlock_does hops restricted s
  rw [recorded_frame ops rfl] at hends
  obtain ⟨_, _, hrun, rfl, notes, rfl⟩ := hends.eq_ok hcan
  refine ⟨notes, hrun.trans ?_⟩
  simp [Collector.after, marks]

def onLine (line : Int) : Span :=
  ⟨.str "a.rs", line, 1, line, 9, none⟩

/-- The frame of a function in which a block is entered and left before the body is flagged, and a
statement ends. -/
def fnFrame : List (Op Nat Bool String) :=
  [.enter, .endStatement, .record .deref (onLine 2), .exitBlock true,
    .record (.inner ⟨2, false, []⟩) (onLine 3), .endStatement]

def aroundFn : List (Op Nat Bool String) :=
  [.record .deref (onLine 1), .endStatement, .enter] ++ fnFrame ++ [.exitFn (some (onLine 3)),
    .record .mutStatic (onLine 4)]

theorem restores_of_balanced_aroundFn :
    ∃ flags answers block, Balanced aroundFn 1 flags ∧ flags.map Flag.index = [0, 1] ∧
      (∀ s ∈ recorded aroundFn, ∀ t ∈ bare.source.sites s, t.file.isKey) ∧
      block.size = 1 ∧ block.restricted = false ∧
      block.contents.map .ok = flags.map (fun f => bare.entry f.index f.item f.span) ∧
      ∀ s : Collector Nat Bool String, ∃ notes,
        ((.enter :: (aroundFn ++ [.exitBlock false])).mapM (Op.act bare)).run.run s =
          (.ok (answers ++ [some block]), { s with log := s.log ++ notes }) := by
  have hinside : Balanced fnFrame 1 [⟨0, .inner ⟨2, false, []⟩, onLine 3⟩] :=
    .endStatement (.record (.block .nil (.record (.endStatement .nil) .deref (onLine 2)) true) _ _)
  have hbalanced : Balanced aroundFn 1 [⟨0, .deref, onLine 1⟩, ⟨1, .mutStatic, onLine 4⟩] :=
    .record (.fn (.endStatement (.record .nil .deref (onLine 1))) hinside (some (onLine 3)))
      .mutStatic (onLine 4)
  have hkeys : ∀ s ∈ recorded aroundFn, ∀ t ∈ bare.source.sites s, t.file.isKey := by decide
  obtain ⟨answers, block, ⟨hsize, hrestricted, hcontents⟩, hrun⟩ :=
    restores_of_balanced bare aroundFn 1 _ false hbalanced hkeys
  exact ⟨_, answers, block, hbalanced, rfl, hkeys, hsize, hrestricted, hcontents, hrun⟩

end CrateAudit.Collect
