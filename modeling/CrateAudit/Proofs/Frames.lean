import CrateAudit.Proofs.Collected

namespace CrateAudit

open Record Steps

def Scope.frames {N F T : Type} (s : Scope N F T) : List (Frame N F T) :=
  s.current :: s.saved

namespace Collect

inductive Op (N F T : Type) where
  | enter
  | record (item : Node N F T) (span : Span)
  | endStatement
  | exitBlock (restricted : F)
  | exitFn (span : Option Span)

variable {N F T : Type}

/-- Carries out one operation. Only an exit gives a block. -/
def Op.act (c : Context N F T) : Op N F T → Collect N F T (Option (Block N F T))
  | enter => do
    Collect.enter
    return none
  | record item span => do
    discard <| Collect.record c item span
    return none
  | endStatement => do
    Collect.endStatement
    return none
  | exitBlock restricted => do
    return some (← Collect.exitBlock c restricted)
  | exitFn span => do
    return some (← Collect.exitFn ((span.map Span.text).getD ""))

structure Event (N F T : Type) where
  op : Op N F T
  answer : Except (Fault N F T) (Option (Block N F T))

inductive Move where
  | enter
  | leave
  | endStatement
  | stay
deriving DecidableEq

/-- An exit leaves a frame only if it ends well. -/
def Event.move : Event N F T → Move
  | ⟨.enter, _⟩ => .enter
  | ⟨.endStatement, _⟩ => .endStatement
  | ⟨.record _ _, _⟩ => .stay
  | ⟨.exitBlock _, .ok _⟩ => .leave
  | ⟨.exitBlock _, .error _⟩ => .stay
  | ⟨.exitFn _, .ok _⟩ => .leave
  | ⟨.exitFn _, .error _⟩ => .stay

def made (move : Move) (past : List (Event N F T)) : Nat :=
  past.countP (·.move = move)

/-- How many statements have ended in the frame that is `level` frames out, by going back over the
past, which has its latest event first. Those that ended in frames inside it do not count. -/
def ended : Nat → List (Event N F T) → Nat
  | _, [] => 0
  | level, e :: past =>
    match e.move, level with
    | .enter, 0 => 0
    | .enter, level + 1 => ended level past
    | .leave, level => ended (level + 1) past
    | .endStatement, 0 => ended 0 past + 1
    | .endStatement, level + 1 => ended (level + 1) past
    | .stay, level => ended level past

structure Run (N F T : Type) where
  collector : Collector N F T := {}
  past : List (Event N F T) := []

/-- A failure does not end the run: it goes on with what the failed operation has left. -/
def Run.next (c : Context N F T) (r : Run N F T) (op : Op N F T) : Run N F T where
  collector := ((op.act c).run.run r.collector).2
  past := ⟨op, ((op.act c).run.run r.collector).1⟩ :: r.past

def play (c : Context N F T) (ops : List (Op N F T)) : Run N F T :=
  ops.foldl (Run.next c) {}

def Ordered (leaves : Leaves N F T) (bound : Nat) (entries : List (Entry N F T)) : Prop :=
  ∃ numbers : List Nat, entries.map Entry.index = numbers.map leaves.count ∧
    numbers.Pairwise (· ≤ ·) ∧
    ∀ n ∈ numbers, n ≤ bound

variable {c : Context N F T} {leaves : Leaves N F T} {s s' : Scope N F T} {r : Run N F T}
  {move : Move}
  {bound : Nat} {entries : List (Entry N F T)}

section Ordered

theorem ordered_nil (leaves : Leaves N F T) (bound : Nat) : Ordered leaves bound [] :=
  ⟨[], rfl, .nil, by simp⟩

theorem Ordered.succ (h : Ordered leaves bound entries) : Ordered leaves (bound + 1) entries := by
  obtain ⟨numbers, hindex, hsorted, hbound⟩ := h
  refine ⟨numbers, hindex, hsorted, fun n hn => ?_⟩
  have hle := hbound n hn
  omega

theorem Ordered.add (h : Ordered leaves bound entries) {e : Entry N F T}
    (he : e.index = leaves.count bound) :
    Ordered leaves bound (entries ++ [e]) := by
  obtain ⟨numbers, hindex, hsorted, hbound⟩ := h
  refine ⟨numbers ++ [bound], ?_, ?_, ?_⟩
  · rw [List.map_append, List.map_append, hindex, List.map_singleton, List.map_singleton, he]
  · apply List.pairwise_append.mpr
    refine ⟨hsorted, List.pairwise_singleton _ _, fun n hn m hm => ?_⟩
    rw [List.mem_singleton.mp hm]
    exact hbound n hn
  · intro n hn
    rcases List.mem_append.mp hn with hn | hn
    · exact hbound n hn
    · exact Nat.le_of_eq (List.mem_singleton.mp hn)

theorem ordered_exact {entries : List (Entry Nat Bool String)} :
    Ordered .exact bound entries ↔
      (entries.map Entry.index).Pairwise (· ≤ ·) ∧ ∀ n ∈ entries.map Entry.index, n ≤ bound := by
  constructor
  · rintro ⟨numbers, hindex, hordered⟩
    have hnumbers : numbers.map Leaves.exact.count = numbers := List.map_id numbers
    rw [hindex, hnumbers]
    exact hordered
  · intro h
    exact ⟨entries.map Entry.index, (List.map_id _).symm, h⟩

end Ordered

section Steps

/-- What an event can do to the frames. Of those that stay in the frame, a flag adds an entry, and
the exit from a function may take the entry away before it fails. -/
inductive Effect (leaves : Leaves N F T) (s : Scope N F T) : Move → Scope N F T → Prop where
  | enter : Effect leaves s .enter s.enter
  | leave {frame : Frame N F T} {saved : List (Frame N F T)} (h : s.saved = frame :: saved) :
    Effect leaves s .leave ⟨frame, saved⟩
  | endStatement : Effect leaves s .endStatement s.endStatement
  | keep : Effect leaves s .stay s
  | add {e : Entry N F T} (h : e.index = leaves.count s.current.index) :
      Effect leaves s .stay (s.add e)
  | clear : Effect leaves s .stay ⟨⟨s.current.index, []⟩, s.saved⟩

theorem run_exitBlock (c : Context N F T) (restricted : F) (b : Collector N F T) :
    (Collect.exitBlock c restricted).run.run b =
      match b.scope.saved with
      | [] => (.error (.violation .blockExit ""), b)
      | frame :: saved =>
        (.ok ⟨c.leaves.count b.scope.current.index, restricted, b.scope.current.contents⟩,
          { b with scope := ⟨frame, saved⟩ }) := by
  rcases b with ⟨⟨current, saved⟩, functions, waiting, log⟩
  cases saved <;> rfl

theorem run_exitFn (place : String) (b : Collector N F T) :
    (Collect.exitFn place).run.run b =
      (b.scope.exitFn.1.mapError (.violation · place), { b with scope := b.scope.exitFn.2 }) := by
  have hget : (get : Collect N F T (Collector N F T)).run.run b = (.ok b, b) := rfl
  rw [Collect.exitFn, run_bind, hget]
  dsimp only
  rcases b.scope.exitFn with ⟨_ | _, scope⟩
  · rfl
  · rfl

theorem exitFn_effect (leaves : Leaves N F T) (s : Scope N F T) :
    Effect leaves s (match s.exitFn.1 with | .ok _ => .leave | .error _ => .stay) s.exitFn.2 := by
  rcases s with ⟨⟨index, contents⟩, saved⟩
  match contents with
  | [] => exact .keep
  | [⟨n, span, snippet, origin, item⟩] =>
    cases item with
    | inner body =>
      cases saved with
      | nil => exact .clear
      | cons frame saved => exact .leave rfl
    | deref | mutStatic | inlineAsm | call | closure => exact .clear
  | _ :: _ :: _ => exact .keep

theorem next_effect (c : Context N F T) (r : Run N F T) (op : Op N F T) :
    Effect c.leaves r.collector.scope (Event.move ⟨op, ((op.act c).run.run r.collector).1⟩)
      (r.next c op).collector.scope := by
  rw [Run.next]
  cases op with
  | enter => exact .enter
  | endStatement => exact .endStatement
  | record item span =>
    rw [Op.act, run_bind, run_record]
    cases hentry : c.entry r.collector.scope.current.index item span with
    | ok e => exact .add (Context.entry_fields hentry).1
    | error => exact .keep
  | exitBlock restricted =>
    rw [Op.act, run_bind, run_exitBlock]
    cases hsaved : r.collector.scope.saved with
    | nil => exact .keep
    | cons frame saved => exact .leave hsaved
  | exitFn span =>
    rw [Op.act, run_bind, run_exitFn]
    have heffect := exitFn_effect c.leaves r.collector.scope
    generalize r.collector.scope.exitFn = result at heffect
    rcases result with ⟨_ | _, scope⟩
    · exact heffect
    · exact heffect

end Steps

section Runs

/-- What holds of a run at any time. -/
structure Run.Kept (leaves : Leaves N F T) (r : Run N F T) : Prop where
  index : ∀ level frame, r.collector.scope.frames[level]? = some frame →
    frame.index = ended level r.past
  ordered : ∀ frame ∈ r.collector.scope.frames, Ordered leaves frame.index frame.contents
  depth : r.collector.scope.depth + made .leave r.past = made .enter r.past
  blocks : ∀ later earlier restricted block, r.past =
    later ++ ⟨.exitBlock restricted, .ok (some block)⟩ :: earlier →
    block.size = leaves.count (ended 0 earlier) ∧ block.restricted = restricted ∧
      Ordered leaves (ended 0 earlier) block.contents

theorem made_cons (move : Move) (e : Event N F T) (past : List (Event N F T)) :
    made move (e :: past) = made move past + if e.move = move then 1 else 0 := by
  simp [made, List.countP_cons]

theorem Effect.index {e : Event N F T} {past : List (Event N F T)} (h : Effect leaves s e.move s')
    (hs : ∀ level frame, s.frames[level]? = some frame → frame.index = ended level past) :
    ∀ level frame, s'.frames[level]? = some frame → frame.index = ended level (e :: past) := by
  intro level frame hframe
  unfold ended
  generalize e.move = move at h
  cases h with
  | enter =>
    cases level with
    | zero =>
      cases hframe
      rfl
    | succ level => exact hs level frame hframe
  | leave hsaved =>
    apply hs (level + 1) frame
    rw [Scope.frames, hsaved]
    exact hframe
  | endStatement =>
    cases level with
    | zero =>
      cases hframe
      show s.current.index + 1 = ended 0 past + 1
      rw [hs 0 s.current rfl]
    | succ level => exact hs (level + 1) frame hframe
  | keep => exact hs level frame hframe
  | add | clear =>
    -- the entries of the current frame have changed, its number has not
    cases level with
    | zero =>
      cases hframe
      exact hs 0 s.current rfl
    | succ level => exact hs (level + 1) frame hframe

theorem Effect.ordered (h : Effect leaves s move s')
    (hs : ∀ frame ∈ s.frames, Ordered leaves frame.index frame.contents) :
    ∀ frame ∈ s'.frames, Ordered leaves frame.index frame.contents := by
  have hcurrent : Ordered leaves s.current.index s.current.contents := hs _ List.mem_cons_self
  have hsaved : ∀ frame ∈ s.saved, Ordered leaves frame.index frame.contents := fun frame hframe =>
    hs frame (List.mem_cons_of_mem _ hframe)
  cases h with
  | enter => exact List.forall_mem_cons.mpr ⟨ordered_nil leaves 0, hs⟩
  | leave h =>
    rw [h] at hsaved
    exact hsaved
  | endStatement => exact List.forall_mem_cons.mpr ⟨hcurrent.succ, hsaved⟩
  | keep => exact hs
  | add he => exact List.forall_mem_cons.mpr ⟨hcurrent.add he, hsaved⟩
  | clear => exact List.forall_mem_cons.mpr ⟨ordered_nil leaves _, hsaved⟩

theorem Effect.depth {e : Event N F T} {past : List (Event N F T)} (h : Effect leaves s e.move s')
    (hs : s.depth + made .leave past = made .enter past) :
    s'.depth + made .leave (e :: past) = made .enter (e :: past) := by
  rw [made_cons, made_cons]
  generalize e.move = move at h
  cases h with
  | enter =>
    rw [Scope.depth_enter]
    simp
    omega
  | leave hsaved =>
    rw [Scope.depth, hsaved, List.length_cons] at hs
    simp [Scope.depth]
    omega
  | endStatement | keep | add | clear => exact hs

theorem Run.Kept.block {restricted : F} {block : Block N F T} (hr : r.Kept c.leaves)
    (h : (((Op.exitBlock restricted).act c).run.run r.collector).1 = .ok (some block)) :
    block.size = c.leaves.count (ended 0 r.past) ∧ block.restricted = restricted ∧
      Ordered c.leaves (ended 0 r.past) block.contents := by
  have hindex : r.collector.scope.current.index = ended 0 r.past := hr.index 0 _ rfl
  have hordered := hr.ordered _ List.mem_cons_self
  rw [Op.act, run_bind, run_exitBlock] at h
  cases hsaved : r.collector.scope.saved with
  | nil =>
    rw [hsaved] at h
    cases h
  | cons frame saved =>
    rw [hsaved] at h
    cases h
    rw [← hindex]
    exact ⟨rfl, rfl, hordered⟩

theorem Run.Kept.next (hr : r.Kept c.leaves) (op : Op N F T) : (r.next c op).Kept c.leaves where
  index := (next_effect c r op).index hr.index
  ordered := (next_effect c r op).ordered hr.ordered
  depth := (next_effect c r op).depth hr.depth
  blocks := by
    intro later earlier restricted block hpast
    rw [Run.next] at hpast
    -- the exit is the operation at hand, or one of the past
    cases later with
    | nil =>
      obtain ⟨hevent, rfl⟩ := List.cons.inj hpast
      obtain ⟨rfl, hanswer⟩ := Event.mk.inj hevent
      exact hr.block hanswer
    | cons e later => exact hr.blocks later earlier restricted block (List.cons.inj hpast).2

theorem kept_start (leaves : Leaves N F T) : Run.Kept leaves {} where
  index := by
    intro level frame hframe
    cases level with
    | zero =>
      cases hframe
      rfl
    | succ => cases hframe
  ordered := List.forall_mem_cons.mpr ⟨ordered_nil leaves 0, List.forall_mem_nil _⟩
  depth := rfl
  blocks := by
    intro later earlier restricted block hpast
    cases later <;> cases hpast

theorem kept_play (c : Context N F T) (ops : List (Op N F T)) : (play c ops).Kept c.leaves :=
  List.foldlRecOn ops (Run.next c) (kept_start c.leaves) fun _ hr op _ => hr.next op

end Runs

/-- Whatever is asked of a new collector, and whatever of it fails: the numbers in a frame do not
fall and do not pass the number of the frame; the frames that were entered and not left are there; a
block that an exit has given has the statements that ended in its own frame; and an exit from a
block fails only outside of all blocks and then changes nothing. -/
theorem play_keeps_frames (c : Context N F T) (ops : List (Op N F T)) :
    (∀ frame ∈ (play c ops).collector.scope.frames, Ordered c.leaves frame.index frame.contents) ∧
      (play c ops).collector.scope.depth + made .leave (play c ops).past =
        made .enter (play c ops).past ∧
      (∀ later earlier restricted block,
        (play c ops).past = later ++ ⟨.exitBlock restricted, .ok (some block)⟩ :: earlier →
        block.size = c.leaves.count (ended 0 earlier) ∧ block.restricted = restricted ∧
          Ordered c.leaves (ended 0 earlier) block.contents) ∧
      ∀ restricted fault b, (Collect.exitBlock c restricted).run.run (play c ops).collector =
        (.error fault, b) ↔
        (play c ops).collector.scope.depth = 0 ∧ fault = .violation .blockExit "" ∧
        b = (play c ops).collector := by
  have hkept := kept_play c ops
  refine ⟨hkept.ordered, hkept.depth, hkept.blocks, fun restricted fault b => ?_⟩
  rw [run_exitBlock, Scope.depth]
  cases (play c ops).collector.scope.saved with
  | nil =>
    constructor
    · intro h
      cases h
      exact ⟨rfl, rfl, rfl⟩
    · rintro ⟨_, rfl, rfl⟩
      rfl
  | cons frame saved =>
    constructor
    · intro h
      cases h
    · rintro ⟨h, _⟩
      cases h

/-- A block in a block, among exits that fail: one outside of all blocks, one from a function that
takes away what is flagged, and one from a function that finds nothing to take. -/
def unbalanced : List (Op Nat Bool String) :=
  let place (line : Int) : Span := ⟨.str "a.rs", line, 1, line, 9, none⟩
  [.exitBlock false, .enter, .record .deref (place 1), .endStatement, .enter, .endStatement,
    .endStatement, .exitBlock false, .exitFn none, .record .mutStatic (place 2), .exitBlock true,
    .exitFn (some (place 1))]

theorem play_keeps_frames_unbalanced :
    ∃ last earlier block, (play bare unbalanced).past =
      last :: ⟨.exitBlock true, .ok (some block)⟩ :: earlier ∧
      ended 0 earlier = 1 ∧ block.size = 1 ∧ block.contents.length = 1 ∧
      (∀ n ∈ block.contents.map Entry.index, n ≤ 1) ∧
      (play bare unbalanced).collector.scope.depth = 0 ∧
      (Collect.exitBlock bare true).run.run (play bare unbalanced).collector =
        (.error (.violation .blockExit ""), (play bare unbalanced).collector) := by
  obtain ⟨_, hdepth, hblocks, hexit⟩ := play_keeps_frames bare unbalanced
  have hzero : (play bare unbalanced).collector.scope.depth = 0 :=
    Nat.add_right_cancel (m := 2) hdepth
  have hblock := hblocks [_] _ true _ rfl
  refine ⟨_, _, _, rfl, rfl, hblock.1, rfl, (ordered_exact.mp hblock.2.2).2, hzero, ?_⟩
  exact (hexit true _ _).mpr ⟨hzero, rfl, rfl⟩

end Collect

end CrateAudit
