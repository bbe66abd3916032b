import CrateAudit.Command.Run
import CrateAudit.Proofs.SymbolicText

/-!
Command lines for requests. What is asked for can be written as arguments, option by option, and the
program takes such arguments for what they were written for: it runs the audit or the decoding that
the other results are about.
-/

namespace CrateAudit.Command

section Arguments

/-- An option that is set to each of the values in turn. Two dashes stand for no value. -/
def assign (name : String) (values : List (Option String)) : List String :=
  values.map fun v => name ++ "=" ++ v.getD "--"

def Setting.values {β : Type} (text : β → String) : Setting β → List (Option String)
  | .absent => []
  | .bare => [none]
  | .given b => [some (text b)]

def Analyze.options (a : Analyze) : List String :=
  assign "--format" (a.format.values id) ++ (assign "--output" (a.output.values id) ++
    (assign "--out-dir" (a.outDir.values id) ++
    (assign "--snippet-length" (a.snippetLength.values toString) ++
    ((if a.recordAllCalls then ["--record-all-calls"] else []) ++ assign "--derive" a.derive))))

def Decode.options (d : Decode) : List String :=
  assign "--indent" (d.indent.values toString)

/-- The plain arguments come behind two dashes, so that none of them is taken for an option. -/
def Request.arguments : Request → List String
  | .analyze a => "analyze" :: (a.options ++ "--" :: a.dumps)
  | .decode d => "decode" :: (d.options ++ ["--", d.records])

/-- What can be asked for: no value is two dashes, and no number too long to be read. -/
def Request.Writable : Request → Prop
  | .analyze a => a.dumps ≠ [] ∧ (∀ f, a.format = .given f → f = "json" ∨ f = "sexp") ∧
      a.output ≠ .given "--" ∧ a.outDir ≠ .given "--" ∧
      (∀ n, a.snippetLength = .given n → Json.isShort n) ∧ some "--" ∉ a.derive
  | .decode d => ∀ n, d.indent = .given n → Json.isShort n

end Arguments

namespace Options

variable {α : Type} {o : Options α} {a : α}

theorem splitEquals_append {name : List Char} (h : '=' ∉ name) (text : List Char) :
    splitEquals (name ++ '=' :: text) = (name, some text) := by
  have hname : ∀ c ∈ name, decide (c ≠ '=') = true := by
    intro c hc
    rw [decide_eq_true_eq]
    rintro rfl
    exact h hc
  rw [splitEquals, List.dropWhile_append_of_pos hname, List.takeWhile_append_of_pos hname]
  simp

theorem find?_eq_none {cs : List Char} (h : ∀ n ∈ o.names, n.1.toList ≠ cs) :
    o.find? cs = none := by
  rw [find?, Option.map_eq_none_iff, List.find?_eq_none]
  intro n hn
  rw [decide_eq_true_eq]
  exact h n hn

theorem tokens?_cons {arg : String} (harg : arg ≠ "--") (args : List String) :
    o.tokens? (arg :: args) =
      (o.token? arg).bind fun t => (o.tokens? args).map fun rest => (t, arg) :: rest := by
  rw [tokens?]
  · cases o.token? arg with
    | none => rfl
    | some t => cases o.tokens? args <;> rfl
  · exact harg

theorem exists_tokens? {args : List String}
    (h : ∀ arg ∈ args, arg ≠ "--" ∧ (o.token? arg).isSome) (plain : List String) :
    ∃ tokens, o.tokens? (args ++ "--" :: plain) = some tokens ∧
      tokens.map Prod.snd = args ++ "--" :: plain := by
  induction args with
  | nil =>
    refine ⟨_, rfl, ?_⟩
    rw [List.map_cons, List.map_map]
    exact congrArg _ (List.map_id plain)
  | cons arg args ih =>
    rw [List.forall_mem_cons] at h
    obtain ⟨tokens, htokens, hargs⟩ := ih h.2
    obtain ⟨t, ht⟩ := Option.isSome_iff_exists.mp h.1.2
    refine ⟨(t, arg) :: tokens, ?_, ?_⟩
    · rw [List.cons_append, tokens?_cons h.1.1, ht, htokens]
      rfl
    · rw [List.map_cons, hargs, List.cons_append]

section Assigned

variable {name : String} {more : List Char} (hname : name.toList = '-' :: '-' :: more)
  (hmore : '=' ∉ more)

theorem assigned_ne (name text : String) : name ++ "=" ++ text ≠ "--" := by
  intro heq
  have hmem : '=' ∈ (name ++ "=" ++ text).toList := by simp
  rw [heq] at hmem
  exact absurd hmem (by decide)

include hname in
theorem toList_assigned (text : String) :
    (name ++ "=" ++ text).toList = '-' :: '-' :: (more ++ '=' :: text.toList) := by
  simp [hname]

include hmore in
theorem splitEquals_assigned (text : List Char) :
    splitEquals ('-' :: '-' :: (more ++ '=' :: text)) = ('-' :: '-' :: more, some text) := by
  have hlong : '=' ∉ '-' :: '-' :: more := by simp [hmore]
  exact splitEquals_append hlong text

variable (hfree : ∀ n ∈ o.names, '=' ∉ n.1.toList)

include hfree in
theorem find?_assigned (text : List Char) :
    o.find? ('-' :: '-' :: (more ++ '=' :: text)) = none := by
  apply find?_eq_none
  intro n hn heq
  apply hfree n hn
  rw [heq]
  simp

include hname hmore hfree

theorem token?_assigned (hfound : o.find? ('-' :: '-' :: more) = some a) (text : String) :
    o.token? (name ++ "=" ++ text) = some (.valued a true text.toList) := by
  rw [token?, toList_assigned hname]
  simp only [find?_assigned hfree, splitEquals_assigned hmore, hfound]
  rfl

/-- An option that is not known, and that no other begins like, is still an argument. -/
theorem isSome_token?_assigned (hother : ∀ n ∈ o.names, ¬ '-' :: '-' :: more <+: n.1.toList)
    (text : String) : (o.token? (name ++ "=" ++ text)).isSome := by
  have hnone : o.find? ('-' :: '-' :: more) = none := by
    apply find?_eq_none
    intro n hn heq
    apply hother n hn
    exact heq ▸ List.prefix_rfl
  have hcandidates : o.candidates ('-' :: '-' :: (more ++ '=' :: text.toList)) = [] := by
    have hlong : isLong ('-' :: '-' :: (more ++ '=' :: text.toList)) := rfl
    have hfilter : (o.names.filter fun n => ('-' :: '-' :: more).isPrefixOf n.1.toList) = [] := by
      rw [List.filter_eq_nil_iff]
      intro n hn
      rw [List.isPrefixOf_iff_prefix]
      exact hother n hn
    rw [candidates, if_pos hlong, splitEquals_assigned hmore]
    simp only [hfilter, List.map_nil]
  rw [token?, toList_assigned hname]
  simp only [find?_assigned hfree, splitEquals_assigned hmore, hnone, hcandidates]
  rfl

end Assigned

/-- Arguments that are taken for the given steps, whatever comes after them. -/
def Does (o : Options α) (args : List String) (steps : List (Step α)) : Prop :=
  ∀ rest tokens, o.tokens? rest = some tokens →
    ∃ tokens', o.tokens? (args ++ rest) = some tokens' ∧ o.steps tokens' = steps ++ o.steps tokens

theorem Does.nil : o.Does [] [] :=
  fun _ tokens h => ⟨tokens, h, rfl⟩

theorem Does.append {args args' : List String} {steps steps' : List (Step α)}
    (h : o.Does args steps) (h' : o.Does args' steps') :
    o.Does (args ++ args') (steps ++ steps') := by
  intro rest tokens hrest
  obtain ⟨tokens', htokens', hsteps'⟩ := h' rest tokens hrest
  obtain ⟨tokens'', htokens'', hsteps''⟩ := h _ tokens' htokens'
  refine ⟨tokens'', ?_, ?_⟩
  · rw [List.append_assoc, htokens'']
  · rw [hsteps'', hsteps', List.append_assoc]

theorem valueOf_getD {v : Option String} (h : v ≠ some "--") :
    valueOf (v.getD "--").toList = v := by
  cases v with
  | none => rfl
  | some s =>
    have hs : s.toList ≠ ['-', '-'] := by
      intro hlist
      exact h (congrArg some (String.toList_injective hlist))
    rw [Option.getD_some, valueOf, if_neg hs, String.ofList_toList]

theorem cluster?_value (htakes : o.takesValue a) (text : List Char) :
    o.cluster? a true text = some { options := [(a, valueOf text)] } := by
  cases text with
  | nil => rw [cluster?, if_pos htakes]; rfl
  | cons c cs => rw [cluster?, if_pos htakes]

theorem does_assign {name : String} {more : List Char} (hname : name.toList = '-' :: '-' :: more)
    (hmore : '=' ∉ more) (hfree : ∀ n ∈ o.names, '=' ∉ n.1.toList)
    (hfound : o.find? ('-' :: '-' :: more) = some a) (htakes : o.takesValue a)
    {values : List (Option String)} (hvalues : some "--" ∉ values) :
    o.Does (assign name values) (values.map (.option a)) := by
  induction values with
  | nil => exact Does.nil
  | cons v values ih =>
    rw [List.mem_cons, not_or] at hvalues
    have hfirst : o.Does [name ++ "=" ++ v.getD "--"] [.option a v] := by
      intro rest tokens hrest
      have htoken := token?_assigned hname hmore hfree hfound (v.getD "--")
      refine ⟨(.valued a true (v.getD "--").toList, name ++ "=" ++ v.getD "--") :: tokens, ?_, ?_⟩
      · rw [List.singleton_append, tokens?_cons (assigned_ne _ _), htoken, hrest]
        rfl
      · rw [steps, cluster?_value htakes, valueOf_getD (Ne.symm hvalues.1)]
        rfl
    exact hfirst.append (ih hvalues.2)

theorem does_flag {arg : String} (harg : arg ≠ "--") (htoken : o.token? arg = some (.option a))
    (htakes : o.takesValue a = false) : o.Does [arg] [.option a none] := by
  intro rest tokens hrest
  refine ⟨(.option a, arg) :: tokens, ?_, ?_⟩
  · rw [List.singleton_append, tokens?_cons harg, htoken, hrest]
    rfl
  · cases tokens with
    | nil => simp [steps, htakes]
    | cons t tokens =>
      obtain ⟨t, s⟩ := t
      cases t <;> simp [steps, htakes]

theorem steps_plain (args : List String) :
    o.steps (args.map fun arg => (.plain, arg)) = args.map .plain := by
  induction args with
  | nil => rfl
  | cons arg args ih => rw [List.map_cons, List.map_cons, steps, ih]

/-- What comes behind two dashes is plain. -/
theorem Does.run {σ : Type} {args : List String} {steps : List (Step α)} (h : o.Does args steps)
    (take : σ → Step α → Except Stop σ) (s : σ) (plain : List String) :
    o.run take s (args ++ "--" :: plain) =
      (steps ++ Step.dashes :: plain.map Step.plain).foldlM take s := by
  obtain ⟨tokens, htokens, hsteps⟩ := h ("--" :: plain) _ rfl
  rw [Options.run, htokens]
  dsimp only
  rw [hsteps, Options.steps, steps_plain]

end Options

section Analyze

def Analyze.steps (a : Analyze) : List (Step AnalyzeOption) :=
  (a.format.values id).map (.option .format) ++ ((a.output.values id).map (.option .output) ++
    ((a.outDir.values id).map (.option .outDir) ++
    ((a.snippetLength.values toString).map (.option .snippetLength) ++
    ((if a.recordAllCalls then [.option .recordAllCalls none] else []) ++
    a.derive.map (.option .derive)))))

variable {a a' a'' : Analyze} {steps steps' : List (Step AnalyzeOption)}

/-- Options that make one request of another. -/
def Takes (a : Analyze) (steps : List (Step AnalyzeOption)) (a' : Analyze) : Prop :=
  steps.foldlM takeAnalyze { options := a } = .ok { options := a' }

theorem Takes.append (h : Takes a steps a') (h' : Takes a' steps' a'') :
    Takes a (steps ++ steps') a'' := by
  rw [Takes, List.foldlM_append, h]
  exact h'

theorem takes_option {o : AnalyzeOption} {v : Option String}
    (h : takeAnalyzeOption a o v = .ok a') : Takes a [.option o v] a' := by
  rw [Takes, List.foldlM_cons, takeAnalyze, h]
  rfl

theorem takes_setting {β : Type} {o : AnalyzeOption} {s : Setting β} {text : β → String}
    (set : Setting β → Analyze)
    (h : ∀ v ∈ s.values text, takeAnalyzeOption (set .absent) o v = .ok (set s)) :
    Takes (set .absent) ((s.values text).map (.option o)) (set s) := by
  cases s with
  | absent => rfl
  | bare | given => exact takes_option (h _ (List.mem_singleton_self _))

theorem takes_derive (a : Analyze) (names : List (Option String)) :
    Takes a (names.map (.option .derive)) { a with derive := a.derive ++ names } := by
  induction names generalizing a with
  | nil =>
    rw [List.append_nil]
    rfl
  | cons name names ih =>
    have hrest := ih { a with derive := a.derive ++ [name] }
    rw [List.append_assoc] at hrest
    exact (takes_option rfl).append hrest

theorem foldlM_plain (a : Analyze) (plain dumps : List String) :
    (dumps.map Step.plain).foldlM takeAnalyze { options := a, slot := .reading, plain } =
      .ok { options := a, slot := .reading, plain := plain ++ dumps } := by
  induction dumps generalizing plain with
  | nil =>
    rw [List.append_nil]
    rfl
  | cons dump dumps ih =>
    have hrest := ih (plain ++ [dump])
    rw [List.append_assoc] at hrest
    exact hrest

theorem not_mem_values {β : Type} {text : β → String} {s : Setting β}
    (h : ∀ b, s = .given b → text b ≠ "--") : some "--" ∉ s.values text := by
  intro hmem
  cases s with
  | absent => cases hmem
  | bare => cases List.mem_singleton.mp hmem
  | given b => exact h b rfl (Option.some.inj (List.mem_singleton.mp hmem)).symm

theorem toString_ne {n : Int} (h : Json.isShort n) : toString n ≠ "--" := by
  intro heq
  have hread := SExpr.readInt?_toString h
  rw [heq] at hread
  cases hread

theorem takes_text {o : AnalyzeOption} {s : Setting String} (set : Setting String → Analyze)
    (h : ∀ v, takeAnalyzeOption (set .absent) o v = .ok (set (.ofOption v))) :
    Takes (set .absent) ((s.values id).map (.option o)) (set s) := by
  apply takes_setting
  intro v hv
  cases s with
  | absent => cases hv
  | bare | given =>
    obtain rfl := List.mem_singleton.mp hv
    exact h _

theorem readSetting_values {s : Setting Int} (h : ∀ n, s = .given n → Json.isShort n) :
    ∀ v ∈ s.values toString, readSetting v = .ok s := by
  intro v hv
  cases s with
  | absent => cases hv
  | bare =>
    obtain rfl := List.mem_singleton.mp hv
    rfl
  | given n =>
    obtain rfl := List.mem_singleton.mp hv
    have hread : readInt (toString n) = .ok n := by
      rw [readInt, SExpr.readInt?_toString (h n rfl)]
    rw [readSetting, Option.mapM_some, hread]
    rfl

theorem does_options (h : (Request.analyze a).Writable) :
    analyzeOptions.Does a.options a.steps := by
  obtain ⟨-, hformat, houtput, houtDir, hlength, hderive⟩ := h
  have hfree : ∀ n ∈ analyzeOptions.names, '=' ∉ n.1.toList := by decide
  have hassign {name : String} {more : List Char} {o : AnalyzeOption}
      (hname : name.toList = '-' :: '-' :: more) (hmore : '=' ∉ more)
      (hfound : analyzeOptions.find? ('-' :: '-' :: more) = some o)
      (htakes : analyzeOptions.takesValue o) {values : List (Option String)} :
      some "--" ∉ values → analyzeOptions.Does (assign name values) (values.map (.option o)) :=
    Options.does_assign hname hmore hfree hfound htakes
  refine (hassign rfl (by decide) rfl rfl ?_).append ((hassign rfl (by decide) rfl rfl ?_).append
    ((hassign rfl (by decide) rfl rfl ?_).append ((hassign rfl (by decide) rfl rfl ?_).append
    (.append ?_ (hassign rfl (by decide) rfl rfl hderive)))))
  · refine not_mem_values fun f hf => ?_
    rcases hformat f hf with rfl | rfl <;> decide
  · exact not_mem_values fun s hs heq => houtput (heq ▸ hs)
  · exact not_mem_values fun s hs heq => houtDir (heq ▸ hs)
  · exact not_mem_values fun n hn => toString_ne (hlength n hn)
  · cases a.recordAllCalls with
    | false => exact Options.Does.nil
    | true => exact Options.does_flag (by decide) rfl rfl

theorem takes_steps (h : (Request.analyze a).Writable) :
    Takes {} a.steps { a with dumps := [] } := by
  obtain ⟨-, hformat, -, -, hlength, -⟩ := h
  have htakesFormat : ∀ v ∈ a.format.values id,
      takeAnalyzeOption {} .format v = .ok { format := a.format } := by
    intro v hv
    cases hs : a.format with
    | absent =>
      rw [hs] at hv
      cases hv
    | bare =>
      rw [hs] at hv
      obtain rfl := List.mem_singleton.mp hv
      rfl
    | given f =>
      rw [hs] at hv
      obtain rfl := List.mem_singleton.mp hv
      rcases hformat f hs with rfl | rfl <;> rfl
  have htakesLength : ∀ v ∈ a.snippetLength.values toString,
      takeAnalyzeOption { format := a.format, output := a.output, outDir := a.outDir }
          .snippetLength v =
        .ok { format := a.format, output := a.output, outDir := a.outDir,
              snippetLength := a.snippetLength } := by
    intro v hv
    rw [takeAnalyzeOption, readSetting_values hlength v hv]
    rfl
  have htakesFlag (b : Analyze) (hb : b.recordAllCalls = false) :
      Takes b (if a.recordAllCalls then [.option .recordAllCalls none] else [])
        { b with recordAllCalls := a.recordAllCalls } := by
    cases a.recordAllCalls with
    | false =>
      have hsame : { b with recordAllCalls := false } = b := by
        cases b
        cases hb
        rfl
      rw [hsame]
      rfl
    | true => exact takes_option rfl
  -- each option sets its own field, and finds the fields of the later ones as they are by default
  exact (takes_setting (fun s => { format := s }) htakesFormat).append
    ((takes_text (fun s => { format := a.format, output := s }) fun _ => rfl).append
    ((takes_text (fun s => { format := a.format, output := a.output, outDir := s })
      fun _ => rfl).append
    ((takes_setting (fun s => { format := a.format, output := a.output, outDir := a.outDir,
                                snippetLength := s }) htakesLength).append
    ((htakesFlag _ rfl).append (takes_derive _ _)))))

theorem parseAnalyze_options (h : (Request.analyze a).Writable) :
    parseAnalyze (a.options ++ "--" :: a.dumps) = .ok a := by
  have hdumps : a.dumps ≠ [] := h.1
  have hrun : analyzeOptions.run takeAnalyze { options := {} } (a.options ++ "--" :: a.dumps) =
      .ok { options := { a with dumps := [] }, slot := .reading, plain := a.dumps } := by
    rw [(does_options h).run, List.foldlM_append, takes_steps h]
    obtain ⟨dump, dumps, hcons⟩ := List.exists_cons_of_ne_nil hdumps
    rw [hcons]
    exact foldlM_plain { a with dumps := [] } [dump] dumps
  rw [parseAnalyze, hrun]
  simp [bind, Except.bind, hdumps, pure, Except.pure]

end Analyze

theorem parseDecode_options {d : Decode} (h : (Request.decode d).Writable) :
    parseDecode (d.options ++ ["--", d.records]) = .ok d := by
  have hdoes : decodeOptions.Does d.options ((d.indent.values toString).map (.option .indent)) :=
    Options.does_assign rfl (by decide) (by decide) rfl rfl
      (not_mem_values fun n hn => toString_ne (h n hn))
  have hindent : ((d.indent.values toString).map (.option .indent)).foldlM takeDecode
      { options := .absent } = .ok { options := d.indent } := by
    have hread := readSetting_values h
    cases hs : d.indent with
    | absent => rfl
    | bare => rfl
    | given n =>
      rw [hs] at hread
      have hstep := hread _ (List.mem_singleton_self _)
      rw [Setting.values, List.map_singleton, List.foldlM_cons, takeDecode, hstep]
      rfl
  rw [parseDecode, hdoes.run, List.foldlM_append, hindent]
  rfl

section Global

theorem passes_assign {name : String} {more : List Char}
    (hname : name.toList = '-' :: '-' :: more) (hmore : '=' ∉ more)
    (hother : ∀ n ∈ globalOptions.names, ¬ '-' :: '-' :: more <+: n.1.toList)
    (values : List (Option String)) :
    ∀ arg ∈ assign name values, arg ≠ "--" ∧ (globalOptions.token? arg).isSome := by
  intro arg harg
  obtain ⟨v, -, rfl⟩ := List.mem_map.mp harg
  exact ⟨Options.assigned_ne _ _,
    Options.isSome_token?_assigned hname hmore (by decide) hother _⟩

theorem passes_options (a : Analyze) :
    ∀ arg ∈ a.options, arg ≠ "--" ∧ (globalOptions.token? arg).isSome := by
  have hflag : ∀ arg ∈ if a.recordAllCalls then ["--record-all-calls"] else [],
      arg ≠ "--" ∧ (globalOptions.token? arg).isSome := by
    cases a.recordAllCalls with
    | false => nofun
    | true => decide
  simp only [Analyze.options, List.forall_mem_append]
  exact ⟨passes_assign rfl (by decide) (by decide) _, passes_assign rfl (by decide) (by decide) _,
    passes_assign rfl (by decide) (by decide) _, passes_assign rfl (by decide) (by decide) _,
    hflag, passes_assign rfl (by decide) (by decide) _⟩

theorem takeGlobal_verbose (n : Nat) (g : Global) (tokens : List (Token GlobalOption × String)) :
    takeGlobal g (List.replicate n (.option .verbose, "-v") ++ tokens) =
      takeGlobal { g with verbosity := g.verbosity + n } tokens := by
  induction n generalizing g with
  | zero => rfl
  | succ n ih =>
    have hrest := ih { g with verbosity := g.verbosity + 1 }
    rw [Nat.add_assoc, Nat.add_comm 1] at hrest
    exact hrest

theorem tokens?_verbose {args : List String} {tokens : List (Token GlobalOption × String)}
    (h : globalOptions.tokens? args = some tokens) (n : Nat) :
    globalOptions.tokens? (List.replicate n "-v" ++ args) =
      some (List.replicate n (.option .verbose, "-v") ++ tokens) := by
  induction n with
  | zero => exact h
  | succ n ih =>
    rw [List.replicate_succ, List.cons_append, Options.tokens?_cons (by decide), ih]
    rfl

theorem parse_command {name : String} {options plain : List String} {request : Request}
    (hdashes : name ≠ "--") (hname : globalOptions.token? name = some .plain)
    (hoptions : ∀ arg ∈ options, arg ≠ "--" ∧ (globalOptions.token? arg).isSome)
    (hparse : parseCommand name (options ++ "--" :: plain) = .ok request) (verbosity : Nat) :
    parse (List.replicate verbosity "-v" ++ name :: (options ++ "--" :: plain)) =
      .ok ⟨verbosity, request⟩ := by
  obtain ⟨tokens, htokens, hargs⟩ := Options.exists_tokens? hoptions plain
  have hall : globalOptions.tokens? (name :: (options ++ "--" :: plain)) =
      some ((.plain, name) :: tokens) := by
    rw [Options.tokens?_cons hdashes, hname, htokens]
    rfl
  rw [parse, tokens?_verbose hall]
  dsimp only
  rw [takeGlobal_verbose, takeGlobal, hargs, hparse, Nat.zero_add]
  rfl

theorem parse_arguments (verbosity : Nat) {request : Request} (h : request.Writable) :
    parse (List.replicate verbosity "-v" ++ request.arguments) = .ok ⟨verbosity, request⟩ := by
  cases request with
  | analyze a =>
    apply parse_command (by decide) rfl (passes_options a)
    rw [parseCommand, if_pos rfl, parseAnalyze_options h]
    rfl
  | decode d =>
    have hpasses : ∀ arg ∈ d.options, arg ≠ "--" ∧ (globalOptions.token? arg).isSome :=
      passes_assign rfl (by decide) (by decide) _
    apply parse_command (by decide) rfl hpasses
    rw [parseCommand, if_neg (by decide), if_pos rfl, parseDecode_options h]
    rfl

end Global

def Request.report (site : Site) : Request → Report
  | .analyze a => Command.analyze site a
  | .decode d => Command.decode site d

/-- A request that is written as arguments is run as it stands, and of what it logs only that is
kept which the verbosity lets through. -/
theorem run_arguments (site : Site) (verbosity : Nat) (request : Request) (h : request.Writable) :
    run site (List.replicate verbosity "-v" ++ request.arguments) =
      { request.report site with
        log := Log.atLeast (logRank verbosity) (request.report site).log } := by
  rw [run, parse_arguments verbosity h]
  cases request <;> rfl

example : (Request.analyze { dumps := ["a.el"], output := .given "o", outDir := .bare }).arguments =
    ["analyze", "--output=o", "--out-dir=--", "--", "a.el"] := by decide

end CrateAudit.Command
