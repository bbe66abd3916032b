import CrateAudit.Number.Integer

namespace CrateAudit.Command

open Text

structure Options (α : Type) where
  names : List (String × α)
  takesValue : α → Bool

inductive Token (α : Type) where
  | plain
  /-- Two dashes: all that follows is plain. -/
  | dashes
  /-- An option that is not known. -/
  | unknown
  | option (a : α)
  /-- An option with a text in the same argument, after an equals sign or directly. -/
  | valued (a : α) (long : Bool) (text : List Char)

/-- What parsing does next. An option that takes a value comes without one if two dashes stand for
it. -/
inductive Step (α : Type) where
  | plain (s : String)
  | dashes
  | unknown
  | option (a : α) (value : Option String)
  | misuse

variable {α : Type}

def Options.find? (o : Options α) (name : List Char) : Option α :=
  (o.names.find? fun n => n.1.toList = name).map Prod.snd

def isLong (name : List Char) : Bool :=
  ['-', '-'].isPrefixOf name

def splitEquals (cs : List Char) : List Char × Option (List Char) :=
  match cs.dropWhile (· ≠ '=') with
  | _ :: after => (cs.takeWhile (· ≠ '='), some after)
  | [] => (cs, none)

/-- A dash and digits, with at most one point before the last of them; a line feed may follow. -/
def isNegativeNumber (cs : List Char) : Bool :=
  match cs with
  | '-' :: body =>
    let body := if body.getLast? = some '\n' then body.dropLast else body
    match spanDigits body with
    | (_ :: _, []) => true
    | (_, '.' :: rest) =>
      match spanDigits rest with
      | (_ :: _, []) => true
      | _ => false
    | _ => false
  | _ => false

/-- The options that an argument may abbreviate, or stand in front of. -/
def Options.candidates (o : Options α) (cs : List Char) : List (Token α) :=
  if isLong cs then
    let (name, value) := splitEquals cs
    (o.names.filter fun n => name.isPrefixOf n.1.toList).map fun n =>
      match value with
      | some v => .valued n.2 true v
      | none => .option n.2
  else
    (o.names.filter fun n => n.1.toList = cs.take 2).map fun n => .valued n.2 false (cs.drop 2)

/-- Recognises one argument; an abbreviation of several options is none of them. -/
def Options.token? (o : Options α) (arg : String) : Option (Token α) :=
  let cs := arg.toList
  match cs with
  | [] | ['-'] => some .plain
  | '-' :: _ =>
    match o.find? cs, splitEquals cs with
    | some a, _ => some (.option a)
    | none, (name, value) =>
      match value, o.find? name with
      | some v, some a => some (.valued a (isLong name) v)
      | _, _ =>
        match o.candidates cs with
        | [t] => some t
        | _ :: _ :: _ => none
        | [] => some (if isNegativeNumber cs || cs.contains ' ' then .plain else .unknown)
  | _ => some .plain

def Options.tokens? (o : Options α) : List String → Option (List (Token α × String))
  | [] => some []
  | "--" :: args => some ((.dashes, "--") :: args.map fun a => (.plain, a))
  | arg :: args => do
    let t ← o.token? arg
    let rest ← o.tokens? args
    return (t, arg) :: rest

/-- The value that a text gives an option. Two dashes end the options wherever they stand, and are
no value. -/
def valueOf (cs : List Char) : Option String :=
  if cs = ['-', '-'] then none else some (String.ofList cs)

structure Cluster (α : Type) where
  options : List (α × Option String)
  last : Option α := none

/-- Takes an option apart that has a text directly behind it: a value, or more options of one letter
each. -/
def Options.cluster? (o : Options α) (a : α) (long : Bool) : List Char → Option (Cluster α)
  | [] => if o.takesValue a then some { options := [(a, some "")] } else none
  | c :: cs =>
    if o.takesValue a then some { options := [(a, valueOf (c :: cs))] }
    else if long then none
    else do
      let b ← o.find? ['-', c]
      match cs with
      | [] => return { options := [(a, none)], last := some b }
      | cs =>
        let k ← o.cluster? b false cs
        return { k with options := (a, none) :: k.options }

def Cluster.steps (k : Cluster α) : List (Step α) :=
  k.options.map fun p => .option p.1 p.2

def Options.steps (o : Options α) : List (Token α × String) → List (Step α)
  | [] => []
  | (.plain, s) :: rest => .plain s :: o.steps rest
  | (.dashes, _) :: rest => .dashes :: o.steps rest
  | (.unknown, _) :: rest => .unknown :: o.steps rest
  | (.option a, _) :: rest =>
    if o.takesValue a then
      match rest with
      | (.plain, s) :: rest => .option a (some s) :: o.steps rest
      | _ => [.misuse]
    else .option a none :: o.steps rest
  | (.valued a long text, _) :: rest =>
    match o.cluster? a long text with
    | none => [.misuse]
    | some k =>
      match k.last with
      | none => k.steps ++ o.steps rest
      | some b =>
        if o.takesValue b then
          match rest with
          | (.plain, s) :: rest => k.steps ++ .option b (some s) :: o.steps rest
          | _ => [.misuse]
        else k.steps ++ .option b none :: o.steps rest

inductive Stop where
  | usage
  | help
  | version

/-- Recognises all arguments before anything is done, then does it step by step. -/
def Options.run {σ : Type} (o : Options α) (take : σ → Step α → Except Stop σ) (s : σ)
    (args : List String) :
    Except Stop σ :=
  match o.tokens? args with
  | none => .error .usage
  | some tokens => (o.steps tokens).foldlM take s

/-- What an option is set to. One that is named without a value is not the same as one that is not
named. -/
inductive Setting (α : Type) where
  | absent
  | bare
  | given (a : α)

def Setting.ofOption {β : Type} : Option β → Setting β
  | some b => given b
  | none => bare

structure Analyze where
  dumps : List String := []
  format : Setting String := .absent
  output : Setting String := .absent
  outDir : Setting String := .absent
  snippetLength : Setting Int := .absent
  recordAllCalls : Bool := false
  /-- More traits that can be derived, each of them possibly left without a name. -/
  derive : List (Option String) := []

structure Decode where
  records : String
  indent : Setting Int := .absent

inductive Request where
  | analyze (a : Analyze)
  | decode (d : Decode)

structure Invocation where
  verbosity : Nat
  request : Request

inductive AnalyzeOption where
  | help
  | format
  | output
  | outDir
  | snippetLength
  | recordAllCalls
  | derive
deriving DecidableEq

def analyzeOptions : Options AnalyzeOption where
  names := [
    ("-h", .help), ("--help", .help), ("-f", .format), ("--format", .format), ("-o", .output),
    ("--output", .output), ("--out-dir", .outDir), ("--snippet-length", .snippetLength),
    ("--record-all-calls", .recordAllCalls), ("--derive", .derive)]
  takesValue a := a ≠ .help && a ≠ .recordAllCalls

/-- The plain arguments of a command: none so far, the run of them that is being read, or all that
are wanted. -/
inductive Slot where
  | empty
  | reading
  | full
deriving DecidableEq

/-- A command whose plain arguments are being read. Arguments that nothing wants are noted, and
refused at the end. -/
structure Progress (σ : Type) where
  options : σ
  slot : Slot := .empty
  plain : List String := []
  left : Bool := false

def Slot.close : Slot → Slot
  | .reading => .full
  | s => s

def readInt (s : String) : Except Stop Int :=
  match Number.readInt? s.toList with
  | some n => .ok n
  | none => .error .usage

def readSetting (value : Option String) : Except Stop (Setting Int) := do
  return .ofOption (← value.mapM readInt)

def takeAnalyzeOption (a : Analyze) (o : AnalyzeOption) (value : Option String) :
    Except Stop Analyze :=
  match o with
  | .help => .error .help
  | .format =>
    if value.all fun s => s = "json" ∨ s = "sexp" then .ok { a with format := .ofOption value }
    else .error .usage
  | .output => .ok { a with output := .ofOption value }
  | .outDir => .ok { a with outDir := .ofOption value }
  | .snippetLength => do
    let n ← readSetting value
    return { a with snippetLength := n }
  | .recordAllCalls => .ok { a with recordAllCalls := true }
  | .derive => .ok { a with derive := a.derive ++ [value] }

def takeAnalyze (p : Progress Analyze) : Step AnalyzeOption → Except Stop (Progress Analyze)
  | .misuse => .error .usage
  | .unknown => .ok { p with left := true, slot := p.slot.close }
  | .plain s =>
    if p.slot = .full then .ok { p with left := true }
    else .ok { p with slot := .reading, plain := p.plain ++ [s] }
  | .dashes => .ok (if p.slot = .full then { p with left := true } else p)
  | .option o value => do
    let a ← takeAnalyzeOption p.options o value
    return { p with options := a, slot := p.slot.close }

def parseAnalyze (args : List String) : Except Stop Analyze := do
  let p ← analyzeOptions.run takeAnalyze { options := {} } args
  if p.left ∨ p.plain.isEmpty then .error .usage
  return { p.options with dumps := p.plain }

inductive DecodeOption where
  | help
  | indent
deriving DecidableEq

def decodeOptions : Options DecodeOption where
  names := [("-h", .help), ("--help", .help), ("--indent", .indent)]
  takesValue o := o ≠ .help

/-- The records are one plain argument; two dashes may stand on either side of it. -/
def takeDecode (p : Progress (Setting Int)) :
    Step DecodeOption → Except Stop (Progress (Setting Int))
  | .misuse => .error .usage
  | .unknown => .ok { p with left := true, slot := p.slot.close }
  | .plain s =>
    if p.slot = .empty then .ok { p with slot := .reading, plain := [s] }
    else .ok { p with left := true, slot := .full }
  | .dashes => .ok (if p.slot = .full then { p with left := true } else p)
  | .option .help _ => .error .help
  | .option .indent value => do
    let n ← readSetting value
    return { p with options := n, slot := p.slot.close }

def parseDecode (args : List String) : Except Stop Decode := do
  let p ← decodeOptions.run takeDecode { options := .absent } args
  match p.left, p.plain with
  | false, [records] => return ⟨records, p.options⟩
  | _, _ => .error .usage

inductive GlobalOption where
  | help
  | version
  | verbose

def globalOptions : Options GlobalOption where
  names := [
    ("-h", .help), ("--help", .help), ("--version", .version), ("-v", .verbose),
    ("--verbose", .verbose)]
  takesValue _ := false

structure Global where
  verbosity : Nat := 0
  request : Option Request := none
  left : Bool := false

def parseCommand (name : String) (args : List String) : Except Stop Request :=
  if name = "analyze" then .analyze <$> parseAnalyze args
  else if name = "decode" then .decode <$> parseDecode args
  else .error .usage

/-- Everything from the first plain argument on belongs to the command. -/
def takeGlobal (g : Global) : List (Token GlobalOption × String) → Except Stop Global
  | [] => .ok g
  | (.plain, name) :: rest => do
    let request ← parseCommand name (rest.map Prod.snd)
    return { g with request := some request }
  | t :: rest =>
    match globalOptions.steps [t] with
    | steps => do
      let g ← steps.foldlM takeStep g
      takeGlobal g rest
where
  takeStep (g : Global) : Step GlobalOption → Except Stop Global
    | .option .help _ => .error .help
    | .option .version _ => .error .version
    | .option .verbose _ => .ok { g with verbosity := g.verbosity + 1 }
    | .unknown => .ok { g with left := true }
    | .plain _ | .dashes | .misuse => .error .usage

def parse (args : List String) : Except Stop Invocation :=
  match globalOptions.tokens? args with
  | none => .error .usage
  | some tokens => do
    let g ← takeGlobal {} tokens
    match g.left, g.request with
    | false, some request => return ⟨g.verbosity, request⟩
    | _, _ => .error .usage

end CrateAudit.Command
