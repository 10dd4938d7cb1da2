import LocaleCharmap.Command.Similar
/-!
# The command line

The tool takes an optional input path and these options:

* `-f`, `--format <FORMAT>`: `binary` (the default), `c`, `json` or `summary`;
* `--name <NAME>`, `-o`, `--output <OUTPUT>`: a table name and an output path;
* `--strict`, `--require-portable`, `--pretty`: switches;
* `-v`, `--verbose`: more logging each time it is given;
* `-h`, `--help` and `-V`, `--version`.

Arguments are read from left to right. A long option takes its value after `=` or as the next
argument; a short option takes the rest of its argument (after an optional `=`) or the next
argument; short switches can be grouped. After `--` every argument is the input. An option that is
given twice, an unknown option, a value where none belongs, a missing or empty value, an unknown
format and a second input each stop the reading with a message that names the problem, suggests a
similar option or format when there is one, and shows the usage that fits what was given.

A parameter whose value comes in a later argument, and the input, stay pending until the next
parameter or the end: only then are they recorded and their values checked. An unknown option
ends the reading without reporting what is wrong with the pending parameter, and a value given to
a switch is refused before the pending parameter is recorded.
-/

namespace LocaleCharmap.Command

/-- What the tool writes. -/
inductive OutputFormat where
  | binary
  | cSource
  | json
  | summary
  deriving DecidableEq, Repr, Inhabited

/-- The spelling of each format on the command line, in the order they are listed. -/
def formatNames : List (String × OutputFormat) :=
  [("binary", .binary), ("c", .cSource), ("json", .json), ("summary", .summary)]

/-- The options of the tool. -/
inductive Opt where
  | format
  | name
  | strict
  | requirePortable
  | pretty
  | output
  | verbose
  | help
  | version
  deriving DecidableEq, Repr, Inhabited

/-- The options in the order they are declared. -/
def allOpts : List Opt :=
  [.format, .name, .strict, .requirePortable, .pretty, .output, .verbose, .help, .version]

/-- The long spelling, without the dashes. -/
def Opt.long : Opt → String
  | .format => "format"
  | .name => "name"
  | .strict => "strict"
  | .requirePortable => "require-portable"
  | .pretty => "pretty"
  | .output => "output"
  | .verbose => "verbose"
  | .help => "help"
  | .version => "version"

/-- The short spelling, for the options that have one. -/
def Opt.short : Opt → Option Char
  | .format => some 'f'
  | .output => some 'o'
  | .verbose => some 'v'
  | .help => some 'h'
  | .version => some 'V'
  | _ => none

/-- The name of the value an option takes, for the options that take one. -/
def Opt.valueName : Opt → Option String
  | .format => some "FORMAT"
  | .name => some "NAME"
  | .output => some "OUTPUT"
  | _ => none

/-- How messages and usage lines show an option. -/
def Opt.shown (o : Opt) : String :=
  "--" ++ o.long ++
    match o.valueName with
    | some v => " <" ++ v ++ ">"
    | none => if o = .verbose then "..." else ""

/-- What a run of the tool is asked to do. -/
structure Settings where
  format : OutputFormat
  name : Option String
  strict : Bool
  requirePortable : Bool
  pretty : Bool
  output : Option String
  verbosity : Nat
  input : Option String
  deriving DecidableEq, Repr, Inhabited

/-- What the command line asks for. -/
inductive Invocation where
  | run (s : Settings)
  | help
  | version
  /-- The command line is refused with this message. -/
  | refused (message : String)
  deriving DecidableEq, Repr, Inhabited

/-- The help text. -/
def helpText : String :=
  "Turn POSIX charmap files into locale lookup tables\n\n" ++
  "Usage: charmap-cli [OPTIONS] [INPUT]\n\n" ++
  "Arguments:\n" ++
  "  [INPUT]  Input charmap (defaults to stdin)\n\n" ++
  "Options:\n" ++
  "  -f, --format <FORMAT>   Output format [default: binary] " ++
    "[possible values: binary, c, json, summary]\n" ++
  "      --name <NAME>       Table name (defaults to the charmap's <code_set_name>)\n" ++
  "      --strict            Treat recoverable problems as errors\n" ++
  "      --require-portable  Check that the portable character set is fully defined\n" ++
  "      --pretty            Pretty-print JSON output\n" ++
  "  -o, --output <OUTPUT>   Output file (defaults to stdout)\n" ++
  "  -v, --verbose...        More logging; repeat for more detail\n" ++
  "  -h, --help              Print help\n" ++
  "  -V, --version           Print version\n"

/-- The version text. -/
def versionText : String :=
  "charmap-cli 0.1.0\n"

/-- A parameter of the command line: an option, or the input. -/
inductive Param where
  | option (o : Opt)
  | input
  deriving DecidableEq, Repr, Inhabited

/-- Whether a parameter takes a value. -/
def Param.takesValue : Param → Bool
  | .option o => o.valueName.isSome
  | .input => true

/-- Whether a parameter belongs to the group of the tool's own parameters: all but help and
version. -/
def Param.inGroup : Param → Bool
  | .option .help | .option .version => false
  | _ => true

/-- How messages show a parameter. -/
def Param.shown : Param → String
  | .option o => o.shown
  | .input => "[INPUT]"

/-- The group of the tool's own parameters as a usage line shows it. -/
def groupShown : String :=
  "<" ++ "|".intercalate
    ((allOpts.filter fun o => (Param.option o).inGroup).map Opt.shown ++ ["INPUT"]) ++ ">"

/-- The usage line for a refusal that names some parameters: the general usage when it names none;
otherwise the named options, each once and in order, and then either the group, which stands for
its members, or the input, shown as given or as optional. -/
def usageLine (named : List Param) (withGroup : Bool) : String :=
  if named.isEmpty then "Usage: charmap-cli [OPTIONS] [INPUT]"
  else
    let options := (named.filterMap fun p => match p with
      | .option o => if withGroup && p.inGroup then none else some o
      | .input => none).eraseDups
    "Usage: charmap-cli" ++ String.join (options.map fun o => " " ++ o.shown) ++
      if withGroup then " " ++ groupShown
      else if named.contains .input then " <INPUT>" else " [INPUT]"

/-- A refusal: the problem, optional tips, the usage line if any, and a pointer to the help. -/
def refusal (problem : String) (tips : List String) (usage : Option String) : String :=
  "error: " ++ problem ++
    (if tips.isEmpty then "" else "\n" ++ String.join (tips.map fun t => "\n  tip: " ++ t)) ++
    (match usage with | some u => "\n\n" ++ u | none => "") ++
    "\n\nFor more information, try '--help'.\n"

/-- The refusal of a format value, with the formats listed and a similar one suggested. -/
def badFormat (value : String) : String :=
  let problem := if value.isEmpty then
      "a value is required for '" ++ Opt.format.shown ++ "' but none was supplied"
    else "invalid value '" ++ value ++ "' for '" ++ Opt.format.shown ++ "'"
  let listed := problem ++ "\n  [possible values: binary, c, json, summary]"
  let tips := (mostSimilar value (formatNames.map (·.1))).toList.map fun s =>
    "a similar value exists: '" ++ s ++ "'"
  refusal listed tips none

/-- The refusal of a parameter that lacks its value or whose value is empty. -/
def missingValue (p : Param) : String :=
  if p = .option .format then badFormat ""
  else refusal ("a value is required for '" ++ p.shown ++ "' but none was supplied") [] none

/-- The state of reading the command line. -/
structure ReadState where
  settings : Settings
  /-- The parameters recorded so far, each once. A repeated `-v` moves to the end. -/
  recorded : List Param
  /-- A parameter read but not yet recorded, with its value once that has been read. -/
  pending : Option (Param × Option String)
  /-- Whether `--` has been read. -/
  rest : Bool

/-- The settings before any argument. -/
def defaultSettings : Settings :=
  ⟨.binary, none, false, false, false, none, 0, none⟩

/-- What one step of reading leads to: more reading, or an end. -/
inductive Step where
  | more (s : ReadState)
  | done (i : Invocation)

/-- Whether the input has been given, recorded or not. -/
def ReadState.hasInput (s : ReadState) : Bool :=
  s.recorded.contains .input || s.pending.any (·.1 == .input)

/-- Records a complete parameter. A parameter without the value it takes is refused, then a
second use of any option but `-v`; the value is checked last, once the parameter is recorded, so
a refused value leaves the parameter recorded. Gives the new state and the end, if any. -/
def ReadState.record (s : ReadState) (p : Param) (value : Option String) :
    ReadState × Option Invocation :=
  let refuse (message : String) := some (Invocation.refused message)
  let st := s.settings
  let v := value.getD ""
  if p = .option .help then (s, some .help)
  else if p = .option .version then (s, some .version)
  else if p.takesValue && value.isNone then (s, refuse (missingValue p))
  else if p = .option .verbose then
    ({ s with recorded := s.recorded.erase p ++ [p],
               settings := { st with verbosity := st.verbosity + 1 } }, none)
  else if s.recorded.contains p then
    (s, refuse (refusal ("the argument '" ++ p.shown ++ "' cannot be used multiple times") []
      (some (usageLine [] false))))
  else
    let s := { s with recorded := s.recorded ++ [p] }
    match p with
    | .option .strict => ({ s with settings := { st with strict := true } }, none)
    | .option .requirePortable => ({ s with settings := { st with requirePortable := true } }, none)
    | .option .pretty => ({ s with settings := { st with pretty := true } }, none)
    | .option .name => ({ s with settings := { st with name := some v } }, none)
    | .option .format =>
      match formatNames.find? (·.1 == v) with
      | some (_, f) => ({ s with settings := { st with format := f } }, none)
      | none => (s, refuse (badFormat v))
    | .option .output =>
      if v.isEmpty then (s, refuse (missingValue p))
      else ({ s with settings := { st with output := some v } }, none)
    | .input =>
      if v.isEmpty then (s, refuse (missingValue p))
      else ({ s with settings := { st with input := some v } }, none)
    | _ => (s, none)

/-- Records the pending parameter, if there is one. -/
def ReadState.settle (s : ReadState) : ReadState × Option Invocation :=
  match s.pending with
  | none => (s, none)
  | some (p, value) => { s with pending := none }.record p value

/-- Records the pending parameter and goes on, or ends with its refusal. -/
def ReadState.settleThen (s : ReadState) (k : ReadState → Step) : Step :=
  match s.settle with
  | (s, none) => k s
  | (_, some i) => .done i

/-- Takes a complete parameter, after the pending one. -/
def ReadState.take (s : ReadState) (p : Param) (value : Option String) : Step :=
  s.settleThen fun s =>
    match s.record p value with
    | (s, none) => .more s
    | (_, some i) => .done i

/-- Starts an option whose value comes in the next argument. -/
def ReadState.await (s : ReadState) (o : Opt) : Step :=
  s.settleThen fun s => .more { s with pending := some (.option o, none) }

/-- Reads `--long` or `--long=value`. An unknown option is refused after the pending parameter
is recorded, whatever that finds wrong with it; a value given to a switch is refused before. -/
def ReadState.long (s : ReadState) (body : List Char) : Step :=
  let (key, value) := match body.span (· != '=') with
    | (k, []) => (String.ofList k, none)
    | (k, _ :: v) => (String.ofList k, some (String.ofList v))
  match allOpts.find? (·.long == key) with
  | none =>
    let s := s.settle.1
    let suggestion := mostSimilar key (allOpts.map (·.long))
    let tips := match suggestion with
      | some c => ["a similar argument exists: '--" ++ c ++ "'"]
      | none => ["to pass '--" ++ key ++ "' as a value, use '-- --" ++ key ++ "'"]
    let named := match suggestion.bind fun c => allOpts.find? (·.long == c) with
      | some o => if s.recorded.contains (.option o) then s.recorded else s.recorded ++ [.option o]
      | none => s.recorded
    .done (.refused (refusal ("unexpected argument '--" ++ key ++ "' found") tips
      (some (usageLine named false))))
  | some o =>
    match o.valueName, value with
    | none, some v =>
      .done (.refused (refusal ("unexpected value '" ++ v ++ "' for '" ++ o.shown ++
        "' found; no more were expected") []
        (some (usageLine (s.recorded ++ [.option o]) !s.recorded.isEmpty))))
    | some _, some v => s.take (.option o) (some v)
    | some _, none => s.await o
    | none, none => s.take (.option o) none

/-- Reads a group of short options, such as `-vv` or `-fjson`. -/
def ReadState.shorts (s : ReadState) : List Char → Step
  | [] => .more s
  | c :: rest =>
    match allOpts.find? (·.short == some c) with
    | none =>
      let shown := "-" ++ String.singleton c
      .done (.refused (refusal ("unexpected argument '" ++ shown ++ "' found")
        ["to pass '" ++ shown ++ "' as a value, use '-- " ++ shown ++ "'"]
        (some (usageLine [] false))))
    | some o =>
      match o.valueName with
      | some _ =>
        match rest with
        | [] => s.await o
        | '=' :: v => s.take (.option o) (some (String.ofList v))
        | v => s.take (.option o) (some (String.ofList v))
      | none =>
        match s.take (.option o) none with
        | .more s => s.shorts rest
        | .done i => .done i

/-- Reads an argument that is not an option: the value of an option waiting for one, unless `--`
came in between, or else the input. -/
def ReadState.value (s : ReadState) (arg : String) : Step :=
  match s.pending, s.rest with
  | some (p, none), false => .more { s with pending := some (p, some arg) }
  | _, _ =>
    if s.hasInput then
      .done (.refused (refusal ("unexpected argument '" ++ arg ++ "' found") []
        (some (usageLine [] false))))
    else s.settleThen fun s => .more { s with pending := some (.input, some arg) }

/-- Reads one argument. -/
def ReadState.read (s : ReadState) (arg : String) : Step :=
  if s.rest then s.value arg
  else
    match arg.toList with
    | ['-', '-'] => .more { s with rest := true }
    | '-' :: '-' :: body => s.long body
    | '-' :: c :: more => s.shorts (c :: more)
    | _ => s.value arg

/-- Reads the arguments in order, and records the pending parameter at the end. -/
def ReadState.readAll (s : ReadState) : List String → Invocation
  | [] =>
    match s.settle with
    | (s, none) => .run s.settings
    | (_, some i) => i
  | arg :: more =>
    match s.read arg with
    | .more s => s.readAll more
    | .done i => i

/-- What a command line asks for. -/
def readArguments (args : List String) : Invocation :=
  ReadState.readAll ⟨defaultSettings, [], none, false⟩ args

end LocaleCharmap.Command
