import LocaleCharmap.Command.Arguments
import LocaleCharmap.Render
import LocaleCharmap.Charmap.Parse
/-!
# Running the tool

The tool reads a charmap from its input path or from standard input, picks a table name, and
writes the table, its C source, the charmap as JSON, or a summary, to the output path or to
standard output. Reports go to standard error as `[level] origin: message` when their level is
within the one asked for: `-v` asks for info, `-vv` for debug and more for trace; without `-v`
the setting `CHARMAP_LOG` names a level, and warnings are shown otherwise. A failure is written
as `Error:`, then the context and its causes, and ends the run with status 1; a refused command
line ends it with status 2. An output file that cannot be created is reported under the context
`creating`; a failed write to it is reported on its own.

The run talks to its surroundings only through a `Host`, so the same run serves a process and a
model of one.
-/

namespace LocaleCharmap.Command

open LocaleCharmap.Text

/-- Why an output file was not written, with the system's description: it could not be created,
or writing to it failed once it was. -/
inductive StoreFault where
  | create (description : String)
  | write (description : String)
  deriving DecidableEq, Repr

/-- The system's description of a failure by its error number, as the tool reports it: the
message of the number and the number itself. -/
def systemErrorText (code : Nat) : String :=
  let message := match code with
    | 1 => "Operation not permitted"
    | 2 => "No such file or directory"
    | 5 => "Input/output error"
    | 13 => "Permission denied"
    | 17 => "File exists"
    | 20 => "Not a directory"
    | 21 => "Is a directory"
    | 22 => "Invalid argument"
    | 24 => "Too many open files"
    | 27 => "File too large"
    | 28 => "No space left on device"
    | 30 => "Read-only file system"
    | 36 => "File name too long"
    | 40 => "Too many levels of symbolic links"
    | _ => "Unknown error " ++ toString code
  message ++ " (os error " ++ toString code ++ ")"

/-- What the tool needs from its surroundings. File errors are the system's descriptions. -/
structure Host (m : Type → Type) where
  fetch : String → m (Except String (List UInt8))
  fetchInput : m (List UInt8)
  store : String → List UInt8 → m (Except StoreFault Unit)
  writeOutput : List UInt8 → m Unit
  writeError : String → m Unit
  logSetting : m (Option String)

/-- The rank up to which reports are shown: `off` shows none, `trace` all. -/
def levelRank (verbosity : Nat) (setting : Option String) : Nat :=
  match verbosity with
  | 0 =>
    let named := setting.bind fun s =>
      let t := String.ofList (trim s.toList) |>.map Char.toLower
      [("off", 0), ("error", 1), ("warn", 2), ("info", 3), ("debug", 4), ("trace", 5)].lookup t
    named.getD 2
  | 1 => 3
  | 2 => 4
  | _ => 5

/-- How the level of a report is written. -/
def Level.tag : Level → String
  | .error => "error"
  | .warn => "warn"
  | .info => "info"
  | .debug => "debug"
  | .trace => "trace"

/-- How the origin of a report is written. -/
def Origin.tag : Origin → String
  | .reading => "charmap_rs::decode::parser"
  | .checking => "charmap_rs::decode::validation"
  | .tabulating => "charmap_rs::encode::table"
  | .tool => "charmap_cli"

/-- A report as a line of standard error. -/
def reportLine (d : Diagnostic) : String :=
  "[" ++ Level.tag d.level ++ "] " ++ Origin.tag d.origin ++ ": " ++ d.message ++ "\n"

/-- A failure of a run: what was being done, and the chain of causes under it. -/
structure Failure where
  headline : String
  causes : List String

/-- The causes of a fault, outermost first. -/
def faultChain : Fault → List String
  | f@(.unreadable e) => [f.message, e.message]
  | f => [f.message]

/-- A fault, under a context when there is one. -/
def Failure.ofFault (context : Option String) (f : Fault) : Failure :=
  match context, faultChain f with
  | some c, chain => ⟨c, chain⟩
  | none, head :: rest => ⟨head, rest⟩
  | none, [] => ⟨f.message, []⟩

/-- The text of a failure: one cause stands indented, several are numbered. -/
def Failure.text (e : Failure) : String :=
  let causes := match e.causes with
    | [] => ""
    | [c] => "\n\nCaused by:\n    " ++ c
    | cs => "\n\nCaused by:" ++ String.join (cs.mapIdx fun i c =>
        "\n" ++ String.ofList (List.replicate (5 - (toString i).length) ' ') ++ toString i ++
          ": " ++ c)
  "Error: " ++ e.headline ++ causes ++ "\n"

/-- The last part of a path and that part without its extension: the text before the last dot,
unless the only dot leads the name. -/
def fileStem (path : String) : Option String :=
  let parts := (path.splitOn "/").filter fun p => !p.isEmpty && p != "."
  match parts.getLast? with
  | none => none
  | some ".." => none
  | some last =>
    let cs := last.toList
    match (cs.reverse.span (· != '.')) with
    | (_, []) => some last
    | (_, _ :: before) =>
      if before.isEmpty then some last else some (String.ofList before.reverse)

/-- The summary of a charmap. -/
def summaryText (m : Charmap) (tabulated : Nat) : String :=
  "code_set_name: " ++ m.codeSetName.getD "-" ++ "\n" ++
    (if m.aliases.isEmpty then "" else "aliases: " ++ ", ".intercalate m.aliases.toList ++ "\n") ++
    "mb_cur_min: " ++ toString m.mbCurMin ++ "\n" ++
    "mb_cur_max: " ++ toString m.mbCurMax ++ "\n" ++
    "characters: " ++ toString m.size ++ "\n" ++
    "tabulated: " ++ toString tabulated ++ "\n" ++
    "missing portable: " ++ toString m.missingPortable.length ++ "\n"

/-- The bytes a run writes for a charmap, and the reports made on the way. -/
def produce (s : Settings) (m : Charmap) (name : String) : Except Fault (List UInt8) × Array Diagnostic :=
  match s.format with
  | .binary => (m.render name .binary).run
  | .cSource => (m.render name .cSource).run
  | .json =>
    let text := if s.pretty then m.toJson.pretty else m.toJson.compact
    (.ok (utf8Bytes (text ++ "\n")), #[])
  | .summary =>
    let (table, log) := (LocaleTable.ofCharmap m name).run
    let tabulated := match table with
      | .ok t => t.size
      | .error _ => 0
    (.ok (utf8Bytes (summaryText m tabulated)), log)

/-- Runs the tool with these arguments and gives its exit status. -/
def run {m : Type → Type} [Monad m] (host : Host m) (args : List String) : m UInt32 := do
  match readArguments args with
  | .help => host.writeOutput (utf8Bytes helpText); pure 0
  | .version => host.writeOutput (utf8Bytes versionText); pure 0
  | .refused message => host.writeError message; pure 2
  | .run s =>
    let rank := levelRank s.verbosity (← host.logSetting)
    let emit (log : Array Diagnostic) : m Unit :=
      log.forM fun d => if d.level.rank ≤ rank then host.writeError (reportLine d) else pure ()
    let fail (e : Failure) : m UInt32 := do host.writeError e.text; pure 1
    let opts : Options := ⟨s.strict, s.requirePortable⟩
    let parsed ← match s.input with
      | some path => do
        match ← host.fetch path with
        | .error description =>
          pure (.error (Failure.ofFault (some ("reading " ++ path))
            (.unreadable (.system description))))
        | .ok bytes =>
          let (result, log) := (Charmap.parseFile bytes opts).run
          emit log
          pure (result.mapError (Failure.ofFault (some ("reading " ++ path))))
      | none => do
        match decodeStrict? (← host.fetchInput) with
        | none => pure (.error ⟨ReadFault.notText.message, []⟩)
        | some text =>
          let (result, log) := (Charmap.parse text opts).run
          emit log
          pure (result.mapError (Failure.ofFault none))
    match parsed with
    | .error e => fail e
    | .ok charmap =>
      let name := s.name.getD (charmap.codeSetName.getD
        ((s.input.bind fileStem).getD "charmap"))
      emit #[.summary charmap.size charmap.mbCurMin charmap.mbCurMax]
      let (bytes, log) := produce s charmap name
      emit log
      match bytes with
      | .error f => fail (Failure.ofFault none f)
      | .ok bytes =>
        match s.output with
        | some path =>
          match ← host.store path bytes with
          | .ok () => pure 0
          | .error (.create description) => fail ⟨"creating " ++ path, [description]⟩
          | .error (.write description) => fail ⟨description, []⟩
        | none => host.writeOutput bytes; pure 0

end LocaleCharmap.Command
