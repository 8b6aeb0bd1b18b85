import Apex.Scan.Collect

/-!
# Command lines

What is asked for on the command line: a command with its options and paths. Options are long
words, may stand anywhere behind the command, and take their value from the same argument behind
an equals sign or from the next one. Behind two dashes alone everything is a path.
-/

namespace Apex

/-- Why a command line cannot be followed. -/
inductive UsageError where
  /-- There is no command. -/
  | noCommand
  /-- The argument means nothing at its place. -/
  | unexpected (argument : String)
  /-- The option needs a value. -/
  | noValue (option : String)
  /-- The option takes no value. -/
  | needlessValue (option : String)
  /-- The value does not fit the option. -/
  | badValue (option value : String)
  /-- The option is given twice. -/
  | repeated (option : String)
  /-- The two options exclude each other. -/
  | conflict (option other : String)
  /-- A path is empty. -/
  | emptyPath
  /-- The file is missing. -/
  | noFile
  /-- An explanation is asked for in the place of anything else. -/
  | helpWanted
deriving DecidableEq, Repr

/-- What the user is told. -/
def UsageError.message : UsageError → String
  | .noCommand => "error: a command is required: check, outline, stats or fmt"
  | .unexpected argument => "error: unexpected argument '" ++ argument ++ "'"
  | .noValue option => "error: a value is required for '--" ++ option ++ "'"
  | .needlessValue option => "error: '--" ++ option ++ "' takes no value"
  | .badValue option value => "error: invalid value '" ++ value ++ "' for '--" ++ option ++ "'"
  | .repeated option => "error: '--" ++ option ++ "' cannot be used multiple times"
  | .conflict option other =>
    "error: '--" ++ option ++ "' cannot be used with '--" ++ other ++ "'"
  | .emptyPath => "error: a path must not be empty"
  | .noFile => "error: a file is required"
  | .helpWanted => "for an explanation, try '--help'"

/-! ## Options and paths -/

/-- The options of the commands. -/
inductive CommandOption where
  | ext | maxFiles | json | skipBodies | check | diff
deriving DecidableEq, Repr

namespace CommandOption

/-- The option's word, without the dashes in front. -/
def word : CommandOption → String
  | .ext => "ext"
  | .maxFiles => "max-files"
  | .json => "json"
  | .skipBodies => "skip-bodies"
  | .check => "check"
  | .diff => "diff"

/-- Whether the option has a value. -/
def takesValue : CommandOption → Bool
  | .ext | .maxFiles => true
  | _ => false

/-- Whether the option may be given more than once. -/
def isRepeatable (o : CommandOption) : Bool := o == .ext

end CommandOption

/-- The arguments behind a command, sorted out. -/
structure SortedArguments where
  /-- The options with their values, in the order given; a flag has an empty value. -/
  options : List (CommandOption × String) := []
  /-- The paths, in the order given. -/
  paths : List Path := []
deriving DecidableEq, Repr

namespace SortedArguments

/-- Whether an option is given. -/
def has (s : SortedArguments) (o : CommandOption) : Bool := s.options.any (·.1 == o)

/-- The values of an option. -/
def values (s : SortedArguments) (o : CommandOption) : List String :=
  (s.options.filter (·.1 == o)).map (·.2)

end SortedArguments

/-- A natural number below `2 ^ 64`: decimal digits, perhaps behind a plus sign. -/
def readCount? (text : String) : Option Nat :=
  let digits :=
    match text.toList with
    | '+' :: digits => digits
    | digits => digits
  if digits.isEmpty || digits.any (!·.isDigit) then none
  else
    let value := digits.foldl (fun n d => n * 10 + (d.toNat - '0'.toNat)) 0
    if value < UInt64.size then some value else none

/-- Takes note of an option with its value. -/
def addOption (s : SortedArguments) (o : CommandOption) (value : String) :
    Except UsageError SortedArguments :=
  if s.has o && !o.isRepeatable then .error (.repeated o.word)
  else if o = .maxFiles && (readCount? value).isNone then .error (.badValue o.word value)
  else .ok { s with options := s.options ++ [(o, value)] }

/-- Takes note of a path, of which at most `limit` are allowed if there is a limit. -/
def addPath (limit : Option Nat) (s : SortedArguments) (argument : String) :
    Except UsageError SortedArguments :=
  if limit.any (· ≤ s.paths.length) then .error (.unexpected argument)
  else if argument.isEmpty then .error .emptyPath
  else .ok { s with paths := s.paths ++ [⟨argument⟩] }

/-- Whether an argument is written like an option. A dash alone is a path. -/
def looksLikeOption (argument : String) : Bool :=
  match argument.toList with
  | '-' :: _ :: _ => true
  | _ => false

/-- The word of a long option, and its value if one is attached with an equals sign. -/
def splitOption? (argument : String) : Option (String × Option String) :=
  match argument.toList with
  | '-' :: '-' :: letters =>
    let word := String.ofList (letters.takeWhile (· ≠ '='))
    match letters.dropWhile (· ≠ '=') with
    | [] => some (word, none)
    | _ :: value => some (word, some (String.ofList value))
  | _ => none

/-- Whether an argument asks for an explanation. -/
def asksForHelp (argument : String) : Bool :=
  argument = "--help" || argument.toList.take 2 = ['-', 'h']

/-- Sorts out the arguments behind a command that has the given options. The first thing wrong
counts, or a request for an explanation if it comes before. -/
def sortArguments (allowed : List CommandOption) (limit : Option Nat) (s : SortedArguments) :
    List String → Except UsageError SortedArguments
  | [] => .ok s
  | "--" :: rest => rest.foldlM (addPath limit) s
  | argument :: rest =>
    if asksForHelp argument then .error .helpWanted
    else if looksLikeOption argument then
      match splitOption? argument with
      | none => .error (.unexpected argument)
      | some (word, attached) =>
        match allowed.find? (·.word == word), attached, rest with
        | none, _, _ => .error (.unexpected argument)
        | some o, some value, rest =>
          if o.takesValue then do sortArguments allowed limit (← addOption s o value) rest
          else .error (.needlessValue word)
        | some o, none, [] =>
          if o.takesValue then .error (.noValue word) else addOption s o ""
        | some o, none, value :: later =>
          if o.takesValue then
            if looksLikeOption value then .error (.noValue word)
            else do sortArguments allowed limit (← addOption s o value) later
          else do sortArguments allowed limit (← addOption s o "") (value :: later)
    else do sortArguments allowed limit (← addPath limit s argument) rest

/-! ## Commands -/

/-- The files a command is about. -/
structure Selection where
  /-- Files and directories. -/
  paths : List Path
  /-- Which of their files are meant. -/
  settings : ScanSettings
deriving DecidableEq, Repr

/-- What is done with formatted programs. -/
inductive FormatMode where
  /-- They are printed. -/
  | print
  /-- The files that are not formatted are named. -/
  | check
  /-- What formatting changes is shown. -/
  | difference
deriving DecidableEq, Repr

/-- What a command line asks for. -/
inductive Request where
  /-- To name the version. -/
  | version
  /-- To explain the commands. -/
  | help
  /-- To parse files and look for operations on records inside loops. -/
  | check (selection : Selection)
  /-- To outline a file. -/
  | outline (file : Path)
  /-- To count nodes. -/
  | statistics (selection : Selection) (asJson skipsBodies : Bool)
  /-- To format files. -/
  | format (selection : Selection) (mode : FormatMode)
deriving DecidableEq, Repr

namespace SortedArguments

/-- The files selected; without a path, those below the current directory. Dots in front of an
extension do not count. -/
def selection (s : SortedArguments) : Selection where
  paths := if s.paths.isEmpty then [⟨"."⟩] else s.paths
  settings :=
    { extensions :=
        if s.has .ext then
          (s.values .ext).map fun e => String.ofList (e.toList.dropWhile (· = '.'))
        else ({} : ScanSettings).extensions
      maxFiles := (s.values .maxFiles).head?.bind readCount? }

/-- What is to be done with formatted programs. -/
def formatMode (s : SortedArguments) : Except UsageError FormatMode :=
  if s.has .check then
    if s.has .diff then .error (.conflict "diff" "check") else .ok .check
  else if s.has .diff then .ok .difference
  else .ok .print

end SortedArguments

/-- The options by which files are selected. -/
def selectionOptions : List CommandOption := [.ext, .maxFiles]

/-- The words of the commands. -/
def commandWords : List String := ["check", "outline", "stats", "fmt"]

/-- What a command with the arguments behind it asks for. -/
def readCommand (command : String) (arguments : List String) : Except UsageError Request :=
  let sort (options : List CommandOption) (limit : Option Nat) :=
    sortArguments options limit {} arguments
  if command = "check" then do
    return .check (← sort selectionOptions none).selection
  else if command = "outline" then do
    match (← sort [] (some 1)).paths with
    | file :: _ => return .outline file
    | [] => throw .noFile
  else if command = "stats" then do
    let s ← sort (selectionOptions ++ [.json, .skipBodies]) none
    return .statistics s.selection (s.has .json) (s.has .skipBodies)
  else if command = "fmt" then do
    let s ← sort (selectionOptions ++ [.check, .diff]) none
    return .format s.selection (← s.formatMode)
  else throw (.unexpected command)

/-- What a command line asks for. -/
def readArguments : List String → Except UsageError Request
  | [] => .error .noCommand
  | first :: rest =>
    if first = "--version" || first.toList.take 2 = ['-', 'V'] then .ok .version
    else if asksForHelp first then .ok .help
    else if first = "help" then
      match rest with
      | [] => .ok .help
      | [command] =>
        if (first :: commandWords).contains command then .ok .help
        else .error (.unexpected command)
      | _ :: second :: _ => .error (.unexpected second)
    else
      match readCommand first rest with
      | .error .helpWanted => .ok .help
      | result => result

end Apex
