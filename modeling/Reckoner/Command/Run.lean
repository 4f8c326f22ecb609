import Reckoner.Command.Folder
import Reckoner.Command.Options
import Reckoner.Evaluation
import Reckoner.Reader.Stream
import Reckoner.Text.Newline

/-!
# Running a command

A command line names a command, a file and options. Its report holds the lines for the
output and for the debug log and says how the command ended. Nothing is printed of the
values of a run that ends with an error, nor of the diagnostics it has collected.
-/

namespace Reckoner.Command

/-- The number of this version. -/
def version : String := "0.1.0"

/-- How to call the program. -/
def usage : List String :=
  ["exprlang command-line entry point.",
   "",
   "Usage:",
   "    exprlang eval <file> [options]      Evaluate every statement and print the values",
   "    exprlang tokenize <file>            Display the token stream (debug)",
   "    exprlang functions <file>           Show captured function literals",
   "",
   "Options for eval:",
   "    --set NAME=VALUE     Bind a variable (number if it parses as one, else string)",
   "    --collect            Collect recoverable errors instead of stopping at the first",
   "    --clear-on-group     Empty the variable table after each parenthesised group",
   "    --verbose            Enable debug logging"]

/-- Why a command breaks off without an exit code of its own. -/
inductive Breakdown where
  /-- The file is a directory. -/
  | directory
  /-- The file is no well-formed UTF-8. -/
  | encoding
  /-- A fault that is no diagnostic. -/
  | fault (f : Fault)
  deriving DecidableEq

/-- How a command ends. -/
inductive Ending where
  | exit (code : Nat)
  | broken (why : Breakdown)
  deriving DecidableEq

/-- What a command prints and how it ends. -/
structure Report where
  lines : List String
  log : List Event
  ending : Ending
  deriving DecidableEq

namespace Report

/-- Lines and an exit code. -/
def exit (code : Nat) (lines : List String) : Report := ⟨lines, [], .exit code⟩

/-- The text of the output. -/
def output (r : Report) : String := String.join (r.lines.map (· ++ "\n"))

/-- The text of the debug log. -/
def logText (r : Report) : String := String.join (r.log.map Event.logLine)

end Report

/-- An error message of the command itself. -/
def errorLine (message : String) : String := "Error: " ++ message

/-- The report of a run that a fault has ended, where `lead` introduces a diagnostic. -/
def faultReport (lead : String) (lines : List String) (log : List Event) : Fault → Report
  | .diagnostic d => ⟨lines ++ [lead ++ d.message], log, .exit 1⟩
  | fault => ⟨lines, log, .broken (.fault fault)⟩

/-- A line of the token listing. -/
def entryLine : Reader.Entry → String
  | .token t => t.display
  | .literal f => "  " ++ f.display

/-- Lists the tokens of a source. -/
def tokenize (source file : String) : Report :=
  let listing := (Reader.ofSource source file .raise).listing
  let lines := listing.items.map entryLine
  match listing.fault with
  | none => .exit 0 lines
  | some fault => faultReport "Lexer error: " lines [] fault

/-- The line of a collected diagnostic. -/
def diagnosticLine (d : Diagnostic) : String :=
  "  ERROR " ++ d.cause.kind.name ++ ": " ++ d.message

/-- Prints the values of a source and the diagnostics collected. -/
def evaluate (source file : String) (o : Options) : Report :=
  let log (s : Session) := if o.verbose then s.reader.journal.events else []
  match Evaluating.evaluateAll
      (Session.ofSource source file o.policy o.clearOnGroup o.bindings) with
  | .error fault s => faultReport "Error: " [] (log s) fault
  | .ok values s =>
    let lines := values.map Value.display ++ s.collected.map diagnosticLine
    if s.collected = [] then ⟨lines, log s, .exit 0⟩
    else
      let verdict := file ++ ": FAIL (" ++ s.collected.length.repr ++ " error(s))"
      ⟨lines ++ [verdict], log s, .exit 1⟩

/-- Reads the options and evaluates. -/
def evaluateWith (source file : String) (options : List String) : Report :=
  match items options with
  | .error misuse => .exit 1 [errorLine misuse.message]
  | .ok items => evaluate source file (.ofItems items)

/-- The lines of a captured function literal. -/
def literalLines (f : FunctionLiteral) : List String :=
  ["Function: " ++ f.signature, "  body: " ++ f.bodyText]

/-- Shows the function literals of a source. -/
def functions (source file : String) : Report :=
  match Evaluating.evaluateAll (Session.ofSource source file .raise false []) with
  | .error fault _ => faultReport "Error: " [] [] fault
  | .ok _ s => .exit 0 (s.functions.values.flatMap literalLines)

/-- Carries out a command on a source. -/
def onSource (command source file : String) (options : List String) : Report :=
  if command = "tokenize" then tokenize source file
  else if command = "eval" then evaluateWith source file options
  else if command = "functions" then functions source file
  else .exit 1 (errorLine ("unknown command '" ++ command ++ "'") :: usage)

/-- Carries out a command on what its path leads to. -/
def onFile (command : String) (path : Path) (options : List String) : Found → Report
  | .nothing => .exit 1 [errorLine ("file not found: " ++ path.text)]
  | .directory => ⟨[], [], .broken .directory⟩
  | .file bytes =>
    match Text.ofBytes? bytes with
    | none => ⟨[], [], .broken .encoding⟩
    | some source => onSource command source path.text options

/-- A whole command line: either a report, or a path to look up before the report is known. -/
def run (look : Path → Found) : List String → Report
  | [] => .exit 1 usage
  | command :: arguments =>
    if command = "--help" ∨ command = "-h" then .exit 0 usage
    else if command = "--version" then .exit 0 ["exprlang " ++ version]
    else
      match arguments with
      | [] => .exit 1 [errorLine ("command '" ++ command ++ "' requires a file argument")]
      | name :: options =>
        let path := Path.ofString name
        onFile command path options (look path)

end Reckoner.Command
