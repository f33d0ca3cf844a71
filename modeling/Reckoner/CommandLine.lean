import Reckoner.Calculation
import Reckoner.Text.Blank
import Reckoner.Text.Lines

/-! The command line as a function from arguments and input to what is written. An expression among
the arguments is answered once; without one, each line of the input is. -/
namespace Reckoner.CommandLine

def version : String := "0.2.0"

structure Options where
  debug : Bool := false
  verbose : Bool := false
  point : String := "."
  grouping : String := "',_"
  deriving DecidableEq, Repr

def Options.symbols (options : Options) : Numeral.Symbols :=
  .ofLists options.point (Text.clusters options.grouping)

def Options.withFlag (options : Options) : Char → Option Options
  | 'd' => some { options with debug := true }
  | 'v' => some { options with verbose := true }
  | _ => none

def Options.withValue (options : Options) (argument : List Char) : Option Options :=
  let value := String.ofList (argument.drop 8)
  match String.ofList (argument.take 8) with
  | "--point=" => some { options with point := value }
  | "--group=" => some { options with grouping := value }
  | _ => none

/-- What the arguments ask for; an empty expression stands for the lines of the input. -/
inductive Request where
  | version
  | evaluate (options : Options) (expression : String)
  deriving DecidableEq, Repr

def Request.ofOperands? (options : Options) : Option String → List String → Option Request
  | expression?, [] => some (.evaluate options (expression?.getD ""))
  | none, [expression] => some (.evaluate options expression)
  | _, _ => none

/-- Reads the arguments after some options and perhaps the expression. An unknown option, one
without its value and a second expression are no request. -/
def Request.parse? (options : Options) (expression? : Option String) :
    List String → Option Request
  | "--" :: rest => ofOperands? options expression? rest
  | "--version" :: _ => some .version
  | "--debug" :: rest => parse? { options with debug := true } expression? rest
  | "--verbose" :: rest => parse? { options with verbose := true } expression? rest
  | "--point" :: point :: rest => parse? { options with point } expression? rest
  | "--group" :: grouping :: rest => parse? { options with grouping } expression? rest
  | argument :: rest =>
    match argument.toList with
    | '-' :: '-' :: _ => do parse? (← options.withValue argument.toList) expression? rest
    | '-' :: flag :: flags => do
      parse? (← (flag :: flags).foldlM Options.withFlag options) expression? rest
    | _ => if expression?.isSome then none else parse? options (some argument) rest
  | [] => ofOperands? options expression? []

def Request.ofArguments? (arguments : List String) : Option Request :=
  parse? {} none arguments

structure Transcript where
  output : String
  errors : String
  exitCode : Nat
  deriving DecidableEq, Repr, Inhabited

/-- A log entry as lines of standard error; further lines of a message are indented. -/
def logLine (entry : Log.Entry) : String :=
  let origin := match entry with
    | .placement _ => "quotient::parser"
    | .tree .. => "quotient::calculator"
    | .reduction _ => "quotient::interpreter"
  let message := entry.message.toList.flatMap fun c =>
    if c = '\n' then ['\n', ' ', ' ', ' ', ' '] else [c]
  "[" ++ entry.detail.name ++ " " ++ origin ++ "] " ++ String.ofList message ++ "\n"

/-- Scripts tell a source that is no expression from one that has no value. -/
def exitCode : Except Error Number → Nat
  | .ok _ => 0
  | .error error => if error.isSyntactic then 65 else 70

def answer (options : Options) (expression : String) : Transcript :=
  let calculation := Calculation.ofSource expression options.symbols
  let log := if options.debug then
      String.join ((calculation.log .debug true).map logLine)
    else ""
  let code := exitCode calculation.outcome
  match calculation.text with
  | .ok text => ⟨expression ++ " = " ++ text ++ "\n", log, code⟩
  | .error error =>
    ⟨"", log ++ (if options.verbose then error.message else "illformed expression") ++ "\n", code⟩

def prompt : String := "$ = "

inductive Turn where
  | leave (output : String)
  | goOn (answer : Transcript)
  deriving DecidableEq, Repr

/-- A blank line is passed over, `q` or `Q` leaves, and so does a line that is not UTF-8. -/
def turn (options : Options) (line : List UInt8) : Turn :=
  match Text.decode? line with
  | none => .leave ("Error reading stdin: Error \x7b kind: InvalidData, " ++
      "message: \"stream did not contain valid UTF-8\" \x7d\n")
  | some text =>
    let expression := Text.trim text
    if expression.isEmpty then .goOn ⟨"", "", 0⟩
    else if expression = "q" || expression = "Q" then .leave ""
    else .goOn (answer options expression)

/-- Answers line after line, with a prompt before each and before the end. -/
def answerLines (options : Options) : List (List UInt8) → Transcript
  | [] => ⟨prompt, "", 0⟩
  | line :: rest =>
    match turn options line with
    | .leave output => ⟨prompt ++ output, "", 0⟩
    | .goOn answer =>
      let others := answerLines options rest
      ⟨prompt ++ answer.output ++ others.output, answer.errors ++ others.errors, 0⟩

def run (request : Request) (input : List UInt8) : Transcript :=
  match request with
  | .version => ⟨version ++ "\n", "", 0⟩
  | .evaluate options expression =>
    if expression.isEmpty then answerLines options (Text.lines input)
    else answer options expression

end Reckoner.CommandLine
