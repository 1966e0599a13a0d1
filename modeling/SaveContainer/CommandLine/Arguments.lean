import SaveContainer.Path
import SaveContainer.Text.Terminal

/-!
What the arguments of the command ask for. Arguments are read from left to right, and the first
one that settles the matter does: a request for help or the version, or a mistake.
-/

namespace SaveContainer.CommandLine

open Terminal (bold heading)

structure Invocation where
  container : Path
  base : Option Path
  verbosity : Nat
  deriving DecidableEq

inductive Request where
  | run (i : Invocation)
  | help
  | version
  /-- The arguments make no sense. -/
  | misuse
  deriving DecidableEq

/-- The arguments that were read so far. -/
structure Reading where
  container : Option (List Char)
  base : Option (List Char)
  verbosity : Nat
  /-- The next argument is the base directory. -/
  awaitsBase : Bool
  optionsEnded : Bool

namespace Reading

def start : Reading := ⟨none, none, 0, false, false⟩

/-- A container is given once, and not by an empty name. -/
def setContainer (r : Reading) (arg : List Char) : Except Request Reading :=
  if arg = [] ∨ r.container.isSome then .error .misuse
  else .ok { r with container := some arg }

def setBase (r : Reading) (arg : List Char) : Except Request Reading :=
  if arg = [] ∨ r.base.isSome then .error .misuse
  else .ok { r with base := some arg, awaitsBase := false }

/-- An option after two dashes, with the value behind its equals sign, if it has one. -/
def takeLong (r : Reading) (option : List Char) (value : Option (List Char)) :
    Except Request Reading :=
  match String.ofList option, value with
  | "base-dir", some dir => r.setBase dir
  | "base-dir", none => .ok { r with awaitsBase := true }
  | "verbose", none => .ok { r with verbosity := r.verbosity + 1 }
  | "help", none => .error .help
  | "version", none => .error .version
  | _, _ => .error .misuse

/-- One of the letters behind a single dash. -/
def takeShort (r : Reading) (letter : Char) : Except Request Reading :=
  match letter with
  | 'v' => .ok { r with verbosity := r.verbosity + 1 }
  | 'h' => .error .help
  | 'V' => .error .version
  | _ => .error .misuse

def take (r : Reading) (arg : List Char) : Except Request Reading :=
  if r.optionsEnded then r.setContainer arg
  else match arg with
    | ['-', '-'] => if r.awaitsBase then .error .misuse else .ok { r with optionsEnded := true }
    | '-' :: '-' :: option =>
      if r.awaitsBase then .error .misuse
      else
        let value := option.dropWhile (· ≠ '=')
        r.takeLong (option.takeWhile (· ≠ '=')) (if value = [] then none else some value.tail)
    | '-' :: letter :: letters =>
      if r.awaitsBase then .error .misuse else (letter :: letters).foldlM takeShort r
    | _ => if r.awaitsBase then r.setBase arg else r.setContainer arg

/-- What was asked for when all arguments are read. The environment gives the base directory
if no argument did. -/
def finish (environment : Option String) (r : Reading) : Except Request Invocation :=
  let base := r.base <|> environment.map String.toList
  match r.awaitsBase, r.container, base with
  | true, _, _ | _, none, _ | _, _, some [] => .error .misuse
  | false, some container, base =>
    .ok ⟨⟨Utf8.encode container⟩, base.map fun dir => ⟨Utf8.encode dir⟩, r.verbosity⟩

end Reading

namespace Request

def ofArguments (arguments : List String) (environment : Option String) : Request :=
  let read := do
    let r ← (arguments.map String.toList).foldlM Reading.take Reading.start
    r.finish environment
  match read with
  | .ok i => .run i
  | .error request => request

end Request

/-- The name of the command and its version. -/
def versionText : String := "savetree 0.1.0\n"

/-- What is shown when the arguments make no sense. -/
def usageText : String :=
  "error: the arguments cannot be read\n" ++
  "\n" ++
  "Usage: savetree [OPTIONS] <CONTAINER>\n" ++
  "\n" ++
  "For more information, try --help.\n"

/-- Where the texts of the options start in a line of the help text. -/
def helpColumn : Nat := 24

/-- A value in the help text. Its further lines start in the column of the texts. -/
def helpValue (value : String) : String :=
  String.ofList (value.toList.flatMap fun c =>
    if c = '\n' then '\n' :: List.replicate helpColumn ' ' else [c])

/-- The help text as a terminal shows it. The value that the environment gives to the base
directory is a part of it. -/
def styledHelp (environment : Option String) : String :=
  "Print the directory tree of a save-data container\n" ++
  "\n" ++
  heading "Usage:" ++ " " ++ bold "savetree" ++ " [OPTIONS] <CONTAINER>\n" ++
  "\n" ++
  heading "Arguments:" ++ "\n" ++
  "  <CONTAINER>  Save container: an extracted save directory or a zip archive\n" ++
  "\n" ++
  heading "Options:" ++ "\n" ++
  "      " ++ bold "--base-dir" ++
  " <DIR>  Resolve a relative container path against this directory" ++
  " [env: SAVETREE_BASE_DIR=" ++ helpValue (environment.getD "") ++ "]\n" ++
  "  " ++ bold "-v" ++ ", " ++ bold "--verbose" ++
  "...      Verbosity level (-v, -vv, -vvv); logs go to stderr\n" ++
  "  " ++ bold "-h" ++ ", " ++ bold "--help" ++ "            Print help\n" ++
  "  " ++ bold "-V" ++ ", " ++ bold "--version" ++ "         Print version\n"

/-- The help text is written without its styles. A control sequence in the value from the
environment goes with them, and one that is left open there takes some of the text behind it. -/
def helpText (environment : Option String) : String :=
  Terminal.plain (styledHelp environment)

end SaveContainer.CommandLine
