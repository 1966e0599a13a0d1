import SaveContainer.CommandLine.Arguments
import SaveContainer.LogFilter
import SaveContainer.Opener

/-!
What a run of the command comes to: its exit code and what it writes. Lines go to the standard
output through a buffer. The log does not bear on the rest: it is read off the trace of the same
run.
-/

namespace SaveContainer.CommandLine

/-- The writer in front of the standard output: what it keeps back and what it has passed on. -/
structure Buffer where
  kept : List UInt8
  passed : List UInt8

namespace Buffer

def capacity : Nat := 8192

def empty : Buffer := ⟨[], []⟩

def flush (b : Buffer) : Buffer := ⟨[], b.passed ++ b.kept⟩

/-- Keeps bytes back if there is room for them, and makes room if there is not. What would take up
all of it is passed on at once. -/
def write (b : Buffer) (bytes : List UInt8) : Buffer :=
  if bytes.length < capacity - b.kept.length then { b with kept := b.kept ++ bytes }
  else
    let b := if capacity - b.kept.length < bytes.length then b.flush else b
    if capacity ≤ bytes.length then { b with passed := b.passed ++ bytes }
    else { b with kept := b.kept ++ bytes }

def step (b : Buffer) : Action → Buffer
  | .wrote bytes => b.write bytes
  | .call .flushed => b.flush
  | _ => b

/-- What has come out in the end: with the writer goes what it still keeps. -/
def output (t : Trace) : List UInt8 :=
  (t.foldl step empty).flush.passed

end Buffer

structure Outcome where
  code : Nat
  output : String
  /-- The shown part of the log. -/
  log : List Event
  /-- The message of the fault that ended the run. -/
  error : Option String

namespace Outcome

/-- The lines of the error stream. -/
def errorText (o : Outcome) : String :=
  String.join (o.log.map fun e => e.line ++ "\n") ++
    (o.error.map fun message => message ++ "\n").getD ""

end Outcome

/-- The messages of a fault and all its causes in one line. -/
def errorLine (fault : Fault) : String :=
  "error: " ++ ": ".intercalate fault.chain

/-- Opens the container and prints its tree. -/
def perform (i : Invocation) : Act (World × Sink) Unit := do
  let o ← (Opener.new i.base).onFirst
  Act.log (.printing i.container)
  let s ← (o.openSave i.container).onFirst
  s.print

/-- The variables of the environment that the command looks at. -/
structure Environment where
  base : Option String
  log : Option String

/-- The environment's filter goes before the verbosity, unless it cannot be read. -/
def filter (env : Environment) (i : Invocation) : LogFilter :=
  (env.log.bind LogFilter.parse?).getD (LogFilter.ofVerbosity i.verbosity)

def run (arguments : List String) (env : Environment) (disk : Disk) : Outcome :=
  match Request.ofArguments arguments env.base with
  | .help => ⟨0, helpText env.base, [], none⟩
  | .version => ⟨0, versionText, [], none⟩
  | .misuse => ⟨2, "", [], none⟩
  | .run i =>
    let o := perform i (⟨disk, #[]⟩, Sink.unlimited)
    let output := String.ofList (Utf8.lossy (Buffer.output o.trace))
    let log := o.trace.events.filter (filter env i).shows
    match o.result with
    | .ok () => ⟨0, output, log, none⟩
    | .error fault => ⟨1, output, log, some (errorLine fault)⟩

end SaveContainer.CommandLine
