import SaveContainer.CommandLine.Outcome
import SaveContainer.Disk.Change

/-!
The command. It takes a picture of the part of the disk that the arguments lead to; all else
is `CommandLine.run`.
-/

namespace SaveContainer.Picture

/-- The changes that make an entry and what is below it, down to a level that is never shown.
Only whether an entry is a directory matters there. -/
def below : (levels : Nat) → IO.FS.DirEntry → IO (List Change)
  | 0, _ => return []
  | levels + 1, e => do
    let path := Path.ofText e.path.toString
    match (← e.path.symlinkMetadata).type with
    | .dir => do
      let inner ← (← e.path.readDir).toList.mapM (below levels)
      return .makeDirectory path :: inner.flatten
    | _ => return [.write path .empty]

/-- The changes that make what the names lead to from the directory `here`. A link on the way
is made to lead where it leads in the end, or to itself if it leads nowhere. -/
def along (contents : Bool) : (here : String) → (names : List String) → IO (List Change)
  | here, [] => do
    let e : IO.FS.DirEntry := ⟨here, "."⟩
    if contents then
      let inner ← (← e.path.readDir).toList.mapM (below (maxDepth + 2))
      return inner.flatten
    else return []
  | here, name :: names => do
    let e : IO.FS.DirEntry := ⟨here, name⟩
    let own := Path.ofText e.path.toString
    try
      let target ← IO.FS.realPath e.path
      let path := Path.ofText target.toString
      let link := if path = own ∨ name = "." ∨ name = ".." then [] else [.makeLink own path]
      match (← target.metadata).type with
      | .dir => return .makeDirectory path :: link ++ (← along contents target.toString names)
      | .file => do
        let data ← if contents then IO.FS.readBinFile target else pure .empty
        return .write path data :: link
      | _ => return link
    catch _ =>
      match ← e.path.metadata.toBaseIO with
      | .error (.noFileOrDirectory _ _ _) => return []
      | _ => return [.makeLink own own]

def textOf (name : FileName) : String :=
  String.ofList (Utf8.lossy name)

def ofPath (contents : Bool) (work : String) (p : Path) : IO (List Change) :=
  along contents (if p.isAbsolute then "/" else work) (p.steps.map textOf)

def ofInvocation (work : String) (i : CommandLine.Invocation) : IO (List Change) := do
  let base ← match i.base with
    | some b => ofPath false work b
    | none => pure []
  return base ++ (← ofPath true work (Opener.resolve ⟨i.base⟩ i.container))

/-- The disk as far as a run of the command looks at it. -/
def take (arguments : List String) (env : CommandLine.Environment) : IO Disk := do
  let work := (← IO.currentDir).toString
  let workPath := Path.ofText work
  let changes ← match CommandLine.Request.ofArguments arguments env.base with
    | .run i => ofInvocation work i
    | _ => pure []
  let disk : Disk := ⟨.directory [], workPath.steps⟩
  return (Change.makeDirectory workPath :: changes).foldl
    (fun disk change => (disk.apply change).getD disk) disk

end SaveContainer.Picture

open SaveContainer in
def main (arguments : List String) : IO UInt32 := do
  let env : CommandLine.Environment :=
    ⟨← IO.getEnv "SAVETREE_BASE_DIR", ← IO.getEnv "RUST_LOG"⟩
  let o := CommandLine.run arguments env (← Picture.take arguments env)
  IO.eprint (if o.code = 2 then CommandLine.usageText else o.errorText)
  IO.print o.output
  return UInt32.ofNat o.code
