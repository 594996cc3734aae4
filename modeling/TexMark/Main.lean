/-
  TexMark/Main.lean
  =================
  **The command line.** Looks at the files that a command may need, and carries out what the
  command plans, one thing after the other.
-/
import TexMark.Command.Run

namespace TexMark.Main

/-! ### Looking at files -/

def placeName (place : Place) : String :=
  match place with
  | ['/'] :: names => String.ofList ('/' :: Text.join ['/'] names)
  | names => String.ofList (Text.join ['/'] names)

/-- What stands at a place, if anything. Something that cannot be read counts as a directory. -/
def probe (place : Place) : IO (Option Node) := do
  try
    let bytes ← IO.FS.readBinFile (placeName place)
    return some (.file (Content.ofBytes (bytes.toList.map UInt8.toNat)))
  catch e =>
    match e with
    | .noFileOrDirectory .. => return none
    | _ => return some .directory

/-- The places on the way to a path, and the path itself. -/
def placesOf (path : Path) : List Place :=
  let start : Place := if path.slashes = 0 then [] else Disk.root
  (List.range path.names.length).map fun i => start ++ path.names.take (i + 1)

/-- The paths that a command with these arguments may look at. -/
def pathsOf (args : List Text) : List Path :=
  Command.settingsPath :: args.flatMap fun arg =>
    let path := Path.ofText arg
    let beside := [Direction.forward, Direction.reverse].filterMap fun d =>
      match Command.defaultOutput path d with
      | .ok output => some output
      | .error _ => none
    path :: beside

/-- The part of the disk that a command may look at. -/
def loadDisk (args : List Text) : IO Disk := do
  let found ← ((pathsOf args).flatMap placesOf).eraseDups.filterMapM fun place => do
    return (← probe place).map fun node => (place, node)
  return ⟨found⟩

/-- The variables of the environment that a command may ask for. -/
def loadEnvironment (args : List Text) : IO (Table Text) :=
  (SettingKey.knownNames ++ args.map Text.upper).filterMapM fun name => do
    return (← IO.getEnv (String.ofList name)).map fun value => (name, value.toList)

/-! ### Showing -/

/-- The style marks of lines, which a plain terminal does without. -/
def styleMarks : List Text := ["[green]", "[red]", "[yellow]", "[dim]", "[bold red]", "[/]"]

def styleMark : Recognizer Text := fun _ rest =>
  styleMarks.findSome? fun m => (Text.dropPrefix? m rest).map fun after => ([], after)

def unstyled (t : Text) : String := String.ofList (Scan.replace styleMark t)

def display : Shown → IO Unit
  | .line t => IO.println (unstyled t)
  | .sheet s => do
    IO.println (unstyled s.title)
    for row in s.columns :: s.rows do
      IO.println (unstyled (Text.join "  " row))
    match s.caption? with
    | some caption => IO.println (unstyled caption)
    | none => pure ()

/-- Asks a question that is answered with yes or no. The end of the input is no answer. -/
def ask (question : Text) : IO (Option Bool) := do
  IO.print (String.ofList (question ++ " (y/N) "))
  (← IO.getStdout).flush
  let line ← (← IO.getStdin).getLine
  if line.isEmpty then return none
  let word := SettingKey.small (Text.strip line.toList)
  return some (word == ['y'] || word == "yes".toList)

def save (before after : Disk) : IO Unit := do
  for e in after.nodes do
    if !before.nodes.contains e then
      match e.2 with
      | .file (.text t) => IO.FS.writeFile (placeName e.1) (String.ofList t)
      | _ => pure ()

/-- Says why a command stops, and answers the exit code. -/
def stop (message : Text) : IO UInt32 := do
  IO.eprintln (String.ofList message)
  return 1

/-- Carries a plan out, and answers the exit code. -/
def execute (disk : Disk) : Command.Plan → IO UInt32
  | .finish (.exit code) => return code.toUInt32
  | .finish (.crash cause) => stop cause.message
  | .warn warnings rest => do
    warnings.forM fun w => IO.eprintln (String.ofList w)
    execute disk rest
  | .tell s rest => do
    display s
    execute disk rest
  | .ask question rest => do execute disk (rest (← ask question))
  | .write path t rest =>
    match disk.writeText path t with
    | .error fault => stop fault.message
    | .ok changed => do
      save disk changed
      execute changed rest

end TexMark.Main

def main (args : List String) : IO UInt32 := do
  let texts := args.map String.toList
  let disk ← TexMark.Main.loadDisk texts
  let environment ← TexMark.Main.loadEnvironment texts
  TexMark.Main.execute disk (TexMark.Command.plan disk environment texts)
