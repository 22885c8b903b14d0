import BootImage.Command.Run

/-!
The program itself. Files are read as a whole, and the command runs on a tree that holds what stands
where the output goes; the output is written back as a whole where the run changed it.
-/
namespace BootImage.CommandLine

def usage : String := "\n".intercalate [
  "Build the flat program filesystem image that a kernel loads at boot.",
  "",
  "Usage: boot-image [OPTIONS] [NAME:FILE]...",
  "",
  "  -d, --search-dir DIR    directory of the program files (default: .)",
  "  -o, --out FILE          output image or device (default: hd.img)",
  "  -n, --num-sectors N     sectors the filesystem may occupy (default: 634966)",
  "  -s, --skip N            sector of the output to start at (default: 1)",
  "      --seed N            seed for chunk sizes and block order (default: random)",
  "      --dry-run           print the planned layout and write nothing",
  "  -v, --verbose           log every step",
  "  -h, --help              print this text",
  "  -V, --version           print the version"]

def errorOf : IO.Error → IoError
  | .noFileOrDirectory .. => .notFound
  | e => ⟨.other, toString e⟩

def contentOf (path : String) : IO (Except IoError ByteArray) := do
  try
    return .ok (← IO.FS.readBinFile path)
  catch e => return .error (errorOf e)

def isDirectory (path : String) : IO Bool := do
  try
    (← IO.FS.realPath path).isDir
  catch _ => return false

def openProgram (path : String) : IO (Except IoError (UInt64 × Handle)) := do
  if ← isDirectory path then return .ok (FileTree.directoryLength, .directory)
  let content ← contentOf path
  return content.map fun bytes => (UInt64.ofNat bytes.size, .content (.ofContent bytes))

def opened (args : Args) : IO (List (String × Except IoError (UInt64 × Handle))) :=
  args.programs.mapM fun program => do
    let path := Path.join args.searchDir program.file
    return (path, ← openProgram path)

def opener (files : List (String × Except IoError (UInt64 × Handle))) : Command.Opener :=
  fun path => (files.lookup path).getD (.error .notFound)

def chance : IO UInt64 := do
  let bytes ← IO.getRandomBytes 8
  return UInt64.ofNat (Word.value bytes.data.toList)

def printLog (args : Args) (log : List LogLine) : IO Unit := do
  let limit := if args.verbose then Level.debug else Level.info
  for line in keepUpTo limit log do
    IO.eprintln s!"[{line.level.name}] {line.text}"

def fail (failure : Failure) : IO UInt32 := do
  IO.eprintln s!"Error: {failure.message}"
  return 1

/-- The path of an output and of everything on the way to it, from the front. -/
def stations (path : String) : List String :=
  let parts := Path.components path
  (List.range parts.length).map fun i =>
    Path.join (if Path.absolute path then "/" else "") ("/".intercalate (parts.take (i + 1)))

def surveyFrom (tree : FileTree) : List String → IO (Except IoError FileTree)
  | [] => return .ok tree
  | path :: rest => do
    if ← isDirectory path then surveyFrom (tree.plant path .directory) rest
    else
      match ← contentOf path with
      | .ok content => return .ok (tree.plant path (.regular content))
      | .error ⟨.notFound, _⟩ => return .ok tree
      | .error e => return .error e

def nothing : FileTree := ⟨[], []⟩

/-- The tree of files as far as the output is concerned; a dry run does not ask for it. -/
def survey (args : Args) : IO (Except IoError FileTree) :=
  if args.dryRun then return .ok nothing else surveyFrom nothing (stations args.output)

def result (args : Args) (openFile : Command.Opener) (g : ChaCha) :
    Except IoError FileTree → Command.Result
  | .ok tree => Command.runWith openFile g tree args false
  | .error e =>
    -- What fails before the output is opened comes first, also where it cannot even be read.
    let trial := Command.runWith openFile g nothing { args with dryRun := true } false
    { trial with
      printed := "", outcome := trial.outcome >>= fun _ => .error (.output args.output e) }

/-- What a run leaves to be written at a path: nothing where the file is as it was. -/
def rewritten? (path : String) (before after : FileTree) : Option ByteArray :=
  match before.regularAt? path, after.regularAt? path with
  | some old, some new => if old.data = new.data then none else some new
  | none, new => new
  | some _, none => none

def writeBack (path : String) (before after : FileTree) : IO (Except IoError Unit) := do
  match rewritten? path before after with
  | none => return .ok ()
  | some content =>
    try
      IO.FS.writeBinFile path content
      return .ok ()
    catch e => return .error (errorOf e)

def runWith (args : Args) : IO UInt32 := do
  let openFile := opener (← opened args)
  let generator := Command.generatorFor args (← chance)
  let found ← survey args
  let run := result args openFile generator found
  printLog args run.log
  match ← writeBack args.output (found.toOption.getD nothing) run.tree with
  | .error e => fail (.output args.output e)
  | .ok _ =>
    IO.print run.printed
    match run.outcome with
    | .error failure => fail failure
    | .ok _ => return 0

def dispatch (args : List String) : IO UInt32 := do
  match Args.parse args with
  | .ok args => runWith args
  | .error .help =>
    IO.println usage
    return 0
  | .error .version =>
    IO.println "boot-image 0.1.0"
    return 0
  | .error fault =>
    IO.eprintln s!"error: invalid arguments: {fault.summary}"
    return 2

end BootImage.CommandLine

def main (args : List String) : IO UInt32 := BootImage.CommandLine.dispatch args
