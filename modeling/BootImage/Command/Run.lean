import BootImage.Command.Args
import BootImage.FileTree
import BootImage.Image.Execution

/-!
The command as a whole: load every program, plan, and then either print the layout or write the
image. The output is opened only once there is a plan, and nothing is printed after a failure. What
is printed of a plan is the layout as a table, the sums, and where the image went; in colour or
without, the text is the same but for the escape sequences.
-/
namespace BootImage

namespace Report

inductive Style
  | brightCyanBold | brightYellowBold | brightBlack | green | cyan | blue
  deriving DecidableEq, Repr

def Style.codes : Style → String
  | .brightCyanBold => "1;96"
  | .brightYellowBold => "1;93"
  | .brightBlack => "90"
  | .green => "32"
  | .cyan => "36"
  | .blue => "34"

def reset : String := "\x1b[0m"

def paint (color : Bool) (style : Style) (text : String) : String :=
  -- A reset inside the text is followed by the style again.
  if color then
    let start := "\x1b[" ++ style.codes ++ "m"
    start ++ text.replace reset (reset ++ start) ++ reset
  else text

def kindStyle : Content → Style
  | .superBlock _ => .brightYellowBold
  | .free _ => .brightBlack
  | .file .. => .green
  | .chunkNode _ => .cyan
  | .chunkData _ => .blue

def pointers : Content → String
  | .superBlock r => s!"file -> {r.firstFile}, free -> {r.firstFree}"
  | .free r => s!"next -> {r.next}"
  | .file _ r => s!"next -> {r.next}, chunk -> {r.firstChunk}, {r.size} bytes"
  | .chunkNode r => s!"next -> {r.next}, data -> {r.data}"
  | .chunkData _ => ""

open Text.Column (left right)

def row (sector length kind pointers description : String) : String :=
  "  ".intercalate [right 8 sector, right 7 length, kind, left 36 pointers, description]

def blockRow (color : Bool) (b : Block) : String :=
  row s!"{b.offset}" s!"{b.sectors}" (paint color (kindStyle b.content) (left 10 b.content.kind))
    (pointers b.content) (paint color .brightBlack b.label)

def lines (texts : List String) : String := String.join (texts.map (· ++ "\n"))

def layout (color : Bool) (p : Plan) : String :=
  let title := paint color .brightCyanBold "📐 Planned layout"
  let header := row "sector" "length" (left 10 "kind") "pointers" "description"
  lines ([title, paint color .brightBlack header] ++ p.blocks.map (blockRow color))

def summary (color : Bool) (s : Summary) : String :=
  let key (text : String) := paint color .blue text
  lines [paint color .brightYellowBold "📊 Filesystem Info",
    key "Files" ++ s!": {s.files}",
    key "Chunks" ++ s!": {s.chunks}",
    key "Used sectors" ++ s!": {s.usedSectors} / {s.capacity}",
    key "Trailing free" ++ s!": {s.trailingFree}",
    ""]

def written (color : Bool) (output : String) (skip : UInt64) : String :=
  lines [" ".intercalate [paint color .green "✅ Image written to", paint color .cyan output,
    paint color .brightBlack s!"(starting at sector {skip})"]]

end Report

inductive Failure
  | load (name path : String) (fault : Fault)
  | output (path : String) (error : IoError)
  | build (fault : Fault)
  deriving DecidableEq, Repr

namespace Failure

def causes (fault : Fault) : List String :=
  match fault with
  | .io error => [fault.message, error.text]
  | _ => [fault.message]

def chain : Failure → List String
  | .load name path fault => s!"cannot load {name} from {path}" :: causes fault
  | .output path error => [s!"cannot open {path}", error.text]
  | .build fault => causes fault

def message (f : Failure) : String := ": ".intercalate f.chain

end Failure

namespace Command

structure Loading where
  log : List LogLine
  outcome : Except Failure (List (Source Handle))

abbrev Opener := String → Except IoError (UInt64 × Handle)

def loadProgram (openFile : Opener) (name path : String) : Except Fault (Source Handle) := do
  let (size, handle) ← (openFile path).mapError .io
  Source.make name size handle

def loadFrom (openFile : Opener) (searchDir : String) (log : List LogLine)
    (loaded : List (Source Handle)) : List Program → Loading
  | [] => ⟨log, .ok loaded⟩
  | program :: programs =>
    let path := Path.join searchDir program.file
    match loadProgram openFile program.name path with
    | .error fault => ⟨log, .error (.load program.name path fault)⟩
    | .ok source =>
      let line : LogLine := ⟨.info, s!"{program.name}: {source.entry.size} byte(s) from {path}"⟩
      loadFrom openFile searchDir (log ++ [line]) (loaded ++ [source]) programs

def load (openFile : Opener) (args : Args) : Loading :=
  loadFrom openFile args.searchDir [] [] args.programs

def planFor {γ : Type} [Generator γ] (args : Args) (g : γ) (sources : List (Source Handle)) :
    Planning γ :=
  plan (sources.map (·.entry)) args.numSectors g

def generatorFor (args : Args) (chance : UInt64) : ChaCha := ChaCha.ofSeed (args.seed.getD chance)

def previewText (color : Bool) (p : Plan) : String :=
  Report.layout color p ++ Report.summary color p.summary

def doneText (color : Bool) (args : Args) (p : Plan) : String :=
  Report.summary color p.summary ++ Report.written color args.output args.skip

structure Writing where
  window : Window
  printed : String
  log : List LogLine
  outcome : Except Failure Unit

def write (args : Args) (color : Bool) (p : Plan) (sources : List (Source Handle))
    (window : Window) : Writing :=
  let run := execute p sources window Progress.start
  let log := run.log p (run.calls.filterMap (Call.logLine? window.skip))
  match run.outcome with
  | .error fault => ⟨run.device, "", log, .error (.build fault)⟩
  | .ok _ => ⟨run.device, doneText color args p, log, .ok ()⟩

structure Result where
  tree : FileTree
  printed : String
  log : List LogLine
  outcome : Except Failure Unit

def writeOutput (tree : FileTree) (args : Args) (color : Bool) (p : Plan)
    (sources : List (Source Handle)) (log : List LogLine) : Result :=
  match tree.openImage args.output args.skip args.numSectors.toUInt64 with
  | (.error e, tree) => ⟨tree, "", log, .error (.output args.output e)⟩
  | (.ok image, tree) =>
    let writing := write args color p sources image.window
    ⟨tree.close image.place writing.window, writing.printed, log ++ writing.log, writing.outcome⟩

/-- The command with any way to open programs and any generator. -/
def runWith {γ : Type} [Generator γ] (openFile : Opener) (g : γ) (tree : FileTree) (args : Args)
    (color : Bool) : Result :=
  let loading := load openFile args
  match loading.outcome with
  | .error failure => ⟨tree, "", loading.log, .error failure⟩
  | .ok sources =>
    let planning := planFor args g sources
    let log := loading.log ++ planning.log
    match planning.outcome with
    | .error fault => ⟨tree, "", log, .error (.build fault)⟩
    | .ok p =>
      if args.dryRun then ⟨tree, previewText color p, log, .ok ()⟩
      else writeOutput tree args color p sources log

def run (tree : FileTree) (args : Args) (chance : UInt64) (color : Bool) : Result :=
  runWith tree.openForReading (generatorFor args chance) tree args color

end Command

end BootImage
