import Std.Data.HashMap
import BootImage.Layout.Draft

/-!
From entries to a plan: the blocks of an image in ascending order, each with its place and a record
whose pointers are sectors. Chance cuts the files and orders the blocks; then sectors are given out
in that order and links become pointers. A plan is refused before anything is placed if it does not
leave the last free block a sector and the capacity one more.
-/
namespace BootImage

inductive Content
  | superBlock (record : SuperBlock)
  | free (record : FreeRun)
  | file (source : Nat) (record : FileHeader)
  | chunkNode (record : ChunkNode)
  | chunkData (length : UInt32)
  deriving DecidableEq, Repr

namespace Content

def sectors : Content → UInt32
  | .free record => record.length
  | .chunkData length => length
  | .superBlock _ | .file .. | .chunkNode _ => 1

def kind : Content → String
  | .superBlock _ => "superblock"
  | .free _ => "free"
  | .file .. => "file"
  | .chunkNode _ => "chunk node"
  | .chunkData _ => "chunk data"

def isFile : Content → Bool
  | .file .. => true
  | _ => false

def isChunkNode : Content → Bool
  | .chunkNode _ => true
  | _ => false

end Content

structure Block where
  offset : UInt32
  content : Content
  label : String
  deriving DecidableEq, Repr

def Block.sectors (b : Block) : UInt32 := b.content.sectors

structure Plan where
  blocks : List Block
  capacity : UInt32
  deriving DecidableEq, Repr

abbrev BlockIndex := Std.HashMap UInt32 Block

def BlockIndex.chunkNode? (index : BlockIndex) (offset : UInt32) : Option ChunkNode :=
  match index[offset]? with
  | some ⟨_, .chunkNode record, _⟩ => some record
  | _ => none

structure Summary where
  files : Nat
  chunks : Nat
  usedSectors : UInt32
  trailingFree : UInt32
  capacity : UInt32
  deriving DecidableEq, Repr

namespace Plan

def index (p : Plan) : BlockIndex :=
  Std.HashMap.ofList (p.blocks.map fun b => (b.offset, b))

def blockAt? (p : Plan) (offset : UInt32) : Option Block := p.index[offset]?

def chunkNodeAt? (p : Plan) (offset : UInt32) : Option ChunkNode := p.index.chunkNode? offset

def superBlock? (p : Plan) : Option SuperBlock :=
  match p.blocks with
  | ⟨_, .superBlock record, _⟩ :: _ => some record
  | _ => none

def totalSectors (p : Plan) : UInt64 :=
  p.blocks.foldl (fun sum b => sum + b.sectors.toUInt64) 0

def trailingFree (p : Plan) : UInt32 :=
  match p.blocks.getLast? with
  | some ⟨_, .free record, _⟩ => record.length
  | _ => 0

def summary (p : Plan) : Summary where
  files := p.blocks.countP (·.content.isFile)
  chunks := p.blocks.countP (·.content.isChunkNode)
  usedSectors := (p.totalSectors - p.trailingFree.toUInt64).toUInt32
  trailingFree := p.trailingFree
  capacity := p.capacity

end Plan

structure Placed where
  draft : Draft
  offset : UInt32
  deriving DecidableEq, Repr

abbrev Offsets := Std.HashMap Slot UInt32

namespace Offsets

def ofPlaced (placed : List Placed) : Offsets :=
  Std.HashMap.ofList (placed.map fun p => (p.draft.slot, p.offset))

def labelOf (made : Array Draft) (slot : Slot) : String :=
  -- Links are to blocks that were made, so one is found.
  ((made.find? (·.slot == slot)).map Draft.label).getD ""

def pointer (offsets : Offsets) (made : Array Draft) (slot : Slot) : Except Fault UInt32 :=
  match offsets[slot]? with
  | some offset => .ok offset
  | none => .error (.corrupted (.unplaced (labelOf made slot)))

def pointer? (offsets : Offsets) (made : Array Draft) : Option Slot → Except Fault UInt32
  | none => .ok nullPointer
  | some slot => offsets.pointer made slot

def resolve (offsets : Offsets) (made : Array Draft) : Links → Except Fault Content
  | .superBlock firstFile firstFree => do
    let firstFile ← offsets.pointer? made firstFile
    let firstFree ← offsets.pointer made firstFree
    return .superBlock (.ofHeads firstFile firstFree)
  | .freeRun next length => do
    let next ← offsets.pointer? made next
    return .free { next, length }
  | .header source entry next firstChunk => do
    let next ← offsets.pointer? made next
    let firstChunk ← offsets.pointer? made firstChunk
    return .file source
      { next, name := entry.name, size := entry.size, flags := writableFlag, firstChunk }
  | .chunkNode next length data => do
    let next ← offsets.pointer? made next
    let data ← offsets.pointer made data
    return .chunkNode { next, length, data }
  | .chunkData length => return .chunkData length

end Offsets

def placeFrom (done : Array Placed) (cursor : UInt32) : List Draft → Array Placed × UInt32
  | [] => (done, cursor)
  | draft :: drafts => placeFrom (done.push ⟨draft, cursor⟩) (cursor + draft.sectors) drafts

def sectorsUsed (drafts : List Draft) : UInt64 :=
  drafts.foldl (fun sum draft => sum + draft.sectors.toUInt64) 0

/-- Places drafts in the order given, and the last free block behind them; `made` names them all. -/
def place (made : Array Draft) (drafts : List Draft) (capacity : UInt32) : Except Fault Plan := do
  let used := sectorsUsed drafts
  if capacity.toUInt64 ≤ used + 1 then .error (.capacityExceeded (used + 2) capacity)
  else
    let (placed, cursor) := placeFrom #[] 0 drafts
    let placed := (placed.push ⟨Draft.lastFree (capacity - cursor - 1), cursor⟩).toList
    let offsets := Offsets.ofPlaced placed
    let blocks ← placed.mapM fun p => do
      let content ← offsets.resolve made p.draft.links
      return { offset := p.offset, content, label := p.draft.label : Block }
    return { blocks, capacity }

structure Planning (γ : Type) where
  draws : List Draw
  outcome : Except Fault Plan
  generator : γ

variable {γ : Type} [Generator γ]

def plan (entries : List Entry) (capacity : UInt32) (g : γ) : Planning γ :=
  if maxFiles < entries.length then
    ⟨[], .error (.tooManyFiles entries.length), g⟩
  else
    let (draws, g) := Draw.ofEntries entries g
    let built := Builder.ofDraws draws
    let (order, g) := Shuffle.shuffle built.shuffled g
    let top := built.superBlock
    ⟨draws, place (built.drafts.push top) (top :: order.toList) capacity, g⟩

def Draw.logLine (d : Draw) : LogLine :=
  let lengths := ", ".intercalate (d.chunks.map fun length => s!"{length}")
  ⟨.debug, s!"{d.entry.name.text}: {d.entry.size} byte(s) in chunks [{lengths}]"⟩

def Block.logLine (b : Block) : LogLine :=
  let offset := Text.Column.right 8 s!"{b.offset}"
  let kind := Text.Column.left 10 b.content.kind
  let sectors := Text.Column.left 6 s!"{b.sectors}"
  ⟨.debug, s!"sector {offset}: {kind} x{sectors} {b.label}"⟩

def Summary.logLine (s : Summary) : LogLine :=
  ⟨.info, s!"planned {s.files} file(s) in {s.chunks} chunk(s): " ++
    s!"{s.usedSectors} sector(s) used, {s.trailingFree} trailing free, capacity {s.capacity}"⟩

def Plan.log (p : Plan) : List LogLine := p.blocks.map Block.logLine ++ [p.summary.logLine]

def Planning.log {γ : Type} (p : Planning γ) : List LogLine :=
  p.draws.map Draw.logLine ++
    match p.outcome with
    | .ok plan => plan.log
    | .error _ => []

end BootImage
