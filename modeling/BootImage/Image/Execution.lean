import BootImage.Device
import BootImage.Layout.Plan

/-!
Writing a plan to a device. All reading comes first: files are read in the order of their headers on
disk, each from front to back along its chunk chain, and a chunk that is met twice stops it. Then
the blocks are written in ascending order, and a chunk uses up the bytes that were kept for it. A
refused write ends the run with what was written before it left in place.
-/
namespace BootImage

abbrev Contents := Std.HashMap UInt32 ByteArray

structure Piece where
  name : String
  sectors : UInt32
  sector : UInt32
  deriving DecidableEq, Repr

structure Filling where
  contents : Contents
  pieces : Array Piece

namespace Filling

def empty : Filling := ⟨∅, #[]⟩

variable {ρ : Type} [Reader ρ]

/-- Follows a chain from `pointer` on. No chunk is taken twice, so there are no more steps than
blocks and one. -/
def followChain (index : BlockIndex) (name : String) :
    Nat → UInt32 → Source ρ → Filling → Except Fault Unit × Source ρ × Filling
  | 0, pointer, source, filling => (.error (.corrupted (.sharedChunk pointer)), source, filling)
  | fuel + 1, pointer, source, ⟨contents, pieces⟩ =>
    if pointer = nullPointer then (.ok (), source, ⟨contents, pieces⟩)
    else
      match index.chunkNode? pointer with
      | none => (.error (.corrupted (.notAChunkNode pointer name)), source, ⟨contents, pieces⟩)
      | some node =>
        match source.take (node.length.toNat * sectorSize) with
        | (.error e, source) => (.error (.io e), source, ⟨contents, pieces⟩)
        | (.ok data, source) =>
          let pieces := pieces.push ⟨name, node.length, node.data⟩
          if contents.contains node.data then
            (.error (.corrupted (.sharedChunk node.data)), source, ⟨contents, pieces⟩)
          else
            followChain index name fuel node.next source
              ⟨contents.insert node.data data, pieces⟩

def readFiles (index : BlockIndex) (fuel : Nat) :
    List Block → List (Source ρ) → Filling → Except Fault Unit × List (Source ρ) × Filling
  | [], sources, filling => (.ok (), sources, filling)
  | ⟨_, .file i header, _⟩ :: blocks, sources, filling =>
    match sources[i]? with
    | none => (.error (.corrupted (.noSource header.name.text)), sources, filling)
    | some source =>
      match followChain index header.name.text fuel header.firstChunk source filling with
      | (.error f, source, filling) => (.error f, sources.set i source, filling)
      | (.ok _, source, filling) => readFiles index fuel blocks (sources.set i source) filling
  | _ :: blocks, sources, filling => readFiles index fuel blocks sources filling

def ofPlan (plan : Plan) (sources : List (Source ρ)) :
    Except Fault Unit × List (Source ρ) × Filling :=
  readFiles plan.index (plan.blocks.length + 1) plan.blocks sources empty

end Filling

def zeroBatchSectors : Nat := 128

def zeroBatch : ByteArray := zeros (zeroBatchSectors * sectorSize)

def zeroCalls (start : UInt64) (count : Nat) : List Call :=
  if count = 0 then []
  else if count < zeroBatchSectors then [⟨start, zeros (count * sectorSize)⟩]
  else
    ⟨start, zeroBatch⟩ ::
      zeroCalls (start + UInt64.ofNat zeroBatchSectors) (count - zeroBatchSectors)
termination_by count
decreasing_by
  unfold zeroBatchSectors at *
  omega

def Call.ofRecord {α : Type} [Record α] (sector : UInt64) (record : α) : Except Fault Call := do
  let data ← Record.encode record
  return { sector, data }

/-- The calls that write a block, and the contents without the ones they take. -/
def Block.calls (contents : Contents) (b : Block) : Except Fault (List Call × Contents) := do
  let sector := b.offset.toUInt64
  match b.content with
  | .superBlock record =>
    let call ← Call.ofRecord sector record
    return ([call], contents)
  | .file _ record =>
    let call ← Call.ofRecord sector record
    return ([call], contents)
  | .chunkNode record =>
    let call ← Call.ofRecord sector record
    return ([call], contents)
  | .free record =>
    let call ← Call.ofRecord sector record
    return (call :: zeroCalls (sector + 1) record.filler.toNat, contents)
  | .chunkData _ =>
    match contents[b.offset]? with
    | some data => return ([{ sector, data }], contents.erase b.offset)
    | none => .error (.corrupted (.unreferenced b.label b.offset))

structure Progress where
  position : UInt64
  length : Option UInt64
  deriving DecidableEq, Repr

def Progress.start : Progress := ⟨0, none⟩

structure Written (δ : Type) where
  device : δ
  calls : Array Call
  position : UInt64
  outcome : Except Fault Unit

def writeBlocks {δ : Type} [Device δ] (contents : Contents) :
    List Block → δ → Array Call → UInt64 → Written δ
  | [], d, calls, position => ⟨d, calls, position, .ok ()⟩
  | b :: blocks, d, calls, position =>
    match b.calls contents with
    | .error f => ⟨d, calls, position, .error f⟩
    | .ok (planned, contents) =>
      match perform d calls planned with
      | ⟨d, calls, .error e⟩ => ⟨d, calls, position, .error (.io e)⟩
      | ⟨d, calls, .ok _⟩ =>
        writeBlocks contents blocks d calls (position + b.sectors.toUInt64)

structure Execution (ρ δ : Type) where
  sources : List (Source ρ)
  pieces : List Piece
  filled : Bool
  device : δ
  calls : List Call
  progress : Progress
  outcome : Except Fault Unit

variable {ρ δ : Type} [Reader ρ] [Device δ]

def execute (plan : Plan) (sources : List (Source ρ)) (device : δ) (progress : Progress) :
    Execution ρ δ :=
  match Filling.ofPlan plan sources with
  | (.error f, sources, filling) =>
    { sources, pieces := filling.pieces.toList, filled := false, device, calls := [], progress,
      outcome := .error f }
  | (.ok _, sources, filling) =>
    let written := writeBlocks filling.contents plan.blocks device #[] progress.position
    { sources, pieces := filling.pieces.toList, filled := true, device := written.device,
      calls := written.calls.toList, progress := ⟨written.position, some plan.totalSectors⟩,
      outcome := written.outcome }

def Piece.logLine (p : Piece) : LogLine :=
  ⟨.debug, s!"{p.name}: {p.sectors} sector(s) into chunk at {p.sector}"⟩

def Execution.log {ρ δ : Type} (e : Execution ρ δ) (plan : Plan) (onDevice : List LogLine) :
    List LogLine :=
  let reading := e.pieces.map Piece.logLine
  if e.filled then
    reading ++ [⟨.info, s!"materialized {e.pieces.length} chunk(s)"⟩] ++ onDevice ++
      match e.outcome with
      | .ok _ => [⟨.info, s!"wrote {plan.totalSectors} sector(s)"⟩]
      | .error _ => []
  else reading

end BootImage
