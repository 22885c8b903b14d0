import BootImage.Random
import BootImage.Source

/-!
The blocks of an image before they have a place. A file's sectors are cut into chunks: while enough
are left, a chunk takes a random number of them, and a short rest becomes the last chunk. A block is
known by its slot, its part in the structure, and its links are slots too, so the order of the
blocks on disk is still open. Blocks are made file by file, and linked as they are made.
-/
namespace BootImage

def minChunk : UInt32 := 8

namespace Chunks

variable {γ : Type} [Generator γ]

theorem restSmaller {left : UInt32} (g : γ) (enough : minChunk ≤ left) :
    (left - (Generator.range minChunk left g).1).toNat < left.toNat := by
  have bounds := Generator.rangeBounds g enough
  have least := UInt32.le_iff_toNat_le.mp bounds.1
  have most := UInt32.le_iff_toNat_le.mp bounds.2
  have positive : minChunk.toNat = 8 := rfl
  rw [UInt32.toNat_sub_of_le _ _ bounds.2]
  omega

def drawFrom (done : Array UInt32) (left : UInt32) (g : γ) : Array UInt32 × γ :=
  if left = 0 then (done, g)
  else if _enough : minChunk ≤ left then
    let drawn := Generator.range minChunk left g
    drawFrom (done.push drawn.1) (left - drawn.1) drawn.2
  else (done.push left, g)
termination_by left.toNat
decreasing_by exact restSmaller g (by assumption)

def draw (sectors : UInt32) (g : γ) : List UInt32 × γ :=
  let (lengths, g) := drawFrom #[] sectors g
  (lengths.toList, g)

end Chunks

/-- The part a block plays. Files and chunks are numbered from zero in the order given. -/
inductive Slot
  | superBlock
  | chunkData (file chunk : Nat)
  | chunkNode (file chunk : Nat)
  | header (file : Nat)
  | freeRun (file : Nat)
  | lastFree
  deriving DecidableEq, Hashable, Repr

inductive Links
  | superBlock (firstFile : Option Slot) (firstFree : Slot)
  | freeRun (next : Option Slot) (length : UInt32)
  | header (source : Nat) (entry : Entry) (next firstChunk : Option Slot)
  | chunkNode (next : Option Slot) (length : UInt32) (data : Slot)
  | chunkData (length : UInt32)
  deriving DecidableEq, Repr

structure Draft where
  slot : Slot
  links : Links
  label : String
  deriving DecidableEq, Repr

def Draft.sectors (d : Draft) : UInt32 :=
  match d.links with
  | .freeRun _ length => length
  | .chunkData length => length
  | .superBlock .. | .header .. | .chunkNode .. => 1

structure Draw where
  entry : Entry
  chunks : List UInt32
  freeRun : UInt32
  deriving DecidableEq, Repr

namespace Draw

variable {γ : Type} [Generator γ]

def maxFreeRun : UInt32 := 4

def ofEntry (entry : Entry) (g : γ) : Draw × γ :=
  let (chunks, g) := Chunks.draw (sectorsFor entry.size.toUInt64).toUInt32 g
  let (freeRun, g) := Generator.range 1 maxFreeRun g
  (⟨entry, chunks, freeRun⟩, g)

def ofEntries : List Entry → γ → List Draw × γ
  | [], g => ([], g)
  | entry :: entries, g =>
    let (draw, g) := ofEntry entry g
    let (draws, g) := ofEntries entries g
    (draw :: draws, g)

end Draw

namespace Draft

def chunkData (file chunk : Nat) (name : String) (length : UInt32) : Draft :=
  ⟨.chunkData file chunk, .chunkData length, s!"chunk {chunk} of {name}"⟩

def chunkNode (file chunk : Nat) (name : String) (length : UInt32) : Draft :=
  ⟨.chunkNode file chunk, .chunkNode none length (.chunkData file chunk),
   s!"chunk node for chunk {chunk} of {name}"⟩

def linkTo (d : Draft) (next : Slot) : Draft :=
  match d.links with
  | .chunkNode _ length data => { d with links := .chunkNode (some next) length data }
  | .superBlock .. | .freeRun .. | .header .. | .chunkData _ => d

def header (file : Nat) (draw : Draw) (next firstChunk : Option Slot) : Draft :=
  ⟨.header file, .header file draw.entry next firstChunk, s!"file node for {draw.entry.name.text}"⟩

def freeRun (file : Nat) (draw : Draw) (next : Slot) : Draft :=
  ⟨.freeRun file, .freeRun (some next) draw.freeRun, s!"{draw.freeRun} sectors of free space"⟩

def superBlock (firstFile : Option Slot) (firstFree : Slot) : Draft :=
  ⟨.superBlock, .superBlock firstFile firstFree, "superblock"⟩

def lastFree (length : UInt32) : Draft :=
  ⟨.lastFree, .freeRun none length, "the last free block"⟩

end Draft

/-- The two blocks of a chunk. -/
structure ChunkDrafts where
  data : Draft
  node : Draft
  deriving DecidableEq, Repr

namespace ChunkDrafts

def make (file : Nat) (name : String) (chunk : Nat) (length : UInt32) : ChunkDrafts :=
  ⟨Draft.chunkData file chunk name length, Draft.chunkNode file chunk name length⟩

def linkNext (made : Array ChunkDrafts) (i : Nat) : Array ChunkDrafts :=
  match made[i + 1]? with
  | some next => made.modify i fun chunk => { chunk with node := chunk.node.linkTo next.node.slot }
  | none => made

/-- All of a file's chunks are made before the first node is given its successor. -/
def ofDraw (file : Nat) (draw : Draw) : Array ChunkDrafts :=
  let made := draw.chunks.toArray.mapIdx (make file draw.entry.name.text)
  (List.range (made.size - 1)).foldl linkNext made

end ChunkDrafts

/-- The blocks made so far, and the heads of the two lists, which grow at the front. -/
structure Builder where
  drafts : Array Draft
  fileHead : Option Slot
  freeHead : Slot

namespace Builder

def start : Builder where
  -- The last free block ends the free list, so it is made first; its length comes last.
  drafts := #[.lastFree 0]
  fileHead := none
  freeHead := .lastFree

def addFile (b : Builder) (file : Nat) (draw : Draw) : Builder :=
  let chunks := ChunkDrafts.ofDraw file draw
  let header := Draft.header file draw b.fileHead (chunks[0]?.map (·.node.slot))
  let freeRun := Draft.freeRun file draw b.freeHead
  { drafts := b.drafts ++ (chunks.flatMap fun chunk => #[chunk.data, chunk.node]) ++
      #[header, freeRun]
    fileHead := some header.slot
    freeHead := freeRun.slot }

def ofDraws (draws : List Draw) : Builder :=
  draws.zipIdx.foldl (fun b numbered => b.addFile numbered.2 numbered.1) start

def superBlock (b : Builder) : Draft := Draft.superBlock b.fileHead b.freeHead

/-- What is put in random order: every block made so far but the last free one. -/
def shuffled (b : Builder) : Array Draft := b.drafts.filter (·.slot != .lastFree)

end Builder

end BootImage
