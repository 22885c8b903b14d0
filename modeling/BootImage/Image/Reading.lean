import Std.Data.HashSet
import BootImage.Record

/-!
Reading an image by its pointers, starting from the superblock. Bytes may be anything: a pointer out
of the image, a loop or a file without enough chunks is a fault, and every walk ends.
-/
namespace BootImage

structure Image where
  bytes : ByteArray

namespace Image

def behind (skip : UInt64) (bytes : ByteArray) : Image :=
  let start := skip.toNat * sectorSize
  ⟨if start ≤ bytes.size then bytes.extract start bytes.size else ByteArray.empty⟩

variable (image : Image)

def sectors (offset count : UInt32) : Except Fault ByteArray :=
  let start := offset.toNat * sectorSize
  let stop := start + count.toNat * sectorSize
  if stop ≤ image.bytes.size then .ok (image.bytes.extract start stop)
  else .error (.corrupted (.outsideImage offset))

def record {α : Type} [Record α] (offset : UInt32) : Except Fault α := do
  Record.decode (← image.sectors offset 1)

def walkFrom {α : Type} [Record α] (next : α → UInt32) :
    Nat → Std.HashSet UInt32 → Array (UInt32 × α) → UInt32 → Except Fault (List (UInt32 × α))
  | 0, _, _, pointer => .error (.corrupted (.loop (Record.kind α) pointer))
  | fuel + 1, seen, done, pointer =>
    if pointer = nullPointer then .ok done.toList
    else if seen.contains pointer then .error (.corrupted (.loop (Record.kind α) pointer))
    else do
      let r ← image.record pointer
      walkFrom next fuel (seen.insert pointer) (done.push (pointer, r)) (next r)

def walk {α : Type} [Record α] (next : α → UInt32) (head : UInt32) :
    Except Fault (List (UInt32 × α)) :=
  -- No sector is visited twice, so there are no more steps than sectors and the one that ends the
  -- list or fails.
  image.walkFrom next (image.bytes.size / sectorSize + 2) ∅ #[] head

def superBlock : Except Fault SuperBlock := do
  let r : SuperBlock ← image.record 0
  if r.magic = magicWord then return r else .error (.corrupted (.badMagic r.magic))

def fileHeaders : Except Fault (List FileHeader) := do
  let top ← image.superBlock
  let files ← image.walk FileHeader.next top.firstFile
  return files.map Prod.snd

def freeRuns : Except Fault (List (UInt32 × FreeRun)) := do
  let top ← image.superBlock
  image.walk FreeRun.next top.firstFree

def rawChunks (header : FileHeader) : Except Fault ByteArray := do
  let nodes ← image.walk ChunkNode.next header.firstChunk
  nodes.foldlM (fun bytes (_, node) => return bytes ++ (← image.sectors node.data node.length))
    ByteArray.empty

def fileContent (header : FileHeader) : Except Fault ByteArray := do
  let bytes ← image.rawChunks header
  if bytes.size < header.size.toNat then
    .error (.corrupted (.shortChunks header.name.text bytes.size header.size.toNat))
  else return bytes.extract 0 header.size.toNat

def files : Except Fault (List (String × ByteArray)) := do
  (← image.fileHeaders).mapM fun header => return (header.name.text, ← image.fileContent header)

end Image

end BootImage
