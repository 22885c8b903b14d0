import BootImage.Fault
import BootImage.Sector

/-!
Records of one sector: fixed fields in order, then zeros. Reading looks at the leading bytes only,
so whatever follows the fields never changes a record. The records of an image are the superblock,
free runs, file headers and chunk nodes; pointers are sectors counted from the superblock, and zero
ends a list. Fields are kept as they stand, whether or not they make sense together. A file name is
256 bytes: one made from text is closed by a zero byte and filled up with zeros, one read from bytes
may be anything, and only the part before its first zero byte shows.
-/
namespace BootImage

class Record (α : Type) where
  kind : String
  bytes : α → List UInt8
  parse : List UInt8 → Option α

namespace Record

variable {α : Type} [Record α]

def encode (r : α) : Except Fault ByteArray :=
  let fields := bytes r
  if sectorSize < fields.length then .error (.recordOverflow (kind α) fields.length)
  else .ok (padded sectorSize fields.toByteArray)

def decode (raw : ByteArray) : Except Fault α :=
  match parse raw.data.toList with
  | some r => .ok r
  | none => .error .shortRecord

end Record

def nameSize : Nat := 256

structure Name where
  bytes : List UInt8
  bytesLength : bytes.length = nameSize
  deriving DecidableEq, Repr

namespace Name

def utf8 (text : String) : List UInt8 := text.toUTF8.data.toList

def ofText (text : String) : Except Fault Name :=
  if text.isEmpty || text.toList.contains '\x00' then .error (.invalidName text)
  else if fits : (utf8 text).length ≤ maxNameBytes then
    .ok ⟨utf8 text ++ List.replicate (nameSize - (utf8 text).length) 0, by
      simp only [List.length_append, List.length_replicate, nameSize, maxNameBytes] at *
      omega⟩
  else .error (.nameTooLong text)

def visible (name : Name) : List UInt8 := name.bytes.takeWhile (· != 0)

def text (name : Name) : String := Text.Lossy.text name.visible

inductive LengthFault
  | tooFew (length : Nat)
  | tooMany (length : Nat)
  deriving DecidableEq, Repr

def LengthFault.message : LengthFault → String
  | .tooFew length => s!"invalid length {length}, expected {nameSize} bytes of file name"
  | .tooMany length => s!"invalid length {length}, expected {nameSize} elements in sequence"

def ofBytes (bytes : List UInt8) : Except LengthFault Name :=
  if exact : bytes.length = nameSize then .ok ⟨bytes, exact⟩
  else if bytes.length < nameSize then .error (.tooFew bytes.length)
  else .error (.tooMany bytes.length)

end Name

def magicWord : UInt32 := 0xde001337

def nullPointer : UInt32 := 0

def writableFlag : UInt32 := 1

structure SuperBlock where
  magic : UInt32
  firstFile : UInt32
  firstFree : UInt32
  deriving DecidableEq, Repr

structure FreeRun where
  next : UInt32
  length : UInt32
  deriving DecidableEq, Repr

structure FileHeader where
  next : UInt32
  name : Name
  size : UInt32
  flags : UInt32
  firstChunk : UInt32
  deriving DecidableEq, Repr

structure ChunkNode where
  next : UInt32
  length : UInt32
  data : UInt32
  deriving DecidableEq, Repr

def SuperBlock.ofHeads (firstFile firstFree : UInt32) : SuperBlock :=
  ⟨magicWord, firstFile, firstFree⟩

def FreeRun.filler (run : FreeRun) : UInt32 :=
  if run.length = 0 then 0 else run.length - 1

open Word (bytes32 read32)

instance : Record SuperBlock where
  kind := "superblock"
  bytes r := bytes32 r.magic ++ bytes32 r.firstFile ++ bytes32 r.firstFree
  parse raw := do
    let (magic, raw) ← read32 raw
    let (firstFile, raw) ← read32 raw
    let (firstFree, _) ← read32 raw
    some { magic, firstFile, firstFree }

instance : Record FreeRun where
  kind := "free block"
  bytes r := bytes32 r.next ++ bytes32 r.length
  parse raw := do
    let (next, raw) ← read32 raw
    let (length, _) ← read32 raw
    some { next, length }

def Name.read (raw : List UInt8) : Option (Name × List UInt8) :=
  if enough : nameSize ≤ raw.length then
    some (⟨raw.take nameSize, by rw [List.length_take]; omega⟩, raw.drop nameSize)
  else none

instance : Record FileHeader where
  kind := "file header"
  bytes r :=
    bytes32 r.next ++ r.name.bytes ++ bytes32 r.size ++ bytes32 r.flags ++ bytes32 r.firstChunk
  parse raw := do
    let (next, raw) ← read32 raw
    let (name, raw) ← Name.read raw
    let (size, raw) ← read32 raw
    let (flags, raw) ← read32 raw
    let (firstChunk, _) ← read32 raw
    some { next, name, size, flags, firstChunk }

instance : Record ChunkNode where
  kind := "chunk node"
  bytes r := bytes32 r.next ++ bytes32 r.length ++ bytes32 r.data
  parse raw := do
    let (next, raw) ← read32 raw
    let (length, raw) ← read32 raw
    let (data, _) ← read32 raw
    some { next, length, data }

end BootImage
