import Mathlib
import BootImage.Proofs.Sector
import BootImage.Record

/-!
The four records of an image have one width each, within a sector. Any bytes of that width read as a
record, and it is the one that is written as these bytes; zeros fill its sector.
-/
namespace BootImage

class FixedRecord (α : Type) [Record α] where
  width : Nat
  small : width ≤ sectorSize
  length : ∀ r : α, (Record.bytes r).length = width
  parsed : ∀ {raw : List UInt8} {r : α}, Record.parse raw = some r ↔ Record.bytes r <+: raw
  enough : ∀ {raw : List UInt8}, width ≤ raw.length → ∃ r : α, Record.parse raw = some r

open Word

theorem Name.readBytes (name : Name) (rest : List UInt8) :
    Name.read (name.bytes ++ rest) = some (name, rest) := by
  have length := name.bytesLength
  unfold Name.read
  rw [dif_pos (by rw [List.length_append]; omega)]
  simp only [List.take_left' length, List.drop_left' length]

theorem Name.readIff {raw rest : List UInt8} {name : Name} :
    Name.read raw = some (name, rest) ↔ raw = name.bytes ++ rest := by
  constructor
  · intro found
    unfold Name.read at found
    split at found
    · cases found
      exact (List.take_append_drop nameSize raw).symm
    · cases found
  · rintro rfl
    exact Name.readBytes name rest

theorem Name.readEnough (raw : List UInt8) (enough : nameSize ≤ raw.length) :
    ∃ name rest, Name.read raw = some (name, rest) ∧ raw.length = rest.length + nameSize := by
  unfold Name.read
  rw [dif_pos enough]
  exact ⟨_, _, rfl, by rw [List.length_drop]; omega⟩

instance : FixedRecord SuperBlock where
  width := 12
  small := by decide
  length r := by simp [Record.bytes, bytes32Length]
  parsed {raw r} := by
    constructor
    · intro found
      simp only [Record.parse, Option.bind_eq_bind, Option.bind_eq_some_iff, Prod.exists,
        read32Iff, Option.some.injEq] at found
      obtain ⟨magic, _, rfl, firstFile, _, rfl, firstFree, rest, rfl, rfl⟩ := found
      exact ⟨rest, by simp [Record.bytes]⟩
    · rintro ⟨rest, rfl⟩
      simp [Record.parse, Record.bytes, List.append_assoc, read32Bytes]
  enough {raw} long := by
    obtain ⟨magic, first, one, count⟩ := read32Enough raw (by omega)
    obtain ⟨firstFile, second, two, rest⟩ := read32Enough first (by omega)
    obtain ⟨firstFree, third, three, _⟩ := read32Enough second (by omega)
    exact ⟨⟨magic, firstFile, firstFree⟩, by simp [Record.parse, one, two, three]⟩

instance : FixedRecord FreeRun where
  width := 8
  small := by decide
  length r := by simp [Record.bytes, bytes32Length]
  parsed {raw r} := by
    constructor
    · intro found
      simp only [Record.parse, Option.bind_eq_bind, Option.bind_eq_some_iff, Prod.exists,
        read32Iff, Option.some.injEq] at found
      obtain ⟨next, _, rfl, length, rest, rfl, rfl⟩ := found
      exact ⟨rest, by simp [Record.bytes]⟩
    · rintro ⟨rest, rfl⟩
      simp [Record.parse, Record.bytes, List.append_assoc, read32Bytes]
  enough {raw} long := by
    obtain ⟨next, first, one, count⟩ := read32Enough raw (by omega)
    obtain ⟨length, second, two, _⟩ := read32Enough first (by omega)
    exact ⟨⟨next, length⟩, by simp [Record.parse, one, two]⟩

instance : FixedRecord FileHeader where
  width := 272
  small := by decide
  length r := by simp [Record.bytes, bytes32Length, r.name.bytesLength, nameSize]
  parsed {raw r} := by
    constructor
    · intro found
      simp only [Record.parse, Option.bind_eq_bind, Option.bind_eq_some_iff, Prod.exists,
        read32Iff, Name.readIff, Option.some.injEq] at found
      obtain ⟨next, _, rfl, name, _, rfl, size, _, rfl, flags, _, rfl, firstChunk, rest, rfl,
        rfl⟩ := found
      exact ⟨rest, by simp [Record.bytes]⟩
    · rintro ⟨rest, rfl⟩
      simp [Record.parse, Record.bytes, List.append_assoc, read32Bytes, Name.readBytes]
  enough {raw} long := by
    obtain ⟨next, first, one, count⟩ := read32Enough raw (by omega)
    obtain ⟨name, second, two, rest⟩ := Name.readEnough first (by
      simp only [nameSize]
      omega)
    simp only [nameSize] at rest
    obtain ⟨size, third, three, left⟩ := read32Enough second (by omega)
    obtain ⟨flags, fourth, four, still⟩ := read32Enough third (by omega)
    obtain ⟨firstChunk, fifth, five, _⟩ := read32Enough fourth (by omega)
    exact ⟨⟨next, name, size, flags, firstChunk⟩,
      by simp [Record.parse, one, two, three, four, five]⟩

instance : FixedRecord ChunkNode where
  width := 12
  small := by decide
  length r := by simp [Record.bytes, bytes32Length]
  parsed {raw r} := by
    constructor
    · intro found
      simp only [Record.parse, Option.bind_eq_bind, Option.bind_eq_some_iff, Prod.exists,
        read32Iff, Option.some.injEq] at found
      obtain ⟨next, _, rfl, length, _, rfl, data, rest, rfl, rfl⟩ := found
      exact ⟨rest, by simp [Record.bytes]⟩
    · rintro ⟨rest, rfl⟩
      simp [Record.parse, Record.bytes, List.append_assoc, read32Bytes]
  enough {raw} long := by
    obtain ⟨next, first, one, count⟩ := read32Enough raw (by omega)
    obtain ⟨length, second, two, rest⟩ := read32Enough first (by omega)
    obtain ⟨data, third, three, _⟩ := read32Enough second (by omega)
    exact ⟨⟨next, length, data⟩, by simp [Record.parse, one, two, three]⟩

namespace Record

variable {α : Type} [Record α]

def sector (r : α) : ByteArray := padded sectorSize (bytes r).toByteArray

theorem sectorBytes (r : α) : (sector r).data.toList =
    bytes r ++ List.replicate (sectorSize - (bytes r).length) 0 := by
  simp [sector, padded, appendZerosData]

variable [FixedRecord α]

theorem fits (r : α) : (bytes r).length ≤ sectorSize :=
  (FixedRecord.length r).trans_le FixedRecord.small

theorem sectorLength (r : α) : (sector r).size = sectorSize :=
  paddedSize (by simpa using fits r)

theorem encodeSector (r : α) : encode r = .ok (sector r) := by
  have fits := fits r
  unfold encode
  rw [if_neg (by omega)]
  rfl

theorem decodeSector (r : α) : decode (sector r) = .ok r := by
  unfold decode
  rw [sectorBytes, FixedRecord.parsed.mpr (List.prefix_append _ _)]

end Record

end BootImage
