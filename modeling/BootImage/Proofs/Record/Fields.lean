import Mathlib
import BootImage.Proofs.Record
import BootImage.Proofs.Sector

/-!
Records against the tables of their fields. What is written is the table with zeros behind it, and
any bytes that are enough for the table read as a record: writing it again gives them back, without
what followed them.
-/
namespace BootImage

/-- The lowest byte comes first. -/
def Word.littleEndian (w : UInt32) : List UInt8 :=
  [w.toUInt8, (w >>> 8).toUInt8, (w >>> 16).toUInt8, (w >>> 24).toUInt8]

theorem Word.bytes32Spelled (w : UInt32) : bytes32 w = littleEndian w := by
  have first : UInt8.ofNat w.toNat = w.toUInt8 := rfl
  have shifted : ∀ count : UInt32, count.toNat < 32 →
      UInt8.ofNat (w.toNat / 2 ^ count.toNat) = (w >>> count).toUInt8 := by
    intro count few
    apply UInt8.toNat_inj.mp
    rw [UInt32.toNat_toUInt8, UInt32.toNat_shiftRight, Nat.mod_eq_of_lt few,
      Nat.shiftRight_eq_div_pow, UInt8.toNat_ofNat']
  unfold bytes32 littleEndian
  rw [← shifted 8 (by decide), ← shifted 16 (by decide), ← shifted 24 (by decide), ← first]
  simp only [bytes, Nat.div_div_eq_div_mul]
  rfl

namespace Record

/- The width is told apart from the fields, so that it is seen not to depend on what they hold. -/
structure Tabled (α : Type) [Record α] (width : Nat) (fields : α → List UInt8) : Prop where
  written : ∀ r : α, ∃ sector : ByteArray, encode r = .ok sector ∧ sector.size = 512 ∧
    (fields r).length = width ∧
    sector.data.toList = fields r ++ List.replicate (512 - width) 0 ∧ decode sector = .ok r
  refused : ∀ (raw : ByteArray) (f : Fault),
    (decode raw : Except Fault α) = .error f ↔ f = .shortRecord ∧ raw.size < width
  leading : ∀ left right : ByteArray, width ≤ left.size → width ≤ right.size →
    left.data.toList.take width = right.data.toList.take width →
      (decode left : Except Fault α) = decode right
  rewritten : ∀ raw : ByteArray, width ≤ raw.size → ∃ (r : α) (sector : ByteArray),
    decode raw = .ok r ∧ encode r = .ok sector ∧
      sector.data.toList = raw.data.toList.take width ++ List.replicate (512 - width) 0

theorem encodeRefused {α : Type} [Record α] (r : α) (f : Fault) : encode r = .error f ↔
    f = .recordOverflow (kind α) (bytes r).length ∧ 512 < (bytes r).length := by
  by_cases long : 512 < (bytes r).length
  · have refused : encode r = .error (.recordOverflow (kind α) (bytes r).length) := if_pos long
    rw [refused, Except.error.injEq]
    exact ⟨fun same => ⟨same.symm, long⟩, fun told => told.1.symm⟩
  · have made : encode r = .ok (padded sectorSize (bytes r).toByteArray) := if_neg long
    rw [made]
    exact ⟨nofun, fun told => absurd told.2 long⟩

variable {α : Type} [Record α] [FixedRecord α]

theorem decodeIff {raw : ByteArray} {r : α} :
    decode raw = .ok r ↔ bytes r = raw.data.toList.take (FixedRecord.width α) ∧
      FixedRecord.width α ≤ raw.size := by
  have length := FixedRecord.length r
  have size := listLength raw
  have parsed : parse raw.data.toList = some r ↔ bytes r <+: raw.data.toList := FixedRecord.parsed
  constructor
  · intro read
    unfold decode at read
    split at read
    · rename_i found
      cases read
      have leads := parsed.mp found
      have most := leads.length_le
      exact ⟨length ▸ List.prefix_iff_eq_take.mp leads, by omega⟩
    · cases read
  · rintro ⟨same, enough⟩
    have leads : bytes r <+: raw.data.toList := same ▸ List.take_prefix _ _
    unfold decode
    rw [parsed.mpr leads]

theorem decodeShort {raw : ByteArray} {f : Fault} : (decode raw : Except Fault α) = .error f ↔
    f = .shortRecord ∧ raw.size < FixedRecord.width α := by
  constructor
  · intro refused
    have short : raw.size < FixedRecord.width α := by
      by_contra long
      obtain ⟨r, found⟩ : ∃ r : α, parse raw.data.toList = some r :=
        FixedRecord.enough (by rw [listLength]; omega)
      rw [decode, found] at refused
      cases refused
    unfold decode at refused
    split at refused <;> cases refused
    exact ⟨rfl, short⟩
  · rintro ⟨rfl, short⟩
    cases read : (decode raw : Except Fault α) with
    | ok r => exact absurd (decodeIff.mp read).2 (by omega)
    | error f =>
      unfold decode at read
      split at read <;> cases read
      rfl

theorem decodeEnough {raw : ByteArray} (enough : FixedRecord.width α ≤ raw.size) :
    ∃ r : α, decode raw = .ok r := by
  cases read : (decode raw : Except Fault α) with
  | ok r => exact ⟨r, rfl⟩
  | error f => exact absurd (decodeShort.mp read).2 (by omega)

theorem tabled {fields : α → List UInt8} (same : ∀ r : α, bytes r = fields r) :
    Tabled α (FixedRecord.width α) fields := by
  have filled : ∀ r : α, (sector r).data.toList =
      bytes r ++ List.replicate (512 - FixedRecord.width α) 0 := by
    intro r
    rw [sectorBytes, FixedRecord.length]
    rfl
  refine ⟨?written, fun raw f => decodeShort, ?leading, ?rewritten⟩
  case written =>
    intro r
    have length := FixedRecord.length r
    rw [same] at length
    exact ⟨sector r, encodeSector r, sectorLength r, length, same r ▸ filled r, decodeSector r⟩
  case leading =>
    intro left right enough long alike
    obtain ⟨r, read⟩ := decodeEnough enough
    have again : decode right = .ok r :=
      decodeIff.mpr ⟨(decodeIff.mp read).1.trans alike, long⟩
    rw [read, again]
  case rewritten =>
    intro raw enough
    obtain ⟨r, read⟩ := decodeEnough enough
    exact ⟨r, sector r, read, encodeSector r, (decodeIff.mp read).1 ▸ filled r⟩

end Record

open Word (littleEndian bytes32Spelled)

/-- Both ways of each record, and the one limit that is set to records of any kind. -/
theorem recordsTabled :
    Record.Tabled SuperBlock 12 (fun r =>
      littleEndian r.magic ++ littleEndian r.firstFile ++ littleEndian r.firstFree) ∧
    Record.Tabled FreeRun 8 (fun r => littleEndian r.next ++ littleEndian r.length) ∧
    Record.Tabled FileHeader 272 (fun r => littleEndian r.next ++ r.name.bytes ++
      littleEndian r.size ++ littleEndian r.flags ++ littleEndian r.firstChunk) ∧
    Record.Tabled ChunkNode 12 (fun r =>
      littleEndian r.next ++ littleEndian r.length ++ littleEndian r.data) ∧
    ∀ {α : Type} [Record α] (r : α) (f : Fault), Record.encode r = .error f ↔
      f = .recordOverflow (Record.kind α) (Record.bytes r).length ∧
        512 < (Record.bytes r).length := by
  refine ⟨Record.tabled fun r => ?_, Record.tabled fun r => ?_, Record.tabled fun r => ?_,
    Record.tabled fun r => ?_, Record.encodeRefused⟩
  all_goals simp only [Record.bytes, bytes32Spelled]

/- A name without an end and flags that mean nothing come back; so do bytes that nobody wrote. -/
theorem recordsTabledOdd :
    (∃ sector, Record.encode (⟨5, ⟨List.replicate 256 255, List.length_replicate⟩, 513, 0xfffffffe,
        30⟩ : FileHeader) = .ok sector ∧ Record.decode sector = .ok (⟨5, ⟨List.replicate 256 255,
          List.length_replicate⟩, 513, 0xfffffffe, 30⟩ : FileHeader)) ∧
    ∃ (r : FileHeader) (sector : ByteArray),
      Record.decode ⟨Array.replicate 300 200⟩ = .ok r ∧ Record.encode r = .ok sector ∧
        sector.data.toList = List.replicate 272 200 ++ List.replicate 240 0 := by
  obtain ⟨_, _, header, _, _⟩ := recordsTabled
  obtain ⟨sector, encoded, _, _, _, decoded⟩ := header.written
    ⟨5, ⟨List.replicate 256 255, List.length_replicate⟩, 513, 0xfffffffe, 30⟩
  have enough : 272 ≤ (⟨Array.replicate 300 200⟩ : ByteArray).size := by
    rw [ByteArray.size, Array.size_replicate]
    omega
  obtain ⟨r, again, read, written, same⟩ := header.rewritten ⟨Array.replicate 300 200⟩ enough
  rw [Array.toList_replicate, List.take_replicate] at same
  exact ⟨⟨sector, encoded, decoded⟩, r, again, read, written, same⟩

end BootImage
