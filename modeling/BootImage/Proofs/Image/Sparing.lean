import Mathlib
import BootImage.Proofs.Image.Overwriting

/-!
What may be written over. Free runs, the part of a sector behind its record, and everything outside
of the region can hold any bytes: reading files never comes there.
-/
namespace BootImage

/- The records that reading meets on its way to the files, by their length. -/
def Content.recordWidth? : Content → Option Nat
  | .superBlock _ => some (FixedRecord.width SuperBlock)
  | .file .. => some (FixedRecord.width FileHeader)
  | .chunkNode _ => some (FixedRecord.width ChunkNode)
  | .free _ | .chunkData _ => none

namespace Plan

/- Bytes, counted from the superblock, that files do not need: on the sectors of the given free
runs, behind a record on its sector, and past the region. -/
inductive Spare (p : Plan) (frees : List (UInt32 × FreeRun)) (i : Nat) : Prop
  | free {offset run} (listed : (offset, run) ∈ frees)
      (covers : Extent.Covers ⟨offset, run.length⟩ (i / sectorSize))
  | reserved {b width} (member : b ∈ p.blocks) (record : b.content.recordWidth? = some width)
      (covers : b.extent.Covers (i / sectorSize)) (behind : b.offset.toNat * sectorSize + width ≤ i)
  | past (beyond : (p.capacity.toNat - 1) * sectorSize ≤ i)

theorem spareWithin {p : Plan} {frees : List (UInt32 × FreeRun)}
    (tiled : Tiled 0 (p.blocks.map Block.extent) (p.capacity.toNat - 1))
    (listed : ∀ item ∈ frees, p.freeAt? item.1 = some item.2) {i : Nat} (spare : p.Spare frees i)
    {b : Block} (member : b ∈ p.blocks) (covers : b.extent.Covers (i / sectorSize)) :
    (∃ run, b.content = .free run) ∨
      ∃ width, b.content.recordWidth? = some width ∧ b.offset.toNat * sectorSize + width ≤ i := by
  have within := tiled.bounds (List.mem_map.mpr ⟨b, member, rfl⟩)
  have inside : i / sectorSize < p.capacity.toNat - 1 := Nat.lt_of_lt_of_le covers.2 within.2.2
  have only : ∀ c ∈ p.blocks, c.extent.Covers (i / sectorSize) → c = b := fun c known holds =>
    (coveredOnce tiled (Nat.zero_le _) inside).unique ⟨known, holds⟩ ⟨member, covers⟩
  cases spare with
  | @free offset run known holds =>
    obtain ⟨label, other⟩ := freeKnown tiled (listed _ known)
    exact .inl ⟨run, only _ other holds ▸ rfl⟩
  | @reserved c width known record holds behind =>
    cases only c known holds
    exact .inr ⟨width, record, behind⟩
  | past beyond =>
    have below := (Nat.div_lt_iff_lt_mul Nat.succ_pos').mp inside
    exact absurd beyond (Nat.not_le.mpr below)

end Plan

namespace Image

/- An image that reaches as far as the region and holds what another does, spare bytes aside. -/
structure Spares (before after : Image) (p : Plan) (frees : List (UInt32 × FreeRun)) : Prop where
  reaches : (p.capacity.toNat - 1) * sectorSize ≤ after.bytes.size
  same : ∀ i, ¬p.Spare frees i → after.bytes.data[i]? = before.bytes.data[i]?

variable {before after image : Image}

theorem partByte (image : Image) {offset count : UInt32} {i : Nat}
    (inside : i < count.toNat * sectorSize) :
    (image.part offset count)[i]? = image.bytes.data[offset.toNat * sectorSize + i]? := by
  rw [part, List.getElem?_take_of_lt inside, List.getElem?_drop, Array.getElem?_toList]

theorem partSame {offset count : UInt32}
    (same : ∀ i < count.toNat * sectorSize, after.bytes.data[offset.toNat * sectorSize + i]? =
      before.bytes.data[offset.toNat * sectorSize + i]?) :
    after.part offset count = before.part offset count := by
  apply List.ext_getElem?
  intro i
  rcases Nat.lt_or_ge i (count.toNat * sectorSize) with inside | past
  · rw [partByte after inside, partByte before inside, same i inside]
  · rw [part, part, List.getElem?_take_eq_none past, List.getElem?_take_eq_none past]

section

variable {p : Plan} {frees : List (UInt32 × FreeRun)}
  (tiled : Tiled 0 (p.blocks.map Block.extent) (p.capacity.toNat - 1))
  (listed : ∀ item ∈ frees, p.freeAt? item.1 = some item.2)
  (spares : Spares before after p frees)

include tiled

theorem blockInside (reaches : (p.capacity.toNat - 1) * sectorSize ≤ image.bytes.size) {b : Block}
    (member : b ∈ p.blocks) : image.Inside b.offset b.sectors := by
  have within := tiled.bounds (List.mem_map.mpr ⟨b, member, rfl⟩)
  exact (Nat.mul_le_mul_right _ within.2.2).trans reaches

include listed spares

theorem byteStill {b : Block} (member : b ∈ p.blocks) {i : Nat}
    (inside : i < b.sectors.toNat * sectorSize) (used : ∀ run, b.content ≠ .free run)
    (early : ∀ width, b.content.recordWidth? = some width → i < width) :
    after.bytes.data[b.offset.toNat * sectorSize + i]? =
      before.bytes.data[b.offset.toNat * sectorSize + i]? := by
  -- A spare byte on a sector of this block would make it free or lie behind its record.
  refine spares.same _ fun spare => ?_
  have positive : 0 < sectorSize := Nat.succ_pos'
  have sector : (b.offset.toNat * sectorSize + i) / sectorSize =
      b.offset.toNat + i / sectorSize := by
    rw [Nat.mul_comm, Nat.mul_add_div positive]
  have below : i / sectorSize < b.sectors.toNat := (Nat.div_lt_iff_lt_mul positive).mpr inside
  have covers : b.extent.Covers ((b.offset.toNat * sectorSize + i) / sectorSize) := by
    rw [sector]
    exact ⟨Nat.le_add_right _ _, Nat.add_lt_add_left below _⟩
  rcases Plan.spareWithin tiled listed spare member covers with
    ⟨run, free⟩ | ⟨width, record, behind⟩
  · exact used run free
  · have within := early width record
    omega

theorem heldStill {α : Type} [Record α] [FixedRecord α] {b : Block} (member : b ∈ p.blocks)
    (whole : b.sectors = 1) (record : b.content.recordWidth? = some (FixedRecord.width α)) {r : α}
    (held : before.Holds b.offset r) : after.Holds b.offset r := by
  have inside := blockInside tiled spares.reaches member
  rw [whole] at inside
  refine ⟨inside, List.prefix_iff_getElem?.mpr fun i known => ?_⟩
  have early : i < FixedRecord.width α := FixedRecord.length r ▸ known
  have within : i < (1 : UInt32).toNat * sectorSize := by
    rw [UInt32.toNat_one, Nat.one_mul]
    exact Nat.lt_of_lt_of_le early FixedRecord.small
  have used : ∀ run, b.content ≠ .free run := by
    intro run free
    rw [free] at record
    cases record
  have same := byteStill tiled listed spares member (whole ▸ within) used fun width other => by
    rw [record] at other
    cases other
    exact early
  have there := List.prefix_iff_getElem?.mp held.2 i known
  rw [partByte before within] at there
  rw [partByte after within, same, there]

theorem liveStill (live : ∀ b ∈ p.blocks, before.Live b) : ∀ b ∈ p.blocks, after.Live b := by
  intro b member
  have held := live b member
  obtain ⟨offset, content, label⟩ := b
  cases content with
  | superBlock | file | chunkNode => exact heldStill tiled listed spares member rfl rfl held
  | free | chunkData => exact trivial

end

theorem contentSame {header : FileHeader}
    (same : after.rawChunks header = before.rawChunks header) :
    after.fileContent header = before.fileContent header := by
  unfold fileContent
  rw [same]

theorem filesSame {headers : List FileHeader} (left : after.fileHeaders = .ok headers)
    (right : before.fileHeaders = .ok headers)
    (same : ∀ header ∈ headers, after.fileContent header = before.fileContent header) :
    after.files = before.files := by
  unfold files
  rw [left, right]
  exact mapMSame fun header member => by rw [same header member]

section

variable {p : Plan} (tiled : Tiled 0 (p.blocks.map Block.extent) (p.capacity.toNat - 1))

include tiled

theorem rawChunksLive (live : ∀ b ∈ p.blocks, image.Live b)
    (reaches : (p.capacity.toNat - 1) * sectorSize ≤ image.bytes.size) {header : FileHeader}
    {nodes : List (UInt32 × ChunkNode)}
    (chain : Chain p.chunkNodeAt? ChunkNode.next header.firstChunk nodes)
    (data : ∀ visit ∈ nodes, ∃ label,
      p.blockAt? visit.2.data = some ⟨visit.2.data, .chunkData visit.2.length, label⟩) :
    image.rawChunks header = .ok (nodes.flatMap fun visit =>
      image.part visit.2.data visit.2.length).toByteArray := by
  refine rawChunksIff.mpr ⟨nodes, nodeChainRead tiled live chain, fun visit member => ?_,
    List.toList_data_toByteArray⟩
  obtain ⟨label, found⟩ := data visit member
  have inside := blockInside tiled reaches ((Plan.blockAtIff tiled _ _).mp found).1
  exact inside

variable {draws : List Draw} {t : Tour} (complete : t.Complete draws p)
  (mirrors : before.Mirrors p t)
  (reaches : (p.capacity.toNat - 1) * sectorSize ≤ before.bytes.size)
  (spares : Spares before after p t.frees)

include complete mirrors reaches spares

theorem rawChunksStill {header : FileHeader} {nodes : List (UInt32 × ChunkNode)}
    (chain : Chain p.chunkNodeAt? ChunkNode.next header.firstChunk nodes)
    (data : ∀ visit ∈ nodes, ∃ label,
      p.blockAt? visit.2.data = some ⟨visit.2.data, .chunkData visit.2.length, label⟩) :
    after.rawChunks header = before.rawChunks header := by
  have listed : ∀ item ∈ t.frees, p.freeAt? item.1 = some item.2 := fun item member =>
    (complete.follows.frees.member member).2
  have live : ∀ b ∈ p.blocks, before.Live b := fun b member => (mirrors.blocks b member).live
  have parts : ∀ visit ∈ nodes, after.part visit.2.data visit.2.length =
      before.part visit.2.data visit.2.length := by
    intro visit member
    obtain ⟨label, found⟩ := data visit member
    have inside := ((Plan.blockAtIff tiled _ _).mp found).1
    exact partSame fun i within => byteStill tiled listed spares inside within nofun nofun
  rw [rawChunksLive tiled (liveStill tiled listed spares live) spares.reaches chain data,
    rawChunksLive tiled live reaches chain data, List.flatMap_congr parts]

theorem readingStill : after.superBlock = before.superBlock ∧
    after.fileHeaders = before.fileHeaders ∧
    (∀ header : FileHeader, header ∈ t.files.map (·.2.2) ∨ header.firstChunk = nullPointer ∨
        (∃ node, p.chunkNodeAt? header.firstChunk = some node) →
      after.rawChunks header = before.rawChunks header ∧
        after.fileContent header = before.fileContent header) ∧
    after.files = before.files := by
  have follows := complete.follows
  have listed : ∀ item ∈ t.frees, p.freeAt? item.1 = some item.2 := fun item member =>
    (follows.frees.member member).2
  have live : ∀ b ∈ p.blocks, after.Live b :=
    liveStill tiled listed spares fun b member => (mirrors.blocks b member).live
  have valid := (superBlockIff.mp mirrors.superBlock).2
  have headers := headersRead tiled live follows valid
  have ofFile : ∀ header ∈ t.files.map (·.2.2),
      after.rawChunks header = before.rawChunks header := by
    intro header member
    obtain ⟨file, inside, rfl⟩ := List.mem_map.mp member
    obtain ⟨nodes, chain, _, data⟩ := complete.chunks inside
    exact rawChunksStill tiled complete mirrors reaches spares chain data
  refine ⟨?top, headers.trans mirrors.headers.symm, ?chunks, ?files⟩
  case top => rw [superBlockRead tiled live follows.top valid, mirrors.superBlock]
  case chunks =>
    intro header begins
    have raw : after.rawChunks header = before.rawChunks header := by
      rcases begins with member | null | ⟨node, found⟩
      · exact ofFile header member
      · have nothing : Chain p.chunkNodeAt? ChunkNode.next header.firstChunk [] := null ▸ .ended
        exact rawChunksStill tiled complete mirrors reaches spares nothing (by simp)
      · obtain ⟨nodes, chain, data⟩ := complete.chunksFrom tiled found
        exact rawChunksStill tiled complete mirrors reaches spares chain data
    exact ⟨raw, contentSame raw⟩
  case files =>
    exact filesSame headers mirrors.headers fun header member =>
      contentSame (ofFile header member)

end

end Image

variable {γ : Type} [Generator γ] {ρ : Type} [Reader ρ]

/-- Whatever is written over free space, files read as before. Sinks that keep nothing are left
out. -/
theorem executeSpares {entries : List Entry} {capacity : UInt32} {g : γ} {p : Plan}
    (ok : (plan entries capacity g).outcome = .ok p) {sources : List (Source ρ)} {w : Window}
    (kept : w.sink ≠ .discard) {progress : Progress}
    (finished : (execute p sources w progress).outcome = .ok ()) :
    p.capacity = capacity ∧ ∃ before frees headers,
      before = Image.behind w.skip (execute p sources w progress).device.sink.bytes ∧
      before.freeRuns = .ok frees ∧ before.fileHeaders = .ok headers ∧
      ∀ other : ByteArray, (w.skip.toNat + (capacity.toNat - 1)) * sectorSize ≤ other.size →
        (∀ i, ¬p.Spare frees i → other.data[w.skip.toNat * sectorSize + i]? =
          (execute p sources w progress).device.sink.bytes.data[w.skip.toNat * sectorSize + i]?) →
        ∃ after, after = Image.behind w.skip other ∧
          after.superBlock = before.superBlock ∧ after.fileHeaders = before.fileHeaders ∧
          (∀ header : FileHeader, header ∈ headers ∨ header.firstChunk = nullPointer ∨
              (∃ node, p.chunkNodeAt? header.firstChunk = some node) →
            after.rawChunks header = before.rawChunks header ∧
              after.fileContent header = before.fileContent header) ∧
          after.files = before.files := by
  obtain ⟨order, address, laid⟩ := planLaid ok
  obtain ⟨_, _, _, read, _⟩ := laid.finished finished
  have mirrors := laid.mirrored kept finished
  have length := (Plan.callsRun laid.tiled (laid.filled read)).2.2
  have reaches := (laid.regionShown read kept finished).length_le
  rw [length, listLength, ← laid.sized] at reaches
  refine ⟨laid.sized, _, _, _, rfl, mirrors.frees, mirrors.headers,
    fun other whole same => ⟨_, rfl, ?_⟩⟩
  refine Image.readingStill (laid.sized ▸ laid.tiled) laid.tourComplete mirrors reaches ⟨?_, ?_⟩
  · rw [← listLength, Image.behindBytes, List.length_drop, listLength, laid.sized]
    rw [Nat.add_mul] at whole
    omega
  · intro i used
    rw [← Array.getElem?_toList, ← Array.getElem?_toList, Image.behindBytes, Image.behindBytes,
      List.getElem?_drop, List.getElem?_drop, Array.getElem?_toList, Array.getElem?_toList]
    exact same i used

theorem scribbled (spare : Nat → Prop) (bytes : ByteArray) (size : Nat) : ∃ other : ByteArray,
    other.size = size ∧ ∀ i < size, (spare i → other.data[i]? = some 9) ∧
      (¬spare i → i < bytes.size → other.data[i]? = bytes.data[i]?) := by
  classical
  refine ⟨⟨Array.ofFn fun i : Fin size => if spare i then 9 else bytes.data[i.val]?.getD 0⟩,
    Array.size_ofFn, ?_⟩
  intro i inside
  have here : (Array.ofFn fun i : Fin size => if spare i then (9 : UInt8) else
      bytes.data[i.val]?.getD 0)[i]? = some (if spare i then 9 else bytes.data[i]?.getD 0) := by
    rw [Array.getElem?_ofFn, dif_pos inside]
  refine ⟨fun free => by rw [here, if_pos free], fun used known => ?_⟩
  rw [here, if_neg used, Array.getElem?_eq_getElem known]
  rfl

namespace Laid

variable {capacity : UInt32} {order : List Draft} {address : Slot → UInt32} {p : Plan}

theorem superBlockTail {draws : List Draw} (laid : Laid draws capacity order address p)
    (frees : List (UInt32 × FreeRun)) : p.Spare frees (FixedRecord.width SuperBlock) := by
  obtain ⟨top, first⟩ : ∃ top, ⟨0, .superBlock top, "superblock"⟩ ∈ p.blocks :=
    ⟨_, laid.superBlockFirst ▸ List.mem_cons_self⟩
  have sector : 12 / sectorSize < 0 + 1 := by decide
  have behind : (0 : UInt32).toNat * sectorSize + 12 ≤ 12 := by decide
  exact .reserved first rfl ⟨Nat.zero_le _, sector⟩ behind

theorem trailingLong {entries : List Entry} {g : γ}
    (laid : Laid (Draw.ofEntries entries g).1 capacity order address p)
    (room : (entries.map Entry.mostSectors).sum + 4 ≤ capacity.toNat) :
    2 ≤ (capacity - address .lastFree - 1).toNat := by
  obtain ⟨same, fits⟩ := Draw.ofEntriesFit entries g
  have most := (Draw.sumWithin fits).2
  have trailing := laid.trailing
  rw [laid.lastAddress, usedSectors] at trailing
  rw [same] at most
  omega

end Laid

/- Nines stand in front of the region, on every byte of it that is spare, and on a sector behind it.
The last free run has sectors behind its header, and the superblock has a reserved part. -/
theorem executeSparesScribbled : ∃ (p : Plan) (s : Source Stream) (before after : Image)
    (bytes other : ByteArray) (frees : List (UInt32 × FreeRun)) (headers : List FileHeader),
    (plan [.twoSectors] 400 (Cycle.ofWords [5, 3])).outcome = .ok p ∧
    (execute p [s] (⟨.file ⟨#[7]⟩, 2⟩ : Window) .start).outcome = .ok () ∧
    (execute p [s] (⟨.file ⟨#[7]⟩, 2⟩ : Window) .start).device = ⟨.file bytes, 2⟩ ∧
    before = Image.behind 2 bytes ∧ after = Image.behind 2 other ∧
    before.freeRuns = .ok frees ∧ before.fileHeaders = .ok headers ∧
    (∃ free ∈ frees, 2 ≤ free.2.length.toNat) ∧ p.Spare frees (FixedRecord.width SuperBlock) ∧
    other.size = 402 * sectorSize ∧ (∀ i < 2 * sectorSize, other.data[i]? = some 9) ∧
    (∀ i < 400 * sectorSize, p.Spare frees i → other.data[2 * sectorSize + i]? = some 9) ∧
    after.superBlock = before.superBlock ∧ after.fileHeaders = before.fileHeaders ∧
    (∀ header ∈ headers, after.rawChunks header = before.rawChunks header ∧
      after.fileContent header = before.fileContent header) ∧
    after.files = before.files := by
  obtain ⟨p, s, ok, finishes⟩ := oneFileFinishes
  have finished := finishes _ .file ⟨#[7]⟩ .start
  have kept : Sink.file ⟨#[7]⟩ ≠ .discard := nofun
  obtain ⟨order, address, laid⟩ := planLaid ok
  obtain ⟨_, filling, _, read, _⟩ := laid.finished finished
  obtain ⟨bytes, held, grown⟩ := laid.overwritten read .file finished
  obtain ⟨sized, _, frees, headers, rfl, listed, headed, spares⟩ := executeSpares ok kept finished
  rw [held] at listed headed spares
  have long : ∃ free ∈ frees, 2 ≤ free.2.length.toNat := by
    have mirrors := laid.mirrored kept finished
    rw [held] at mirrors
    cases listed.symm.trans mirrors.frees
    exact ⟨_, List.mem_append_right _ (List.mem_singleton.mpr rfl), laid.trailingLong (by decide)⟩
  have size : bytes.size = 401 * sectorSize := by
    have ends := laid.regionEnds read 2
    rw [grown.size, ← ends]
    decide
  obtain ⟨other, length, scribbles⟩ := scribbled
    (fun i => i < 2 * sectorSize ∨ p.Spare frees (i - 2 * sectorSize)) bytes (402 * sectorSize)
  have reaches : ((2 : UInt64).toNat + ((400 : UInt32).toNat - 1)) * sectorSize ≤ other.size := by
    rw [length]
    decide
  obtain ⟨after, rfl, top, heads, chunks, files⟩ := spares other reaches fun i used => by
    have early : i < 399 * sectorSize := by
      by_contra past
      exact used (.past (by rw [sized]; exact Nat.le_of_not_lt past))
    have start : (2 : UInt64).toNat * sectorSize = 2 * sectorSize := rfl
    rw [start]
    refine (scribbles _ (by omega)).2 ?_ (by omega)
    rw [Nat.add_sub_cancel_left]
    exact not_or.mpr ⟨by omega, used⟩
  refine ⟨p, s, _, _, bytes, other, frees, headers, ok, finished, held, rfl, rfl, listed, headed,
    long, laid.superBlockTail frees, length, ?front, ?spare, top, heads, ?headers, files⟩
  case headers => exact fun header member => chunks header (.inl member)
  case front =>
    intro i low
    exact (scribbles i (by omega)).1 (.inl low)
  case spare =>
    intro i inside free
    refine (scribbles _ (by omega)).1 (.inr ?_)
    rwa [Nat.add_sub_cancel_left]

end BootImage
