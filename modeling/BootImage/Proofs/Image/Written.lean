import Mathlib
import BootImage.Image.Execution
import BootImage.Image.Reading
import BootImage.Proofs.Device.Sinks
import BootImage.Proofs.Layout.Tiling
import BootImage.Proofs.Record

/-!
What writing a plan puts on a device: the bytes of its blocks, one block behind the other. The calls
of a block cover exactly its sectors, so the next one starts where they end.
-/
namespace BootImage

theorem zeroCallsRun (start : UInt64) (count : Nat) (fits : start.toNat + count < UInt64.size) :
    Call.Run start.toNat (zeroCalls start count) (start.toNat + count) ∧
      Call.joined (zeroCalls start count) = List.replicate (count * sectorSize) 0 := by
  induction start, count using zeroCalls.induct with
  | case1 start =>
    unfold zeroCalls
    rw [if_pos rfl]
    exact ⟨.done, by simp [Call.joined]⟩
  | case2 start count some short =>
    unfold zeroCalls
    rw [if_neg some, if_pos short]
    refine ⟨.call count rfl (Nat.pos_of_ne_zero some) (zerosSize _) .done, ?_⟩
    simp [Call.joined, zerosBytes]
  | case3 start count some long ih =>
    have batch : (start + UInt64.ofNat zeroBatchSectors).toNat =
        start.toNat + zeroBatchSectors := by
      have small : (UInt64.ofNat zeroBatchSectors).toNat = zeroBatchSectors := rfl
      rw [UInt64.toNat_add, small]
      exact Nat.mod_eq_of_lt (by simp only [UInt64.size] at fits; omega)
    obtain ⟨run, joined⟩ := ih (by rw [batch]; omega)
    have whole : zeroBatch.size = zeroBatchSectors * sectorSize := zerosSize _
    have bytes : zeroBatch.data.toList = List.replicate (zeroBatchSectors * sectorSize) 0 := by
      unfold zeroBatch
      rw [zerosBytes]
    rw [batch, Nat.add_assoc, Nat.add_sub_cancel' (Nat.le_of_not_lt long)] at run
    unfold zeroCalls
    rw [if_neg some, if_neg long]
    -- From here on the batch is any data of its size; nothing may compute it.
    generalize zeroBatch = data at whole bytes ⊢
    refine ⟨.call zeroBatchSectors rfl (by decide) whole run, ?_⟩
    unfold Call.joined
    rw [List.flatMap_cons, ← Call.joined, joined, bytes, List.replicate_append_replicate,
      ← Nat.add_mul, Nat.add_sub_cancel' (Nat.le_of_not_lt long)]

namespace Block

variable (contents : Contents)

def bytes (b : Block) : List UInt8 :=
  match b.content with
  | .superBlock record => (Record.sector record).data.toList
  | .file _ record => (Record.sector record).data.toList
  | .chunkNode record => (Record.sector record).data.toList
  | .free record => (Record.sector record).data.toList ++
    List.replicate (record.filler.toNat * sectorSize) 0
  | .chunkData _ => ((contents[b.offset]?).getD ByteArray.empty).data.toList

def Filled (b : Block) : Prop :=
  ∀ length, b.content = .chunkData length →
    ∃ data, contents[b.offset]? = some data ∧ data.size = length.toNat * sectorSize

variable {contents}

theorem recordCall {α : Type} [Record α] [FixedRecord α] (sector : UInt64) (record : α) :
    Call.ofRecord sector record = .ok ⟨sector, Record.sector record⟩ := by
  unfold Call.ofRecord
  rw [Record.encodeSector]
  rfl

theorem recordRun {α : Type} [Record α] [FixedRecord α] (offset : UInt32) (record : α) :
    Call.Run offset.toNat [⟨offset.toUInt64, Record.sector record⟩] (offset.toNat + 1) ∧
      Call.joined [⟨offset.toUInt64, Record.sector record⟩] =
        (Record.sector record).data.toList := by
  have word : offset.toUInt64.toNat = offset.toNat := UInt32.toNat_toUInt64 offset
  constructor
  · rw [← word]
    exact .sector ⟨offset.toUInt64, Record.sector record⟩ (Record.sectorLength record) .done
  · simp [Call.joined]

theorem fillerLength {run : FreeRun} (some : 0 < run.length.toNat) :
    run.filler.toNat + 1 = run.length.toNat := by
  have other : run.length ≠ 0 := fun none => by simp [none] at some
  have one : (1 : UInt32) ≤ run.length := UInt32.le_iff_toNat_le.mpr some
  unfold FreeRun.filler
  rw [if_neg other, UInt32.toNat_sub_of_le _ _ one, UInt32.toNat_one]
  omega

/- The contents without the ones that a block takes. -/
def left (contents : Contents) (b : Block) : Contents :=
  match b.content with
  | .chunkData _ => contents.erase b.offset
  | .superBlock _ | .free _ | .file .. | .chunkNode _ => contents

theorem leftElsewhere {b : Block} {offset : UInt32} (apart : b.offset ≠ offset) :
    (b.left contents)[offset]? = contents[offset]? := by
  unfold left
  split
  · rw [Std.HashMap.getElem?_erase, if_neg (by simpa using apart)]
  all_goals rfl

theorem callsRun {b : Block} (some : 0 < b.sectors.toNat) (filled : b.Filled contents) :
    ∃ calls, b.calls contents = .ok (calls, b.left contents) ∧
      Call.Run b.offset.toNat calls (b.offset.toNat + b.sectors.toNat) ∧
      Call.joined calls = b.bytes contents := by
  obtain ⟨offset, content, label⟩ := b
  have word : offset.toUInt64.toNat = offset.toNat := UInt32.toNat_toUInt64 offset
  cases content with
  | superBlock record => exact ⟨_, by simp only [calls, recordCall]; rfl, recordRun offset record⟩
  | file source record => exact ⟨_, by simp only [calls, recordCall]; rfl, recordRun offset record⟩
  | chunkNode record => exact ⟨_, by simp only [calls, recordCall]; rfl, recordRun offset record⟩
  | free record =>
    have length : record.filler.toNat + 1 = record.length.toNat := fillerLength some
    obtain ⟨first, joined⟩ := recordRun offset record
    have next : (offset.toUInt64 + 1).toNat = offset.toNat + 1 := by
      have top := offset.toNat_lt
      rw [UInt64.toNat_add, word]
      exact Nat.mod_eq_of_lt (by simp only [UInt64.toNat_one]; omega)
    obtain ⟨zeros, rest⟩ := zeroCallsRun (offset.toUInt64 + 1) record.filler.toNat (by
      have top := offset.toNat_lt
      have most := record.length.toNat_lt
      rw [next]
      simp only [UInt64.size]
      omega)
    refine ⟨[⟨offset.toUInt64, Record.sector record⟩] ++
      zeroCalls (offset.toUInt64 + 1) record.filler.toNat, ?_, ?_, ?_⟩
    · simp only [calls, recordCall]
      rfl
    · rw [next] at zeros
      have stop : offset.toNat + 1 + record.filler.toNat = offset.toNat + record.length.toNat := by
        omega
      rw [stop] at zeros
      exact first.append zeros
    · rw [Call.joinedAppend, joined, rest, bytes]
  | chunkData length =>
    obtain ⟨data, found, size⟩ := filled length rfl
    refine ⟨[⟨offset.toUInt64, data⟩], ?_, .call _ word some size .done, ?_⟩
    · simp only [calls, found]
      rfl
    · simp [Call.joined, bytes, found]

def planned (contents : Contents) (b : Block) : List Call :=
  match b.calls contents with
  | .ok result => result.1
  | .error _ => []

theorem plannedOther {held : Contents} {b : Block}
    (other : ∀ length, b.content ≠ .chunkData length) : b.planned held = b.planned contents := by
  obtain ⟨offset, content, label⟩ := b
  cases content with
  | superBlock | file | chunkNode | free =>
    simp only [planned, calls, recordCall]
    rfl
  | chunkData length => exact absurd rfl (other length)

theorem plannedSame {held : Contents} {b : Block}
    (same : held[b.offset]? = contents[b.offset]?) : b.planned held = b.planned contents := by
  by_cases chunk : ∃ length, b.content = .chunkData length
  · obtain ⟨length, content⟩ := chunk
    simp only [planned, calls, content, same]
    cases contents[b.offset]? <;> rfl
  · exact plannedOther (not_exists.mp chunk)

theorem callsPlanned {b : Block} (some : 0 < b.sectors.toNat) (filled : b.Filled contents) :
    b.calls contents = .ok (b.planned contents, b.left contents) ∧
      Call.Run b.offset.toNat (b.planned contents) (b.offset.toNat + b.sectors.toNat) ∧
      Call.joined (b.planned contents) = b.bytes contents := by
  obtain ⟨calls, made, run, joined⟩ := callsRun some filled
  have same : b.planned contents = calls := by
    unfold planned
    rw [made]
  rw [same]
  exact ⟨made, run, joined⟩

theorem bytesLength {b : Block} (some : 0 < b.sectors.toNat) (filled : b.Filled contents) :
    (b.bytes contents).length = b.sectors.toNat * sectorSize := by
  obtain ⟨calls, _, run, joined⟩ := callsRun some filled
  have length := run.length
  rw [joined, Nat.add_mul] at length
  omega

end Block

def Plan.bytes (p : Plan) (contents : Contents) : List UInt8 :=
  p.blocks.flatMap (Block.bytes contents)

section

variable {contents : Contents} {skip : UInt64}

theorem plannedRun {blocks : List Block} {start stop : Nat}
    (tiled : Tiled start (blocks.map Block.extent) stop)
    (filled : ∀ b ∈ blocks, b.Filled contents) :
    Call.Run start (blocks.flatMap (Block.planned contents)) stop ∧
      Call.joined (blocks.flatMap (Block.planned contents)) =
        blocks.flatMap (Block.bytes contents) := by
  induction blocks generalizing start with
  | nil =>
    cases tiled
    exact ⟨.done, rfl⟩
  | cons b blocks ih =>
    cases tiled with
    | cons first some later =>
      obtain ⟨_, run, joined⟩ := Block.callsPlanned some (filled b List.mem_cons_self)
      obtain ⟨rest, behind⟩ := ih later fun c member => filled c (List.mem_cons_of_mem _ member)
      change b.offset.toNat = start at first
      rw [first] at run
      rw [List.flatMap_cons, List.flatMap_cons, Call.joinedAppend, joined, behind]
      exact ⟨run.append rest, rfl⟩

/- No two blocks start on one sector, so what a block takes is not missed by those behind it. -/
theorem leftBehind {b : Block} {blocks : List Block} {start stop : Nat}
    (tiled : Tiled start ((b :: blocks).map Block.extent) stop)
    (filled : ∀ c ∈ b :: blocks, c.Filled contents) :
    (∀ c ∈ blocks, c.Filled (b.left contents)) ∧
      blocks.flatMap (Block.planned (b.left contents)) =
        blocks.flatMap (Block.planned contents) := by
  have apart : ∀ c ∈ blocks, (b.left contents)[c.offset]? = contents[c.offset]? := by
    intro c member
    have distinct := (List.nodup_cons.mp tiled.startsDistinct).1
    refine Block.leftElsewhere fun same => distinct ?_
    exact List.mem_map.mpr ⟨c.extent, List.mem_map.mpr ⟨c, member, rfl⟩, same.symm⟩
  refine ⟨fun c member length content => ?_, List.flatMap_congr fun c member => ?_⟩
  · rw [apart c member]
    exact filled c (List.mem_cons_of_mem _ member) length content
  · exact Block.plannedSame (apart c member)

theorem positionLater (position : UInt64) (sectors : UInt32) (rest : Nat) :
    position + sectors.toUInt64 + UInt64.ofNat rest =
      position + UInt64.ofNat (sectors.toNat + rest) := by
  rw [UInt64.ofNat_add, ← UInt64.add_assoc, UInt64.ofNat_uInt32ToNat]

section

variable {δ : Type} [Device δ] {d last : δ} {blocks : List Block} {start stop : Nat}
  (tiled : Tiled start (blocks.map Block.extent) stop) (filled : ∀ b ∈ blocks, b.Filled contents)

include tiled filled

theorem writeBlocksAccepted
    (accepts : Device.Accepts d (blocks.flatMap (Block.planned contents)) last)
    (tried : Array Call) (position : UInt64) :
    writeBlocks contents blocks d tried position =
      ⟨last, tried ++ (blocks.flatMap (Block.planned contents)).toArray,
        position + UInt64.ofNat (stop - start), .ok ()⟩ := by
  induction blocks generalizing start d tried position contents with
  | nil =>
    cases accepts
    cases tiled
    simp [writeBlocks]
  | cons b blocks ih =>
    obtain ⟨behind, same⟩ := leftBehind tiled filled
    cases tiled with
    | cons first some later =>
      obtain ⟨planned, run, _⟩ := Block.callsPlanned some (filled b List.mem_cons_self)
      rw [List.flatMap_cons] at accepts
      obtain ⟨middle, front, back⟩ := accepts.split
      have ends := later.total
      change start + b.sectors.toNat + _ = stop at ends
      have reached : stop - start = b.sectors.toNat + (stop - (start + b.sectors.toNat)) := by omega
      rw [writeBlocks, planned, List.flatMap_cons, reached, ← positionLater]
      simp only [front.perform]
      rw [← same] at back ⊢
      rw [ih later behind back]
      simp [Block.extent]

theorem writeBlocksRefused {count : Nat} {e : IoError}
    (refuses : Device.Refuses d (blocks.flatMap (Block.planned contents)) count e last)
    (tried : Array Call) (position : UInt64) :
    ∃ b ∈ blocks, ∃ call, b.extent.Covers call.sector.toNat ∧
      (blocks.flatMap (Block.planned contents))[count]? = some call ∧
      writeBlocks contents blocks d tried position =
        ⟨last, tried ++ ((blocks.flatMap (Block.planned contents)).take (count + 1)).toArray,
          position + UInt64.ofNat (b.offset.toNat - start), .error (.io e)⟩ := by
  induction blocks generalizing start d count tried position contents with
  | nil => cases refuses
  | cons b blocks ih =>
    obtain ⟨behind, same⟩ := leftBehind tiled filled
    cases tiled with
    | cons first some later =>
      obtain ⟨planned, run, _⟩ := Block.callsPlanned some (filled b List.mem_cons_self)
      change b.offset.toNat = start at first
      rw [List.flatMap_cons] at refuses
      rw [writeBlocks, planned, List.flatMap_cons]
      -- The refused call is one of this block's, or the block is written and a later one refused.
      rcases refuses.split with early | ⟨middle, further, front, rfl, late⟩
      · obtain ⟨call, member, found⟩ := early.inside
        have inside := (List.getElem?_eq_some_iff.mp found).1
        refine ⟨b, List.mem_cons_self, call, run.inside member, ?_, ?_⟩
        · rw [List.getElem?_append_left inside, found]
        · simp only [early.perform]
          rw [List.take_append_of_le_length inside, first, Nat.sub_self]
          simp
      · rw [← same] at late ⊢
        obtain ⟨c, member, call, called, found, rest⟩ := ih later behind late
          (tried ++ (b.planned contents).toArray) (position + b.sectors.toUInt64)
        have within := later.bounds (List.mem_map.mpr ⟨c, member, rfl⟩)
        change start + b.sectors.toNat ≤ c.offset.toNat ∧ _ at within
        have reached : c.offset.toNat - start =
            b.sectors.toNat + (c.offset.toNat - (start + b.sectors.toNat)) := by omega
        refine ⟨c, List.mem_cons_of_mem _ member, call, called, ?_, ?_⟩
        · rw [List.getElem?_append_right (Nat.le_add_right _ _), Nat.add_sub_cancel_left, found]
        · simp only [front.perform]
          rw [rest, reached, ← positionLater, Nat.add_assoc, List.take_length_add_append]
          simp [Block.extent]

end

theorem blockShown {blocks : List Block} {start stop : Nat}
    (tiled : Tiled start (blocks.map Block.extent) stop)
    (filled : ∀ b ∈ blocks, b.Filled contents) {front image : List UInt8}
    (here : start * sectorSize = front.length)
    (shown : front ++ blocks.flatMap (Block.bytes contents) <+: image) {b : Block}
    (member : b ∈ blocks) : b.bytes contents <+: image.drop (b.offset.toNat * sectorSize) := by
  induction blocks generalizing start front with
  | nil => simp at member
  | cons c blocks ih =>
    cases tiled with
    | cons first some later =>
      rw [List.flatMap_cons] at shown
      change c.offset.toNat = start at first
      rcases List.mem_cons.mp member with rfl | inside
      · have behind := shown.drop front.length
        rw [List.drop_left, ← here, ← first] at behind
        exact (List.prefix_append _ _).trans behind
      · have length : (start + c.sectors.toNat) * sectorSize =
            (front ++ c.bytes contents).length := by
          rw [List.length_append, Block.bytesLength some (filled c List.mem_cons_self), ← here,
            Nat.add_mul]
        rw [← List.append_assoc] at shown
        exact ih later (fun d known => filled d (List.mem_cons_of_mem _ known)) length shown inside

end

variable {ρ : Type} [Reader ρ]

theorem Image.behindBytes (skip : UInt64) (bytes : ByteArray) :
    (Image.behind skip bytes).bytes.data.toList =
      bytes.data.toList.drop (skip.toNat * sectorSize) := by
  simp only [Image.behind]
  split
  · rw [extractBytes, List.take_of_length_le (by rw [listLength])]
  · rw [List.drop_of_length_le (by rw [listLength]; omega)]
    rfl

def Plan.calls (p : Plan) (contents : Contents) : List Call :=
  p.blocks.flatMap (Block.planned contents)

theorem Plan.callsRun {p : Plan} {stop : Nat} (tiled : Tiled 0 (p.blocks.map Block.extent) stop)
    {contents : Contents} (filled : ∀ b ∈ p.blocks, b.Filled contents) :
    Call.Run 0 (p.calls contents) stop ∧ Call.joined (p.calls contents) = p.bytes contents ∧
      (p.bytes contents).length = stop * sectorSize := by
  obtain ⟨run, joined⟩ := plannedRun tiled filled
  have length := run.length
  rw [Nat.zero_mul, Nat.zero_add, joined] at length
  exact ⟨run, joined, length⟩

section

variable {δ : Type} [Device δ] {device last : δ} {p : Plan} {stop : Nat}
  (tiled : Tiled 0 (p.blocks.map Block.extent) stop) {sources after : List (Source ρ)}
  {filling : Filling} (read : Filling.ofPlan p sources = (.ok (), after, filling))
  (filled : ∀ b ∈ p.blocks, b.Filled filling.contents)

include tiled read filled

theorem executeAccepted (accepts : Device.Accepts device (p.calls filling.contents) last)
    (progress : Progress) : execute p sources device progress =
      { sources := after, pieces := filling.pieces.toList, filled := true, device := last,
        calls := p.calls filling.contents,
        progress := ⟨progress.position + UInt64.ofNat stop, some p.totalSectors⟩,
        outcome := .ok () } := by
  have written := writeBlocksAccepted tiled filled accepts #[] progress.position
  simp only [execute, read, written]
  simp [Plan.calls]

theorem executeRefused {count : Nat} {e : IoError}
    (refuses : Device.Refuses device (p.calls filling.contents) count e last)
    (progress : Progress) : ∃ b ∈ p.blocks, ∃ call, (p.calls filling.contents)[count]? = some call ∧
      b.extent.Covers call.sector.toNat ∧ execute p sources device progress =
        { sources := after, pieces := filling.pieces.toList, filled := true, device := last,
          calls := (p.calls filling.contents).take (count + 1),
          progress := ⟨progress.position + b.offset.toUInt64, some p.totalSectors⟩,
          outcome := .error (.io e) } := by
  obtain ⟨b, member, call, called, found, written⟩ :=
    writeBlocksRefused tiled filled refuses #[] progress.position
  refine ⟨b, member, call, found, called, ?_⟩
  rw [Nat.sub_zero, UInt64.ofNat_uInt32ToNat] at written
  simp only [execute, read, written]
  simp [Plan.calls]

theorem executeStarted (device : δ) (progress : Progress) :
    (execute p sources device progress).sources = after ∧ ∃ count,
      (execute p sources device progress).calls = (p.calls filling.contents).take (count + 1) := by
  rcases Device.acceptsOrRefuses device (p.calls filling.contents) with
    ⟨last, accepts⟩ | ⟨count, e, last, refuses⟩
  · rw [executeAccepted tiled read filled accepts progress]
    exact ⟨rfl, (p.calls filling.contents).length, (List.take_of_length_le (Nat.le_succ _)).symm⟩
  · obtain ⟨_, _, _, _, _, stopped⟩ := executeRefused tiled read filled refuses progress
    rw [stopped]
    exact ⟨rfl, count, rfl⟩

end

theorem executeUnread {δ : Type} [Device δ] {p : Plan} {sources after : List (Source ρ)}
    {filling : Filling} {f : Fault} (read : Filling.ofPlan p sources = (.error f, after, filling))
    (device : δ) (progress : Progress) : execute p sources device progress =
      { sources := after, pieces := filling.pieces.toList, filled := false, device, calls := [],
        progress, outcome := .error f } := by
  simp only [execute, read]

end BootImage
