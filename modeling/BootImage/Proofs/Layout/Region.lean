import Mathlib
import BootImage.Proofs.Layout.Laid
import BootImage.Random

/-!
The blocks of a plan on the sectors of its region: they fill it from the superblock to the last free
block, and looking a sector up finds the block that starts there and nothing else.
-/
namespace BootImage

variable {γ : Type} [Generator γ]

/- A superblock on sector zero, a free run without successor on the last sectors. -/
structure Bordered (p : Plan) (capacity : UInt32) : Prop where
  first : ∃ top rest, p.blocks = ⟨0, .superBlock top, "superblock"⟩ :: rest
  last : ∃ front offset length,
    p.blocks = front ++ [⟨offset, .free ⟨nullPointer, length⟩, "the last free block"⟩] ∧
      offset.toNat + length.toNat + 1 = capacity.toNat

namespace Laid

variable {draws : List Draw} {capacity : UInt32} {order : List Draft} {address : Slot → UInt32}
  {p : Plan}

theorem topAddress (laid : Laid draws capacity order address p) : address .superBlock = 0 := by
  have tiled := laid.tiled
  rw [laid.blocks] at tiled
  cases tiled with
  | cons here some later => exact UInt32.toNat_inj.mp here

theorem room (laid : Laid draws capacity order address p) : 0 < capacity.toNat - 1 := by
  have tiled := laid.tiled
  rw [laid.blocks] at tiled
  cases tiled with
  | cons here some later =>
    have sum := later.total
    omega

theorem frontAndLast (laid : Laid draws capacity order address p) :
    p.blocks = (Draft.linkedTop draws.length :: order).map (Draft.block address) ++
      [⟨address .lastFree, .free ⟨nullPointer, capacity - address .lastFree - 1⟩,
        "the last free block"⟩] := by
  rw [laid.blocks, ← List.cons_append, List.map_append]
  rfl

theorem trailing (laid : Laid draws capacity order address p) :
    (address .lastFree).toNat + (capacity - address .lastFree - 1).toNat + 1 = capacity.toNat := by
  have tiled := laid.tiled
  have room := laid.room
  rw [laid.frontAndLast, List.map_append] at tiled
  obtain ⟨middle, _, last⟩ := tiled.split
  cases last with
  | cons here some later =>
    have sum := later.total
    change (address .lastFree).toNat = middle at here
    change middle + (capacity - address .lastFree - 1).toNat + 0 = _ at sum
    omega

theorem lastAddress (laid : Laid draws capacity order address p) :
    (address .lastFree).toNat = usedSectors draws := by
  have tiled := laid.tiled
  rw [laid.frontAndLast, List.map_append] at tiled
  obtain ⟨middle, front, last⟩ := tiled.split
  have sum := front.total
  have sectors : ((((Draft.linkedTop draws.length :: order).map (Draft.block address)).map
      Block.extent).map (·.sectors.toNat)).sum =
      Draft.total (Draft.linkedTop draws.length :: order) := by
    simp only [List.map_map, Function.comp_def, Block.extent, Draft.blockSectors, Draft.total]
  rw [sectors, totalPlaced laid.fits laid.shuffled, Nat.zero_add] at sum
  cases last with
  | cons here _ _ => exact here.trans sum.symm

theorem superBlockFirst (laid : Laid draws capacity order address p) :
    p.blocks = ⟨0, .superBlock (.ofHeads (pointerTo address (Draft.headerBefore draws.length))
        (address (Draft.freeRunBefore draws.length))), "superblock"⟩ ::
      (order ++ [Draft.lastFree (capacity - address .lastFree - 1)]).map (Draft.block address) := by
  rw [laid.blocks, List.map_cons, ← laid.topAddress]
  rfl

theorem bordered (laid : Laid draws capacity order address p) : Bordered p capacity where
  first := ⟨_, _, laid.superBlockFirst⟩
  last := ⟨_, _, _, laid.frontAndLast, laid.trailing⟩

end Laid

/-- Every sector but the last belongs to one block, and an index by first sectors knows them all. -/
theorem planFillsRegion {entries : List Entry} {capacity : UInt32} {g : γ} {p : Plan}
    (ok : (plan entries capacity g).outcome = .ok p) :
    Bordered p capacity ∧
    Tiled 0 (p.blocks.map Block.extent) (capacity.toNat - 1) ∧
    p.totalSectors.toNat + 1 = capacity.toNat ∧
    (∀ sector < capacity.toNat - 1, ∃! b, b ∈ p.blocks ∧ b.extent.Covers sector) ∧
    (p.blocks.map Block.offset).Nodup ∧
    (∀ offset b, p.blockAt? offset = some b ↔ b ∈ p.blocks ∧ b.offset = offset) ∧
    (∀ offset, (∃ b ∈ p.blocks, b.offset < offset ∧ b.extent.Covers offset.toNat) ∨
      capacity.toNat - 1 ≤ offset.toNat → p.blockAt? offset = none) ∧
    (∀ offset node, p.chunkNodeAt? offset = some node ↔
      ∃ b ∈ p.blocks, b.offset = offset ∧ b.content = .chunkNode node) := by
  obtain ⟨order, address, laid⟩ := planLaid ok
  have tiled := laid.tiled
  have room := laid.room
  have top := capacity.toNat_lt
  refine ⟨laid.bordered, tiled, ?_, ?_, ?_, Plan.blockAtIff tiled, Plan.blockAtElsewhere tiled,
    Plan.chunkNodeAtIff tiled⟩
  · have total := Plan.totalSectorsTiled tiled (by simp only [UInt64.size]; omega)
    omega
  · intro sector inside
    exact Plan.coveredOnce tiled (Nat.zero_le _) inside
  · simpa [Block.extent, Function.comp_def] using tiled.startsDistinct

theorem planFillsForty : ∃ p,
    (plan [.fourteenSectors, .noSectors] 40 (Cycle.ofWords [5, 3])).outcome = .ok p ∧
      Bordered p 40 ∧ p.totalSectors = 39 ∧ (∀ offset ≥ 39, p.blockAt? offset = none) := by
  obtain ⟨p, ok⟩ := twoFilesPlanned
  obtain ⟨bordered, _, total, _, _, _, elsewhere, _⟩ := planFillsRegion ok
  refine ⟨p, ok, bordered, ?_, ?_⟩
  · exact UInt64.toNat_inj.mp (Nat.succ.inj total)
  · intro offset past
    exact elsewhere offset (.inr (UInt32.le_iff_toNat_le.mp past))

end BootImage
