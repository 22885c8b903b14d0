import Mathlib
import BootImage.Layout.Plan

/-!
Sectors given out without gap or overlap, and what that means for looking blocks up: since none of
them is empty, no two start at the same sector, and an index by first sectors loses nothing.
-/
namespace BootImage

structure Extent where
  offset : UInt32
  sectors : UInt32
  deriving DecidableEq, Repr

def Extent.Covers (e : Extent) (sector : Nat) : Prop :=
  e.offset.toNat ≤ sector ∧ sector < e.offset.toNat + e.sectors.toNat

def Block.extent (b : Block) : Extent := ⟨b.offset, b.sectors⟩

def Placed.extent (p : Placed) : Extent := ⟨p.offset, p.draft.sectors⟩

inductive Tiled : Nat → List Extent → Nat → Prop where
  | nil (start) : Tiled start [] start
  | cons {start e es stop} (here : e.offset.toNat = start) (some : 0 < e.sectors.toNat)
      (later : Tiled (start + e.sectors.toNat) es stop) : Tiled start (e :: es) stop

namespace Tiled

theorem total {start es stop} (tiled : Tiled start es stop) :
    start + (es.map (·.sectors.toNat)).sum = stop := by
  induction tiled with
  | nil => simp
  | cons here some later ih =>
    rw [List.map_cons, List.sum_cons, ← Nat.add_assoc]
    exact ih

theorem append {start es middle more stop} (tiled : Tiled start es middle)
    (later : Tiled middle more stop) : Tiled start (es ++ more) stop := by
  induction tiled with
  | nil => exact later
  | cons here some _ ih => exact .cons here some (ih later)

theorem split {start es more stop} (tiled : Tiled start (es ++ more) stop) :
    ∃ middle, Tiled start es middle ∧ Tiled middle more stop := by
  induction es generalizing start with
  | nil => exact ⟨start, .nil start, tiled⟩
  | cons e es ih =>
    cases tiled with
    | cons here some later =>
      obtain ⟨middle, before, after⟩ := ih later
      exact ⟨middle, .cons here some before, after⟩

theorem bounds {start es stop} (tiled : Tiled start es stop) {e} (member : e ∈ es) :
    start ≤ e.offset.toNat ∧ 0 < e.sectors.toNat ∧
      e.offset.toNat + e.sectors.toNat ≤ stop := by
  induction tiled with
  | nil => simp at member
  | cons here some later ih =>
    rcases List.mem_cons.mp member with rfl | inside
    · have sum := total later
      omega
    · have within := ih inside
      omega

theorem ordered {start es stop} (tiled : Tiled start es stop) :
    es.Pairwise fun e f => e.offset.toNat + e.sectors.toNat ≤ f.offset.toNat := by
  induction tiled with
  | nil => exact .nil
  | @cons start e es stop here some later ih =>
    have before : ∀ f ∈ es, e.offset.toNat + e.sectors.toNat ≤ f.offset.toNat := by
      intro f member
      have within := bounds later member
      omega
    exact .cons before ih

theorem covered {start es stop} (tiled : Tiled start es stop) {sector : Nat}
    (least : start ≤ sector) (most : sector < stop) : ∃ e ∈ es, e.Covers sector := by
  induction tiled with
  | nil => omega
  | @cons start e es stop here some later ih =>
    by_cases inside : sector < start + e.sectors.toNat
    · exact ⟨e, List.mem_cons_self, by unfold Extent.Covers; omega⟩
    · obtain ⟨f, member, covers⟩ := ih (by omega) most
      exact ⟨f, List.mem_cons_of_mem _ member, covers⟩

theorem disjoint {start es stop} (tiled : Tiled start es stop) :
    es.Pairwise fun e f => ∀ sector, ¬ (e.Covers sector ∧ f.Covers sector) := by
  apply (ordered tiled).imp
  intro e f before sector both
  unfold Extent.Covers at both
  omega

theorem startsDistinct {start es stop} (tiled : Tiled start es stop) :
    (es.map Extent.offset).Nodup := by
  induction tiled with
  | nil => exact .nil
  | @cons start e es stop here some later ih =>
    have once : e.offset ∉ es.map Extent.offset := by
      intro again
      obtain ⟨f, member, same⟩ := List.mem_map.mp again
      have within := bounds later member
      rw [same] at within
      omega
    exact List.nodup_cons.mpr ⟨once, ih⟩

theorem alike {start stop other : Nat} {es fs : List Extent} (left : Tiled start es stop)
    (right : Tiled start fs other) (same : es.map Extent.sectors = fs.map Extent.sectors) :
    es = fs ∧ stop = other := by
  induction left generalizing fs with
  | nil =>
    obtain rfl : fs = [] := List.map_eq_nil_iff.mp same.symm
    cases right
    exact ⟨rfl, rfl⟩
  | @cons start e es stop here some later ih =>
    obtain ⟨f, rest, rfl, sectors, others⟩ := List.map_eq_cons_iff.mp same.symm
    cases right with
    | cons there _ behind =>
      rw [sectors] at behind
      obtain ⟨rfl, ends⟩ := ih behind others.symm
      have offset := UInt32.toNat_inj.mp (there.trans here.symm)
      have first : e = f := by
        cases e
        cases f
        cases offset
        cases sectors
        rfl
      exact ⟨by rw [first], ends⟩

end Tiled

theorem indexIff {κ β : Type} [BEq κ] [LawfulBEq κ] [Hashable κ] {pairs : List (κ × β)}
    (distinct : (pairs.map Prod.fst).Nodup) (key : κ) (value : β) :
    (Std.HashMap.ofList pairs)[key]? = some value ↔ (key, value) ∈ pairs := by
  have apart : pairs.Pairwise fun a b => (a.1 == b.1) = false := by
    apply (List.pairwise_map.mp distinct).imp
    intro a b different
    simpa using different
  constructor
  · intro found
    by_cases known : key ∈ pairs.map Prod.fst
    · obtain ⟨⟨same, held⟩, member, rfl⟩ := List.mem_map.mp known
      have holds : (Std.HashMap.ofList pairs)[same]? = some held :=
        Std.HashMap.getElem?_ofList_of_mem (BEq.refl same) apart member
      cases Option.some.inj (holds.symm.trans found)
      exact member
    · have absent : (Std.HashMap.ofList pairs)[key]? = none :=
        Std.HashMap.getElem?_ofList_of_contains_eq_false (by simpa using known)
      rw [absent] at found
      contradiction
  · exact Std.HashMap.getElem?_ofList_of_mem (BEq.refl key) apart

theorem wordSum {α : Type} (sectors : α → UInt32) (items : List α) (start : UInt64)
    (fits : start.toNat + (items.map fun a => (sectors a).toNat).sum < UInt64.size) :
    (items.foldl (fun sum a => sum + (sectors a).toUInt64) start).toNat =
      start.toNat + (items.map fun a => (sectors a).toNat).sum := by
  induction items generalizing start with
  | nil => simp
  | cons a items ih =>
    simp only [List.map_cons, List.sum_cons, List.foldl_cons] at fits ⊢
    have exact : (start + (sectors a).toUInt64).toNat = start.toNat + (sectors a).toNat := by
      rw [UInt64.toNat_add, UInt32.toNat_toUInt64]
      exact Nat.mod_eq_of_lt (by simp only [UInt64.size] at fits; omega)
    rw [ih _ (by rw [exact]; omega), exact, Nat.add_assoc]

def Draft.total (drafts : List Draft) : Nat := (drafts.map (·.sectors.toNat)).sum

theorem sectorsUsedTotal {drafts : List Draft} (fits : Draft.total drafts < UInt32.size) :
    (sectorsUsed drafts).toNat = Draft.total drafts := by
  have sum := wordSum Draft.sectors drafts 0
    (by simp only [Draft.total, UInt32.size, UInt64.size] at *; simpa using by omega)
  simpa [sectorsUsed, Draft.total] using sum

theorem placeFromTiled {drafts : List Draft} (positive : ∀ d ∈ drafts, 0 < d.sectors.toNat)
    (done : Array Placed) (cursor : UInt32)
    (fits : cursor.toNat + Draft.total drafts < UInt32.size) :
    ∃ (placed : List Placed) (stop : UInt32),
      placeFrom done cursor drafts = (done ++ placed.toArray, stop) ∧
      placed.map Placed.draft = drafts ∧
      Tiled cursor.toNat (placed.map Placed.extent) stop.toNat := by
  induction drafts generalizing done cursor with
  | nil => exact ⟨[], cursor, by simp [placeFrom], rfl, .nil _⟩
  | cons d drafts ih =>
    simp only [Draft.total, List.map_cons, List.sum_cons] at fits ih
    have next : (cursor + d.sectors).toNat = cursor.toNat + d.sectors.toNat := by
      rw [UInt32.toNat_add]
      exact Nat.mod_eq_of_lt (by simp only [UInt32.size] at fits; omega)
    obtain ⟨placed, stop, ran, same, tiled⟩ :=
      ih (fun d member => positive d (List.mem_cons_of_mem _ member)) (done.push ⟨d, cursor⟩)
        (cursor + d.sectors) (by omega)
    refine ⟨⟨d, cursor⟩ :: placed, stop, ?_, by simp [same], ?_⟩
    · unfold placeFrom
      rw [ran]
      simp
    · rw [next] at tiled
      exact .cons rfl (positive d List.mem_cons_self) tiled

namespace Plan

variable {p : Plan} {start stop : Nat}

theorem blockAtIff (tiled : Tiled start (p.blocks.map Block.extent) stop) (offset : UInt32)
    (b : Block) : p.blockAt? offset = some b ↔ b ∈ p.blocks ∧ b.offset = offset := by
  have distinct : ((p.blocks.map fun b => (b.offset, b)).map Prod.fst).Nodup := by
    simpa [Block.extent, Function.comp_def] using tiled.startsDistinct
  apply (indexIff distinct offset b).trans
  constructor
  · intro member
    obtain ⟨c, inside, same⟩ := List.mem_map.mp member
    cases same
    exact ⟨inside, rfl⟩
  · rintro ⟨inside, rfl⟩
    exact List.mem_map.mpr ⟨b, inside, rfl⟩

theorem chunkNodeAtIff (tiled : Tiled start (p.blocks.map Block.extent) stop) (offset : UInt32)
    (node : ChunkNode) : p.chunkNodeAt? offset = some node ↔
      ∃ b ∈ p.blocks, b.offset = offset ∧ b.content = .chunkNode node := by
  have found? : p.index[offset]? = p.blockAt? offset := rfl
  unfold chunkNodeAt? BlockIndex.chunkNode?
  rw [found?]
  constructor
  · intro found
    split at found
    · rename_i offset' record label here
      cases Option.some.inj found
      obtain ⟨member, same⟩ := (blockAtIff tiled offset _).mp here
      exact ⟨_, member, same, rfl⟩
    · contradiction
  · rintro ⟨⟨offset', content, label⟩, member, here, rfl⟩
    rw [(blockAtIff tiled offset _).mpr ⟨member, here⟩]

theorem coveredOnce (tiled : Tiled start (p.blocks.map Block.extent) stop) {sector : Nat}
    (least : start ≤ sector) (most : sector < stop) :
    ∃! b, b ∈ p.blocks ∧ b.extent.Covers sector := by
  obtain ⟨e, member, covers⟩ := tiled.covered least most
  obtain ⟨b, inside, rfl⟩ := List.mem_map.mp member
  refine ⟨b, ⟨inside, covers⟩, ?_⟩
  rintro c ⟨other, again⟩
  have apart := List.pairwise_map.mp tiled.disjoint
  have symmetric : Std.Symm fun x y : Block =>
      ∀ sector, ¬ (x.extent.Covers sector ∧ y.extent.Covers sector) :=
    ⟨fun x y separate sector both => separate sector both.symm⟩
  by_contra different
  exact apart.forall other inside different sector ⟨again, covers⟩

theorem blockAtElsewhere (tiled : Tiled start (p.blocks.map Block.extent) stop) (offset : UInt32)
    (elsewhere : (∃ b ∈ p.blocks, b.offset < offset ∧ b.extent.Covers offset.toNat) ∨
      stop ≤ offset.toNat) : p.blockAt? offset = none := by
  cases found : p.blockAt? offset with
  | none => rfl
  | some c =>
    obtain ⟨member, rfl⟩ := (blockAtIff tiled offset c).mp found
    have within : start ≤ c.offset.toNat ∧ 0 < c.sectors.toNat ∧
        c.offset.toNat + c.sectors.toNat ≤ stop :=
      tiled.bounds (List.mem_map.mpr ⟨c, member, rfl⟩)
    have here : c.extent.Covers c.offset.toNat := by
      simp only [Extent.Covers, Block.extent]
      omega
    rcases elsewhere with ⟨b, other, before, covers⟩ | past
    · obtain ⟨_, _, only⟩ := coveredOnce tiled within.1 (show c.offset.toNat < stop by omega)
      have same : b = c := (only b ⟨other, covers⟩).trans (only c ⟨member, here⟩).symm
      rw [same] at before
      exact absurd before (UInt32.lt_irrefl _)
    · omega

theorem totalSectorsTiled (tiled : Tiled start (p.blocks.map Block.extent) stop)
    (fits : stop < UInt64.size) : start + p.totalSectors.toNat = stop := by
  have sum := tiled.total
  simp only [List.map_map, Function.comp_def, Block.extent] at sum
  have exact := wordSum Block.sectors p.blocks 0 (by simpa using by omega)
  simp only [totalSectors, exact]
  simpa using sum

end Plan

end BootImage
