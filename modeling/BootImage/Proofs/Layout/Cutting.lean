import Mathlib
import BootImage.Layout.Draft

/-!
What chance may decide: how the sectors of a file fall into chunks and how long its free run is.
Every draw obeys these rules, whatever words the generator gives.
-/
namespace BootImage

namespace Chunks

/- Only the last chunk may be short, and it is so exactly where the rest was not cut any further. -/
inductive Cut : Nat → List UInt32 → Prop where
  | nothing : Cut 0 []
  | rest {left : UInt32} (some : left ≠ 0) (short : left < minChunk) : Cut left.toNat [left]
  | chunk {length : UInt32} {left lengths} (long : minChunk ≤ length) (tail : Cut left lengths) :
      Cut (length.toNat + left) (length :: lengths)

theorem cutSum {sectors lengths} (cut : Cut sectors lengths) :
    (lengths.map UInt32.toNat).sum = sectors := by
  induction cut with
  | nothing => rfl
  | rest some short => simp
  | chunk long tail ih => simp [ih]

theorem cutPositive {sectors lengths} (cut : Cut sectors lengths) :
    ∀ length ∈ lengths, 0 < length.toNat := by
  induction cut with
  | nothing => simp
  | @rest left some short =>
    intro length member
    cases List.mem_singleton.mp member
    exact Nat.pos_of_ne_zero fun zero => some (UInt32.toNat_inj.mp zero)
  | chunk long tail ih =>
    intro length member
    rcases List.mem_cons.mp member with rfl | later
    · have least := UInt32.le_iff_toNat_le.mp long
      have eight : minChunk.toNat = 8 := rfl
      omega
    · exact ih length later

theorem cutCount {sectors lengths} (cut : Cut sectors lengths) :
    8 * lengths.length ≤ sectors + 7 := by
  induction cut with
  | nothing => simp
  | @rest left some short =>
    have positive : left.toNat ≠ 0 := fun zero => some (UInt32.toNat_inj.mp zero)
    simp only [List.length_singleton]
    omega
  | chunk long tail ih =>
    have least := UInt32.le_iff_toNat_le.mp long
    have eight : minChunk.toNat = 8 := rfl
    simp only [List.length_cons]
    omega

theorem cutNothing {sectors lengths} (cut : Cut sectors lengths) : lengths = [] ↔ sectors = 0 := by
  cases cut with
  | nothing => simp
  | rest some short => simpa [← UInt32.toNat_inj] using some
  | chunk long tail =>
    have least := UInt32.le_iff_toNat_le.mp long
    have eight : minChunk.toNat = 8 := rfl
    simp only [List.cons_ne_nil, false_iff]
    omega

variable {γ : Type} [Generator γ]

theorem drawFromCut (done : Array UInt32) (left : UInt32) (g : γ) :
    ∃ lengths, (drawFrom done left g).1.toList = done.toList ++ lengths ∧
      Cut left.toNat lengths := by
  induction done, left, g using drawFrom.induct with
  | case1 done g =>
    exact ⟨[], by simp [drawFrom], .nothing⟩
  | case2 done left g some enough drawn ih =>
    obtain ⟨lengths, appended, cut⟩ := ih
    have bounds : minChunk ≤ drawn.1 ∧ drawn.1 ≤ left := Generator.rangeBounds g enough
    refine ⟨drawn.1 :: lengths, ?_, ?_⟩
    · unfold drawFrom
      rw [if_neg some, dif_pos enough]
      simpa using appended
    · have whole : left.toNat = drawn.1.toNat + (left - drawn.1).toNat := by
        have most := UInt32.le_iff_toNat_le.mp bounds.2
        rw [UInt32.toNat_sub_of_le _ _ bounds.2]
        omega
      rw [whole]
      exact .chunk bounds.1 cut
  | case3 done left g some short =>
    have appended : (drawFrom done left g).1.toList = done.toList ++ [left] := by
      unfold drawFrom
      rw [if_neg some, dif_neg short]
      simp
    exact ⟨[left], appended, .rest some (by simpa using short)⟩

theorem drawCut (sectors : UInt32) (g : γ) : Cut sectors.toNat (draw sectors g).1 := by
  obtain ⟨lengths, appended, cut⟩ := drawFromCut #[] sectors g
  have same : (draw sectors g).1 = lengths := by simpa [draw] using appended
  rw [same]
  exact cut

end Chunks

def Entry.sectors (e : Entry) : Nat := (e.size.toNat + 511) / 512

theorem Entry.sizeWithin (e : Entry) : e.size.toNat ≤ e.sectors * sectorSize := by
  unfold Entry.sectors sectorSize
  omega

theorem sectorsForCeil (bytes : UInt64) :
    (sectorsFor bytes).toNat = (bytes.toNat + 511) / 512 := by
  have top := bytes.toNat_lt
  have rest : bytes % 512 = 0 ↔ bytes.toNat % 512 = 0 := by simp [← UInt64.toNat_inj]
  simp only [sectorsFor, UInt64.toNat_add, UInt64.toNat_div, rest]
  split <;> simp <;> omega

theorem Entry.sectorsDrawn (e : Entry) :
    (sectorsFor e.size.toUInt64).toUInt32.toNat = e.sectors := by
  have size := e.size.toNat_lt
  rw [UInt64.toNat_toUInt32, sectorsForCeil, UInt32.toNat_toUInt64, Entry.sectors]
  exact Nat.mod_eq_of_lt (by omega)

/- Chance decides between these two: one chunk or as many as there can be, and a free run of one to
four sectors. -/
def Entry.leastSectors (e : Entry) : Nat := e.sectors + (if e.sectors = 0 then 0 else 1) + 2

def Entry.mostSectors (e : Entry) : Nat := e.sectors + (e.sectors + 7) / 8 + 5

namespace Draw

structure Fits (d : Draw) : Prop where
  chunks : Chunks.Cut d.entry.sectors d.chunks
  freeRun : 1 ≤ d.freeRun.toNat ∧ d.freeRun.toNat ≤ 4

def sectors (d : Draw) : Nat := d.entry.sectors + d.chunks.length + 1 + d.freeRun.toNat

theorem sectorsWithin {d : Draw} (fits : d.Fits) :
    d.entry.leastSectors ≤ d.sectors ∧ d.sectors ≤ d.entry.mostSectors := by
  have count := Chunks.cutCount fits.chunks
  have none := Chunks.cutNothing fits.chunks
  have run := fits.freeRun
  unfold Entry.leastSectors Entry.mostSectors sectors
  constructor
  · split
    · omega
    · rename_i some
      have positive := List.length_pos_iff.mpr (mt none.mp some)
      omega
  · omega

theorem sumWithin {draws : List Draw} (fits : ∀ d ∈ draws, d.Fits) :
    ((draws.map Draw.entry).map Entry.leastSectors).sum ≤ (draws.map Draw.sectors).sum ∧
      (draws.map Draw.sectors).sum ≤ ((draws.map Draw.entry).map Entry.mostSectors).sum := by
  rw [List.map_map, List.map_map]
  exact ⟨List.sum_le_sum fun d member => (sectorsWithin (fits d member)).1,
    List.sum_le_sum fun d member => (sectorsWithin (fits d member)).2⟩

theorem sectorsBounded {d : Draw} (fits : d.Fits) : d.sectors ≤ 9437189 := by
  have most := (sectorsWithin fits).2
  have size := d.entry.size.toNat_lt
  unfold Entry.mostSectors Entry.sectors at most
  omega

variable {γ : Type} [Generator γ]

theorem ofEntryFits (entry : Entry) (g : γ) :
    (ofEntry entry g).1.entry = entry ∧ (ofEntry entry g).1.Fits := by
  refine ⟨rfl, ?_, ?_⟩
  · have cut := Chunks.drawCut (sectorsFor entry.size.toUInt64).toUInt32 g
    rw [Entry.sectorsDrawn] at cut
    exact cut
  · have ordered : 1 ≤ maxFreeRun := by decide
    have bounds := Generator.rangeBounds
      (Chunks.draw (sectorsFor entry.size.toUInt64).toUInt32 g).2 ordered
    exact ⟨UInt32.le_iff_toNat_le.mp bounds.1, UInt32.le_iff_toNat_le.mp bounds.2⟩

theorem ofEntriesFit (entries : List Entry) (g : γ) :
    (ofEntries entries g).1.map Draw.entry = entries ∧
      ∀ d ∈ (ofEntries entries g).1, d.Fits := by
  induction entries generalizing g with
  | nil => simp [ofEntries]
  | cons entry entries ih =>
    obtain ⟨same, fits⟩ := ofEntryFits entry g
    obtain ⟨rest, restFit⟩ := ih (ofEntry entry g).2
    refine ⟨by simp [ofEntries, same, rest], ?_⟩
    intro d member
    rcases List.mem_cons.mp member with rfl | later
    · exact fits
    · exact restFit d later

theorem ofEntriesCount (entries : List Entry) (g : γ) :
    (ofEntries entries g).1.length = entries.length := by
  rw [← List.length_map, (ofEntriesFit entries g).1]

end Draw

end BootImage
