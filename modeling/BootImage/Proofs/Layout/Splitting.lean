import Mathlib
import BootImage.Proofs.Layout.Cutting
import BootImage.Proofs.Random.Words

/-!
Which lists of lengths a number of sectors can be cut into. They are told by the lengths alone, with
no word of how these were drawn: cutting gives only such lists. Chance leaves nothing out: whatever
obeys the rules for cutting files and for free runs is drawn for some words, and a list of draws
takes its words one draw after the other.
-/
namespace BootImage

open Generator (Gives Reaches)

theorem Chunks.cutReaches {sectors : Nat} {lengths : List UInt32} (cut : Cut sectors lengths)
    (done : Array UInt32) {left : UInt32} (same : left.toNat = sectors) :
    Reaches (fun g => drawFrom done left g) (done ++ lengths.toArray) := by
  induction cut generalizing done left with
  | nothing =>
    obtain rfl : left = 0 := UInt32.toNat_inj.mp same
    refine ⟨[], fun gives => ?_⟩
    cases gives
    change drawFrom done 0 _ = _
    unfold drawFrom
    simp
  | @rest short some below =>
    obtain rfl : left = short := UInt32.toNat_inj.mp same
    refine ⟨[], fun gives => ?_⟩
    cases gives
    change drawFrom done left _ = _
    unfold drawFrom
    rw [if_neg some, dif_neg (UInt32.not_le.mpr below)]
    simp
  | @chunk length behind lengths long tail ih =>
    have most : length ≤ left := by
      rw [UInt32.le_iff_toNat_le]
      omega
    have enough : minChunk ≤ left := UInt32.le_trans long most
    have some : left ≠ 0 := by
      rintro rfl
      exact absurd enough (by decide)
    have rest : (left - length).toNat = behind := by
      rw [UInt32.toNat_sub_of_le _ _ most]
      omega
    obtain ⟨first, drawn⟩ := Generator.rangeReaches long most
    obtain ⟨words, later⟩ := ih (done.push length) rest
    refine ⟨first ++ words, fun gives => ?_⟩
    obtain ⟨middle, front, back⟩ := gives.split
    have here : Generator.range minChunk left _ = _ := drawn front
    have behind : drawFrom (done.push length) (left - length) _ = _ := later back
    change drawFrom done left _ = _
    unfold drawFrom
    rw [if_neg some, dif_pos enough]
    simp [here, behind]

namespace Draw

theorem fitsReaches {d : Draw} (fits : d.Fits) : Reaches (fun g => ofEntry d.entry g) d := by
  obtain ⟨entry, chunks, freeRun⟩ := d
  obtain ⟨first, cut⟩ := Chunks.cutReaches fits.chunks #[] (Entry.sectorsDrawn entry)
  have least : (1 : UInt32) ≤ freeRun := UInt32.le_iff_toNat_le.mpr fits.freeRun.1
  have most : freeRun ≤ maxFreeRun := UInt32.le_iff_toNat_le.mpr fits.freeRun.2
  obtain ⟨second, drawn⟩ := Generator.rangeReaches least most
  refine ⟨first ++ second, fun gives => ?_⟩
  obtain ⟨middle, front, back⟩ := gives.split
  have here : Chunks.drawFrom #[] _ _ = _ := cut front
  have behind : Generator.range 1 maxFreeRun _ = _ := drawn back
  simp [ofEntry, Chunks.draw, here, behind]

theorem allReaches {draws : List Draw} (fits : ∀ d ∈ draws, d.Fits) :
    Reaches (fun g => ofEntries (draws.map Draw.entry) g) draws := by
  induction draws with
  | nil =>
    refine ⟨[], fun gives => ?_⟩
    cases gives
    rfl
  | cons d draws ih =>
    obtain ⟨first, drawn⟩ := fitsReaches (fits d List.mem_cons_self)
    obtain ⟨words, later⟩ := ih fun other member => fits other (List.mem_cons_of_mem _ member)
    refine ⟨first ++ words, fun gives => ?_⟩
    obtain ⟨middle, front, back⟩ := gives.split
    have here : ofEntry d.entry _ = _ := drawn front
    have behind : ofEntries (draws.map Draw.entry) _ = _ := later back
    simp only [List.map_cons, ofEntries, here, behind]

end Draw

namespace Chunks

/- All but the last length are long enough to have been drawn. -/
structure Split (sectors : Nat) (lengths : List UInt32) : Prop where
  positive : ∀ length ∈ lengths, 0 < length.toNat
  total : (lengths.map UInt32.toNat).sum = sectors
  long : ∀ length ∈ lengths.dropLast, 8 ≤ length.toNat

theorem cutLong {sectors : Nat} {lengths : List UInt32} (cut : Cut sectors lengths) :
    ∀ length ∈ lengths.dropLast, 8 ≤ length.toNat := by
  induction cut with
  | nothing => simp
  | rest some short => simp
  | @chunk first left lengths long tail ih =>
    cases lengths with
    | nil => simp
    | cons second later =>
      rw [List.dropLast_cons_cons]
      exact List.forall_mem_cons.mpr ⟨UInt32.le_iff_toNat_le.mp long, ih⟩

theorem cutOfSplit {sectors : Nat} {lengths : List UInt32} (split : Split sectors lengths) :
    Cut sectors lengths := by
  obtain ⟨positive, total, long⟩ := split
  induction lengths generalizing sectors with
  | nil =>
    subst total
    exact .nothing
  | cons first lengths ih =>
    obtain ⟨here, others⟩ := List.forall_mem_cons.mp positive
    subst total
    cases lengths with
    | nil =>
      -- The last length may be short or not; cutting ends with it for one reason or the other.
      by_cases short : first < minChunk
      · have some : first ≠ 0 := by
          rintro rfl
          exact absurd here (by decide)
        exact .rest some short
      · exact .chunk (UInt32.not_lt.mp short) .nothing
    | cons second later =>
      rw [List.dropLast_cons_cons] at long
      obtain ⟨drawn, rest⟩ := List.forall_mem_cons.mp long
      exact .chunk (UInt32.le_iff_toNat_le.mpr drawn) (ih others rfl rest)

theorem cutIffSplit {sectors : Nat} {lengths : List UInt32} :
    Cut sectors lengths ↔ Split sectors lengths :=
  ⟨fun cut => ⟨cutPositive cut, cutSum cut, cutLong cut⟩, cutOfSplit⟩

theorem splitFew {sectors : Nat} {lengths : List UInt32} (split : Split sectors lengths) :
    lengths.length ≤ (sectors + 7) / 8 := by
  have count := cutCount (cutOfSplit split)
  omega

theorem splitShort {left : UInt32} {lengths : List UInt32} (split : Split left.toNat lengths)
    (some : 0 < left) (short : left < 8) : lengths = [left] := by
  have positive : 0 < left.toNat := UInt32.lt_iff_toNat_lt.mp some
  have small : left.toNat < 8 := UInt32.lt_iff_toNat_lt.mp short
  have few := splitFew split
  match lengths, split with
  | [], split =>
    have none := split.total
    simp only [List.map_nil, List.sum_nil] at none
    omega
  | [length], split =>
    have whole := split.total
    simp only [List.map_cons, List.map_nil, List.sum_cons, List.sum_nil, Nat.add_zero] at whole
    rw [UInt32.toNat_inj.mp whole]
  | first :: second :: later, split =>
    simp only [List.length_cons] at few
    omega

/-- The cut is free but for its rules: whatever the words are they hold, and no list of lengths that
keeps them is out of reach. -/
theorem drawSplits (sectors : UInt32) :
    (∀ {γ : Type} [Generator γ] (g : γ), Split sectors.toNat (draw sectors g).1 ∧
      (draw sectors g).1.length ≤ (sectors.toNat + 7) / 8 ∧
      (sectors = 0 → (draw sectors g).1 = []) ∧
      (0 < sectors → sectors < 8 → (draw sectors g).1 = [sectors])) ∧
    ∀ lengths, Split sectors.toNat lengths → ∃ c : Cycle, (draw sectors c).1 = lengths := by
  refine ⟨?drawn, ?reached⟩
  case drawn =>
    intro γ _ g
    have cut := drawCut sectors g
    have split := cutIffSplit.mp cut
    refine ⟨split, splitFew split, ?_, splitShort split⟩
    rintro rfl
    exact (cutNothing cut).mpr rfl
  case reached =>
    intro lengths split
    obtain ⟨words, cut⟩ := cutReaches (cutOfSplit split) #[] rfl
    obtain ⟨c, drawn⟩ := Cycle.reached ⟨words, cut⟩
    refine ⟨c, ?_⟩
    change (drawFrom #[] sectors c).1.toList = lengths
    rw [drawn]
    simp

/- A list that ends short, and two numbers of sectors that leave nothing to chance. -/
theorem drawSplitsThree : Split 21 [8, 9, 4] ∧ (∃ c : Cycle, (draw 21 c).1 = [8, 9, 4]) ∧
    (∀ c : Cycle, (draw 7 c).1 = [7]) ∧ ∀ c : Cycle, (draw 0 c).1 = [] := by
  have split : Split 21 [8, 9, 4] := ⟨by simp, by decide, by simp⟩
  have some : (0 : UInt32) < 7 := by decide
  have short : (7 : UInt32) < 8 := by decide
  exact ⟨split, (drawSplits 21).2 _ split, fun c => ((drawSplits 7).1 c).2.2.2 some short,
    fun c => ((drawSplits 0).1 c).2.2.1 rfl⟩

end Chunks

end BootImage
