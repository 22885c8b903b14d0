import Mathlib
import BootImage.Proofs.Layout.Region
import BootImage.Proofs.Layout.Splitting
import BootImage.Random

/-!
What capacity a list of files needs. Cuts and free runs are drawn before the capacity is looked at,
so each list and generator have one least capacity, and a refusal says which. Some capacities chance
does not matter for: a list of files always fits from one capacity on and never below a smaller one;
between the two it is up to chance, and neither can be moved.
-/
namespace BootImage

variable {γ : Type} [Generator γ]

theorem leastCapacity {entries : List Entry} (few : entries.length ≤ maxFiles) (g : γ) :
    ∃ required : UInt32, required.toNat = usedSectors (Draw.ofEntries entries g).1 + 2 ∧
      required.toUInt64 = UInt64.ofNat (usedSectors (Draw.ofEntries entries g).1 + 2) := by
  have bounded := drawsBounded few g
  have exact : (UInt32.ofNat (usedSectors (Draw.ofEntries entries g).1 + 2)).toNat =
      usedSectors (Draw.ofEntries entries g).1 + 2 := by
    rw [UInt32.toNat_ofNat']
    omega
  exact ⟨_, exact, by rw [← UInt64.ofNat_uInt32ToNat, exact]⟩

/-- One capacity decides over all of them. It is the one that every refusal reports, and a region of
just that many sectors ends with a free run of one. -/
theorem planDecides (entries : List Entry) (g : γ) :
    (maxFiles < entries.length → ∀ capacity,
      plan entries capacity g = ⟨[], .error (.tooManyFiles entries.length), g⟩) ∧
    (entries.length ≤ maxFiles → ∃ draws used, ∃ required : UInt32,
      draws = (Draw.ofEntries entries g).1 ∧ draws.map Draw.entry = entries ∧
      used = 1 + (draws.map fun d =>
        (d.entry.size.toNat + 511) / 512 + d.chunks.length + 1 + d.freeRun.toNat).sum ∧
      required.toNat = used + 2 ∧
      (∀ capacity, (plan entries capacity g).draws = draws) ∧
      (∀ capacity, (∃ p, (plan entries capacity g).outcome = .ok p) ↔ required ≤ capacity) ∧
      (∀ capacity < required, (plan entries capacity g).outcome =
        .error (.capacityExceeded required.toUInt64 capacity)) ∧
      ∃ p front offset, (plan entries required g).outcome = .ok p ∧ offset.toNat = used ∧
        p.blocks = front ++ [⟨offset, .free ⟨nullPointer, 1⟩, "the last free block"⟩]) := by
  refine ⟨fun many capacity => planTooMany many capacity g, fun few => ?_⟩
  obtain ⟨required, exact, reported⟩ := leastCapacity few g
  have accepted : ∀ capacity, required ≤ capacity → ∃ address p,
      (plan entries capacity g).outcome = .ok p ∧
        Laid (Draw.ofEntries entries g).1 capacity (drawnOrder entries g).1 address p := by
    intro capacity enough
    have room := UInt32.le_iff_toNat_le.mp enough
    exact planRoomy few capacity g (by omega)
  have refused : ∀ capacity < required, (plan entries capacity g).outcome =
      .error (.capacityExceeded required.toUInt64 capacity) := by
    intro capacity short
    have small := UInt32.lt_iff_toNat_lt.mp short
    rw [reported]
    exact planFull few capacity g (by omega)
  refine ⟨_, usedSectors (Draw.ofEntries entries g).1, required, rfl,
    (Draw.ofEntriesFit entries g).1, rfl, exact, ?draws, ?decides, refused, ?least⟩
  case draws =>
    intro capacity
    rw [planSteps few]
  case decides =>
    intro capacity
    constructor
    · rintro ⟨p, ok⟩
      by_contra short
      rw [refused capacity (UInt32.not_le.mp short)] at ok
      cases ok
    · intro enough
      obtain ⟨_, p, ok, _⟩ := accepted capacity enough
      exact ⟨p, ok⟩
  case least =>
    obtain ⟨address, p, ok, laid⟩ := accepted required (UInt32.le_refl _)
    have blocks := laid.frontAndLast
    have start := laid.lastAddress
    have length : required - address .lastFree - 1 = 1 := by
      have whole := laid.trailing
      apply UInt32.toNat_inj.mp
      rw [UInt32.toNat_one]
      omega
    rw [length] at blocks
    exact ⟨p, _, _, ok, start, blocks⟩

theorem planDecidesEight :
    (∀ capacity, plan (List.replicate 129 .twoSectors) capacity (Cycle.ofWords [5, 3]) =
      ⟨[], .error (.tooManyFiles 129), Cycle.ofWords [5, 3]⟩) ∧
    (plan [.twoSectors] 7 (Cycle.ofWords [5, 3])).outcome = .error (.capacityExceeded 8 7) ∧
    ∃ p, (plan [.twoSectors] 8 (Cycle.ofWords [5, 3])).outcome = .ok p := by
  have many := (planDecides (List.replicate 129 .twoSectors) (Cycle.ofWords [5, 3])).1
  rw [List.length_replicate] at many
  have drawn : (Draw.ofEntries [.twoSectors] (Cycle.ofWords [5, 3])).1 =
      [⟨.twoSectors, [2], 1⟩] := by
    simp only [Draw.ofEntries, Draw.ofEntry, Chunks.draw]
    unfold Chunks.drawFrom
    rfl
  obtain ⟨draws, used, required, rfl, _, rfl, least, _, decides, refused, _⟩ :=
    (planDecides [.twoSectors] (Cycle.ofWords [5, 3])).2 (by decide)
  rw [drawn] at least
  obtain rfl : required = 8 := UInt32.toNat_inj.mp least
  exact ⟨many (by decide), refused 7 (by decide), (decides 8).mpr (by decide)⟩

namespace Chunks

theorem cutShort {left : UInt32} (short : left < minChunk) : ∃ lengths, Cut left.toNat lengths ∧
    lengths.length = if left.toNat = 0 then 0 else 1 := by
  by_cases none : left = 0
  · subst none
    exact ⟨[], .nothing, rfl⟩
  · have some : left.toNat ≠ 0 := fun zero => none (UInt32.toNat_inj.mp zero)
    exact ⟨[left], .rest none short, by simp [some]⟩

theorem cutFinest (sectors : UInt32) : ∃ lengths, Cut sectors.toNat lengths ∧
    lengths.length = (sectors.toNat + 7) / 8 := by
  -- Chunks of the least length as long as one can be cut off.
  obtain ⟨count, whole⟩ : ∃ count, count = sectors.toNat := ⟨_, rfl⟩
  induction count using Nat.strong_induction_on generalizing sectors with
  | h count ih =>
    rcases Nat.lt_or_ge sectors.toNat 8 with short | long
    · obtain ⟨lengths, cut, number⟩ := cutShort (UInt32.lt_iff_toNat_lt.mpr short)
      refine ⟨lengths, cut, ?_⟩
      rw [number]
      split <;> omega
    · have enough : minChunk ≤ sectors := UInt32.le_iff_toNat_le.mpr long
      have eight : minChunk.toNat = 8 := rfl
      have rest := UInt32.toNat_sub_of_le _ _ enough
      obtain ⟨lengths, cut, number⟩ := ih (sectors - minChunk).toNat (by omega) _ rfl
      have split : sectors.toNat = minChunk.toNat + (sectors - minChunk).toNat := by omega
      refine ⟨minChunk :: lengths, split ▸ .chunk (UInt32.le_refl _) cut, ?_⟩
      rw [List.length_cons, number]
      omega

theorem cutWhole (sectors : UInt32) : ∃ lengths, Cut sectors.toNat lengths ∧
    lengths.length = if sectors.toNat = 0 then 0 else 1 := by
  by_cases short : sectors < minChunk
  · exact cutShort short
  · have long := UInt32.not_lt.mp short
    have least := UInt32.le_iff_toNat_le.mp long
    have eight : minChunk.toNat = 8 := rfl
    exact ⟨[sectors], .chunk long .nothing, by rw [if_neg (by omega)]; rfl⟩

end Chunks

namespace Draw

theorem mostDrawn (e : Entry) : ∃ d : Draw, d.entry = e ∧ d.Fits ∧ d.sectors = e.mostSectors := by
  obtain ⟨lengths, cut, number⟩ := Chunks.cutFinest (sectorsFor e.size.toUInt64).toUInt32
  rw [Entry.sectorsDrawn] at cut number
  have four : 1 ≤ maxFreeRun.toNat ∧ maxFreeRun.toNat ≤ 4 := by decide
  refine ⟨⟨e, lengths, maxFreeRun⟩, rfl, ⟨cut, four⟩, ?_⟩
  simp only [sectors, Entry.mostSectors, number]
  rfl

theorem leastDrawn (e : Entry) : ∃ d : Draw, d.entry = e ∧ d.Fits ∧ d.sectors = e.leastSectors := by
  obtain ⟨lengths, cut, number⟩ := Chunks.cutWhole (sectorsFor e.size.toUInt64).toUInt32
  rw [Entry.sectorsDrawn] at cut number
  have one : 1 ≤ (1 : UInt32).toNat ∧ (1 : UInt32).toNat ≤ 4 := by decide
  refine ⟨⟨e, lengths, 1⟩, rfl, ⟨cut, one⟩, ?_⟩
  simp only [sectors, Entry.leastSectors, number]
  rfl

/- What each entry can take by itself, all of them can take at once. -/
theorem usedReached {size : Entry → Nat}
    (each : ∀ e, ∃ d : Draw, d.entry = e ∧ d.Fits ∧ d.sectors = size e) (entries : List Entry) :
    ∃ c : Cycle, usedSectors (ofEntries entries c).1 = 1 + (entries.map size).sum := by
  choose chosen entry fits sectors using each
  have all : ∀ d ∈ entries.map chosen, d.Fits := by
    intro d member
    obtain ⟨e, _, rfl⟩ := List.mem_map.mp member
    exact fits e
  have same : (entries.map chosen).map Draw.entry = entries := by
    simp [Function.comp_def, entry]
  obtain ⟨c, drawn⟩ := Cycle.reached (allReaches all)
  rw [same] at drawn
  refine ⟨c, ?_⟩
  rw [drawn, usedSectors, List.map_map]
  simp only [Function.comp_def, sectors]

end Draw

/-- Both capacities are sharp: one sector less than the larger may be refused, and the smaller one
may be accepted. -/
theorem planBounds {entries : List Entry} (few : entries.length ≤ maxFiles) :
    ∃ least most : UInt32,
      least.toNat = 3 + (entries.map fun e => (e.size.toNat + 511) / 512 +
        (if (e.size.toNat + 511) / 512 = 0 then 0 else 1) + 2).sum ∧
      most.toNat = 3 + (entries.map fun e => (e.size.toNat + 511) / 512 +
        ((e.size.toNat + 511) / 512 + 7) / 8 + 5).sum ∧
      (∀ {γ : Type} [Generator γ] (g : γ) (capacity : UInt32), most ≤ capacity →
        ∃ p, (plan entries capacity g).outcome = .ok p) ∧
      (∀ {γ : Type} [Generator γ] (g : γ) (capacity : UInt32), capacity < least →
        ∃ required, (plan entries capacity g).outcome =
          .error (.capacityExceeded required capacity)) ∧
      (∃ c : Cycle, (plan entries (most - 1) c).outcome =
        .error (.capacityExceeded most.toUInt64 (most - 1))) ∧
      ∃ (c : Cycle) (p : Plan), (plan entries least c).outcome = .ok p := by
  obtain ⟨fine, finest⟩ := Draw.usedReached Draw.mostDrawn entries
  obtain ⟨coarse, coarsest⟩ := Draw.usedReached Draw.leastDrawn entries
  obtain ⟨most, mostExact, reported⟩ := leastCapacity few fine
  obtain ⟨least, leastExact, _⟩ := leastCapacity few coarse
  rw [finest] at mostExact
  rw [coarsest] at leastExact
  have within : ∀ {γ : Type} [Generator γ] (g : γ),
      least.toNat ≤ usedSectors (Draw.ofEntries entries g).1 + 2 ∧
        usedSectors (Draw.ofEntries entries g).1 + 2 ≤ most.toNat := by
    intro γ _ g
    obtain ⟨same, fits⟩ := Draw.ofEntriesFit entries g
    have sums := Draw.sumWithin fits
    rw [same] at sums
    unfold usedSectors
    omega
  refine ⟨least, most, ?_, ?_, ?accepted, ?refused, ?largest, ?smallest⟩
  · rw [leastExact]
    change 1 + (entries.map Entry.leastSectors).sum + 2 = 3 + (entries.map Entry.leastSectors).sum
    omega
  · rw [mostExact]
    change 1 + (entries.map Entry.mostSectors).sum + 2 = 3 + (entries.map Entry.mostSectors).sum
    omega
  case accepted =>
    intro γ _ g capacity enough
    have room := UInt32.le_iff_toNat_le.mp enough
    have sums := within g
    obtain ⟨_, p, accepted, _⟩ := planRoomy few capacity g (by omega)
    exact ⟨p, accepted⟩
  case refused =>
    intro γ _ g capacity short
    have small := UInt32.lt_iff_toNat_lt.mp short
    have sums := within g
    exact ⟨_, planFull few capacity g (by omega)⟩
  case largest =>
    have one : (1 : UInt32) ≤ most := by
      rw [UInt32.le_iff_toNat_le, UInt32.toNat_one]
      omega
    have below := UInt32.toNat_sub_of_le _ _ one
    rw [UInt32.toNat_one] at below
    refine ⟨fine, ?_⟩
    rw [reported]
    exact planFull few (most - 1) fine (by omega)
  case smallest =>
    obtain ⟨_, p, accepted, _⟩ := planRoomy few least coarse (by omega)
    exact ⟨coarse, p, accepted⟩

theorem planBoundsTwo :
    (∀ c : Cycle, ∃ p, (plan [.fourteenSectors, .noSectors] 29 c).outcome = .ok p) ∧
    (∀ c : Cycle, ∃ required,
      (plan [.fourteenSectors, .noSectors] 21 c).outcome =
        .error (.capacityExceeded required 21)) ∧
    (∃ c : Cycle,
      (plan [.fourteenSectors, .noSectors] 28 c).outcome = .error (.capacityExceeded 29 28)) ∧
    ∃ (c : Cycle) (p : Plan), (plan [.fourteenSectors, .noSectors] 22 c).outcome = .ok p := by
  have few : [Entry.fourteenSectors, .noSectors].length ≤ maxFiles := by decide
  obtain ⟨least, most, leastExact, mostExact, accepted, refused, largest, smallest⟩ :=
    planBounds few
  obtain rfl : least = 22 := UInt32.toNat_inj.mp leastExact
  obtain rfl : most = 29 := UInt32.toNat_inj.mp mostExact
  exact ⟨fun c => accepted c 29 (by decide), fun c => refused c 21 (by decide), largest, smallest⟩

end BootImage
