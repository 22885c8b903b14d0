import Mathlib
import BootImage.Proofs.Image.Calls
import BootImage.Proofs.Image.ReadFirst

/-!
Writing over what a sink held before. Nothing of it is left in the region, and outside of the
region nothing else than a gap before it is filled. A regular file that was made long enough before
keeps its length from the first call to the last, and a run that cannot read leaves it alone.
-/
namespace BootImage

variable {γ : Type} [Generator γ] {ρ : Type} [Reader ρ]

/-- Two sinks of any content end with the same bytes in the region. What else they hold stays. -/
theorem executeErases {entries : List Entry} {capacity : UInt32} {g : γ} {p : Plan}
    (ok : (plan entries capacity g).outcome = .ok p) (sources : List (Source ρ)) :
    ∃ region : List UInt8, region.length = (capacity.toNat - 1) * sectorSize ∧
      ∀ sink, Sink.Grows sink →
      ∀ (skip : UInt64) (left right : ByteArray) (progress later : Progress),
        (execute p sources (⟨sink left, skip⟩ : Window) progress).outcome = .ok () →
        (execute p sources (⟨sink right, skip⟩ : Window) later).outcome = .ok () ∧
        ∃ leftAfter rightAfter,
          (execute p sources (⟨sink left, skip⟩ : Window) progress).device =
            ⟨sink leftAfter, skip⟩ ∧
          (execute p sources (⟨sink right, skip⟩ : Window) later).device =
            ⟨sink rightAfter, skip⟩ ∧
          Sink.Grown left (Window.place skip 0) region leftAfter ∧
          Sink.Grown right (Window.place skip 0) region rightAfter ∧
          ∀ i, Window.place skip 0 ≤ i → i < Window.place skip (capacity.toNat - 1) →
            leftAfter.data[i]? = rightAfter.data[i]? := by
  obtain ⟨order, address, laid⟩ := planLaid ok
  rcases Filling.fillsOrFails p sources with ⟨after, filling, read⟩ | ⟨f, after, filling, read⟩
  · have filled := laid.filled read
    have length := (Plan.callsRun laid.tiled filled).2.2
    refine ⟨p.bytes filling.contents, length, ?_⟩
    intro sink grows skip left right progress later finished
    obtain ⟨_, _, last, again, accepts, _⟩ := laid.finished finished
    cases read.symm.trans again
    -- A sink that grows refuses nothing for what it holds, so the other run ends well too.
    obtain ⟨_, _, _, alike⟩ := Window.growsAlike grows accepts right
    have done : (execute p sources (⟨sink right, skip⟩ : Window) later).outcome = .ok () := by
      rw [executeAccepted laid.tiled read filled alike later]
    obtain ⟨leftAfter, leftHolds, leftGrown⟩ := laid.overwritten read grows finished
    obtain ⟨rightAfter, rightHolds, rightGrown⟩ := laid.overwritten read grows done
    refine ⟨done, leftAfter, rightAfter, leftHolds, rightHolds, leftGrown, rightGrown, ?_⟩
    intro i least most
    rw [laid.regionEnds read] at most
    exact (leftGrown.holds least most).trans (rightGrown.holds least most).symm
  · -- No run of these sources is finished, so any region will do.
    refine ⟨List.replicate _ 0, List.length_replicate, ?_⟩
    intro sink grows skip left right progress later finished
    rw [executeUnread read] at finished
    cases finished

/- One sink holds old bytes in front of the region, all over it and behind it, and the other hardly
any. -/
theorem executeErasesStale : ∃ (p : Plan) (s : Source Stream) (region : List UInt8)
    (stale : ByteArray), (plan [.twoSectors] 400 (Cycle.ofWords [5, 3])).outcome = .ok p ∧
    region.length = 399 * sectorSize ∧ stale.size = 402 * sectorSize ∧
    (∀ i < 402 * sectorSize, stale.data[i]? = some 255) ∧
    ∀ sink, Sink.Grows sink → ∃ long short,
      (execute p [s] (⟨sink stale, 2⟩ : Window) .start).device = ⟨sink long, 2⟩ ∧
      (execute p [s] (⟨sink ⟨#[7]⟩, 2⟩ : Window) .start).device = ⟨sink short, 2⟩ ∧
      long.size = 402 * sectorSize ∧ short.size = 401 * sectorSize ∧
      (∀ i < 399 * sectorSize, long.data[2 * sectorSize + i]? = region[i]? ∧
        short.data[2 * sectorSize + i]? = region[i]?) ∧
      (∀ i < 2 * sectorSize, long.data[i]? = some 255) ∧
      ∀ i, 401 * sectorSize ≤ i → i < 402 * sectorSize → long.data[i]? = some 255 := by
  obtain ⟨p, s, ok, finishes⟩ := oneFileFinishes
  obtain ⟨region, length, erases⟩ := executeErases ok [s]
  obtain ⟨stale, size, old⟩ : ∃ stale : ByteArray, stale.size = 402 * sectorSize ∧
      ∀ i < 402 * sectorSize, stale.data[i]? = some 255 := by
    refine ⟨(List.replicate (402 * sectorSize) 255).toByteArray, ?_, ?_⟩
    · rw [← listLength, List.toList_data_toByteArray, List.length_replicate]
    · intro i inside
      rw [← Array.getElem?_toList, List.toList_data_toByteArray,
        List.getElem?_replicate_of_lt inside]
  have count : region.length = 399 * sectorSize := length
  refine ⟨p, s, region, stale, ok, count, size, old, ?_⟩
  intro sink grows
  have finished := finishes sink grows stale .start
  obtain ⟨_, long, short, one, two, longGrown, shortGrown, _⟩ :=
    erases sink grows 2 stale ⟨#[7]⟩ .start .start finished
  have start : Window.place 2 0 = 2 * sectorSize := rfl
  rw [start] at longGrown shortGrown
  refine ⟨long, short, one, two, ?_, ?_, ?inside, ?below, ?behind⟩
  · rw [longGrown.size, size, count]
    omega
  · rw [shortGrown.size, count]
    rfl
  case inside =>
    intro i inside
    exact ⟨longGrown.inside i (count ▸ inside), shortGrown.inside i (count ▸ inside)⟩
  case below =>
    intro i low
    rw [longGrown.below i low, old i (by omega)]
    rfl
  case behind =>
    intro i past inside
    rw [longGrown.beyond i (by omega), old i inside]

/- A file with zeros added up to the end of `sectors` sectors, all but the last of them written. -/
structure Overlaid (old : ByteArray) (skip : UInt64) (sectors : Nat) (new : ByteArray) : Prop where
  size : new.size = max old.size (Window.place skip sectors)
  outside : ∀ i < new.size, i < Window.place skip 0 ∨ Window.place skip (sectors - 1) ≤ i →
    new.data[i]? = some ((old.data[i]?).getD 0)

theorem overlaidOfGrown {old new : ByteArray} {skip : UInt64} {sectors : Nat} {region : List UInt8}
    (grown : Sink.Grown (padded (Window.place skip sectors) old) (Window.place skip 0) region new)
    (ends : Window.place skip 0 + region.length = Window.place skip (sectors - 1)) :
    Overlaid old skip sectors new := by
  have length := paddedLength (Window.place skip sectors) old
  rw [listLength] at length
  have before : Window.place skip (sectors - 1) ≤ Window.place skip sectors :=
    Window.placeMono skip (Nat.sub_le ..)
  have size : new.size = (padded (Window.place skip sectors) old).size := by
    rw [grown.size]
    omega
  refine ⟨size.trans length, ?_⟩
  intro i inside apart
  have held := paddedByte (size ▸ inside)
  rcases apart with low | past
  · rw [grown.below i low, held]
    rfl
  · rw [grown.beyond i (by omega), held]

theorem Laid.overlays {draws : List Draw} {capacity : UInt32} {order : List Draft}
    {address : Slot → UInt32} {p : Plan} (laid : Laid draws capacity order address p) {ρ : Type}
    [Reader ρ] {sources : List (Source ρ)} {skip : UInt64} {old opened : ByteArray}
    (long : opened = padded (Window.place skip capacity.toNat) old) {progress : Progress}
    (done : (execute p sources (⟨.file opened, skip⟩ : Window) progress).outcome = .ok ()) :
    ∃ run new, run = execute p sources (⟨.file opened, skip⟩ : Window) progress ∧
      run.device = ⟨.file new, skip⟩ ∧ Overlaid old skip capacity.toNat new ∧
      ∀ count, ∃ now, Device.Accepts (⟨.file opened, skip⟩ : Window) (run.calls.take count)
        ⟨.file now, skip⟩ ∧ now.size = new.size := by
  obtain ⟨_, filling, last, read, accepts, whole⟩ := laid.finished done
  obtain ⟨run, _, _⟩ := Plan.callsRun laid.tiled (laid.filled read)
  have size : opened.size = max old.size (Window.place skip capacity.toNat) := by
    rw [long, ← listLength, paddedLength]
  have first : Window.place skip 0 ≤ Window.place skip (capacity.toNat - 1) :=
    Window.placeMono skip (Nat.zero_le _)
  have before : Window.place skip (capacity.toNat - 1) ≤ Window.place skip capacity.toNat :=
    Window.placeMono skip (Nat.sub_le ..)
  obtain ⟨new, rfl, grown⟩ := Window.growsAccepts run .file accepts (.inr (by omega))
  have overlaid := overlaidOfGrown (long ▸ grown) (Window.placeEnds run)
  refine ⟨_, new, rfl, by rw [whole], overlaid, fun count => ?_⟩
  obtain ⟨now, taken, same⟩ := Window.fileSteady run accepts (by omega) count
  rw [whole]
  exact ⟨now, taken, by rw [same, size, overlaid.size]⟩

theorem Laid.unread {draws : List Draw} {capacity : UInt32} {order : List Draft}
    {address : Slot → UInt32} {p : Plan} (laid : Laid draws capacity order address p) {ρ δ : Type}
    [Reader ρ] [Device δ] {sources : List (Source ρ)} {file : Nat} {lengths : List Nat}
    {s : Source ρ} (wanted : p.Wants file lengths) (given : sources[file]? = some s)
    (fails : s.Fails lengths) (device : δ) (progress : Progress) :
    (∃ f, (execute p sources device progress).outcome = .error f) ∧
      (execute p sources device progress).device = device := by
  rcases Filling.fillsOrFails p sources with ⟨after, filling, read⟩ | ⟨f, after, filling, read⟩
  · exact absurd (Filling.ofPlanSupplies laid read)
      (laid.unsupplied (.inl ⟨file, lengths, s, wanted, given, fails⟩))
  · rw [executeUnread read]
    exact ⟨⟨f, rfl⟩, rfl⟩

end BootImage
