import Mathlib
import BootImage.Proofs.Layout.Accounting

/-!
Planning with every number checked. Sums, differences and narrower words are worked out on integers
without bound, and a word is made of one only where it stands for it; where none does there is no
result at all. No check ever fails, so what comes out is what planning gives.
-/
namespace BootImage

namespace Checked

/- The word that stands for an integer, where there is one. -/
def word32 (n : Int) : Option UInt32 :=
  if 0 ≤ n ∧ n < UInt32.size then some (.ofNat n.toNat) else none

def word64 (n : Int) : Option UInt64 :=
  if 0 ≤ n ∧ n < UInt64.size then some (.ofNat n.toNat) else none

theorem word32Iff {n : Int} {w : UInt32} : word32 n = some w ↔ n = w.toNat := by
  have top := w.toNat_lt
  unfold word32
  simp only [Option.ite_none_right_eq_some, Option.some.injEq, ← UInt32.toNat_inj,
    UInt32.toNat_ofNat', UInt32.size]
  omega

theorem word64Iff {n : Int} {w : UInt64} : word64 n = some w ↔ n = w.toNat := by
  have top := w.toNat_lt
  unfold word64
  simp only [Option.ite_none_right_eq_some, Option.some.injEq, ← UInt64.toNat_inj,
    UInt64.toNat_ofNat', UInt64.size]
  omega

theorem word32Add {a b : UInt32} (fits : a.toNat + b.toNat < UInt32.size) :
    word32 ((a.toNat : Int) + b.toNat) = some (a + b) := by
  rw [word32Iff, UInt32.toNat_add, Nat.mod_eq_of_lt fits, Nat.cast_add]

theorem word32Sub {a b : UInt32} (within : b.toNat ≤ a.toNat) :
    word32 ((a.toNat : Int) - b.toNat) = some (a - b) := by
  rw [word32Iff, UInt32.toNat_sub_of_le _ _ (UInt32.le_iff_toNat_le.mpr within),
    Nat.cast_sub within]

theorem word64Add {a b : UInt64} (fits : a.toNat + b.toNat < UInt64.size) :
    word64 ((a.toNat : Int) + b.toNat) = some (a + b) := by
  rw [word64Iff, UInt64.toNat_add, Nat.mod_eq_of_lt fits, Nat.cast_add]

theorem word64Sub {a b : UInt64} (within : b.toNat ≤ a.toNat) :
    word64 ((a.toNat : Int) - b.toNat) = some (a - b) := by
  rw [word64Iff, UInt64.toNat_sub_of_le _ _ (UInt64.le_iff_toNat_le.mpr within),
    Nat.cast_sub within]

def sectorsFor (bytes : UInt64) : Option UInt64 := word64 (((bytes.toNat : Int) + 511) / 512)

variable {γ : Type} [Generator γ]

/- The last chunk is subtracted as well, and leaves nothing. -/
def nextChunk (left : UInt32) (g : γ) : UInt32 × γ :=
  if minChunk ≤ left then Generator.range minChunk left g else (left, g)

theorem nextChunkWithin {left : UInt32} (some : left ≠ 0) (g : γ) :
    0 < (nextChunk left g).1.toNat ∧ (nextChunk left g).1.toNat ≤ left.toNat := by
  unfold nextChunk
  split
  · rename_i enough
    have bounds := Generator.rangeBounds g enough
    have least := UInt32.le_iff_toNat_le.mp bounds.1
    have most := UInt32.le_iff_toNat_le.mp bounds.2
    have eight : minChunk.toNat = 8 := rfl
    omega
  · have positive : left.toNat ≠ 0 := fun zero => some (UInt32.toNat_inj.mp zero)
    simp only
    omega

def drawFrom (done : Array UInt32) (left : UInt32) (g : γ) : Option (Array UInt32 × γ) :=
  if _zero : left = 0 then some (done, g)
  else
    match _rest : word32 ((left.toNat : Int) - (nextChunk left g).1.toNat) with
    | none => none
    | some after => drawFrom (done.push (nextChunk left g).1) after (nextChunk left g).2
termination_by left.toNat
decreasing_by
  have within := nextChunkWithin (by assumption) g
  have exact := word32Iff.mp (by assumption)
  omega

def draw (sectors : UInt32) (g : γ) : Option (List UInt32 × γ) := do
  let (lengths, g) ← drawFrom #[] sectors g
  return (lengths.toList, g)

def ofEntry (entry : Entry) (g : γ) : Option (Draw × γ) := do
  let sectors ← sectorsFor entry.size.toUInt64
  let sectors ← word32 sectors.toNat
  let (chunks, g) ← draw sectors g
  let (freeRun, g) := Generator.range 1 Draw.maxFreeRun g
  return (⟨entry, chunks, freeRun⟩, g)

def ofEntries : List Entry → γ → Option (List Draw × γ)
  | [], g => some ([], g)
  | entry :: entries, g => do
    let first ← ofEntry entry g
    let rest ← ofEntries entries first.2
    return (first.1 :: rest.1, rest.2)

def sumFrom {α : Type} (sectors : α → UInt32) (sum : UInt64) : List α → Option UInt64
  | [] => some sum
  | a :: items => do
    let next ← word64 ((sum.toNat : Int) + (sectors a).toNat)
    sumFrom sectors next items

def placeFrom (done : Array Placed) (cursor : UInt32) :
    List Draft → Option (Array Placed × UInt32)
  | [] => some (done, cursor)
  | draft :: drafts => do
    let next ← word32 ((cursor.toNat : Int) + draft.sectors.toNat)
    placeFrom (done.push ⟨draft, cursor⟩) next drafts

def trailing (capacity cursor : UInt32) : Option UInt32 := do
  let rest ← word32 ((capacity.toNat : Int) - cursor.toNat)
  word32 ((rest.toNat : Int) - 1)

def resolveAll (made : Array Draft) (placed : List Placed) (capacity : UInt32) :
    Except Fault Plan := do
  let blocks ← placed.mapM fun p => do
    let content ← (Offsets.ofPlaced placed).resolve made p.draft.links
    return { offset := p.offset, content, label := p.draft.label : Block }
  return { blocks, capacity }

def place (made : Array Draft) (drafts : List Draft) (capacity : UInt32) :
    Option (Except Fault Plan) := do
  let used ← sumFrom Draft.sectors 0 drafts
  let enough ← word64 ((used.toNat : Int) + 1)
  if capacity.toUInt64 ≤ enough then
    let required ← word64 ((used.toNat : Int) + 2)
    return .error (.capacityExceeded required capacity)
  else
    let (placed, cursor) ← placeFrom #[] 0 drafts
    let length ← trailing capacity cursor
    return resolveAll made (placed.push ⟨Draft.lastFree length, cursor⟩).toList capacity

def plan (entries : List Entry) (capacity : UInt32) (g : γ) : Option (Planning γ) :=
  if maxFiles < entries.length then some ⟨[], .error (.tooManyFiles entries.length), g⟩
  else do
    let (draws, g) ← ofEntries entries g
    let built := Builder.ofDraws draws
    let (order, g) := Shuffle.shuffle built.shuffled g
    let top := built.superBlock
    let outcome ← place (built.drafts.push top) (top :: order.toList) capacity
    return ⟨draws, outcome, g⟩

def summary (p : Plan) : Option Summary := do
  let total ← sumFrom Block.sectors 0 p.blocks
  let front ← word64 ((total.toNat : Int) - p.trailingFree.toNat)
  let usedSectors ← word32 front.toNat
  return {
    files := p.blocks.countP (·.content.isFile)
    chunks := p.blocks.countP (·.content.isChunkNode)
    usedSectors
    trailingFree := p.trailingFree
    capacity := p.capacity }

theorem bindSome {α β : Type} {first : Option α} {a : α} (known : first = some a)
    (next : α → Option β) : (first >>= next) = next a := by
  rw [known, Option.bind_eq_bind, Option.bind_some]

theorem drawFromStep {left : UInt32} (some : left ≠ 0) (done : Array UInt32) (g : γ) :
    drawFrom done left g = (word32 ((left.toNat : Int) - (nextChunk left g).1.toNat) >>=
      fun after => drawFrom (done.push (nextChunk left g).1) after (nextChunk left g).2) := by
  rw [drawFrom, dif_neg some]
  split <;> simp [*]

theorem drawFromExact (done : Array UInt32) (left : UInt32) (g : γ) :
    drawFrom done left g = some (Chunks.drawFrom done left g) := by
  induction done, left, g using Chunks.drawFrom.induct with
  | case1 done g => simp [drawFrom, Chunks.drawFrom]
  | case2 done left g some enough drawn ih =>
    have chunk : nextChunk left g = drawn := if_pos enough
    have most := UInt32.le_iff_toNat_le.mp (Generator.rangeBounds g enough).2
    rw [drawFromStep some, chunk, bindSome (word32Sub most), ih]
    conv => rhs; rw [Chunks.drawFrom, if_neg some, dif_pos enough]
  | case3 done left g some short =>
    have chunk : nextChunk left g = (left, g) := if_neg short
    have ended : drawFrom (done.push left) (left - left) g = .some (done.push left, g) := by
      rw [UInt32.sub_self, drawFrom, dif_pos rfl]
    rw [drawFromStep some, chunk, bindSome (word32Sub (Nat.le_refl _)), ended]
    conv => rhs; rw [Chunks.drawFrom, if_neg some, dif_neg short]

theorem drawExact (sectors : UInt32) (g : γ) : draw sectors g = some (Chunks.draw sectors g) := by
  unfold draw
  rw [bindSome (drawFromExact _ _ _)]
  rfl

theorem sectorsForExact (bytes : UInt64) :
    sectorsFor bytes = some (BootImage.sectorsFor bytes) := by
  rw [sectorsFor, word64Iff, sectorsForCeil]
  omega

theorem ofEntryExact (entry : Entry) (g : γ) :
    ofEntry entry g = some (Draw.ofEntry entry g) := by
  have narrow : word32 (BootImage.sectorsFor entry.size.toUInt64).toNat =
      some (BootImage.sectorsFor entry.size.toUInt64).toUInt32 := by
    rw [word32Iff, Entry.sectorsDrawn, Entry.sectors, sectorsForCeil, UInt32.toNat_toUInt64]
  unfold ofEntry
  rw [bindSome (sectorsForExact _), bindSome narrow, bindSome (drawExact _ _)]
  rfl

theorem ofEntriesExact (entries : List Entry) (g : γ) :
    ofEntries entries g = some (Draw.ofEntries entries g) := by
  induction entries generalizing g with
  | nil => rfl
  | cons entry entries ih =>
    rw [ofEntries, bindSome (ofEntryExact _ _), bindSome (ih _)]
    rfl

theorem sumFromExact {α : Type} (sectors : α → UInt32) (items : List α) (start : UInt64)
    (fits : start.toNat + (items.map fun a => (sectors a).toNat).sum < UInt64.size) :
    sumFrom sectors start items =
      some (items.foldl (fun sum a => sum + (sectors a).toUInt64) start) := by
  induction items generalizing start with
  | nil => rfl
  | cons a items ih =>
    simp only [List.map_cons, List.sum_cons] at fits
    have wide := UInt32.toNat_toUInt64 (sectors a)
    have next : word64 ((start.toNat : Int) + (sectors a).toNat) =
        some (start + (sectors a).toUInt64) := by
      rw [← wide]
      exact word64Add (by omega)
    have later : (start + (sectors a).toUInt64).toNat = start.toNat + (sectors a).toNat := by
      rw [UInt64.toNat_add, wide]
      exact Nat.mod_eq_of_lt (by simp only [UInt64.size] at fits; omega)
    rw [sumFrom, bindSome next, ih _ (by omega)]
    rfl

theorem placeFromExact (drafts : List Draft) (done : Array Placed) (cursor : UInt32)
    (fits : cursor.toNat + Draft.total drafts < UInt32.size) :
    placeFrom done cursor drafts = some (BootImage.placeFrom done cursor drafts) ∧
      (BootImage.placeFrom done cursor drafts).2.toNat = cursor.toNat + Draft.total drafts := by
  induction drafts generalizing done cursor with
  | nil => exact ⟨rfl, rfl⟩
  | cons d drafts ih =>
    simp only [Draft.total, List.map_cons, List.sum_cons] at fits ih ⊢
    have later : (cursor + d.sectors).toNat = cursor.toNat + d.sectors.toNat := by
      rw [UInt32.toNat_add]
      exact Nat.mod_eq_of_lt (by simp only [UInt32.size] at fits; omega)
    obtain ⟨same, stop⟩ := ih (done.push ⟨d, cursor⟩) (cursor + d.sectors) (by omega)
    constructor
    · rw [placeFrom, bindSome (word32Add (by omega)), same]
      rfl
    · rw [BootImage.placeFrom, stop]
      omega

theorem trailingExact {capacity cursor : UInt32} (room : cursor.toNat < capacity.toNat) :
    trailing capacity cursor = some (capacity - cursor - 1) := by
  have rest : word32 ((capacity.toNat : Int) - cursor.toNat) = some (capacity - cursor) :=
    word32Sub (Nat.le_of_lt room)
  have exact := word32Iff.mp rest
  unfold trailing
  rw [bindSome rest]
  exact word32Sub (b := 1) (by rw [UInt32.toNat_one]; omega)

theorem placeExact {drafts : List Draft} (fits : Draft.total drafts < UInt32.size)
    (made : Array Draft) (capacity : UInt32) :
    place made drafts capacity = some (BootImage.place made drafts capacity) := by
  have used := sectorsUsedTotal fits
  rw [UInt32.size] at fits
  have sum : sumFrom Draft.sectors 0 drafts = some (sectorsUsed drafts) := by
    apply sumFromExact
    change 0 + Draft.total drafts < _
    rw [UInt64.size]
    omega
  have enough : word64 (((sectorsUsed drafts).toNat : Int) + 1) = some (sectorsUsed drafts + 1) :=
    word64Add (b := 1) (by rw [used, UInt64.size]; change _ + 1 < _; omega)
  have required : word64 (((sectorsUsed drafts).toNat : Int) + 2) = some (sectorsUsed drafts + 2) :=
    word64Add (b := 2) (by rw [used, UInt64.size]; change _ + 2 < _; omega)
  unfold place
  rw [bindSome sum, bindSome enough]
  split
  case isTrue full =>
    rw [bindSome required, BootImage.place, if_pos full]
    rfl
  case isFalse room =>
    -- The cursor stops at the sum that was held against the capacity.
    have ran := placeFromExact drafts #[] 0 (by simpa using fits)
    rw [BootImage.place, if_neg room, bindSome ran.1]
    generalize BootImage.placeFrom #[] 0 drafts = result at ran
    obtain ⟨placed, cursor⟩ := result
    have stop : cursor.toNat = 0 + Draft.total drafts := ran.2
    have above := word64Iff.mp enough
    rw [UInt64.le_iff_toNat_le, UInt32.toNat_toUInt64] at room
    exact bindSome (trailingExact (by omega)) _

theorem planExact (entries : List Entry) (capacity : UInt32) (g : γ) :
    plan entries capacity g = some (BootImage.plan entries capacity g) := by
  rcases Nat.lt_or_ge maxFiles entries.length with many | few
  · rw [planTooMany many, plan, if_pos many]
  · have bounded := drawsBounded few g
    have total := totalPlaced (Draw.ofEntriesFit entries g).2 (drawnOrderPerm entries g)
    have placed := placeExact (by rw [total, UInt32.size]; omega) (drawnMade entries g) capacity
    rw [planSteps few, plan, if_neg (Nat.not_lt.mpr few), bindSome (ofEntriesExact _ _)]
    simp only [drawnMade, drawnOrder, Builder.superBlockLinked] at placed ⊢
    rw [Builder.shuffledLinked]
    exact bindSome placed _

theorem summaryExact {draws : List Draw} {capacity : UInt32} {order : List Draft}
    {address : Slot → UInt32} {p : Plan} (laid : Laid draws capacity order address p) :
    summary p = some p.summary := by
  have total := laid.sectorsTotal
  have used := laid.sectorsSummed
  have wide := UInt32.toNat_toUInt64 p.trailingFree
  have sum : sumFrom Block.sectors 0 p.blocks = some p.totalSectors := by
    have top := capacity.toNat_lt
    have whole := laid.tiled.total
    simp only [List.map_map, Function.comp_def, Block.extent] at whole
    exact sumFromExact _ _ _ (by rw [UInt64.toNat_zero, UInt64.size]; omega)
  have front : word64 ((p.totalSectors.toNat : Int) - p.trailingFree.toNat) =
      some (p.totalSectors - p.trailingFree.toUInt64) := by
    rw [← wide]
    exact word64Sub (by omega)
  have narrow : word32 (p.totalSectors - p.trailingFree.toUInt64).toNat =
      some p.summary.usedSectors := by
    have exact := word64Iff.mp front
    rw [word32Iff, used]
    omega
  unfold summary
  rw [bindSome sum, bindSome front, bindSome narrow]
  rfl

end Checked

theorem Laid.offsetSum {draws : List Draw} {capacity : UInt32} {order : List Draft}
    {address : Slot → UInt32} {p : Plan} (laid : Laid draws capacity order address p)
    {front back : List Block} {b : Block} (split : p.blocks = front ++ b :: back) :
    b.offset.toNat = (front.map (·.sectors.toNat)).sum := by
  have tiled := laid.tiled
  rw [split, List.map_append, List.map_cons] at tiled
  obtain ⟨middle, before, after⟩ := tiled.split
  have sum := before.total
  rw [List.map_map, Nat.zero_add] at sum
  cases after with
  | cons here _ _ => exact here.trans sum.symm

variable {γ : Type} [Generator γ]

/-- Planning never leaves its words. The checks pass whatever the files, the capacity and the
generator are, so that every number is what it would be without bound; and since the sectors that
files can use are few enough, the largest capacity does for all of them. -/
theorem planningExact (entries : List Entry) (capacity : UInt32) (g : γ) :
    (∀ sectors, Checked.draw sectors g = some (Chunks.draw sectors g)) ∧
    Checked.plan entries capacity g = some (plan entries capacity g) ∧
    usedSectors (plan entries capacity g).draws ≤ 1 + 128 * 9437189 ∧
    (∀ p, (plan entries capacity g).outcome = .ok p →
      Checked.summary p = some p.summary ∧
      (∀ front b back, p.blocks = front ++ b :: back →
        b.offset.toNat = (front.map (·.sectors.toNat)).sum) ∧
      p.summary.usedSectors.toNat = usedSectors (plan entries capacity g).draws ∧
      usedSectors (plan entries capacity g).draws + p.summary.trailingFree.toNat + 1 =
        capacity.toNat) ∧
    (∀ required limit, (plan entries capacity g).outcome =
        .error (.capacityExceeded required limit) →
      required.toNat = usedSectors (plan entries capacity g).draws + 2) ∧
    (entries.length ≤ maxFiles → ∃ p, (plan entries 4294967295 g).outcome = .ok p) := by
  refine ⟨fun sectors => Checked.drawExact sectors g, Checked.planExact entries capacity g,
    ?bounded, ?accepted, ?refused, ?largest⟩
  case bounded =>
    rcases Nat.lt_or_ge maxFiles entries.length with many | few
    · have none : usedSectors [] ≤ 1 + 128 * 9437189 := by decide
      rw [planTooMany many]
      exact none
    · rw [planSteps few]
      exact drawsBounded few g
  case accepted =>
    intro p ok
    obtain ⟨order, address, laid⟩ := planLaid ok
    have used := laid.lastAddress
    rw [planDraws ok, laid.sectorsSummed, ← used]
    exact ⟨Checked.summaryExact laid, fun _ _ _ split => laid.offsetSum split, rfl, laid.whole⟩
  case refused =>
    intro required limit refused
    rcases Nat.lt_or_ge maxFiles entries.length with many | few
    · rw [planTooMany many] at refused
      cases refused
    · have bounded := drawsBounded few g
      cases planFault few refused
      rw [planSteps few, UInt64.toNat_ofNat']
      exact Nat.mod_eq_of_lt (by omega)
  case largest =>
    intro few
    have bounded := drawsBounded few g
    have most : (4294967295 : UInt32).toNat = 4294967295 := rfl
    obtain ⟨_, p, accepted, _⟩ := planRoomy few 4294967295 g (by omega)
    exact ⟨p, accepted⟩

theorem planningExactFull : ∃ p,
    (plan (List.replicate 128 .largest) 4294967295 (Cycle.ofWords [5, 3])).outcome = .ok p ∧
      Checked.summary p = some p.summary ∧ p.summary.usedSectors.toNat ≤ 1207960193 := by
  obtain ⟨_, _, bounded, accepted, _, largest⟩ :=
    planningExact (List.replicate 128 .largest) 4294967295 (Cycle.ofWords [5, 3])
  obtain ⟨p, ok⟩ := largest (by rw [List.length_replicate]; decide)
  obtain ⟨summary, _, used, _⟩ := accepted p ok
  exact ⟨p, ok, summary, used ▸ bounded⟩

end BootImage
