import Mathlib
import BootImage.Proofs.Layout.Drafts

/-!
What planning makes of its draws: every block of the structure at an address of its own, the
superblock first, the last free block last, and no sector of the region but the last one left over.
It says exactly when a plan is refused; no other failure is possible.
-/
namespace BootImage

def pointerTo (address : Slot → UInt32) : Option Slot → UInt32
  | none => nullPointer
  | some slot => address slot

def Links.content (address : Slot → UInt32) : Links → Content
  | .superBlock firstFile firstFree =>
    .superBlock (.ofHeads (pointerTo address firstFile) (address firstFree))
  | .freeRun next length => .free ⟨pointerTo address next, length⟩
  | .header source entry next firstChunk =>
    .file source ⟨pointerTo address next, entry.name, entry.size, writableFlag,
      pointerTo address firstChunk⟩
  | .chunkNode next length data => .chunkNode ⟨pointerTo address next, length, address data⟩
  | .chunkData length => .chunkData length

def Draft.block (address : Slot → UInt32) (d : Draft) : Block :=
  ⟨address d.slot, d.links.content address, d.label⟩

theorem Draft.blockSectors (address : Slot → UInt32) (d : Draft) :
    (d.block address).sectors = d.sectors := by
  obtain ⟨slot, links, label⟩ := d
  cases links <;> rfl

namespace Offsets

def address (offsets : Offsets) (slot : Slot) : UInt32 := (offsets[slot]?).getD nullPointer

def Holds (offsets : Offsets) (slot : Slot) : Prop := ∃ offset, offsets[slot]? = some offset

variable {made : Array Draft}

theorem pointerHeld {offsets : Offsets} {slot : Slot} (held : offsets.Holds slot) :
    offsets.pointer made slot = .ok (offsets.address slot) := by
  obtain ⟨offset, found⟩ := held
  simp [pointer, address, found]

theorem pointerOptionHeld {offsets : Offsets} {link : Option Slot}
    (held : ∀ slot ∈ link.toList, offsets.Holds slot) :
    offsets.pointer? made link = .ok (pointerTo offsets.address link) := by
  cases link with
  | none => rfl
  | some slot => exact pointerHeld (held slot (by simp))

theorem resolveHeld {offsets : Offsets} {links : Links}
    (held : ∀ slot ∈ links.targets, offsets.Holds slot) :
    offsets.resolve made links = .ok (links.content offsets.address) := by
  cases links with
  | superBlock firstFile firstFree =>
    simp only [Links.targets, List.mem_append, List.mem_singleton] at held
    simp only [resolve, pointerOptionHeld fun slot member => held slot (.inl member),
      pointerHeld (held firstFree (.inr rfl))]
    rfl
  | freeRun next length =>
    simp only [resolve, pointerOptionHeld held]
    rfl
  | header source entry next firstChunk =>
    simp only [Links.targets, List.mem_append] at held
    simp only [resolve, pointerOptionHeld fun slot member => held slot (.inl member),
      pointerOptionHeld fun slot member => held slot (.inr member)]
    rfl
  | chunkNode next length data =>
    simp only [Links.targets, List.mem_append, List.mem_singleton] at held
    simp only [resolve, pointerOptionHeld fun slot member => held slot (.inl member),
      pointerHeld (held data (.inr rfl))]
    rfl
  | chunkData length => rfl

theorem placedHeld {placed : List Placed} (distinct : (placed.map (·.draft.slot)).Nodup)
    {q : Placed} (member : q ∈ placed) : (ofPlaced placed)[q.draft.slot]? = some q.offset := by
  have keys : ((placed.map fun q => (q.draft.slot, q.offset)).map Prod.fst).Nodup := by
    simpa [Function.comp_def] using distinct
  exact (indexIff keys _ _).mpr (List.mem_map.mpr ⟨q, member, rfl⟩)

theorem addressPlaced {placed : List Placed} (distinct : (placed.map (·.draft.slot)).Nodup)
    {q : Placed} (member : q ∈ placed) : (ofPlaced placed).address q.draft.slot = q.offset := by
  simp [address, placedHeld distinct member]

end Offsets

structure Laid (draws : List Draw) (capacity : UInt32) (order : List Draft)
    (address : Slot → UInt32) (p : Plan) : Prop where
  fits : ∀ d ∈ draws, d.Fits
  shuffled : order.Perm (Draft.ofDraws draws)
  blocks : p.blocks = (Draft.linkedTop draws.length :: (order ++
    [Draft.lastFree (capacity - address .lastFree - 1)])).map (Draft.block address)
  tiled : Tiled 0 (p.blocks.map Block.extent) (capacity.toNat - 1)
  sized : p.capacity = capacity

def usedSectors (draws : List Draw) : Nat := 1 + (draws.map Draw.sectors).sum

theorem usedSectorsBounded {draws : List Draw} (few : draws.length ≤ maxFiles)
    (fits : ∀ d ∈ draws, d.Fits) : usedSectors draws ≤ 1 + 128 * 9437189 := by
  have each : (draws.map Draw.sectors).sum ≤ (draws.map Draw.sectors).length • 9437189 := by
    apply List.sum_le_card_nsmul _ _
    intro sectors member
    obtain ⟨d, inside, rfl⟩ := List.mem_map.mp member
    exact Draw.sectorsBounded (fits d inside)
  have files : draws.length ≤ 128 := few
  simp only [usedSectors, List.length_map, smul_eq_mul] at each ⊢
  have most := Nat.mul_le_mul_right 9437189 files
  omega

theorem targetsClosed {draws : List Draw} {order : List Draft} {length : UInt32}
    (shuffled : order.Perm (Draft.ofDraws draws)) {d : Draft}
    (member : d ∈ Draft.linkedTop draws.length :: (order ++ [Draft.lastFree length])) :
    ∀ slot ∈ d.links.targets, slot ∈ Draft.slots draws := by
  rcases List.mem_cons.mp member with rfl | rest
  · exact Draft.superBlockTargets draws
  · rcases List.mem_append.mp rest with inside | last
    · exact Draft.partTargets (Draft.memOfDraws.mp (shuffled.mem_iff.mp inside))
    · cases List.mem_singleton.mp last
      simp [Draft.lastFree, Links.targets]

theorem Draft.slotsShuffled {draws : List Draw} {order : List Draft} {length : UInt32} {files : Nat}
    (shuffled : order.Perm (Draft.ofDraws draws)) :
    ((Draft.linkedTop files :: (order ++ [Draft.lastFree length])).map Draft.slot).Perm
      (Draft.slots draws) := by
  rw [List.map_cons, List.map_append]
  exact ((shuffled.map Draft.slot).append_right _).cons _

theorem slotsPlaced {draws : List Draw} {order : List Draft} {length : UInt32}
    (shuffled : order.Perm (Draft.ofDraws draws)) {all : List Placed}
    (drafts : all.map Placed.draft =
      Draft.linkedTop draws.length :: (order ++ [Draft.lastFree length])) :
    (all.map (·.draft.slot)).Perm (Draft.slots draws) := by
  have mapped : all.map (·.draft.slot) = (all.map Placed.draft).map Draft.slot := by
    rw [List.map_map]
    rfl
  rw [mapped, drafts]
  exact Draft.slotsShuffled shuffled

theorem extentsPlaced {address : Slot → UInt32} {all : List Placed}
    (each : ∀ q ∈ all, address q.draft.slot = q.offset) :
    (all.map fun q => q.draft.block address).map Block.extent = all.map Placed.extent := by
  rw [List.map_map]
  apply List.map_congr_left
  intro q member
  simp only [Function.comp_apply, Block.extent, Placed.extent, Draft.blockSectors]
  rw [← each q member]
  rfl

theorem lastLength {capacity cursor : UInt32} (room : cursor.toNat < capacity.toNat) :
    (capacity - cursor - 1).toNat = capacity.toNat - cursor.toNat - 1 := by
  have first := UInt32.toNat_sub_of_le capacity cursor (UInt32.le_iff_toNat_le.mpr (by omega))
  have one : (1 : UInt32) ≤ capacity - cursor := by
    rw [UInt32.le_iff_toNat_le, first, UInt32.toNat_one]
    omega
  rw [UInt32.toNat_sub_of_le _ _ one, first, UInt32.toNat_one]

theorem resolvePlaced (made : Array Draft) {draws : List Draw} {all : List Placed}
    (slots : (all.map (·.draft.slot)).Perm (Draft.slots draws))
    (closed : ∀ q ∈ all, ∀ slot ∈ q.draft.links.targets, slot ∈ Draft.slots draws) :
    (∀ q ∈ all, (Offsets.ofPlaced all).address q.draft.slot = q.offset) ∧
      (all.mapM fun q => do
        let content ← (Offsets.ofPlaced all).resolve made q.draft.links
        return ({ offset := q.offset, content, label := q.draft.label } : Block)) =
        (.ok (all.map fun q => q.draft.block (Offsets.ofPlaced all).address) :
          Except Fault (List Block)) := by
  have distinct : (all.map (·.draft.slot)).Nodup := slots.nodup_iff.mpr (Draft.slotsNodup draws)
  have address : ∀ q ∈ all, (Offsets.ofPlaced all).address q.draft.slot = q.offset :=
    fun q member => Offsets.addressPlaced distinct member
  refine ⟨address, mapMOk ?_⟩
  intro q member
  have held : ∀ slot ∈ q.draft.links.targets, (Offsets.ofPlaced all).Holds slot := by
    intro slot target
    obtain ⟨r, inside, rfl⟩ := List.mem_map.mp (slots.mem_iff.mpr (closed q member slot target))
    exact ⟨r.offset, Offsets.placedHeld distinct inside⟩
  rw [Offsets.resolveHeld held, ← address q member]
  rfl

section

variable {draws : List Draw} {order : List Draft} (few : draws.length ≤ maxFiles)
  (fits : ∀ d ∈ draws, d.Fits) (shuffled : order.Perm (Draft.ofDraws draws))

include fits shuffled

theorem totalPlaced : Draft.total (Draft.linkedTop draws.length :: order) = usedSectors draws := by
  have rest := Draft.totalPerm shuffled
  rw [Draft.totalOfDraws fits] at rest
  unfold Draft.total
  rw [List.map_cons, List.sum_cons, ← Draft.total, rest]
  rfl

include few

theorem placedUsed :
    (sectorsUsed (Draft.linkedTop draws.length :: order)).toNat = usedSectors draws := by
  have bounded := usedSectorsBounded few fits
  rw [sectorsUsedTotal, totalPlaced fits shuffled]
  rw [totalPlaced fits shuffled]
  simp only [UInt32.size]
  omega

theorem placeRefused (made : Array Draft) {capacity : UInt32}
    (full : capacity.toNat ≤ usedSectors draws + 1) :
    place made (Draft.linkedTop draws.length :: order) capacity =
      .error (.capacityExceeded (UInt64.ofNat (usedSectors draws + 2)) capacity) := by
  have bounded := usedSectorsBounded few fits
  have exact := placedUsed few fits shuffled
  have limit : capacity.toUInt64 ≤ sectorsUsed (Draft.linkedTop draws.length :: order) + 1 := by
    rw [UInt64.le_iff_toNat_le, UInt64.toNat_add, exact]
    simp
    omega
  have required : sectorsUsed (Draft.linkedTop draws.length :: order) + 2 =
      UInt64.ofNat (usedSectors draws + 2) := by
    rw [← UInt64.toNat_inj, UInt64.toNat_add, exact]
    simp
  unfold place
  rw [if_pos limit, required]

theorem placedTiled {capacity : UInt32} (room : usedSectors draws + 1 < capacity.toNat) :
    ∃ (placed : List Placed) (cursor : UInt32),
      placeFrom #[] 0 (Draft.linkedTop draws.length :: order) = (placed.toArray, cursor) ∧
      placed.map Placed.draft = Draft.linkedTop draws.length :: order ∧
      Tiled 0 ((placed ++ [Placed.mk (Draft.lastFree (capacity - cursor - 1)) cursor]).map
        Placed.extent) (capacity.toNat - 1) := by
  have bounded := usedSectorsBounded few fits
  have total := totalPlaced fits shuffled
  have positive : ∀ d ∈ Draft.linkedTop draws.length :: order, 0 < d.sectors.toNat := by
    intro d member
    rcases List.mem_cons.mp member with rfl | inside
    · exact Nat.one_pos
    · exact Draft.partPositive fits (Draft.memOfDraws.mp (shuffled.mem_iff.mp inside))
  obtain ⟨placed, cursor, ran, same, tiled⟩ := placeFromTiled positive #[] 0
    (by rw [total]; simp only [UInt32.toNat_zero, UInt32.size]; omega)
  have stop : cursor.toNat = usedSectors draws := by
    have sum := tiled.total
    rw [← total, ← same]
    simpa [Draft.total, Placed.extent, Function.comp_def] using sum.symm
  have trailing := lastLength (show cursor.toNat < capacity.toNat by omega)
  have last : Tiled cursor.toNat
      [Placed.extent (.mk (Draft.lastFree (capacity - cursor - 1)) cursor)]
      (capacity.toNat - 1) := by
    have ends : capacity.toNat - 1 = cursor.toNat + (capacity - cursor - 1).toNat := by omega
    rw [ends]
    exact .cons rfl (by change 0 < (capacity - cursor - 1).toNat; omega) (.nil _)
  refine ⟨placed, cursor, by simpa using ran, same, ?_⟩
  rw [List.map_append]
  exact tiled.append last

theorem placeAccepted (made : Array Draft) {capacity : UInt32}
    (room : usedSectors draws + 1 < capacity.toNat) :
    ∃ address p, place made (Draft.linkedTop draws.length :: order) capacity = .ok p ∧
      Laid draws capacity order address p := by
  have bounded := usedSectorsBounded few fits
  have exact := placedUsed few fits shuffled
  have limit : ¬ capacity.toUInt64 ≤ sectorsUsed (Draft.linkedTop draws.length :: order) + 1 := by
    rw [UInt64.le_iff_toNat_le, UInt64.toNat_add, exact]
    simp
    omega
  obtain ⟨placed, cursor, ran, same, tiled⟩ := placedTiled few fits shuffled room
  let final : Placed := ⟨Draft.lastFree (capacity - cursor - 1), cursor⟩
  have drafts : (placed ++ [final]).map Placed.draft =
      Draft.linkedTop draws.length :: (order ++ [Draft.lastFree (capacity - cursor - 1)]) := by
    simp [final, same]
  have closed : ∀ q ∈ placed ++ [final], ∀ slot ∈ q.draft.links.targets,
      slot ∈ Draft.slots draws := by
    intro q member
    have inside : q.draft ∈ (placed ++ [final]).map Placed.draft :=
      List.mem_map.mpr ⟨q, member, rfl⟩
    rw [drafts] at inside
    exact targetsClosed shuffled inside
  obtain ⟨address, resolved⟩ := resolvePlaced made (slotsPlaced shuffled drafts) closed
  have last : (Offsets.ofPlaced (placed ++ [final])).address .lastFree = cursor :=
    address final (by simp)
  refine ⟨(Offsets.ofPlaced (placed ++ [final])).address,
    ⟨(placed ++ [final]).map fun q => q.draft.block (Offsets.ofPlaced (placed ++ [final])).address,
      capacity⟩, ?_, fits, shuffled, ?_, ?_, rfl⟩
  · unfold place
    rw [if_neg limit, ran]
    have list : (placed.toArray.push final).toList = placed ++ [final] := by simp
    simp only [final] at list resolved
    simp only [list]
    rw [resolved]
    rfl
  · rw [last, ← drafts, List.map_map]
    rfl
  · rw [extentsPlaced address]
    exact tiled

end

variable {γ : Type} [Generator γ]

theorem planTooMany {entries : List Entry} (many : maxFiles < entries.length)
    (capacity : UInt32) (g : γ) :
    plan entries capacity g = ⟨[], .error (.tooManyFiles entries.length), g⟩ := by
  unfold plan
  rw [if_pos many]

def drawnOrder (entries : List Entry) (g : γ) : List Draft × γ :=
  let (draws, g) := Draw.ofEntries entries g
  let (order, g) := Shuffle.shuffle (Draft.ofDraws draws).toArray g
  (order.toList, g)

def drawnMade (entries : List Entry) (g : γ) : Array Draft :=
  let built := Builder.ofDraws (Draw.ofEntries entries g).1
  built.drafts.push built.superBlock

theorem drawnOrderPerm (entries : List Entry) (g : γ) :
    (drawnOrder entries g).1.Perm (Draft.ofDraws (Draw.ofEntries entries g).1) :=
  Shuffle.shufflePerm (Draft.ofDraws (Draw.ofEntries entries g).1).toArray
    (Draw.ofEntries entries g).2

theorem planSteps {entries : List Entry} (few : entries.length ≤ maxFiles)
    (capacity : UInt32) (g : γ) :
    plan entries capacity g = ⟨(Draw.ofEntries entries g).1,
      place (drawnMade entries g)
        (Draft.linkedTop (Draw.ofEntries entries g).1.length :: (drawnOrder entries g).1) capacity,
      (drawnOrder entries g).2⟩ := by
  unfold plan
  rw [if_neg (by omega)]
  simp only [drawnMade, drawnOrder, Builder.shuffledLinked, Builder.superBlockLinked]

theorem drawsFew {entries : List Entry} (few : entries.length ≤ maxFiles) (g : γ) :
    (Draw.ofEntries entries g).1.length ≤ maxFiles := by
  rw [Draw.ofEntriesCount]
  exact few

theorem drawsBounded {entries : List Entry} (few : entries.length ≤ maxFiles) (g : γ) :
    usedSectors (Draw.ofEntries entries g).1 ≤ 1 + 128 * 9437189 :=
  usedSectorsBounded (drawsFew few g) (Draw.ofEntriesFit entries g).2

section

variable {entries : List Entry} (few : entries.length ≤ maxFiles) (capacity : UInt32) (g : γ)

include few

theorem planRoomy (room : usedSectors (Draw.ofEntries entries g).1 + 1 < capacity.toNat) :
    ∃ address p, (plan entries capacity g).outcome = .ok p ∧
      Laid (Draw.ofEntries entries g).1 capacity (drawnOrder entries g).1 address p := by
  rw [planSteps few]
  exact placeAccepted (drawsFew few g) (Draw.ofEntriesFit entries g).2 (drawnOrderPerm entries g) _
    room

theorem planFull (full : capacity.toNat ≤ usedSectors (Draw.ofEntries entries g).1 + 1) :
    (plan entries capacity g).outcome = .error (.capacityExceeded
      (UInt64.ofNat (usedSectors (Draw.ofEntries entries g).1 + 2)) capacity) := by
  rw [planSteps few]
  exact placeRefused (drawsFew few g) (Draw.ofEntriesFit entries g).2 (drawnOrderPerm entries g) _
    full

end

/-- A plan is refused for its capacity exactly where the last free block would be empty. -/
theorem planOutcome {entries : List Entry} (few : entries.length ≤ maxFiles)
    (capacity : UInt32) (g : γ) :
    (capacity.toNat ≤ usedSectors (Draw.ofEntries entries g).1 + 1 ∧
      (plan entries capacity g).outcome = .error (.capacityExceeded
        (UInt64.ofNat (usedSectors (Draw.ofEntries entries g).1 + 2)) capacity)) ∨
    (usedSectors (Draw.ofEntries entries g).1 + 1 < capacity.toNat ∧
      ∃ address p, (plan entries capacity g).outcome = .ok p ∧
        Laid (Draw.ofEntries entries g).1 capacity (drawnOrder entries g).1 address p) := by
  rcases Nat.lt_or_ge (usedSectors (Draw.ofEntries entries g).1 + 1) capacity.toNat with room | full
  · exact .inr ⟨room, planRoomy few capacity g room⟩
  · exact .inl ⟨full, planFull few capacity g full⟩

theorem planFault {entries : List Entry} (few : entries.length ≤ maxFiles) {capacity : UInt32}
    {g : γ} {f : Fault} (failed : (plan entries capacity g).outcome = .error f) :
    f = .capacityExceeded (UInt64.ofNat (usedSectors (Draw.ofEntries entries g).1 + 2))
      capacity := by
  rcases planOutcome few capacity g with ⟨_, refused⟩ | ⟨_, _, _, accepted, _⟩
  · exact Except.error.inj (failed.symm.trans refused)
  · rw [accepted] at failed
    contradiction

theorem planOrdered {entries : List Entry} {capacity : UInt32} {g : γ} {p : Plan}
    (ok : (plan entries capacity g).outcome = .ok p) : ∃ address,
      Laid (Draw.ofEntries entries g).1 capacity (drawnOrder entries g).1 address p := by
  rcases Nat.lt_or_ge maxFiles entries.length with many | few
  · rw [planTooMany many] at ok
    contradiction
  · rcases planOutcome few capacity g with ⟨_, refused⟩ | ⟨_, address, q, accepted, laid⟩
    · rw [refused] at ok
      contradiction
    · cases accepted.symm.trans ok
      exact ⟨address, laid⟩

theorem planLaid {entries : List Entry} {capacity : UInt32} {g : γ} {p : Plan}
    (ok : (plan entries capacity g).outcome = .ok p) :
    ∃ order address, Laid (Draw.ofEntries entries g).1 capacity order address p :=
  ⟨_, planOrdered ok⟩

theorem planDraws {entries : List Entry} {capacity : UInt32} {g : γ} {p : Plan}
    (ok : (plan entries capacity g).outcome = .ok p) :
    (plan entries capacity g).draws = (Draw.ofEntries entries g).1 := by
  rcases Nat.lt_or_ge maxFiles entries.length with many | few
  · rw [planTooMany many] at ok
    contradiction
  · rw [planSteps few]

theorem planAccepted {entries : List Entry} (few : entries.length ≤ maxFiles) {capacity : UInt32}
    (room : (entries.map fun e => e.sectors + (e.sectors + 7) / 8 + 5).sum + 3 ≤ capacity.toNat)
    (g : γ) : ∃ p, (plan entries capacity g).outcome = .ok p := by
  obtain ⟨same, fits⟩ := Draw.ofEntriesFit entries g
  have most := (Draw.sumWithin fits).2
  rw [same] at most
  change _ ≤ (entries.map fun e => e.sectors + (e.sectors + 7) / 8 + 5).sum at most
  have used : usedSectors (Draw.ofEntries entries g).1 + 1 < capacity.toNat := by
    unfold usedSectors
    omega
  obtain ⟨_, p, accepted, _⟩ := planRoomy few capacity g used
  exact ⟨p, accepted⟩

/- Files as text and a size make them, mostly named for the sectors they take. -/
namespace Entry

def threeBytes : Entry := (ofText "a" 3).toOption.get rfl

def twoSectors : Entry := (ofText "a" 700).toOption.get rfl

def fourteenSectors : Entry := (ofText "a" 7000).toOption.get rfl

def noSectors : Entry := (ofText "b" 0).toOption.get rfl

def otherFourteen : Entry := (ofText "c" 6700).toOption.get rfl

def otherNone : Entry := (ofText "c" 0).toOption.get rfl

def largest : Entry := (ofText "a" 4294967295).toOption.get rfl

end Entry

theorem twoFilesPlanned : ∃ p,
    (plan [.fourteenSectors, .noSectors] 40 (Cycle.ofWords [5, 3])).outcome = .ok p :=
  planAccepted (by decide) (by decide) _

end BootImage
