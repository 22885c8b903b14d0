import Mathlib
import BootImage.Proofs.Layout.Region

/-!
Two runs of planning from one generator. Chance learns how many sectors a file needs and nothing
else about it, so files of the same sector counts are cut, ordered and placed alike, whatever they
are called, however much of their last sector they fill and whatever room there is.
-/
namespace BootImage

structure Draw.Alike (d e : Draw) : Prop where
  chunks : d.chunks = e.chunks
  freeRun : d.freeRun = e.freeRun

/- The same content, but for the name and the size that a header has from its own run's entry. -/
inductive Content.Alike (left right : List Entry) : Content → Content → Prop
  | superBlock (record) : Alike left right (.superBlock record) (.superBlock record)
  | free (record) : Alike left right (.free record) (.free record)
  | file {source} {own other : Entry} (first : left[source]? = some own)
      (second : right[source]? = some other) (next flags firstChunk : UInt32) :
      Alike left right (.file source ⟨next, own.name, own.size, flags, firstChunk⟩)
        (.file source ⟨next, other.name, other.size, flags, firstChunk⟩)
  | chunkNode (record) : Alike left right (.chunkNode record) (.chunkNode record)
  | chunkData (length) : Alike left right (.chunkData length) (.chunkData length)

structure Block.Alike (left right : List Entry) (b c : Block) : Prop where
  offset : b.offset = c.offset
  content : Content.Alike left right b.content c.content

/- A free run of all that is left of a region but its last sector. -/
def Block.Trailing (b : Block) (capacity : UInt32) : Prop :=
  b.content = .free ⟨nullPointer, capacity - b.offset - 1⟩ ∧ 0 < b.sectors.toNat ∧
    b.sectors.toNat = capacity.toNat - b.offset.toNat - 1

structure Draft.Alike (left right : List Entry) (d e : Draft) : Prop where
  slot : d.slot = e.slot
  content : ∀ address, Content.Alike left right (d.links.content address) (e.links.content address)

theorem Content.Alike.sectors {left right : List Entry} {c d : Content}
    (alike : Content.Alike left right c d) : c.sectors = d.sectors := by
  cases alike <;> rfl

namespace Draw

variable {γ : Type} [Generator γ]

theorem ofEntryAlike {left right : Entry} (same : left.sectors = right.sectors) (g : γ) :
    (ofEntry left g).1.Alike (ofEntry right g).1 ∧ (ofEntry left g).2 = (ofEntry right g).2 := by
  have words : (sectorsFor left.size.toUInt64).toUInt32 =
      (sectorsFor right.size.toUInt64).toUInt32 :=
    UInt32.toNat_inj.mp (by rw [Entry.sectorsDrawn, Entry.sectorsDrawn, same])
  unfold ofEntry
  rw [words]
  exact ⟨⟨rfl, rfl⟩, rfl⟩

theorem ofEntriesAlike {left right : List Entry}
    (same : left.map Entry.sectors = right.map Entry.sectors) (g : γ) :
    List.Forall₂ Alike (ofEntries left g).1 (ofEntries right g).1 ∧
      (ofEntries left g).2 = (ofEntries right g).2 := by
  induction left generalizing right g with
  | nil =>
    obtain rfl : right = [] := List.map_eq_nil_iff.mp same.symm
    exact ⟨.nil, rfl⟩
  | cons entry left ih =>
    obtain ⟨other, right, rfl, sectors, rest⟩ := List.map_eq_cons_iff.mp same.symm
    obtain ⟨here, after⟩ := ofEntryAlike sectors.symm g
    obtain ⟨later, last⟩ := ih rest.symm (ofEntry entry g).2
    simp only [ofEntries]
    rw [← after]
    exact ⟨.cons here later, last⟩

end Draw

namespace Draft

variable {left right : List Entry}

theorem Alike.sectors {d e : Draft} (alike : Alike left right d e) : d.sectors = e.sectors := by
  rw [← blockSectors (fun _ => 0) d, ← blockSectors (fun _ => 0) e]
  exact (alike.content _).sectors

theorem ofChunksAlike (left right : List Entry) (file : Nat) {d e : Draw} (alike : d.Alike e) :
    List.Forall₂ (Alike left right) (ofChunks file d) (ofChunks file e) := by
  unfold ofChunks
  rw [alike.chunks]
  refine List.rel_flatMap (List.forall₂_same.mpr fun _ _ => rfl) ?_
  rintro ⟨length, chunk⟩ _ rfl
  exact .cons ⟨rfl, fun _ => .chunkData length⟩ (.cons ⟨rfl, fun _ => .chunkNode _⟩ .nil)

theorem ofDrawAlike {file : Nat} {d e : Draw} (alike : d.Alike e)
    (first : left[file]? = some d.entry) (second : right[file]? = some e.entry) :
    List.Forall₂ (Alike left right) (ofDraw file d) (ofDraw file e) := by
  have headers : Alike left right (linkedHeader file d) (linkedHeader file e) := by
    refine ⟨rfl, fun address => ?_⟩
    simp only [linkedHeader, header, Links.content, alike.chunks]
    exact .file first second _ _ _
  have runs : Alike left right (linkedFreeRun file d) (linkedFreeRun file e) := by
    refine ⟨rfl, fun address => ?_⟩
    simp only [linkedFreeRun, freeRun, Links.content, alike.freeRun]
    exact .free _
  exact List.rel_append (ofChunksAlike left right file alike) (.cons headers (.cons runs .nil))

theorem ofDrawsAlike {ds es : List Draw} (alike : List.Forall₂ Draw.Alike ds es) :
    List.Forall₂ (Alike (ds.map Draw.entry) (es.map Draw.entry)) (ofDraws ds) (ofDraws es) := by
  have count := alike.length_eq
  have numbered : List.Forall₂ (fun (one other : Draw × Nat) => one.2 = other.2 ∧
      one.1.Alike other.1 ∧ (ds.map Draw.entry)[one.2]? = some one.1.entry ∧
      (es.map Draw.entry)[other.2]? = some other.1.entry) ds.zipIdx es.zipIdx := by
    refine List.forall₂_iff_get.mpr ⟨by simpa using count, ?_⟩
    intro i inside known
    simp only [List.length_zipIdx] at inside known
    have here := alike.get inside known
    simp only [List.get_eq_getElem] at here
    simpa [inside, known] using here
  refine List.rel_flatMap numbered ?_
  rintro ⟨d, file⟩ ⟨e, _⟩ ⟨rfl, here, first, second⟩
  exact ofDrawAlike here first second

end Draft

theorem Shuffle.shufflePaired {γ : Type} [Generator γ] {α : Type} {R : α → α → Prop}
    {xs ys : List α} (paired : List.Forall₂ R xs ys) (g : γ) :
    List.Forall₂ R (shuffle xs.toArray g).1.toList (shuffle ys.toArray g).1.toList ∧
      (shuffle xs.toArray g).2 = (shuffle ys.toArray g).2 := by
  -- Both are what becomes of the list of pairs, seen from either side.
  obtain ⟨count, related⟩ := List.forall₂_iff_zip.mp paired
  have left : xs.toArray = (xs.zip ys).toArray.map Prod.fst := by
    rw [List.map_toArray, List.map_fst_zip (Nat.le_of_eq count)]
  have right : ys.toArray = (xs.zip ys).toArray.map Prod.snd := by
    rw [List.map_toArray, List.map_snd_zip (Nat.le_of_eq count.symm)]
  rw [left, right, shuffleMap, shuffleMap]
  refine ⟨?_, rfl⟩
  rw [Array.toList_map, Array.toList_map, List.forall₂_map_left_iff, List.forall₂_map_right_iff,
    List.forall₂_same]
  rintro ⟨x, y⟩ member
  exact related ((shufflePerm (xs.zip ys).toArray g).mem_iff.mp member)

theorem pointerAgrees {address elsewhere : Slot → UInt32} {link : Option Slot}
    (agree : ∀ slot ∈ link.toList, address slot = elsewhere slot) :
    pointerTo address link = pointerTo elsewhere link := by
  cases link with
  | none => rfl
  | some slot => exact agree slot (by simp)

theorem Links.contentAgrees {address elsewhere : Slot → UInt32} {links : Links}
    (agree : ∀ slot ∈ links.targets, address slot = elsewhere slot) :
    links.content address = links.content elsewhere := by
  cases links with
  | superBlock firstFile firstFree =>
    simp only [targets, List.mem_append, List.mem_singleton] at agree
    simp only [content, pointerAgrees fun slot member => agree slot (.inl member),
      agree firstFree (.inr rfl)]
  | freeRun next length => simp only [content, pointerAgrees agree]
  | header source entry next firstChunk =>
    simp only [targets, List.mem_append] at agree
    simp only [content, pointerAgrees fun slot member => agree slot (.inl member),
      pointerAgrees fun slot member => agree slot (.inr member)]
  | chunkNode next length data =>
    simp only [targets, List.mem_append, List.mem_singleton] at agree
    simp only [content, pointerAgrees fun slot member => agree slot (.inl member),
      agree data (.inr rfl)]
  | chunkData length => rfl

namespace Laid

variable {left right : List Entry} {ds es : List Draw} {first second : UInt32}
  {order others : List Draft} {address elsewhere : Slot → UInt32} {p q : Plan}

theorem lastTrailing (laid : Laid ds first order address p) : Block.Trailing ⟨address .lastFree,
    .free ⟨nullPointer, first - address .lastFree - 1⟩, "the last free block"⟩ first := by
  have tiled := laid.tiled
  have whole := laid.trailing
  rw [laid.frontAndLast, List.map_append] at tiled
  obtain ⟨_, _, last⟩ := tiled.split
  cases last with
  | cons here some later =>
    refine ⟨rfl, some, ?_⟩
    change (first - address .lastFree - 1).toNat = first.toNat - (address .lastFree).toNat - 1
    omega

theorem slotDrafted (laid : Laid ds first order address p) {slot : Slot}
    (used : slot ∈ Draft.slots ds) :
    slot = .lastFree ∨ ∃ d ∈ Draft.linkedTop ds.length :: order, d.slot = slot := by
  rcases List.mem_cons.mp used with rfl | rest
  · exact .inr ⟨_, List.mem_cons_self, rfl⟩
  · rcases List.mem_append.mp rest with part | last
    · obtain ⟨d, member, rfl⟩ := List.mem_map.mp part
      exact .inr ⟨d, List.mem_cons_of_mem _ (laid.shuffled.mem_iff.mpr member), rfl⟩
    · exact .inl (List.mem_singleton.mp last)

section

variable (laid : Laid ds first order address p) (other : Laid es second others elsewhere q)
  (alike : List.Forall₂ (Draft.Alike left right) (Draft.linkedTop ds.length :: order)
    (Draft.linkedTop es.length :: others))

include laid other alike

theorem offsetsAlike : List.Forall₂ (fun d e => Draft.Alike left right d e ∧
      address d.slot = elsewhere e.slot)
      (Draft.linkedTop ds.length :: order) (Draft.linkedTop es.length :: others) ∧
    address .lastFree = elsewhere .lastFree := by
  have tiled := laid.tiled
  have again := other.tiled
  rw [laid.frontAndLast, List.map_append] at tiled
  rw [other.frontAndLast, List.map_append] at again
  obtain ⟨middle, front, last⟩ := tiled.split
  obtain ⟨_, front', last'⟩ := again.split
  have sectors : (((Draft.linkedTop ds.length :: order).map (Draft.block address)).map
      Block.extent).map Extent.sectors = (((Draft.linkedTop es.length :: others).map
      (Draft.block elsewhere)).map Block.extent).map Extent.sectors := by
    rw [← List.forall₂_eq_eq_eq]
    simp only [List.forall₂_map_left_iff, List.forall₂_map_right_iff]
    refine alike.imp fun d e same => ?_
    simp only [Block.extent, Draft.blockSectors, same.sectors]
  obtain ⟨extents, rfl⟩ := front.alike front' sectors
  rw [← List.forall₂_eq_eq_eq] at extents
  simp only [List.forall₂_map_left_iff, List.forall₂_map_right_iff] at extents
  refine ⟨alike.mp (fun d e same extent => ⟨same, congrArg Extent.offset extent⟩) extents, ?_⟩
  cases last with
  | cons here _ _ =>
    cases last' with
    | cons there _ _ => exact UInt32.toNat_inj.mp (here.trans there.symm)

theorem addressesAlike : ∀ slot ∈ Draft.slots es, address slot = elsewhere slot := by
  obtain ⟨fronts, last⟩ := laid.offsetsAlike other alike
  intro slot used
  rcases other.slotDrafted used with rfl | ⟨e, member, rfl⟩
  · exact last
  · obtain ⟨d, same, offset⟩ := forall₂Partner fronts.flip member
    rw [← offset, same.slot]

theorem blocksAlike : List.Forall₂ (Block.Alike left right)
    ((Draft.linkedTop ds.length :: order).map (Draft.block address))
    ((Draft.linkedTop es.length :: others).map (Draft.block elsewhere)) := by
  obtain ⟨fronts, _⟩ := laid.offsetsAlike other alike
  have agree := laid.addressesAlike other alike
  simp only [List.forall₂_map_left_iff, List.forall₂_map_right_iff]
  obtain ⟨count, each⟩ := List.forall₂_iff_zip.mp fronts
  refine List.forall₂_iff_zip.mpr ⟨count, fun {d e} member => ?_⟩
  obtain ⟨same, offset⟩ := each member
  have inside : e ∈ Draft.linkedTop es.length :: (others ++ [Draft.lastFree 0]) := by
    rw [← List.cons_append]
    exact List.mem_append_left _ (List.of_mem_zip member).2
  have targets := targetsClosed other.shuffled inside
  refine ⟨offset, ?_⟩
  change Content.Alike left right (d.links.content address) (e.links.content elsewhere)
  rw [← Links.contentAgrees fun slot target => agree slot (targets slot target)]
  exact same.content address

end

end Laid

variable {γ : Type} [Generator γ]

theorem drawnOrderAlike {left right : List Entry}
    (same : left.map Entry.sectors = right.map Entry.sectors) (g : γ) :
    List.Forall₂ (Draft.Alike left right)
        (Draft.linkedTop (Draw.ofEntries left g).1.length :: (drawnOrder left g).1)
        (Draft.linkedTop (Draw.ofEntries right g).1.length :: (drawnOrder right g).1) ∧
      (drawnOrder left g).2 = (drawnOrder right g).2 := by
  obtain ⟨draws, after⟩ := Draw.ofEntriesAlike same g
  have parts := Draft.ofDrawsAlike draws
  rw [(Draw.ofEntriesFit left g).1, (Draw.ofEntriesFit right g).1] at parts
  obtain ⟨order, last⟩ := Shuffle.shufflePaired parts (Draw.ofEntries left g).2
  have top : Draft.Alike left right (Draft.linkedTop (Draw.ofEntries left g).1.length)
      (Draft.linkedTop (Draw.ofEntries right g).1.length) := by
    rw [draws.length_eq]
    exact ⟨rfl, fun _ => .superBlock _⟩
  simp only [drawnOrder]
  rw [← after]
  exact ⟨.cons top order, last⟩

theorem usedSectorsAlike {left right : List Entry}
    (same : left.map Entry.sectors = right.map Entry.sectors) (g : γ) :
    usedSectors (Draw.ofEntries left g).1 = usedSectors (Draw.ofEntries right g).1 := by
  obtain ⟨order, _⟩ := drawnOrderAlike same g
  rw [← totalPlaced (Draw.ofEntriesFit left g).2 (drawnOrderPerm left g),
    ← totalPlaced (Draw.ofEntriesFit right g).2 (drawnOrderPerm right g)]
  unfold Draft.total
  congr 1
  rw [← List.forall₂_eq_eq_eq]
  simp only [List.forall₂_map_left_iff, List.forall₂_map_right_iff]
  exact order.imp fun d e alike => congrArg UInt32.toNat alike.sectors

/-- Names, sizes within the last sector and the capacity have no part in what is drawn, and so
none in where the blocks go. -/
theorem planAlike {left right : List Entry} (few : left.length ≤ maxFiles)
    (same : left.map Entry.sectors = right.map Entry.sectors) (first second : UInt32) (g : γ) :
    (plan left first g).generator = (plan right second g).generator ∧
    (∃ required,
      (∀ f, (plan left first g).outcome = .error f → f = .capacityExceeded required first) ∧
      ∀ f, (plan right second g).outcome = .error f → f = .capacityExceeded required second) ∧
    ∀ p q, (plan left first g).outcome = .ok p → (plan right second g).outcome = .ok q →
      p.blocks.length = q.blocks.length ∧
      ∃ front others last final, p.blocks = front ++ [last] ∧ q.blocks = others ++ [final] ∧
        List.Forall₂ (Block.Alike left right) front others ∧ last.offset = final.offset ∧
        last.Trailing first ∧ final.Trailing second := by
  have count := congrArg List.length same
  rw [List.length_map, List.length_map] at count
  have fewRight : right.length ≤ maxFiles := count ▸ few
  obtain ⟨order, after⟩ := drawnOrderAlike same g
  have used := usedSectorsAlike same g
  refine ⟨?generator, ⟨_, fun f failed => planFault few failed, ?refused⟩, ?placed⟩
  case generator =>
    rw [planSteps few, planSteps fewRight]
    exact after
  case refused =>
    rw [used]
    exact fun f failed => planFault fewRight failed
  case placed =>
    intro p q ok ok'
    obtain ⟨address, laid⟩ := planOrdered ok
    obtain ⟨elsewhere, other⟩ := planOrdered ok'
    have blocks := laid.blocksAlike other order
    refine ⟨?_, _, _, _, _, laid.frontAndLast, other.frontAndLast, blocks,
      (laid.offsetsAlike other order).2, laid.lastTrailing, other.lastTrailing⟩
    · rw [laid.frontAndLast, other.frontAndLast, List.length_append, blocks.length_eq,
        List.length_append]
      rfl

theorem planAlikeRenamed : ∃ p q,
    (plan [.fourteenSectors, .noSectors] 40 (Cycle.ofWords [5, 3])).outcome = .ok p ∧
    (plan [.otherFourteen, .otherNone] 60 (Cycle.ofWords [5, 3])).outcome = .ok q ∧
    p.blocks.length = q.blocks.length ∧ p.blocks.map Block.offset = q.blocks.map Block.offset := by
  obtain ⟨p, ok⟩ := twoFilesPlanned
  obtain ⟨q, ok'⟩ : ∃ q,
      (plan [.otherFourteen, .otherNone] 60 (Cycle.ofWords [5, 3])).outcome = .ok q :=
    planAccepted (by decide) (by decide) _
  have same : [Entry.fourteenSectors, .noSectors].map Entry.sectors =
      [Entry.otherFourteen, .otherNone].map Entry.sectors := by
    decide
  obtain ⟨_, _, placed⟩ := planAlike (by decide) same 40 60 (Cycle.ofWords [5, 3])
  obtain ⟨count, front, others, last, final, left, right, alike, ends, _, _⟩ := placed p q ok ok'
  refine ⟨p, q, ok, ok', count, ?_⟩
  have fronts : front.map Block.offset = others.map Block.offset := by
    rw [← List.forall₂_eq_eq_eq]
    simp only [List.forall₂_map_left_iff, List.forall₂_map_right_iff]
    exact alike.imp fun _ _ same => same.offset
  rw [left, right, List.map_append, List.map_append, fronts, List.map_singleton,
    List.map_singleton, ends]

end BootImage
