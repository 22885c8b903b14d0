import Mathlib
import BootImage.Proofs.Layout.Cutting
import BootImage.Proofs.Layout.Tiling
import BootImage.Proofs.Lists

/-!
The blocks of an image in closed form: each with the links that building leaves it. No slot is used
twice, every link leads to a slot that is used, and the sectors they take are counted. Building goes
file by file and links as it goes; what it has made after some files is what their closed form says.
-/
namespace BootImage

def Links.targets : Links → List Slot
  | .superBlock firstFile firstFree => firstFile.toList ++ [firstFree]
  | .freeRun next _ => next.toList
  | .header _ _ next firstChunk => next.toList ++ firstChunk.toList
  | .chunkNode next _ data => next.toList ++ [data]
  | .chunkData _ => []

def Slot.file? : Slot → Option Nat
  | .superBlock | .lastFree => none
  | .chunkData file _ | .chunkNode file _ | .header file | .freeRun file => some file

def Slot.chunk? : Slot → Option Nat
  | .superBlock | .lastFree | .header _ | .freeRun _ => none
  | .chunkData _ chunk | .chunkNode _ chunk => some chunk

namespace Draft

/- New files go to the front of the file list, so it runs back to file zero. -/
def headerBefore : Nat → Option Slot
  | 0 => none
  | file + 1 => some (.header file)

def freeRunBefore : Nat → Slot
  | 0 => .lastFree
  | file + 1 => .freeRun file

def linkedNode (file chunk chunks : Nat) (name : String) (length : UInt32) : Draft :=
  { chunkNode file chunk name length with
    links := .chunkNode (if chunk + 1 < chunks then some (.chunkNode file (chunk + 1)) else none)
      length (.chunkData file chunk) }

def linkedHeader (file : Nat) (draw : Draw) : Draft :=
  header file draw (headerBefore file)
    (if draw.chunks.length = 0 then none else some (.chunkNode file 0))

def linkedFreeRun (file : Nat) (draw : Draw) : Draft := freeRun file draw (freeRunBefore file)

def linkedTop (files : Nat) : Draft := superBlock (headerBefore files) (freeRunBefore files)

def ofChunk (file chunks : Nat) (name : String) (length : UInt32) (chunk : Nat) : List Draft :=
  [chunkData file chunk name length, linkedNode file chunk chunks name length]

def ofChunks (file : Nat) (draw : Draw) : List Draft :=
  let name := draw.entry.name.text
  let count := draw.chunks.length
  draw.chunks.zipIdx.flatMap fun (length, chunk) => ofChunk file count name length chunk

def ofDraw (file : Nat) (draw : Draw) : List Draft :=
  ofChunks file draw ++ [linkedHeader file draw, linkedFreeRun file draw]

def ofDraws (draws : List Draw) : List Draft :=
  draws.zipIdx.flatMap fun (draw, file) => ofDraw file draw

inductive Part (draws : List Draw) : Draft → Prop where
  | header {file draw} (drawn : draws[file]? = some draw) : Part draws (linkedHeader file draw)
  | freeRun {file draw} (drawn : draws[file]? = some draw) : Part draws (linkedFreeRun file draw)
  | chunkData {file draw chunk length} (drawn : draws[file]? = some draw)
      (cut : draw.chunks[chunk]? = some length) :
      Part draws (chunkData file chunk draw.entry.name.text length)
  | chunkNode {file draw chunk length} (drawn : draws[file]? = some draw)
      (cut : draw.chunks[chunk]? = some length) :
      Part draws (linkedNode file chunk draw.chunks.length draw.entry.name.text length)

theorem memOfChunks {file : Nat} {draw : Draw} {x : Draft} :
    x ∈ ofChunks file draw ↔ ∃ chunk length, draw.chunks[chunk]? = some length ∧
      (x = chunkData file chunk draw.entry.name.text length ∨
        x = linkedNode file chunk draw.chunks.length draw.entry.name.text length) := by
  simp only [ofChunks, ofChunk, List.mem_flatMap, Prod.exists, List.mk_mem_zipIdx_iff_getElem?,
    List.mem_cons, List.not_mem_nil, or_false]
  exact exists_comm

theorem memOfDraws {draws : List Draw} {x : Draft} : x ∈ ofDraws draws ↔ Part draws x := by
  simp only [ofDraws, ofDraw, List.mem_flatMap, Prod.exists, List.mk_mem_zipIdx_iff_getElem?,
    List.mem_append, memOfChunks, List.mem_cons, List.not_mem_nil, or_false]
  constructor
  · rintro ⟨draw, file, drawn, ⟨chunk, length, cut, rfl | rfl⟩ | rfl | rfl⟩
    · exact .chunkData drawn cut
    · exact .chunkNode drawn cut
    · exact .header drawn
    · exact .freeRun drawn
  · intro part
    cases part with
    | @header file draw drawn => exact ⟨draw, file, drawn, .inr (.inl rfl)⟩
    | @freeRun file draw drawn => exact ⟨draw, file, drawn, .inr (.inr rfl)⟩
    | @chunkData file draw chunk length drawn cut =>
      exact ⟨draw, file, drawn, .inl ⟨chunk, length, cut, .inl rfl⟩⟩
    | @chunkNode file draw chunk length drawn cut =>
      exact ⟨draw, file, drawn, .inl ⟨chunk, length, cut, .inr rfl⟩⟩

theorem slotsOfChunks (file : Nat) (draw : Draw) :
    (ofChunks file draw).map Draft.slot =
      draw.chunks.zipIdx.flatMap fun (_, chunk) =>
        [Slot.chunkData file chunk, Slot.chunkNode file chunk] := by
  simp [ofChunks, ofChunk, chunkData, linkedNode, chunkNode, List.map_flatMap]

theorem slotsOfDraw (file : Nat) (draw : Draw) :
    (ofDraw file draw).map Draft.slot =
      (ofChunks file draw).map Draft.slot ++ [.header file, .freeRun file] := by
  simp [ofDraw, linkedHeader, header, linkedFreeRun, freeRun]

theorem slotsOfDrawNodup (file : Nat) (draw : Draw) :
    ((ofDraw file draw).map Draft.slot).Nodup := by
  have chunks : ((ofChunks file draw).map Draft.slot).Nodup := by
    rw [slotsOfChunks]
    exact numberedNodup (fun _ chunk => [Slot.chunkData file chunk, .chunkNode file chunk])
      Slot.chunk? _ (by simp) (by simp [Slot.chunk?])
  have apart : ∀ slot ∈ (ofChunks file draw).map Draft.slot,
      ∀ other ∈ [Slot.header file, .freeRun file], slot ≠ other := by
    intro slot member other rest
    rw [slotsOfChunks] at member
    simp only [List.mem_flatMap, List.mem_cons, List.not_mem_nil, or_false] at member rest
    rintro rfl
    obtain ⟨_, _, rfl | rfl⟩ := member <;> simp at rest
  rw [slotsOfDraw, List.nodup_append]
  exact ⟨chunks, by simp, apart⟩

theorem slotsOfDrawsNodup (draws : List Draw) : ((ofDraws draws).map Draft.slot).Nodup := by
  unfold ofDraws
  rw [List.map_flatMap]
  refine numberedNodup (fun draw file => (ofDraw file draw).map Draft.slot) Slot.file? _
    (fun draw file => slotsOfDrawNodup file draw) ?_
  intro draw file slot member
  rw [slotsOfDraw, slotsOfChunks] at member
  simp only [List.mem_append, List.mem_flatMap, List.mem_cons, List.not_mem_nil, or_false] at member
  rcases member with ⟨_, _, rfl | rfl⟩ | rfl | rfl <;> rfl

theorem slotOfPart {draws : List Draw} {x : Draft} (part : Part draws x) :
    x.slot ≠ .superBlock ∧ x.slot ≠ .lastFree := by
  cases part <;>
    simp [linkedHeader, header, linkedFreeRun, freeRun, chunkData, linkedNode, chunkNode]

def slots (draws : List Draw) : List Slot :=
  .superBlock :: ((ofDraws draws).map Draft.slot ++ [.lastFree])

theorem slotsNodup (draws : List Draw) : (slots draws).Nodup := by
  have apart : ∀ slot ∈ (ofDraws draws).map Draft.slot, slot ≠ .superBlock ∧ slot ≠ .lastFree := by
    intro slot member
    obtain ⟨x, inside, rfl⟩ := List.mem_map.mp member
    exact slotOfPart (memOfDraws.mp inside)
  refine List.nodup_cons.mpr ⟨?_, List.nodup_append.mpr ⟨slotsOfDrawsNodup draws, by simp, ?_⟩⟩
  · intro member
    rcases List.mem_append.mp member with inside | last
    · exact (apart _ inside).1 rfl
    · simp at last
  · intro slot member other last
    cases List.mem_singleton.mp last
    exact (apart slot member).2

theorem partSlot {draws : List Draw} {x : Draft} (part : Part draws x) : x.slot ∈ slots draws :=
  List.mem_cons_of_mem _
    (List.mem_append_left _ (List.mem_map.mpr ⟨x, memOfDraws.mpr part, rfl⟩))

theorem lastFreeSlot (draws : List Draw) : Slot.lastFree ∈ slots draws := by simp [slots]

theorem headerBeforeSlot {draws : List Draw} {file : Nat} (known : file ≤ draws.length)
    {slot : Slot} (link : headerBefore file = some slot) : slot ∈ slots draws := by
  cases file with
  | zero => simp [headerBefore] at link
  | succ file =>
    cases Option.some.inj link
    exact partSlot (.header (List.getElem?_eq_getElem known))

theorem freeRunBeforeSlot {draws : List Draw} {file : Nat} (known : file ≤ draws.length) :
    freeRunBefore file ∈ slots draws := by
  cases file with
  | zero => exact lastFreeSlot draws
  | succ file => exact partSlot (.freeRun (List.getElem?_eq_getElem known))

theorem superBlockTargets (draws : List Draw) :
    ∀ slot ∈ (linkedTop draws.length).links.targets, slot ∈ slots draws := by
  intro slot target
  simp only [linkedTop, superBlock, Links.targets, List.mem_append, Option.mem_toList,
    List.mem_singleton] at target
  rcases target with link | rfl
  · exact headerBeforeSlot (Nat.le_refl _) link
  · exact freeRunBeforeSlot (Nat.le_refl _)

theorem partTargets {draws : List Draw} {x : Draft} (part : Part draws x) :
    ∀ slot ∈ x.links.targets, slot ∈ slots draws := by
  intro slot target
  cases part with
  | @header file draw drawn =>
    have known := (List.getElem?_eq_some_iff.mp drawn).1
    simp only [linkedHeader, header, Links.targets, List.mem_append, Option.mem_toList] at target
    rcases target with link | link
    · exact headerBeforeSlot (Nat.le_of_lt known) link
    · split at link
      · contradiction
      · rename_i some
        cases Option.some.inj link
        exact partSlot (.chunkNode drawn (List.getElem?_eq_getElem (Nat.pos_of_ne_zero some)))
  | @freeRun file draw drawn =>
    have known := (List.getElem?_eq_some_iff.mp drawn).1
    simp only [linkedFreeRun, freeRun, Links.targets, Option.toList_some,
      List.mem_singleton] at target
    cases target
    exact freeRunBeforeSlot (Nat.le_of_lt known)
  | @chunkData file draw chunk length drawn cut => simp [chunkData, Links.targets] at target
  | @chunkNode file draw chunk length drawn cut =>
    simp only [linkedNode, Links.targets, List.mem_append, Option.mem_toList,
      List.mem_singleton] at target
    rcases target with link | rfl
    · split at link
      · rename_i more
        cases Option.some.inj link
        exact partSlot (.chunkNode drawn (List.getElem?_eq_getElem more))
      · contradiction
    · exact partSlot (.chunkData drawn cut)

theorem partPositive {draws : List Draw} (fits : ∀ d ∈ draws, d.Fits) {x : Draft}
    (part : Part draws x) : 0 < x.sectors.toNat := by
  cases part with
  | header drawn => simp [linkedHeader, header, sectors]
  | freeRun drawn => exact (fits _ (List.mem_of_getElem? drawn)).freeRun.1
  | chunkData drawn cut =>
    exact Chunks.cutPositive (fits _ (List.mem_of_getElem? drawn)).chunks _
      (List.mem_of_getElem? cut)
  | chunkNode drawn cut => simp [linkedNode, sectors]

theorem totalAppend (front back : List Draft) :
    total (front ++ back) = total front + total back := by
  simp [total]

theorem totalOfChunks (file chunks : Nat) (name : String) (lengths : List UInt32) (first : Nat) :
    total ((lengths.zipIdx first).flatMap fun (length, chunk) =>
      ofChunk file chunks name length chunk) = (lengths.map UInt32.toNat).sum + lengths.length := by
  induction lengths generalizing first with
  | nil => rfl
  | cons length lengths ih =>
    rw [List.zipIdx_cons, List.flatMap_cons, totalAppend, ih]
    simp only [total, ofChunk, chunkData, linkedNode, sectors, List.map_cons, List.map_nil,
      List.sum_cons, List.sum_nil, List.length_cons, UInt32.toNat_one]
    omega

theorem totalOfDraw (file : Nat) {draw : Draw} (fits : draw.Fits) :
    total (ofDraw file draw) = draw.sectors := by
  have sum := Chunks.cutSum fits.chunks
  have chunks : total (ofChunks file draw) = draw.entry.sectors + draw.chunks.length := by
    unfold ofChunks
    rw [totalOfChunks, sum]
  unfold ofDraw
  rw [totalAppend, chunks]
  simp only [total, linkedHeader, header, linkedFreeRun, freeRun, sectors, Draw.sectors,
    List.map_cons, List.map_nil, List.sum_cons, List.sum_nil, UInt32.toNat_one]
  omega

theorem totalOfDrawsFrom {draws : List Draw} (fits : ∀ d ∈ draws, d.Fits) (first : Nat) :
    total ((draws.zipIdx first).flatMap fun (draw, file) => ofDraw file draw) =
      (draws.map Draw.sectors).sum := by
  induction draws generalizing first with
  | nil => rfl
  | cons draw draws ih =>
    rw [List.zipIdx_cons, List.flatMap_cons, totalAppend, totalOfDraw _ (fits _ List.mem_cons_self),
      ih fun d member => fits d (List.mem_cons_of_mem _ member), List.map_cons, List.sum_cons]

theorem totalOfDraws {draws : List Draw} (fits : ∀ d ∈ draws, d.Fits) :
    total (ofDraws draws) = (draws.map Draw.sectors).sum :=
  totalOfDrawsFrom fits 0

theorem totalPerm {left right : List Draft} (same : left.Perm right) : total left = total right :=
  (same.map fun d : Draft => d.sectors.toNat).sum_eq

end Draft

namespace ChunkDrafts

/- The pass over a file's nodes, once the first `count` of them have their successors. -/
def linkedBelow (file : Nat) (name : String) (lengths : List UInt32) (count : Nat) :
    Array ChunkDrafts :=
  lengths.toArray.mapIdx fun chunk length => ⟨Draft.chunkData file chunk name length,
    if chunk < count then
      (Draft.chunkNode file chunk name length).linkTo (.chunkNode file (chunk + 1))
    else Draft.chunkNode file chunk name length⟩

variable {file : Nat} {name : String} {lengths : List UInt32}

theorem linkedRound {count : Nat} (within : count + 1 < lengths.length) :
    linkNext (linkedBelow file name lengths count) count =
      linkedBelow file name lengths (count + 1) := by
  have next : (linkedBelow file name lengths count)[count + 1]? = some
      ⟨.chunkData file (count + 1) name lengths[count + 1],
        .chunkNode file (count + 1) name lengths[count + 1]⟩ := by
    simp [linkedBelow, within]
  unfold linkNext
  rw [next]
  apply Array.ext_getElem?
  intro i
  simp only [Array.getElem?_modify, linkedBelow, Array.getElem?_mapIdx]
  cases lengths.toArray[i]? with
  | none => simp
  | some length =>
    rcases Nat.lt_trichotomy i count with before | rfl | behind
    · rw [if_neg (Nat.ne_of_gt before)]
      simp [before, Nat.lt_succ_of_lt before]
    · simp [Draft.chunkNode]
    · rw [if_neg (Nat.ne_of_lt behind)]
      simp [Nat.not_lt.mpr (Nat.le_of_lt behind), Nat.not_lt.mpr (Nat.succ_le_of_lt behind)]

theorem linkedRounds {count : Nat} (within : count + 1 ≤ lengths.length) :
    (List.range count).foldl linkNext (lengths.toArray.mapIdx (make file name)) =
      linkedBelow file name lengths count := by
  induction count with
  | zero =>
    simp only [linkedBelow, Nat.not_lt_zero, if_false]
    rfl
  | succ count ih =>
    rw [List.range_succ, List.foldl_append, ih (Nat.le_of_succ_le within)]
    exact linkedRound within

theorem ofDrawLinked (file : Nat) (draw : Draw) : ofDraw file draw =
    linkedBelow file draw.entry.name.text draw.chunks (draw.chunks.length - 1) := by
  unfold ofDraw
  simp only [Array.size_mapIdx, List.size_toArray]
  cases chunks : draw.chunks with
  | nil => rfl
  | cons length lengths => exact linkedRounds (by simp)

theorem ofDrawDrafts (file : Nat) (draw : Draw) :
    ((ofDraw file draw).flatMap fun chunk => #[chunk.data, chunk.node]).toList =
      Draft.ofChunks file draw := by
  rw [ofDrawLinked, linkedBelow, Array.toList_flatMap, Array.toList_mapIdx,
    List.mapIdx_eq_zipIdx_map, List.flatMap_map]
  refine List.flatMap_congr fun numbered member => ?_
  obtain ⟨length, chunk⟩ := numbered
  obtain ⟨within, _⟩ := List.getElem?_eq_some_iff.mp (List.mk_mem_zipIdx_iff_getElem?.mp member)
  rcases Nat.lt_or_ge (chunk + 1) draw.chunks.length with more | last
  · simp [Draft.ofChunk, Draft.linkedNode, more, Nat.lt_sub_of_add_lt more]
    rfl
  · simp [Draft.ofChunk, Draft.linkedNode, Nat.not_lt.mpr last,
      Nat.not_lt.mpr (Nat.sub_le_of_le_add last)]
    rfl

theorem ofDrawHead (file : Nat) (draw : Draw) : (ofDraw file draw)[0]?.map (·.node.slot) =
    if draw.chunks.length = 0 then none else some (.chunkNode file 0) := by
  rw [ofDrawLinked, linkedBelow, Array.getElem?_mapIdx]
  cases draw.chunks with
  | nil => rfl
  | cons length lengths =>
    simp only [List.getElem?_toArray, List.getElem?_cons_zero, Option.map_some, List.length_cons]
    split <;> rfl

end ChunkDrafts

namespace Builder

theorem addFileLinked {b : Builder} {file : Nat} (files : b.fileHead = Draft.headerBefore file)
    (frees : b.freeHead = Draft.freeRunBefore file) (draw : Draw) : b.addFile file draw =
      ⟨b.drafts ++ (Draft.ofDraw file draw).toArray, Draft.headerBefore (file + 1),
        Draft.freeRunBefore (file + 1)⟩ := by
  have drafts : b.drafts ++ (ChunkDrafts.ofDraw file draw).flatMap
      (fun chunk => #[chunk.data, chunk.node]) ++
        #[Draft.linkedHeader file draw, Draft.linkedFreeRun file draw] =
      b.drafts ++ (Draft.ofDraw file draw).toArray := by
    apply Array.toList_inj.mp
    simp [Draft.ofDraw, ← ChunkDrafts.ofDrawDrafts]
  rw [← drafts]
  simp only [addFile, files, frees, ChunkDrafts.ofDrawHead]
  rfl

/- What the loop over the files has made: the blocks of each with the links of their closed form. -/
theorem ofDrawsLinked (draws : List Draw) : ofDraws draws =
    ⟨(Draft.lastFree 0 :: Draft.ofDraws draws).toArray, Draft.headerBefore draws.length,
      Draft.freeRunBefore draws.length⟩ := by
  induction draws using List.reverseRecOn with
  | nil => rfl
  | append_singleton draws draw ih =>
    unfold ofDraws at ih
    unfold ofDraws
    rw [List.zipIdx_append, List.foldl_append, ih, Nat.zero_add, List.length_append]
    rw [List.zipIdx_singleton, List.foldl_cons, List.foldl_nil, addFileLinked rfl rfl]
    simp [Draft.ofDraws, List.zipIdx_append, List.flatMap_append]

theorem superBlockLinked (draws : List Draw) :
    (ofDraws draws).superBlock = Draft.linkedTop draws.length := by
  rw [ofDrawsLinked]
  rfl

theorem shuffledLinked (draws : List Draw) :
    (ofDraws draws).shuffled = (Draft.ofDraws draws).toArray := by
  have kept : ∀ d ∈ Draft.ofDraws draws, (d.slot != .lastFree) = true := by
    intro d member
    exact bne_iff_ne.mpr (Draft.slotOfPart (Draft.memOfDraws.mp member)).2
  rw [ofDrawsLinked]
  apply Array.toList_inj.mp
  simp only [shuffled, List.filter_toArray]
  rw [List.filter_cons_of_neg (by simp [Draft.lastFree]), List.filter_eq_self.mpr kept]

end Builder

end BootImage
