import Mathlib
import BootImage.Proofs.Layout.Region
import BootImage.Proofs.Lists

/-!
What following the pointers of a plan meets: the files in reverse order, the chunks of each, and the
free runs, every block but the superblock exactly once.
-/
namespace BootImage

namespace Plan

def fileAt? (p : Plan) (offset : UInt32) : Option (Nat × FileHeader) :=
  match p.blockAt? offset with
  | some ⟨_, .file source header, _⟩ => some (source, header)
  | _ => none

def freeAt? (p : Plan) (offset : UInt32) : Option FreeRun :=
  match p.blockAt? offset with
  | some ⟨_, .free run, _⟩ => some run
  | _ => none

theorem freeKnown {p : Plan} {start stop : Nat}
    (tiled : Tiled start (p.blocks.map Block.extent) stop) {offset : UInt32} {run : FreeRun}
    (found : p.freeAt? offset = some run) : ∃ label, ⟨offset, .free run, label⟩ ∈ p.blocks := by
  unfold freeAt? at found
  split at found
  · rename_i place record label here
    cases found
    obtain ⟨member, rfl⟩ := (blockAtIff tiled _ _).mp here
    exact ⟨label, member⟩
  · cases found

end Plan

/- Everything that is met from the superblock on; the chunks stand in the order of the files. -/
structure Tour where
  top : SuperBlock
  files : List (UInt32 × Nat × FileHeader)
  nodes : List (List (UInt32 × ChunkNode))
  frees : List (UInt32 × FreeRun)

namespace Tour

structure Of (p : Plan) (t : Tour) : Prop where
  top : p.superBlock? = some t.top
  files : Chain p.fileAt? (·.2.next) t.top.firstFile t.files
  nodes : List.Forall₂ (fun file nodes =>
    Chain p.chunkNodeAt? ChunkNode.next file.2.2.firstChunk nodes) t.files t.nodes
  frees : Chain p.freeAt? FreeRun.next t.top.firstFree t.frees

def met (t : Tour) : List UInt32 :=
  t.files.map Prod.fst ++
    (t.nodes.flatten.flatMap fun (pointer, node) => [node.data, pointer]) ++
    t.frees.map Prod.fst

theorem Of.unique {p : Plan} {t u : Tour} (left : t.Of p) (right : u.Of p) : t = u := by
  obtain ⟨top, files, nodes, frees⟩ := t
  obtain ⟨top', files', nodes', frees'⟩ := u
  cases Option.some.inj (left.top.symm.trans right.top)
  cases left.files.unique right.files
  cases left.frees.unique right.frees
  have only : Relator.RightUnique fun (file : UInt32 × Nat × FileHeader) nodes =>
      Chain p.chunkNodeAt? ChunkNode.next file.2.2.firstChunk nodes :=
    fun _ _ _ one other => one.unique other
  cases List.right_unique_forall₂' only left.nodes right.nodes
  rfl

/- The lists run back to the first file, nodes name their data, and no block is met twice. -/
structure Complete (draws : List Draw) (p : Plan) (t : Tour) : Prop where
  follows : t.Of p
  files : (t.files.map fun (_, source, header) =>
      (source, header.name, header.size, header.flags)) =
    (draws.zipIdx.map fun (draw, file) =>
      (file, draw.entry.name, draw.entry.size, writableFlag)).reverse
  firstChunks : ∀ file ∈ t.files, file.2.2.firstChunk = nullPointer ↔ file.2.2.size = 0
  lengths : (t.nodes.map fun nodes => nodes.map (·.2.length)) = (draws.map Draw.chunks).reverse
  sums : List.Forall₂ (fun file nodes =>
    (nodes.map (·.2.length.toNat)).sum = (file.2.2.size.toNat + 511) / 512) t.files t.nodes
  data : ∀ nodes ∈ t.nodes, ∀ visit ∈ nodes, ∃ label,
    p.blockAt? visit.2.data = some ⟨visit.2.data, .chunkData visit.2.length, label⟩
  frees : ∃ runs last, t.frees = runs ++ [last] ∧
    runs.map (·.2.length) = (draws.map Draw.freeRun).reverse ∧
    (∀ run ∈ runs, 1 ≤ run.2.length.toNat ∧ run.2.length.toNat ≤ 4) ∧
    p.blocks.getLast? = some ⟨last.1, .free last.2, "the last free block"⟩
  once : t.met.Perm (p.blocks.tail.map Block.offset)
  apart : t.met.Nodup
  live : nullPointer ∉ t.met

theorem Complete.chunks {draws : List Draw} {p : Plan} {t : Tour} (complete : t.Complete draws p)
    {file : UInt32 × Nat × FileHeader} (member : file ∈ t.files) :
    ∃ nodes, Chain p.chunkNodeAt? ChunkNode.next file.2.2.firstChunk nodes ∧
      (nodes.map (·.2.length.toNat)).sum = (file.2.2.size.toNat + 511) / 512 ∧
      ∀ visit ∈ nodes, ∃ label,
        p.blockAt? visit.2.data = some ⟨visit.2.data, .chunkData visit.2.length, label⟩ := by
  obtain ⟨i, inside, rfl⟩ := List.getElem_of_mem member
  have known : i < t.nodes.length := complete.follows.nodes.length_eq ▸ inside
  exact ⟨_, complete.follows.nodes.get inside known, complete.sums.get inside known,
    complete.data _ (List.get_mem t.nodes ⟨i, known⟩)⟩

/- A chunk node belongs to a file, and what follows it there follows it from anywhere. -/
theorem Complete.chunksFrom {draws : List Draw} {p : Plan} {t : Tour}
    (complete : t.Complete draws p) {start stop : Nat}
    (tiled : Tiled start (p.blocks.map Block.extent) stop) {pointer : UInt32} {node : ChunkNode}
    (found : p.chunkNodeAt? pointer = some node) :
    ∃ nodes, Chain p.chunkNodeAt? ChunkNode.next pointer nodes ∧ ∀ visit ∈ nodes, ∃ label,
      p.blockAt? visit.2.data = some ⟨visit.2.data, .chunkData visit.2.length, label⟩ := by
  obtain ⟨⟨pointer, content, label⟩, member, rfl, rfl⟩ :=
    (Plan.chunkNodeAtIff tiled _ _).mp found
  have here := (Plan.blockAtIff tiled _ _).mpr ⟨member, rfl⟩
  have behind : ⟨pointer, .chunkNode node, label⟩ ∈ p.blocks.tail := by
    have top := complete.follows.top
    unfold Plan.superBlock? at top
    split at top
    · rename_i offset record name rest blocks
      rw [blocks] at member ⊢
      exact (List.mem_cons.mp member).resolve_left nofun
    · cases top
  have met : pointer ∈ t.met := complete.once.mem_iff.mpr (List.mem_map.mpr ⟨_, behind, rfl⟩)
  simp only [Tour.met, List.mem_append, List.mem_map, List.mem_flatMap] at met
  rcases met with (⟨file, inside, rfl⟩ | ⟨visit, inside, one⟩) | ⟨free, inside, rfl⟩
  · have file := (complete.follows.files.member inside).2
    simp only [Plan.fileAt?, here] at file
    cases file
  · obtain ⟨nodes, known, within⟩ := List.mem_flatten.mp inside
    have data := complete.data nodes known
    rcases List.mem_cons.mp one with rfl | last
    · obtain ⟨label, other⟩ := data visit within
      cases here.symm.trans other
    · cases List.mem_singleton.mp last
      have owned : List.Forall₂ (fun nodes file => Chain p.chunkNodeAt? ChunkNode.next
          file.2.2.firstChunk nodes) t.nodes t.files := complete.follows.nodes.flip
      obtain ⟨file, chain⟩ := forall₂Partner owned known
      obtain ⟨before, after, split, rest⟩ := chain.suffix within
      refine ⟨_, rest, fun other further => data other ?_⟩
      rw [split]
      exact List.mem_append_right _ further
  · have run := (complete.follows.frees.member inside).2
    simp only [Plan.freeAt?, here] at run
    cases run

end Tour

namespace Draft

variable (address : Slot → UInt32)

def fileHeader (file : Nat) (draw : Draw) : FileHeader :=
  ⟨pointerTo address (headerBefore file), draw.entry.name, draw.entry.size, writableFlag,
    pointerTo address (if draw.chunks.length = 0 then none else some (.chunkNode file 0))⟩

def nodeRecord (file chunk chunks : Nat) (length : UInt32) : ChunkNode :=
  ⟨pointerTo address (if chunk + 1 < chunks then some (.chunkNode file (chunk + 1)) else none),
    length, address (.chunkData file chunk)⟩

def fileVisit (file : Nat) (draw : Draw) : UInt32 × Nat × FileHeader :=
  (address (.header file), file, fileHeader address file draw)

def nodeVisits (file : Nat) (draw : Draw) : List (UInt32 × ChunkNode) :=
  draw.chunks.zipIdx.map fun (length, chunk) =>
    (address (.chunkNode file chunk), nodeRecord address file chunk draw.chunks.length length)

def freeVisit (file : Nat) (draw : Draw) : UInt32 × FreeRun :=
  (address (.freeRun file), ⟨address (freeRunBefore file), draw.freeRun⟩)

def tour (draws : List Draw) (trailing : UInt32) : Tour where
  top := .ofHeads (pointerTo address (headerBefore draws.length))
    (address (freeRunBefore draws.length))
  files := (draws.zipIdx.map fun (draw, file) => fileVisit address file draw).reverse
  nodes := (draws.zipIdx.map fun (draw, file) => nodeVisits address file draw).reverse
  frees := (draws.zipIdx.map fun (draw, file) => freeVisit address file draw).reverse ++
    [(address .lastFree, ⟨nullPointer, trailing⟩)]

end Draft

namespace Laid

variable {draws : List Draw} {capacity : UInt32} {order : List Draft} {address : Slot → UInt32}
  {p : Plan}

theorem live (laid : Laid draws capacity order address p) {b : Block} (member : b ∈ p.blocks.tail) :
    b.offset ≠ nullPointer := by
  have tiled := laid.tiled
  rw [laid.superBlockFirst] at tiled member
  cases tiled with
  | cons here some later =>
    have within := later.bounds (List.mem_map.mpr ⟨b, member, rfl⟩)
    intro null
    have zero : b.offset.toNat = 0 := congrArg UInt32.toNat null
    change 0 + 1 ≤ b.offset.toNat ∧ _ at within
    omega

theorem found (laid : Laid draws capacity order address p) {d : Draft}
    (member : d ∈ order ++ [Draft.lastFree (capacity - address .lastFree - 1)]) :
    address d.slot ≠ nullPointer ∧ p.blockAt? (address d.slot) = some (d.block address) := by
  have inside : d.block address ∈ p.blocks.tail := by
    rw [laid.superBlockFirst]
    exact List.mem_map.mpr ⟨d, member, rfl⟩
  exact ⟨laid.live inside,
    (Plan.blockAtIff laid.tiled _ _).mpr ⟨List.mem_of_mem_tail inside, rfl⟩⟩

theorem partFound (laid : Laid draws capacity order address p) {d : Draft}
    (part : Draft.Part draws d) :
    address d.slot ≠ nullPointer ∧ p.blockAt? (address d.slot) = some (d.block address) :=
  laid.found (List.mem_append_left _ (laid.shuffled.mem_iff.mpr (Draft.memOfDraws.mpr part)))

theorem lastFound (laid : Laid draws capacity order address p) :
    address .lastFree ≠ nullPointer ∧ p.blockAt? (address .lastFree) =
      some ((Draft.lastFree (capacity - address .lastFree - 1)).block address) :=
  laid.found (d := Draft.lastFree _) (List.mem_append_right _ (List.mem_singleton.mpr rfl))

theorem fileChain (laid : Laid draws capacity order address p) {count : Nat}
    (known : count ≤ draws.length) :
    Chain p.fileAt? (·.2.next) (pointerTo address (Draft.headerBefore count))
      (((draws.take count).zipIdx.map fun (draw, file) =>
        Draft.fileVisit address file draw).reverse) := by
  induction count with
  | zero => exact .ended
  | succ file ih =>
    have drawn : draws[file]? = some draws[file] := List.getElem?_eq_getElem known
    obtain ⟨live, found⟩ := laid.partFound (.header drawn)
    have at? : p.fileAt? (address (.header file)) =
        some (file, Draft.fileHeader address file draws[file]) := by
      change p.blockAt? (address (.header file)) = _ at found
      unfold Plan.fileAt?
      rw [found]
      rfl
    rw [numberedReverse _ known]
    exact .node live at? (ih (Nat.le_of_lt known))

theorem freeChain (laid : Laid draws capacity order address p) {count : Nat}
    (known : count ≤ draws.length) :
    Chain p.freeAt? FreeRun.next (address (Draft.freeRunBefore count))
      (((draws.take count).zipIdx.map fun (draw, file) =>
        Draft.freeVisit address file draw).reverse ++
        [(address .lastFree, ⟨nullPointer, capacity - address .lastFree - 1⟩)]) := by
  induction count with
  | zero =>
    obtain ⟨live, found⟩ := laid.lastFound
    have at? : p.freeAt? (address .lastFree) =
        some ⟨nullPointer, capacity - address .lastFree - 1⟩ := by
      unfold Plan.freeAt?
      rw [found]
      rfl
    exact .node live at? .ended
  | succ file ih =>
    have drawn : draws[file]? = some draws[file] := List.getElem?_eq_getElem known
    obtain ⟨live, found⟩ := laid.partFound (.freeRun drawn)
    have at? : p.freeAt? (address (.freeRun file)) =
        some ⟨address (Draft.freeRunBefore file), draws[file].freeRun⟩ := by
      change p.blockAt? (address (.freeRun file)) = _ at found
      unfold Plan.freeAt?
      rw [found]
      rfl
    rw [numberedReverse _ known]
    exact .node live at? (ih (Nat.le_of_lt known))

theorem chunkChainFrom (laid : Laid draws capacity order address p) {file : Nat} {draw : Draw}
    (drawn : draws[file]? = some draw) (before after : List UInt32)
    (split : draw.chunks = before ++ after) :
    Chain p.chunkNodeAt? ChunkNode.next
      (pointerTo address (if before.length < draw.chunks.length then
        some (.chunkNode file before.length) else none))
      ((after.zipIdx before.length).map fun (length, chunk) => (address (.chunkNode file chunk),
        Draft.nodeRecord address file chunk draw.chunks.length length)) := by
  induction after generalizing before with
  | nil =>
    have none : ¬ before.length < draw.chunks.length := by simp [split]
    rw [if_neg none]
    exact .ended
  | cons length after ih =>
    have more : before.length < draw.chunks.length := by simp [split]
    have cut : draw.chunks[before.length]? = some length := by simp [split]
    obtain ⟨live, found⟩ := laid.partFound (.chunkNode drawn cut)
    have at? : p.chunkNodeAt? (address (.chunkNode file before.length)) =
        some (Draft.nodeRecord address file before.length draw.chunks.length length) := by
      obtain ⟨inside, here⟩ := (Plan.blockAtIff laid.tiled _ _).mp found
      exact (Plan.chunkNodeAtIff laid.tiled _ _).mpr ⟨_, inside, here, rfl⟩
    have later := ih (before ++ [length]) (by simp [split])
    rw [List.length_append, List.length_singleton] at later
    rw [if_pos more]
    exact .node live at? later

theorem chunkChain (laid : Laid draws capacity order address p) {file : Nat} {draw : Draw}
    (drawn : draws[file]? = some draw) :
    Chain p.chunkNodeAt? ChunkNode.next (Draft.fileHeader address file draw).firstChunk
      (Draft.nodeVisits address file draw) := by
  have chain := laid.chunkChainFrom drawn [] draw.chunks rfl
  have head : (if ([] : List UInt32).length < draw.chunks.length then
      some (Slot.chunkNode file ([] : List UInt32).length) else none) =
      if draw.chunks.length = 0 then none else some (.chunkNode file 0) := by
    cases draw.chunks <;> simp
  rw [head] at chain
  exact chain

theorem tourOf (laid : Laid draws capacity order address p) :
    Tour.Of p (Draft.tour address draws (capacity - address .lastFree - 1)) where
  top := by
    unfold Plan.superBlock?
    rw [laid.superBlockFirst]
    rfl
  files := by
    have chain := laid.fileChain (Nat.le_refl _)
    rw [List.take_length] at chain
    exact chain
  nodes := by
    refine List.forall₂_reverse_iff.mpr (List.forall₂_map_left_iff.mpr
      (List.forall₂_map_right_iff.mpr (List.forall₂_same.mpr ?_)))
    rintro ⟨draw, file⟩ member
    exact laid.chunkChain (List.mk_mem_zipIdx_iff_getElem?.mp member)
  frees := by
    have chain := laid.freeChain (Nat.le_refl _)
    rw [List.take_length] at chain
    exact chain

theorem chunksMet (file : Nat) (draw : Draw) :
    (Draft.nodeVisits address file draw).flatMap (fun (pointer, node) => [node.data, pointer]) =
      (Draft.ofChunks file draw).map fun d => address d.slot := by
  simp [Draft.nodeVisits, Draft.nodeRecord, Draft.ofChunks, Draft.ofChunk, Draft.chunkData,
    Draft.linkedNode, Draft.chunkNode, List.flatMap_map, List.map_flatMap]

theorem partsMet (draws : List Draw) :
    ((Draft.ofDraws draws).map fun d => address d.slot).Perm
      ((draws.zipIdx.flatMap fun (draw, file) =>
        (Draft.ofChunks file draw).map fun d => address d.slot) ++
      ((draws.zipIdx.map fun (_, file) => address (.header file)) ++
        draws.zipIdx.map fun (_, file) => address (.freeRun file))) := by
  have grouped : ((Draft.ofDraws draws).map fun d => address d.slot) =
      draws.zipIdx.flatMap fun (draw, file) =>
        ((Draft.ofChunks file draw).map fun d => address d.slot) ++
          ([address (.header file)] ++ [address (.freeRun file)]) := by
    simp [Draft.ofDraws, Draft.ofDraw, Draft.linkedHeader, Draft.header, Draft.linkedFreeRun,
      Draft.freeRun, List.map_flatMap]
  rw [grouped, List.map_eq_flatMap, List.map_eq_flatMap]
  refine (List.flatMap_append_perm _ _ _).symm.trans (List.Perm.append_left _ ?_)
  exact (List.flatMap_append_perm _ _ _).symm

theorem tourMeets (laid : Laid draws capacity order address p) (trailing : UInt32) :
    (Draft.tour address draws trailing).met.Perm (p.blocks.tail.map Block.offset) := by
  have nodes : ((Draft.tour address draws trailing).nodes.flatten.flatMap
      fun (pointer, node) => [node.data, pointer]).Perm
      (draws.zipIdx.flatMap fun (draw, file) =>
        (Draft.ofChunks file draw).map fun d => address d.slot) := by
    refine ((List.reverse_perm _).flatten.flatMap_right _).trans (.of_eq ?_)
    rw [List.flatten_eq_flatMap, List.flatMap_map, List.flatMap_assoc]
    apply List.flatMap_congr
    rintro ⟨draw, file⟩ member
    exact chunksMet file draw
  have files : ((Draft.tour address draws trailing).files.map Prod.fst).Perm
      (draws.zipIdx.map fun (_, file) => address (.header file)) := by
    refine ((List.reverse_perm _).map _).trans (.of_eq ?_)
    rw [List.map_map]
    rfl
  have frees : ((Draft.tour address draws trailing).frees.map Prod.fst).Perm
      ((draws.zipIdx.map fun (_, file) => address (.freeRun file)) ++ [address .lastFree]) := by
    refine (((List.reverse_perm _).append_right _).map _).trans (.of_eq ?_)
    rw [List.map_append, List.map_map]
    rfl
  have blocks : p.blocks.tail.map Block.offset =
      (order.map fun d => address d.slot) ++ [address .lastFree] := by
    rw [laid.superBlockFirst, List.tail_cons, List.map_map, List.map_append]
    rfl
  -- The walks meet blocks kind by kind, the layout lists them file by file.
  rw [blocks]
  apply ((files.append nodes).append frees).trans
  refine .trans ?_ (((laid.shuffled.map _).trans (partsMet draws)).symm.append_right _)
  rw [← List.append_assoc, ← List.append_assoc]
  exact (List.perm_append_comm.append_right _).append_right _

theorem firstChunkNull (laid : Laid draws capacity order address p) {file : Nat} {draw : Draw}
    (drawn : draws[file]? = some draw) :
    (Draft.fileHeader address file draw).firstChunk = nullPointer ↔ draw.entry.size = 0 := by
  have cut := (laid.fits draw (List.mem_of_getElem? drawn)).chunks
  have empty : draw.chunks.length = 0 ↔ draw.entry.size = 0 := by
    rw [List.length_eq_zero_iff, Chunks.cutNothing cut, Entry.sectors, ← UInt32.toNat_inj,
      UInt32.toNat_zero]
    omega
  rw [← empty]
  by_cases none : draw.chunks.length = 0
  · simp [Draft.fileHeader, none, pointerTo]
  · have first := List.getElem?_eq_getElem (Nat.pos_of_ne_zero none)
    have live : address (.chunkNode file 0) ≠ nullPointer :=
      (laid.partFound (.chunkNode drawn first)).1
    simpa [Draft.fileHeader, none, pointerTo] using live

theorem nodeData (laid : Laid draws capacity order address p) {file : Nat} {draw : Draw}
    (drawn : draws[file]? = some draw) {visit : UInt32 × ChunkNode}
    (member : visit ∈ Draft.nodeVisits address file draw) : ∃ label,
      p.blockAt? visit.2.data = some ⟨visit.2.data, .chunkData visit.2.length, label⟩ := by
  obtain ⟨⟨length, chunk⟩, inside, rfl⟩ := List.mem_map.mp member
  exact ⟨_, (laid.partFound (.chunkData drawn (List.mk_mem_zipIdx_iff_getElem?.mp inside))).2⟩

theorem nodeLengths (address : Slot → UInt32) (file : Nat) (draw : Draw) :
    (Draft.nodeVisits address file draw).map (·.2.length) = draw.chunks := by
  simp [Draft.nodeVisits, Draft.nodeRecord, Function.comp_def]

theorem tourComplete (laid : Laid draws capacity order address p) :
    (Draft.tour address draws (capacity - address .lastFree - 1)).Complete draws p := by
  have met := laid.tourMeets (capacity - address .lastFree - 1)
  refine ⟨laid.tourOf, ?files, ?firstChunks, ?lengths, ?sums, ?data, ?frees, met, ?apart, ?live⟩
  case files =>
    unfold Draft.tour
    rw [List.map_reverse, List.map_map]
    rfl
  case firstChunks =>
    intro file member
    obtain ⟨⟨draw, file⟩, inside, rfl⟩ := List.mem_map.mp (List.mem_reverse.mp member)
    exact laid.firstChunkNull (List.mk_mem_zipIdx_iff_getElem?.mp inside)
  case lengths =>
    have named : draws.map Draw.chunks = draws.zipIdx.map fun (draw, _) => draw.chunks := by
      conv => lhs; rw [← List.zipIdx_map_fst 0 draws, List.map_map]
      rfl
    unfold Draft.tour
    rw [List.map_reverse, List.map_map, named]
    simp only [Function.comp_def, nodeLengths]
  case sums =>
    refine List.forall₂_reverse_iff.mpr (List.forall₂_map_left_iff.mpr
      (List.forall₂_map_right_iff.mpr (List.forall₂_same.mpr ?_)))
    rintro ⟨draw, file⟩ member
    have sum := Chunks.cutSum (laid.fits draw (List.fst_mem_of_mem_zipIdx member)).chunks
    rw [← nodeLengths address file draw, List.map_map] at sum
    exact sum
  case data =>
    intro nodes member visit inside
    obtain ⟨⟨draw, file⟩, drawn, rfl⟩ := List.mem_map.mp (List.mem_reverse.mp member)
    exact laid.nodeData (List.mk_mem_zipIdx_iff_getElem?.mp drawn) inside
  case frees =>
    refine ⟨_, _, rfl, ?_, ?_, ?_⟩
    · conv => rhs; rw [← List.zipIdx_map_fst 0 draws, List.map_map]
      rw [List.map_reverse, List.map_map]
      rfl
    · intro run member
      obtain ⟨⟨draw, file⟩, drawn, rfl⟩ := List.mem_map.mp (List.mem_reverse.mp member)
      exact (laid.fits draw (List.fst_mem_of_mem_zipIdx drawn)).freeRun
    · rw [laid.frontAndLast, List.getLast?_append, List.getLast?_singleton]
      rfl
  case apart =>
    have distinct := laid.tiled.startsDistinct
    rw [List.map_map] at distinct
    exact met.nodup_iff.mpr (distinct.sublist ((List.tail_sublist _).map _))
  case live =>
    intro null
    obtain ⟨b, member, same⟩ := List.mem_map.mp (met.mem_iff.mp null)
    exact laid.live member same

end Laid

variable {γ : Type} [Generator γ]

/-- From the superblock every block is reached, and each in one way. -/
theorem planTour {entries : List Entry} {capacity : UInt32} {g : γ} {p : Plan}
    (ok : (plan entries capacity g).outcome = .ok p) :
    (plan entries capacity g).draws.map Draw.entry = entries ∧
      ∃ t : Tour, t.Complete (plan entries capacity g).draws p ∧ ∀ u : Tour, u.Of p → u = t := by
  obtain ⟨order, address, laid⟩ := planLaid ok
  rw [planDraws ok]
  have complete := laid.tourComplete
  exact ⟨(Draw.ofEntriesFit entries g).1, _, complete, fun u other => other.unique complete.follows⟩

theorem planTourForty : ∃ p,
    (plan [.fourteenSectors, .noSectors] 40 (Cycle.ofWords [5, 3])).outcome = .ok p ∧
      ∃ t : Tour, t.Of p ∧ t.files.length = 2 ∧ t.met.Perm (p.blocks.tail.map Block.offset) := by
  obtain ⟨p, ok⟩ := twoFilesPlanned
  obtain ⟨entries, t, complete, _⟩ := planTour ok
  refine ⟨p, ok, t, complete.follows, ?_, complete.once⟩
  have files := congrArg List.length complete.files
  have count := congrArg List.length entries
  rw [List.length_map] at files count
  rw [files, List.length_reverse, List.length_map, List.length_zipIdx, count]
  rfl

end BootImage
