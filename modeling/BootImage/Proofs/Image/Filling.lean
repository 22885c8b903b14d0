import Mathlib
import BootImage.Image.Execution
import BootImage.Proofs.Layout.Pointers
import BootImage.Proofs.Source.Delivery

/-!
Reading of chunk contents. Along the chunks of one file it takes from one source what the lengths
ask for; over a plan no chunk is read twice, so only a failing source can stop it.
-/
namespace BootImage

namespace Filling

variable {ρ : Type} [Reader ρ] {index : BlockIndex}

def sizes (nodes : List (UInt32 × ChunkNode)) : List Nat :=
  nodes.map (·.2.length.toNat * sectorSize)

def places (nodes : List (UInt32 × ChunkNode)) : List UInt32 := nodes.map (·.2.data)

theorem insertPlace (contents : Contents) (pointer : UInt32) (node : ChunkNode)
    (nodes : List (UInt32 × ChunkNode)) (data : ByteArray) (taken : List ByteArray) :
    contents.insertMany ((places ((pointer, node) :: nodes)).zip (data :: taken)) =
      (contents.insert node.data data).insertMany ((places nodes).zip taken) :=
  Std.HashMap.insertMany_cons

theorem freshBehind (front : List UInt32) {back : List UInt32} {contents : Contents}
    (fresh : ∀ place ∈ front ++ back, place ∉ contents) (apart : (front ++ back).Nodup)
    (data : List ByteArray) : ∀ place ∈ back, place ∉ contents.insertMany (front.zip data) := by
  intro place member inside
  rcases Std.HashMap.mem_insertMany_list.mp inside with old | new
  · exact fresh place (List.mem_append_right _ member) old
  · obtain ⟨⟨_, bytes⟩, paired, rfl⟩ := List.mem_map.mp (List.contains_iff_mem.mp new)
    exact (List.nodup_append.mp apart).2.2 _ (List.of_mem_zip paired).1 _ member rfl

theorem followTaken {head : UInt32} {nodes : List (UInt32 × ChunkNode)}
    (chain : Chain index.chunkNode? ChunkNode.next head nodes) {s after : Source ρ}
    {taken : List ByteArray} (takes : Source.Takes s (sizes nodes) taken after) (name : String)
    {fuel : Nat} (enough : nodes.length < fuel) (filling : Filling)
    (fresh : ∀ place ∈ places nodes, place ∉ filling.contents) (apart : (places nodes).Nodup) :
    ∃ pieces, followChain index name fuel head s filling =
      (.ok (), after, ⟨filling.contents.insertMany ((places nodes).zip taken), pieces⟩) := by
  -- With `apart`, an insertion leaves the later places as fresh as they were.
  induction chain generalizing s taken fuel filling with
  | ended =>
    obtain ⟨contents, pieces⟩ := filling
    cases fuel with
    | zero => simp at enough
    | succ fuel =>
      cases takes with
      | done => exact ⟨pieces, by simp [followChain, places]⟩
  | @node pointer node nodes live found later ih =>
    obtain ⟨contents, pieces⟩ := filling
    cases fuel with
    | zero => simp at enough
    | succ fuel =>
      cases takes with
      | @more _ middle _ _ _ data taken first rest =>
        have free : contents.contains node.data = false := by
          simpa using fresh node.data List.mem_cons_self
        have still := freshBehind [node.data] fresh apart [data]
        obtain ⟨all, followed⟩ := ih rest (Nat.lt_of_succ_lt_succ enough)
          ⟨contents.insert node.data data, pieces.push ⟨name, node.length, node.data⟩⟩ still
          (List.nodup_cons.mp apart).2
        refine ⟨all, ?_⟩
        unfold followChain
        rw [if_neg live, found]
        simp only [first, free, Bool.false_eq_true, if_false, insertPlace]
        exact followed

theorem takenOfFollow {head : UInt32} {nodes : List (UInt32 × ChunkNode)}
    (chain : Chain index.chunkNode? ChunkNode.next head nodes) {name : String} {fuel : Nat}
    {s after : Source ρ} {before filling : Filling}
    (ok : followChain index name fuel head s before = (.ok (), after, filling)) :
    ∃ taken, Source.Takes s (sizes nodes) taken after ∧
      filling.contents = before.contents.insertMany ((places nodes).zip taken) := by
  induction chain generalizing s before fuel with
  | ended =>
    obtain ⟨contents, pieces⟩ := before
    cases fuel with
    | zero => cases ok
    | succ fuel =>
      unfold followChain at ok
      rw [if_pos rfl] at ok
      cases ok
      exact ⟨[], .done, by simp⟩
  | @node pointer node nodes live found later ih =>
    obtain ⟨contents, pieces⟩ := before
    cases fuel with
    | zero => cases ok
    | succ fuel =>
      unfold followChain at ok
      rw [if_neg live, found] at ok
      simp only at ok
      cases first : s.take (node.length.toNat * sectorSize) with
      | mk result middle =>
        rw [first] at ok
        cases result with
        | error e => cases ok
        | ok data =>
          simp only at ok
          split at ok
          · cases ok
          · obtain ⟨taken, takes, same⟩ := ih ok
            exact ⟨data :: taken, .more first takes, by rw [same, insertPlace]⟩

end Filling

def Block.file? : Block → Option (Nat × FileHeader)
  | ⟨_, .file source header, _⟩ => some (source, header)
  | _ => none

def Draft.numbered (address : Slot → UInt32) : Draw × Nat → Nat × FileHeader
  | (draw, file) => (file, fileHeader address file draw)

namespace Laid

variable {draws : List Draw} {capacity : UInt32} {order : List Draft} {address : Slot → UInt32}
  {p : Plan}

theorem headers (laid : Laid draws capacity order address p) :
    ∃ files : List (Draw × Nat), files.Perm draws.zipIdx ∧
      p.blocks.filterMap Block.file? = files.map (Draft.numbered address) := by
  have chunks : ∀ file draw, ((Draft.ofChunks file draw).map (Draft.block address)).filterMap
      Block.file? = [] := by
    intro file draw
    apply List.filterMap_eq_nil_iff.mpr
    intro b member
    obtain ⟨d, inside, rfl⟩ := List.mem_map.mp member
    obtain ⟨chunk, length, _, rfl | rfl⟩ := Draft.memOfChunks.mp inside <;> rfl
  have parts : ((Draft.ofDraws draws).map (Draft.block address)).filterMap Block.file? =
      draws.zipIdx.map (Draft.numbered address) := by
    unfold Draft.ofDraws
    rw [List.map_flatMap, List.filterMap_flatMap, List.map_eq_flatMap]
    apply List.flatMap_congr
    rintro ⟨draw, file⟩ _
    change ((Draft.ofDraw file draw).map _).filterMap _ = _
    unfold Draft.ofDraw
    rw [List.map_append, List.filterMap_append, chunks]
    rfl
  have shuffled : (p.blocks.filterMap Block.file?).Perm
      (draws.zipIdx.map (Draft.numbered address)) := by
    rw [laid.superBlockFirst, ← parts]
    have last : ∀ length, ([Draft.lastFree length].map (Draft.block address)).filterMap
        Block.file? = [] := fun _ => rfl
    rw [List.filterMap_cons_none rfl, List.map_append, List.filterMap_append, last, List.append_nil]
    exact (laid.shuffled.map _).filterMap _
  obtain ⟨files, same, reordered⟩ :=
    (congrFun₂ (List.eq_map_comp_perm (Draft.numbered address)) _ _).mpr shuffled
  exact ⟨files, reordered, same⟩

theorem visitsBelowBlocks (laid : Laid draws capacity order address p) {file : Nat} {draw : Draw}
    (drawn : draws[file]? = some draw) :
    (Draft.nodeVisits address file draw).length < p.blocks.length + 1 := by
  have chain := laid.chunkChain drawn
  have inside : (Draft.nodeVisits address file draw).map Prod.fst ⊆ p.blocks.map Block.offset := by
    intro pointer member
    obtain ⟨⟨_, node⟩, visited, rfl⟩ := List.mem_map.mp member
    obtain ⟨b, known, here, _⟩ := (Plan.chunkNodeAtIff laid.tiled _ _).mp (chain.member visited).2
    exact List.mem_map.mpr ⟨b, known, here⟩
  have few := (List.subperm_of_subset chain.nodup inside).length_le
  rw [List.length_map, List.length_map] at few
  exact Nat.lt_succ_of_le few

theorem chunkBytes (laid : Laid draws capacity order address p) {file : Nat} {draw : Draw}
    (drawn : draws[file]? = some draw) :
    (draw.chunks.map (·.toNat * sectorSize)).sum = draw.entry.sectors * sectorSize := by
  rw [List.sum_map_mul_right, Chunks.cutSum (laid.fits draw (List.mem_of_getElem? drawn)).chunks]

end Laid

namespace Filling

variable {ρ : Type} [Reader ρ] (address : Slot → UInt32)

def chunkPlaces (file : Nat) (draw : Draw) : List UInt32 :=
  places (Draft.nodeVisits address file draw)

def filePlaces (files : List (Draw × Nat)) : List UInt32 :=
  files.flatMap fun (draw, file) => chunkPlaces address file draw

theorem placesCons (file : Nat) (draw : Draw) (files : List (Draw × Nat)) :
    filePlaces address ((draw, file) :: files) =
      chunkPlaces address file draw ++ filePlaces address files := List.flatMap_cons

theorem chunkSizes (file : Nat) (draw : Draw) : sizes (Draft.nodeVisits address file draw) =
    draw.chunks.map (·.toNat * sectorSize) := by
  conv => rhs; rw [← Laid.nodeLengths address file draw, List.map_map]
  rfl

theorem placesMet (nodes : List (UInt32 × ChunkNode)) :
    (places nodes).Sublist (nodes.flatMap fun (pointer, node) => [node.data, pointer]) := by
  induction nodes with
  | nil => exact .slnil
  | cons visit nodes ih => exact (ih.cons visit.1).cons_cons visit.2.data

theorem chunkPlacesDistinct {draws : List Draw} {capacity : UInt32} {order : List Draft}
    {address : Slot → UInt32} {p : Plan} (laid : Laid draws capacity order address p)
    {files : List (Draw × Nat)} (all : files.Perm draws.zipIdx) :
    (filePlaces address files).Nodup := by
  have met := laid.tourComplete.apart
  unfold Tour.met at met
  rw [List.append_assoc] at met
  have nodes := (List.nodup_append.mp (List.nodup_append.mp met).2.1).1
  have distinct := nodes.sublist (placesMet _)
  have same : (places (draws.zipIdx.map fun (draw, file) =>
      Draft.nodeVisits address file draw).reverse.flatten).Perm (filePlaces address files) := by
    refine ((List.reverse_perm _).flatten.map _).trans
      (.trans (.of_eq ?_) (all.symm.flatMap_right _))
    rw [List.map_flatten, List.map_map, List.flatMap_def]
    rfl
  exact same.nodup_iff.mp distinct

inductive Reads : List (Draw × Nat) → List (Source ρ) → List (List ByteArray) → List (Source ρ) →
    Prop
  | done {sources} : Reads [] sources [] sources
  | file {draw file files sources s middle taken rest after} (given : sources[file]? = some s)
      (takes : Source.Takes s (draw.chunks.map (·.toNat * sectorSize)) taken middle)
      (later : Reads files (sources.set file middle) rest after) :
      Reads ((draw, file) :: files) sources (taken :: rest) after

def pairs (files : List (Draw × Nat)) (taken : List (List ByteArray)) : List (UInt32 × ByteArray) :=
  (List.zipWith (fun (draw, file) data => (chunkPlaces address file draw).zip data)
    files taken).flatten

variable {address}

theorem readsSizes {files : List (Draw × Nat)} {sources after : List (Source ρ)}
    {taken : List (List ByteArray)} (reads : Reads files sources taken after) :
    List.Forall₂ (fun (draw, _) data =>
      data.map ByteArray.size = draw.chunks.map (·.toNat * sectorSize)) files taken := by
  induction reads with
  | done => exact .nil
  | file given takes later ih => exact .cons (Source.takesSizes takes) ih

theorem chunkPlacesLength (file : Nat) (draw : Draw) :
    (chunkPlaces address file draw).length = draw.chunks.length := by
  simp [chunkPlaces, places, Draft.nodeVisits]

theorem pairsCons (file : Nat) (draw : Draw) (files : List (Draw × Nat)) (data : List ByteArray)
    (taken : List (List ByteArray)) : pairs address ((draw, file) :: files) (data :: taken) =
      (chunkPlaces address file draw).zip data ++ pairs address files taken := rfl

theorem takenCount {draw : Draw} {data : List ByteArray}
    (sized : data.map ByteArray.size = draw.chunks.map (·.toNat * sectorSize)) :
    data.length = draw.chunks.length := by
  have count := congrArg List.length sized
  rwa [List.length_map, List.length_map] at count

theorem firstPlaces (address : Slot → UInt32) (file : Nat) {draw : Draw} {data : List ByteArray}
    (sized : data.map ByteArray.size = draw.chunks.map (·.toNat * sectorSize)) :
    ((chunkPlaces address file draw).zip data).map Prod.fst = chunkPlaces address file draw :=
  List.map_fst_zip (by rw [chunkPlacesLength, takenCount sized])

theorem pairsPlaces {files : List (Draw × Nat)} {taken : List (List ByteArray)}
    (sized : List.Forall₂ (fun (draw, _) data =>
      data.map ByteArray.size = draw.chunks.map (·.toNat * sectorSize)) files taken) :
    (pairs address files taken).map Prod.fst = filePlaces address files := by
  induction sized with
  | nil => rfl
  | @cons file data files taken size sized ih =>
    rw [pairsCons, List.map_append, ih, firstPlaces address file.2 size]
    rfl

section

variable {draws : List Draw} {capacity : UInt32} {order : List Draft} {p : Plan}

theorem readFile (laid : Laid draws capacity order address p) {file : Nat} {draw : Draw}
    (here : draws[file]? = some draw) {sources : List (Source ρ)} {s middle : Source ρ}
    (given : sources[file]? = some s) {data : List ByteArray}
    (takes : Source.Takes s (draw.chunks.map (·.toNat * sectorSize)) data middle)
    (filling : Filling) (fresh : ∀ place ∈ chunkPlaces address file draw, place ∉ filling.contents)
    (apart : (chunkPlaces address file draw).Nodup) (offset : UInt32) (label : String)
    (blocks : List Block) :
    ∃ pieces, readFiles p.index (p.blocks.length + 1)
        (⟨offset, .file file (Draft.fileHeader address file draw), label⟩ :: blocks) sources
        filling =
      readFiles p.index (p.blocks.length + 1) blocks (sources.set file middle)
        ⟨filling.contents.insertMany ((chunkPlaces address file draw).zip data), pieces⟩ := by
  rw [← chunkSizes address file draw] at takes
  obtain ⟨pieces, followed⟩ := followTaken (laid.chunkChain here) takes
    (Draft.fileHeader address file draw).name.text (laid.visitsBelowBlocks here) filling fresh apart
  exact ⟨pieces, by rw [readFiles, given]; simp only [followed]; rfl⟩

theorem readTaken (laid : Laid draws capacity order address p) {blocks : List Block}
    {files : List (Draw × Nat)}
    (headers : blocks.filterMap Block.file? = files.map (Draft.numbered address))
    (drawn : ∀ file ∈ files, draws[file.2]? = some file.1) {sources after : List (Source ρ)}
    {taken : List (List ByteArray)} (reads : Reads files sources taken after) (filling : Filling)
    (fresh : ∀ place ∈ filePlaces address files, place ∉ filling.contents)
    (apart : (filePlaces address files).Nodup) :
    ∃ pieces, readFiles p.index (p.blocks.length + 1) blocks sources filling =
      (.ok (), after, ⟨filling.contents.insertMany (pairs address files taken), pieces⟩) := by
  induction blocks generalizing files sources taken filling with
  | nil =>
    obtain rfl : files = [] := List.map_eq_nil_iff.mp headers.symm
    cases reads with
    | done => exact ⟨filling.pieces, by simp [readFiles, pairs]⟩
  | cons b blocks ih =>
    obtain ⟨offset, content, label⟩ := b
    cases content with
    | file number header =>
      obtain ⟨⟨draw, _⟩, files, rfl, same, others⟩ := List.map_eq_cons_iff.mp headers.symm
      cases same
      cases reads with
      | @file _ _ _ _ s middle data taken _ given takes later =>
        have here : draws[number]? = some draw := drawn _ List.mem_cons_self
        rw [placesCons] at fresh apart
        obtain ⟨own, rest, _⟩ := List.nodup_append.mp apart
        obtain ⟨pieces, step⟩ := readFile laid here given takes filling
          (fun place member => fresh place (List.mem_append_left _ member)) own offset label blocks
        have still := freshBehind _ fresh apart data
        obtain ⟨all, run⟩ := ih others.symm
          (fun file member => drawn file (List.mem_cons_of_mem _ member)) later
          ⟨filling.contents.insertMany ((chunkPlaces address number draw).zip data), pieces⟩
          still rest
        exact ⟨all, by rw [step, run, pairsCons, Std.HashMap.insertMany_append]⟩
    | superBlock record => exact ih headers drawn reads filling fresh apart
    | free record => exact ih headers drawn reads filling fresh apart
    | chunkNode record => exact ih headers drawn reads filling fresh apart
    | chunkData length => exact ih headers drawn reads filling fresh apart

theorem takenOfRead (laid : Laid draws capacity order address p) {blocks : List Block}
    {files : List (Draw × Nat)}
    (headers : blocks.filterMap Block.file? = files.map (Draft.numbered address))
    (drawn : ∀ file ∈ files, draws[file.2]? = some file.1) {fuel : Nat}
    {sources after : List (Source ρ)} {before filling : Filling}
    (ok : readFiles p.index fuel blocks sources before = (.ok (), after, filling)) :
    ∃ taken, Reads files sources taken after ∧
      filling.contents = before.contents.insertMany (pairs address files taken) := by
  induction blocks generalizing files sources before with
  | nil =>
    obtain rfl : files = [] := List.map_eq_nil_iff.mp headers.symm
    cases ok
    exact ⟨[], .done, by simp [pairs]⟩
  | cons b blocks ih =>
    obtain ⟨offset, content, label⟩ := b
    cases content with
    | file number header =>
      obtain ⟨⟨draw, _⟩, files, rfl, same, others⟩ := List.map_eq_cons_iff.mp headers.symm
      cases same
      have here : draws[number]? = some draw := drawn _ List.mem_cons_self
      unfold readFiles at ok
      split at ok
      · cases ok
      · rename_i s given
        split at ok
        · cases ok
        · rename_i middle reached followed
          obtain ⟨data, takes, first⟩ := takenOfFollow (laid.chunkChain here) followed
          obtain ⟨taken, reads, rest⟩ := ih others.symm
            (fun file member => drawn file (List.mem_cons_of_mem _ member)) ok
          rw [chunkSizes] at takes
          refine ⟨data :: taken, .file given takes reads, ?_⟩
          rw [rest, first, pairsCons, Std.HashMap.insertMany_append]
          rfl
    | superBlock record => exact ih headers drawn ok
    | free record => exact ih headers drawn ok
    | chunkNode record => exact ih headers drawn ok
    | chunkData length => exact ih headers drawn ok

/- The chunks of one file, as they were read and as they are kept for writing. -/
structure Held (address : Slot → UInt32) (contents : Contents) (file : Nat) (draw : Draw)
    (data : List ByteArray) : Prop where
  sizes : data.map ByteArray.size = draw.chunks.map (·.toNat * sectorSize)
  kept : ∀ chunk bytes, data[chunk]? = some bytes →
    contents[address (.chunkData file chunk)]? = some bytes

theorem Held.chunk {address : Slot → UInt32} {contents : Contents} {file : Nat} {draw : Draw}
    {data : List ByteArray} (held : Held address contents file draw data) {chunk : Nat}
    {length : UInt32} (cut : draw.chunks[chunk]? = some length) :
    ∃ bytes, data[chunk]? = some bytes ∧ bytes.size = length.toNat * sectorSize := by
  have size := congrArg (·[chunk]?) held.sizes
  simp only [List.getElem?_map, cut, Option.map_some] at size
  exact Option.map_eq_some_iff.mp size

theorem chunkPlaceAt (address : Slot → UInt32) (file : Nat) {draw : Draw} {chunk : Nat}
    (inside : chunk < draw.chunks.length) :
    (chunkPlaces address file draw)[chunk]? = some (address (.chunkData file chunk)) := by
  simp [chunkPlaces, places, Draft.nodeVisits, Draft.nodeRecord, inside]

theorem heldOfPairs {files : List (Draw × Nat)} {taken : List (List ByteArray)}
    (sized : List.Forall₂ (fun (draw, _) data =>
      data.map ByteArray.size = draw.chunks.map (·.toNat * sectorSize)) files taken)
    {contents : Contents}
    (known : ∀ pair ∈ pairs address files taken, contents[pair.1]? = some pair.2) :
    List.Forall₂ (fun (draw, file) data => Held address contents file draw data) files taken := by
  induction sized with
  | nil => exact .nil
  | @cons file data files taken size sized ih =>
    refine .cons ⟨size, ?_⟩ (ih fun pair member => known pair (List.mem_append_right _ member))
    intro chunk bytes found
    have inside : chunk < file.1.chunks.length :=
      takenCount size ▸ (List.getElem?_eq_some_iff.mp found).1
    have member : (address (.chunkData file.2 chunk), bytes) ∈
        (chunkPlaces address file.2 file.1).zip data :=
      List.mem_of_getElem? (List.getElem?_zip_eq_some.mpr ⟨chunkPlaceAt address _ inside, found⟩)
    exact known _ (List.mem_append_left _ member)

theorem heldOfReads (laid : Laid draws capacity order address p) {files : List (Draw × Nat)}
    (all : files.Perm draws.zipIdx) {sources after : List (Source ρ)}
    {taken : List (List ByteArray)} (reads : Reads files sources taken after) :
    List.Forall₂ (fun (draw, file) data =>
      Held address ((∅ : Contents).insertMany (pairs address files taken)) file draw data)
      files taken := by
  have apart := chunkPlacesDistinct laid all
  rw [← pairsPlaces (readsSizes reads)] at apart
  apply heldOfPairs (readsSizes reads)
  rintro ⟨place, bytes⟩ member
  exact (indexIff apart place bytes).mpr member

theorem filesDrawn {files : List (Draw × Nat)} (all : files.Perm draws.zipIdx) :
    ∀ file ∈ files, draws[file.2]? = some file.1 :=
  fun _ member => List.mk_mem_zipIdx_iff_getElem?.mp (all.mem_iff.mp member)

theorem ofPlanHeld (laid : Laid draws capacity order address p) {sources after : List (Source ρ)}
    {filling : Filling} (ok : ofPlan p sources = (.ok (), after, filling)) {file : Nat}
    {draw : Draw} (here : draws[file]? = some draw) :
    ∃ data, Held address filling.contents file draw data := by
  obtain ⟨files, all, headers⟩ := laid.headers
  obtain ⟨taken, reads, same⟩ := takenOfRead laid headers (filesDrawn all) ok
  rw [same]
  exact forall₂Partner (heldOfReads laid all reads)
    (all.mem_iff.mpr (List.mk_mem_zipIdx_iff_getElem?.mpr here))

theorem readsOfEach {Q : Draw × Nat → List ByteArray → Prop} {files : List (Draw × Nat)}
    (distinct : (files.map Prod.snd).Nodup) {sources : List (Source ρ)}
    (given : ∀ file ∈ files, ∃ s data after, sources[file.2]? = some s ∧
      Source.Takes s (file.1.chunks.map (·.toNat * sectorSize)) data after ∧ Q file data) :
    ∃ taken after, Reads files sources taken after ∧ List.Forall₂ Q files taken := by
  induction files generalizing sources with
  | nil => exact ⟨[], sources, .done, .nil⟩
  | cons file files ih =>
    obtain ⟨draw, file⟩ := file
    obtain ⟨other, distinct⟩ := List.nodup_cons.mp distinct
    obtain ⟨s, data, middle, here, takes, holds⟩ := given _ List.mem_cons_self
    -- Reading for one file replaces the source of that number only.
    have still : ∀ later ∈ files, ∃ s data after, (sources.set file middle)[later.2]? = some s ∧
        Source.Takes s (later.1.chunks.map (·.toNat * sectorSize)) data after ∧ Q later data := by
      intro later member
      have apart : file ≠ later.2 := fun same =>
        other (same ▸ List.mem_map.mpr ⟨later, member, rfl⟩)
      rw [List.getElem?_set_ne apart]
      exact given later (List.mem_cons_of_mem _ member)
    obtain ⟨taken, after, reads, rest⟩ := ih distinct still
    exact ⟨data :: taken, after, .file here takes reads, .cons holds rest⟩

theorem fillsOrFails (p : Plan) (sources : List (Source ρ)) :
    (∃ after filling, ofPlan p sources = (.ok (), after, filling)) ∨
      ∃ f after filling, ofPlan p sources = (.error f, after, filling) := by
  rcases ofPlan p sources with ⟨f | -, after, filling⟩
  · exact .inr ⟨f, after, filling, rfl⟩
  · exact .inl ⟨after, filling, rfl⟩

theorem filesNumbered {files : List (Draw × Nat)} (all : files.Perm draws.zipIdx) :
    (files.map Prod.snd).Nodup := by
  apply (all.map Prod.snd).nodup_iff.mpr
  rw [List.zipIdx_map_snd]
  exact List.nodup_range'

theorem ofPlanReads (laid : Laid draws capacity order address p) {files : List (Draw × Nat)}
    (all : files.Perm draws.zipIdx)
    (headers : p.blocks.filterMap Block.file? = files.map (Draft.numbered address))
    {sources after : List (Source ρ)} {taken : List (List ByteArray)}
    (reads : Reads files sources taken after) : ∃ pieces, ofPlan p sources =
      (.ok (), after, ⟨(∅ : Contents).insertMany (pairs address files taken), pieces⟩) :=
  readTaken laid headers (filesDrawn all) reads .empty (by simp [empty])
    (chunkPlacesDistinct laid all)

theorem ofPlanYields (laid : Laid draws capacity order address p) {stream : Nat → Nat → UInt8}
    {sources : List (Source ρ)}
    (given : ∀ file < draws.length, ∃ s, sources[file]? = some s ∧ s.Yields (stream file)) :
    ∃ after filling, ofPlan p sources = (.ok (), after, filling) ∧
      ∀ file draw, draws[file]? = some draw → ∃ data, Held address filling.contents file draw data ∧
        data.flatMap (·.data.toList) =
          Source.front (stream file) (draw.entry.sectors * sectorSize) := by
  obtain ⟨files, all, headers⟩ := laid.headers
  have drawn := filesDrawn all
  have yields : ∀ file ∈ files, ∃ s data after, sources[file.2]? = some s ∧
      Source.Takes s (file.1.chunks.map (·.toNat * sectorSize)) data after ∧
      data.flatMap (·.data.toList) =
        Source.front (stream file.2) (file.1.chunks.map (·.toNat * sectorSize)).sum := by
    intro file member
    obtain ⟨s, here, yields⟩ := given file.2 (List.getElem?_eq_some_iff.mp (drawn file member)).1
    obtain ⟨data, after, takes, joined, _⟩ :=
      Source.takesYields yields (file.1.chunks.map (·.toNat * sectorSize))
    exact ⟨s, data, after, here, takes, joined⟩
  obtain ⟨taken, after, reads, joined⟩ := readsOfEach (filesNumbered all) yields
  have held := heldOfReads laid all reads
  obtain ⟨pieces, run⟩ := ofPlanReads laid all headers reads
  refine ⟨after, _, run, ?_⟩
  intro file draw here
  have both := held.mp
    (S := fun (file : Draw × Nat) (data : List ByteArray) =>
    Held address ((∅ : Contents).insertMany (pairs address files taken)) file.2 file.1 data ∧
      data.flatMap (·.data.toList) =
        Source.front (stream file.2) (file.1.chunks.map (·.toNat * sectorSize)).sum)
    (fun _ _ one other => ⟨one, other⟩) joined
  obtain ⟨data, kept, whole⟩ :=
    forall₂Partner both (all.mem_iff.mpr (List.mk_mem_zipIdx_iff_getElem?.mpr here))
  rw [laid.chunkBytes here] at whole
  exact ⟨data, kept, whole⟩

end

end Filling

end BootImage
