import Mathlib
import BootImage.Proofs.Image.Accepting
import BootImage.Proofs.Image.Running

/-!
An image decodes back to its plan: every record is on its sector with zeros behind it, free runs
hold zeros, and walks on the image give what walks on the plan give.
-/
namespace BootImage

namespace Image

def Decodes (image : Image) (b : Block) : Prop :=
  match b.content with
  | .superBlock record => image.Shows b.offset record
  | .file _ record => image.Shows b.offset record
  | .chunkNode record => image.Shows b.offset record
  | .free record => image.Shows b.offset record ∧
    image.sectors (b.offset + 1) record.filler = .ok (zeros (record.filler.toNat * sectorSize))
  | .chunkData length =>
    ∃ data, image.sectors b.offset length = .ok data ∧ data.size = length.toNat * sectorSize

/- The records that lead from the superblock to the chunks of a file are on their sectors, whatever
is behind them there. -/
def Live (image : Image) (b : Block) : Prop :=
  match b.content with
  | .superBlock record => image.Holds b.offset record
  | .file _ record => image.Holds b.offset record
  | .chunkNode record => image.Holds b.offset record
  | .free _ | .chunkData _ => True

def Carries (image : Image) (p : Plan) (contents : Contents) : Prop :=
  ∀ b ∈ p.blocks, b.bytes contents <+: image.bytes.data.toList.drop (b.offset.toNat * sectorSize)

variable {image : Image} {p : Plan} {contents : Contents}

theorem carriesOfBytes {stop : Nat} (tiled : Tiled 0 (p.blocks.map Block.extent) stop)
    (filled : ∀ b ∈ p.blocks, b.Filled contents)
    (shown : p.bytes contents <+: image.bytes.data.toList) : image.Carries p contents := by
  intro b member
  have start : 0 * sectorSize = ([] : List UInt8).length := Nat.zero_mul _
  exact blockShown tiled filled start shown member

theorem chunkShown (carries : image.Carries p contents) {offset length : UInt32} {label : String}
    (member : ⟨offset, .chunkData length, label⟩ ∈ p.blocks) (some : 0 < length.toNat)
    {data : ByteArray} (found : contents[offset]? = .some data)
    (size : data.size = length.toNat * sectorSize) : image.sectors offset length = .ok data := by
  have shown := carries _ member
  simp only [Block.bytes, found, Option.getD_some] at shown
  have fits := shown.length_le
  rw [listLength, size, List.length_drop, listLength] at fits
  have positive : 0 < length.toNat * sectorSize := Nat.mul_pos some Nat.succ_pos'
  rw [sectorsShown (by omega) shown (by rw [listLength, size]), bytesBack]

theorem fillerShown (carries : image.Carries p contents) {offset : UInt32} {run : FreeRun}
    {label : String} (member : ⟨offset, .free run, label⟩ ∈ p.blocks)
    (fits : offset.toNat + 1 < UInt32.size) :
    image.sectors (offset + 1) run.filler = .ok (zeros (run.filler.toNat * sectorSize)) := by
  have shown := carries _ member
  simp only [Block.bytes] at shown
  have next : (offset + 1).toNat = offset.toNat + 1 := by
    rw [UInt32.toNat_add, UInt32.toNat_one]
    exact Nat.mod_eq_of_lt fits
  have length : (Record.sector run).data.toList.length = sectorSize := by
    rw [listLength, Record.sectorLength]
  have behind := shown.drop sectorSize
  rw [List.drop_left' length, List.drop_drop] at behind
  have inside := shown.length_le
  rw [List.length_append, length, List.length_drop, listLength] at inside
  have step : offset.toNat * sectorSize + sectorSize = (offset + 1).toNat * sectorSize := by
    rw [next, Nat.succ_mul]
  rw [step] at behind
  have positive : 0 < sectorSize := Nat.succ_pos'
  rw [sectorsShown (by omega) behind (by rw [List.length_replicate])]
  exact congrArg _ (bytesInj (by rw [List.toList_data_toByteArray, zerosBytes]))

theorem blockDecodes (carries : image.Carries p contents) {b : Block} (member : b ∈ p.blocks)
    (some : 0 < b.sectors.toNat) (filled : b.Filled contents)
    (fits : b.offset.toNat + 1 < UInt32.size) : image.Decodes b := by
  have shown := carries b member
  obtain ⟨offset, content, label⟩ := b
  cases content with
  | superBlock record =>
    unfold Block.bytes at shown
    exact recordShown shown
  | file source record =>
    unfold Block.bytes at shown
    exact recordShown shown
  | chunkNode record =>
    unfold Block.bytes at shown
    exact recordShown shown
  | free record =>
    unfold Block.bytes at shown
    exact ⟨recordShown ((List.prefix_append _ _).trans shown), fillerShown carries member fits⟩
  | chunkData length =>
    obtain ⟨data, found, size⟩ := filled length rfl
    exact ⟨data, chunkShown carries member some found size, size⟩

theorem Decodes.live {b : Block} (decodes : image.Decodes b) : image.Live b := by
  obtain ⟨offset, content, label⟩ := b
  cases content with
  | superBlock | file | chunkNode => exact recordIff.mp decodes.1
  | free | chunkData => exact trivial

structure Mirrors (image : Image) (p : Plan) (t : Tour) : Prop where
  blocks : ∀ b ∈ p.blocks, image.Decodes b
  superBlock : image.superBlock = .ok t.top
  files : image.walk FileHeader.next t.top.firstFile =
    .ok (t.files.map fun (pointer, _, header) => (pointer, header))
  headers : image.fileHeaders = .ok (t.files.map fun (_, _, header) => header)
  frees : image.freeRuns = .ok t.frees
  raw : ∀ file ∈ t.files, ∃ bytes, image.rawChunks file.2.2 = .ok bytes ∧
    bytes.size = (file.2.2.size.toNat + 511) / 512 * sectorSize

theorem partsLength {nodes : List (UInt32 × ChunkNode)} {parts : List ByteArray}
    (each : List.Forall₂ (fun visit part =>
      part.size = visit.2.length.toNat * sectorSize) nodes parts) :
    (parts.flatMap (·.data.toList)).length = (nodes.map (·.2.length.toNat)).sum * sectorSize := by
  induction each with
  | nil => exact (Nat.zero_mul _).symm
  | cons size each ih =>
    rw [List.flatMap_cons, List.length_append, listLength, size, ih, List.map_cons, List.sum_cons,
      Nat.add_mul]

section

variable {stop : Nat} (tiled : Tiled 0 (p.blocks.map Block.extent) stop)
  (live : ∀ b ∈ p.blocks, image.Live b)

include tiled live

theorem fileRead {offset : UInt32} {file : Nat × FileHeader}
    (found : p.fileAt? offset = some file) : image.record? offset = some file.2 := by
  unfold Plan.fileAt? at found
  split at found
  · rename_i place number header label here
    cases found
    obtain ⟨member, rfl⟩ := (Plan.blockAtIff tiled _ _).mp here
    exact foundIff.mpr (live _ member)
  · cases found

theorem nodeRead {offset : UInt32} {node : ChunkNode} (found : p.chunkNodeAt? offset = some node) :
    image.record? offset = some node := by
  obtain ⟨⟨_, content, label⟩, member, rfl, rfl⟩ := (Plan.chunkNodeAtIff tiled _ _).mp found
  exact foundIff.mpr (live _ member)

theorem nodeChainRead {head : UInt32} {nodes : List (UInt32 × ChunkNode)}
    (chain : Chain p.chunkNodeAt? ChunkNode.next head nodes) :
    Chain image.record? ChunkNode.next head nodes := by
  have read : Chain image.record? ChunkNode.next head (nodes.map id) :=
    chain.transfer id (fun _ _ member => nodeRead tiled live (chain.member member).2)
      fun _ => rfl
  rwa [List.map_id] at read

theorem superBlockRead {top : SuperBlock} (found : p.superBlock? = some top)
    (valid : top.magic = magicWord) : image.superBlock = .ok top := by
  unfold Plan.superBlock? at found
  split at found
  · rename_i offset record label rest blocks
    cases found
    rw [blocks] at tiled live
    have start : offset = 0 := by
      cases tiled with
      | cons here some later => exact UInt32.toNat_inj.mp here
    have held : image.Holds offset top := live _ List.mem_cons_self
    exact superBlockIff.mpr ⟨start ▸ held, valid⟩
  · cases found

theorem filesWalked {t : Tour} (follows : t.Of p) :
    image.walk FileHeader.next t.top.firstFile =
      .ok (t.files.map fun (pointer, _, header) => (pointer, header)) := by
  have read : Chain image.record? FileHeader.next t.top.firstFile
      (t.files.map fun (pointer, file) => (pointer, file.2)) :=
    follows.files.transfer Prod.snd
      (fun _ _ member => fileRead tiled live (follows.files.member member).2) fun _ => rfl
  exact walkChain read

theorem headersRead {t : Tour} (follows : t.Of p) (valid : t.top.magic = magicWord) :
    image.fileHeaders = .ok (t.files.map fun (_, _, header) => header) := by
  unfold fileHeaders
  rw [superBlockRead tiled live follows.top valid]
  simp only [bind, Except.bind, filesWalked tiled live follows]
  rw [List.map_map]
  rfl

end

section

variable {stop : Nat} (tiled : Tiled 0 (p.blocks.map Block.extent) stop)
  (decodes : ∀ b ∈ p.blocks, image.Decodes b)

include tiled decodes

theorem freeRead {offset : UInt32} {run : FreeRun} (found : p.freeAt? offset = some run) :
    image.record? offset = some run := by
  obtain ⟨label, member⟩ := Plan.freeKnown tiled found
  exact foundIff.mpr (recordIff.mp (decodes _ member).1.1)

variable {draws : List Draw} {t : Tour} (complete : t.Complete draws p)

include complete

theorem rawRead {file : UInt32 × Nat × FileHeader} (member : file ∈ t.files) :
    ∃ bytes, image.rawChunks file.2.2 = .ok bytes ∧
      bytes.size = (file.2.2.size.toNat + 511) / 512 * sectorSize := by
  obtain ⟨nodes, chain, sum, data⟩ := complete.chunks member
  obtain ⟨parts, each⟩ := forall₂OfEach (R := fun (visit : UInt32 × ChunkNode) part =>
    image.sectors visit.2.data visit.2.length = .ok part ∧
      part.size = visit.2.length.toNat * sectorSize) (fun visit visited => by
    obtain ⟨label, found⟩ := data visit visited
    exact decodes _ ((Plan.blockAtIff tiled _ _).mp found).1)
  obtain ⟨bytes, raw, joined⟩ :=
    rawChunksJoined (nodeChainRead tiled (fun b member => (decodes b member).live) chain)
      (each.imp fun _ _ both => both.1)
  refine ⟨bytes, raw, ?_⟩
  rw [← listLength, joined, partsLength (each.imp fun _ _ both => both.2)]
  exact congrArg (· * sectorSize) sum

theorem mirrors (valid : t.top.magic = magicWord) : image.Mirrors p t := by
  have live : ∀ b ∈ p.blocks, image.Live b := fun b member => (decodes b member).live
  have follows := complete.follows
  have superBlock := superBlockRead tiled live follows.top valid
  have freesRead : Chain image.record? FreeRun.next t.top.firstFree
      (t.frees.map fun (pointer, run) => (pointer, id run)) :=
    follows.frees.transfer id
      (fun _ _ member => freeRead tiled decodes (follows.frees.member member).2) fun _ => rfl
  refine ⟨decodes, superBlock, filesWalked tiled live follows, headersRead tiled live follows valid,
    ?_, fun _ => rawRead tiled decodes complete⟩
  unfold freeRuns
  rw [superBlock]
  simp only [bind, Except.bind, walkChain freesRead]
  simp

end

end Image

namespace Laid

variable {draws : List Draw} {capacity : UInt32} {order : List Draft} {address : Slot → UInt32}
  {p : Plan} {contents : Contents}

theorem topValid (laid : Laid draws capacity order address p) {t : Tour} (follows : t.Of p) :
    t.top.magic = magicWord := by
  have top := follows.top
  unfold Plan.superBlock? at top
  rw [laid.superBlockFirst] at top
  rw [← Option.some.inj top]
  rfl

theorem blockFits (laid : Laid draws capacity order address p) {b : Block} (member : b ∈ p.blocks) :
    0 < b.sectors.toNat ∧ b.offset.toNat + 1 < UInt32.size := by
  have within := laid.tiled.bounds (List.mem_map.mpr ⟨b, member, rfl⟩)
  have top := capacity.toNat_lt
  change 0 ≤ b.offset.toNat ∧ 0 < b.sectors.toNat ∧ b.offset.toNat + b.sectors.toNat ≤ _ at within
  simp only [UInt32.size]
  omega

theorem imageDecodes (laid : Laid draws capacity order address p)
    (filled : ∀ b ∈ p.blocks, b.Filled contents) {image : Image}
    (shown : p.bytes contents <+: image.bytes.data.toList) : ∀ b ∈ p.blocks, image.Decodes b := by
  intro b member
  obtain ⟨some, fits⟩ := laid.blockFits member
  exact Image.blockDecodes (Image.carriesOfBytes laid.tiled filled shown) member some
    (filled b member) fits

theorem mirrored (laid : Laid draws capacity order address p) {ρ : Type} [Reader ρ]
    {sources : List (Source ρ)} {w : Window} (kept : w.sink ≠ .discard) {progress : Progress}
    (finished : (execute p sources w progress).outcome = .ok ()) :
    (Image.behind w.skip (execute p sources w progress).device.sink.bytes).Mirrors p
      (Draft.tour address draws (capacity - address .lastFree - 1)) := by
  have complete := laid.tourComplete
  obtain ⟨_, _, _, read, _⟩ := laid.finished finished
  have decodes := laid.imageDecodes (laid.filled read) (laid.regionShown read kept finished)
  exact Image.mirrors laid.tiled decodes complete (laid.topValid complete.follows)

end Laid

variable {γ : Type} [Generator γ] {ρ : Type} [Reader ρ]

/-- Whatever the sources hold, a finished run leaves an image of the plan in any sink that keeps
what it is given. -/
theorem executeMirrors {entries : List Entry} {capacity : UInt32} {g : γ} {p : Plan}
    (ok : (plan entries capacity g).outcome = .ok p) {sources : List (Source ρ)} {w : Window}
    (kept : w.sink ≠ .discard) {progress : Progress}
    (finished : (execute p sources w progress).outcome = .ok ()) : ∃ t : Tour, t.Of p ∧
      (Image.behind w.skip (execute p sources w progress).device.sink.bytes).Mirrors p t := by
  obtain ⟨order, address, laid⟩ := planLaid ok
  exact ⟨_, laid.tourComplete.follows, laid.mirrored kept finished⟩

/- A source of three bytes, read one by one, for an entry of two sectors. -/
theorem oneFileGiven : ∃ s : Source Stream, ∀ file < 1, ∃ source, [s][file]? = some source ∧
    source.Yields (Source.stretched 2 [1, 2, 9]) := by
  obtain ⟨s, made⟩ : ∃ s, Source.make "b" 2 (Stream.make ⟨#[1, 2, 9]⟩ (fun _ => 1) none) = .ok s :=
    ⟨_, rfl⟩
  refine ⟨s, ?_⟩
  intro file first
  obtain rfl : file = 0 := by omega
  exact ⟨s, rfl, Source.makeYields made (Stream.delivers rfl fun _ => Nat.one_pos)⟩

theorem executeMirrorsOne : ∃ (p : Plan) (sources : List (Source Stream)),
    (plan [.twoSectors] 20 (Cycle.ofWords [5, 3])).outcome = .ok p ∧
    ∀ sink, Sink.Grows sink →
      (execute p sources (⟨sink ⟨#[7]⟩, 2⟩ : Window) .start).outcome = .ok () ∧
      ∃ t : Tour, t.Of p ∧ (Image.behind 2 (execute p sources
        (⟨sink ⟨#[7]⟩, 2⟩ : Window) .start).device.sink.bytes).Mirrors p t := by
  obtain ⟨s, given⟩ := oneFileGiven
  obtain ⟨p, ok⟩ : ∃ p, (plan [.twoSectors] 20 (Cycle.ofWords [5, 3])).outcome = .ok p :=
    planAccepted (by decide) (by decide) _
  obtain ⟨order, address, laid⟩ := planLaid ok
  refine ⟨p, [s], ok, ?_⟩
  intro sink grows
  have low : Window.place 2 19 ≤ positionLimit := by decide
  have finished := (laid.executed given (w := ⟨sink ⟨#[7]⟩, 2⟩) (grows.reaches _ low) .start).1
  exact ⟨finished, executeMirrors (w := ⟨sink _, 2⟩) ok (grows.keeps _).1 finished⟩

end BootImage
