import Mathlib
import BootImage.Proofs.Image.Decoding

/-!
Files read back from an image are the files that were planned, the last one first. What a file holds
is what its source gave: no more than was declared, and zeros where that was too little.
-/
namespace BootImage

theorem Source.frontTake (stream : Nat → UInt8) {first whole : Nat} (fits : first ≤ whole) :
    (front stream whole).take first = front stream first := by
  rw [front, ← List.map_take, List.take_range, Nat.min_eq_left fits, front]

namespace Laid

variable {draws : List Draw} {capacity : UInt32} {order : List Draft} {address : Slot → UInt32}
  {p : Plan} {contents : Contents} {image : Image}

theorem chunksRead (laid : Laid draws capacity order address p)
    (carries : image.Carries p contents) {file : Nat} {draw : Draw}
    (drawn : draws[file]? = some draw) {data : List ByteArray}
    (held : Filling.Held address contents file draw data) :
    List.Forall₂ (fun visit part => image.sectors visit.2.data visit.2.length = .ok part)
      (Draft.nodeVisits address file draw) data := by
  have count := Filling.takenCount held.sizes
  refine List.forall₂_iff_get.mpr ⟨by simp [Draft.nodeVisits, count], ?_⟩
  intro i inside known
  have cut : draw.chunks[i]? = some draw.chunks[i] := List.getElem?_eq_getElem (count ▸ known)
  have at? : (Draft.nodeVisits address file draw).get ⟨i, inside⟩ =
      (address (.chunkNode file i),
        Draft.nodeRecord address file i draw.chunks.length draw.chunks[i]) := by
    simp [Draft.nodeVisits]
  obtain ⟨bytes, found, size⟩ := held.chunk cut
  obtain ⟨_, same⟩ := List.getElem?_eq_some_iff.mp found
  have part : Draft.Part draws (Draft.chunkData file i draw.entry.name.text draw.chunks[i]) :=
    .chunkData drawn cut
  have block := (Plan.blockAtIff laid.tiled _ _).mp (laid.partFound part).2
  have read := Image.chunkShown carries block.1 (laid.blockFits block.1).1
    (held.kept i bytes found) size
  rw [at?, List.get_eq_getElem, same]
  exact read

theorem contentRead (laid : Laid draws capacity order address p)
    (carries : image.Carries p contents) (decodes : ∀ b ∈ p.blocks, image.Decodes b) {file : Nat}
    {draw : Draw} (drawn : draws[file]? = some draw) {data : List ByteArray}
    (held : Filling.Held address contents file draw data) {stream : Nat → UInt8}
    (joined : data.flatMap (·.data.toList) =
      Source.front stream (draw.entry.sectors * sectorSize)) :
    image.fileContent (Draft.fileHeader address file draw) =
      .ok (Source.front stream draw.entry.size.toNat).toByteArray := by
  have chain := Image.nodeChainRead laid.tiled (fun b member => (decodes b member).live)
    (laid.chunkChain drawn)
  obtain ⟨bytes, raw, same⟩ := Image.rawChunksJoined chain (laid.chunksRead carries drawn held)
  have enough := draw.entry.sizeWithin
  have length : bytes.size = draw.entry.sectors * sectorSize := by
    rw [← listLength, same, joined, Source.front, List.length_map, List.length_range]
  have size : (Draft.fileHeader address file draw).size = draw.entry.size := rfl
  refine Image.fileContentIff.mpr ⟨bytes, raw, by rw [length, size]; exact enough, ?_⟩
  rw [List.toList_data_toByteArray, size, same, joined, Source.frontTake stream enough]

end Laid

namespace Source

/- A declared size, and the content that reads give without a failure. -/
structure Supply where
  declared : UInt64
  content : List UInt8

def Supply.stream (supply : Supply) : Nat → UInt8 := stretched supply.declared.toNat supply.content

def Supply.Of {ρ : Type} [Reader ρ] (supply : Supply) (s : Source ρ) : Prop :=
  ∃ name reader, make name supply.declared reader = .ok s ∧ Reader.Delivers reader supply.content

def Supply.file (supply : Supply) (size : Nat) : ByteArray :=
  (front supply.stream size).toByteArray

theorem Supply.yields {ρ : Type} [Reader ρ] {supply : Supply} {s : Source ρ} (given : supply.Of s) :
    s.Yields supply.stream := by
  obtain ⟨name, reader, made, delivers⟩ := given
  exact makeYields made delivers

/- What the files of a list are read from, each with its own supply. -/
def Supply.streams (supplies : List Supply) (file : Nat) : Nat → UInt8 :=
  (supplies.getD file ⟨0, []⟩).stream

theorem Supply.streamsAt {supplies : List Supply} {file : Nat} {supply : Supply}
    (given : supplies[file]? = some supply) : streams supplies file = supply.stream := by
  simp [streams, given]

theorem Supply.yieldsEach {ρ : Type} [Reader ρ] {supplies : List Supply} {sources : List (Source ρ)}
    (supplied : List.Forall₂ Supply.Of supplies sources) {file : Nat}
    (inside : file < sources.length) :
    ∃ s, sources[file]? = some s ∧ s.Yields (streams supplies file) := by
  have known : file < supplies.length := supplied.length_eq ▸ inside
  refine ⟨_, List.getElem?_eq_getElem inside, ?_⟩
  rw [streamsAt (List.getElem?_eq_getElem known)]
  exact Supply.yields (supplied.get known inside)

theorem Supply.fileExact {supply : Supply} {size : UInt64} (declared : supply.declared = size)
    (length : supply.content.length = size.toNat) :
    supply.file size.toNat = supply.content.toByteArray := by
  unfold file
  rw [stream, declared, ← length, frontExact]

end Source

theorem Image.filesRead {image : Image} {draws : List Draw} {address : Slot → UInt32}
    (headers : image.fileHeaders = .ok (draws.zipIdx.map fun (draw, file) =>
      Draft.fileHeader address file draw).reverse)
    {supplies : List Source.Supply}
    (contents : ∀ (file : Nat) (draw : Draw) (supply : Source.Supply), draws[file]? = some draw →
      supplies[file]? = some supply → image.fileContent (Draft.fileHeader address file draw) =
        .ok (supply.file draw.entry.size.toNat))
    (enough : draws.length ≤ supplies.length) {files : List (String × UInt64)}
    (named : List.Forall₂ (fun file draw => Entry.ofText file.1 file.2 = .ok draw.entry)
      files draws) :
    image.files = .ok ((files.zip supplies).map fun (file, supply) =>
      (file.1, supply.file file.2.toNat)).reverse := by
  have count := named.length_eq
  unfold Image.files
  rw [headers]
  refine mapMPaired (List.forall₂_reverse_iff.mpr (List.forall₂_iff_get.mpr ⟨?_, ?_⟩))
  · simp only [List.length_map, List.length_zipIdx, List.length_zip]
    omega
  · intro i inside known
    simp only [List.length_map, List.length_zipIdx] at inside
    have here : i < files.length := count ▸ inside
    obtain ⟨text, size⟩ := Entry.ofTextOk (named.get here inside)
    have content := contents i _ _ (List.getElem?_eq_getElem inside)
      (List.getElem?_eq_getElem (Nat.lt_of_lt_of_le inside enough))
    simp only [List.get_eq_getElem, List.getElem_map, List.getElem_zipIdx, List.getElem_zip,
      Nat.zero_add] at text size ⊢
    rw [content, ← text, ← size]
    rfl

variable {γ : Type} [Generator γ] {ρ : Type} [Reader ρ]

/-- Packing and reading back: nothing of chance, of the pieces that readers give or of the sink's
old content shows in the files. -/
theorem executeRoundTrip {files : List (String × UInt64)} {entries : List Entry}
    (valid : List.Forall₂ (fun file entry => Entry.ofText file.1 file.2 = .ok entry) files entries)
    {capacity : UInt32} {g : γ} {p : Plan} (ok : (plan entries capacity g).outcome = .ok p)
    {supplies : List Source.Supply} {sources : List (Source ρ)}
    (supplied : List.Forall₂ Source.Supply.Of supplies sources)
    (enough : entries.length ≤ sources.length) {w : Window}
    (reaches : w.sink.Reaches (Window.place w.skip (capacity.toNat - 1))) (progress : Progress) :
    (execute p sources w progress).outcome = .ok () ∧
      ∃ image, image = Image.behind w.skip (execute p sources w progress).device.sink.bytes ∧
      image.files = .ok ((files.zip supplies).map fun (file, supply) =>
        (file.1, supply.file file.2.toNat)).reverse ∧
      ((∀ pair ∈ files.zip supplies,
          pair.2.declared = pair.1.2 ∧ pair.2.content.length = pair.1.2.toNat) →
        image.files = .ok ((files.zip supplies).map fun (file, supply) =>
          (file.1, supply.content.toByteArray)).reverse) := by
  obtain ⟨order, address, laid⟩ := planLaid ok
  have same := (Draw.ofEntriesFit entries g).1
  have drawn := congrArg List.length same
  rw [List.length_map] at drawn
  have counted := supplied.length_eq
  have given : ∀ file < (Draw.ofEntries entries g).1.length, ∃ s, sources[file]? = some s ∧
      s.Yields (Source.Supply.streams supplies file) :=
    fun file inside => Source.Supply.yieldsEach supplied (by omega)
  obtain ⟨finished, contents, filled, shown, each⟩ := laid.executed given reaches progress
  have carries := Image.carriesOfBytes laid.tiled filled shown
  have decodes := laid.imageDecodes filled shown
  have complete := laid.tourComplete
  have headers :=
    (Image.mirrors laid.tiled decodes complete (laid.topValid complete.follows)).headers
  unfold Draft.tour at headers
  rw [List.map_reverse, List.map_map] at headers
  have read : (Image.behind w.skip (execute p sources w progress).device.sink.bytes).files =
      .ok ((files.zip supplies).map fun (file, supply) =>
        (file.1, supply.file file.2.toNat)).reverse := by
    rw [← same, List.forall₂_map_right_iff] at valid
    refine Image.filesRead headers ?_ (by omega) valid
    intro file draw supply here known
    obtain ⟨data, held, joined⟩ := each file draw here
    rw [laid.contentRead carries decodes here held joined, Source.Supply.streamsAt known,
      Source.Supply.file]
  refine ⟨finished, _, rfl, read, ?_⟩
  intro exact
  have whole : ((files.zip supplies).map fun (file, supply) =>
      (file.1, supply.file file.2.toNat)) =
      (files.zip supplies).map fun (file, supply) => (file.1, supply.content.toByteArray) := by
    apply List.map_congr_left
    rintro ⟨file, supply⟩ member
    obtain ⟨declared, length⟩ := exact _ member
    exact congrArg _ (Source.Supply.fileExact declared length)
  rw [read, whole]

theorem executeRoundTripTwo : ∃ (entries : List Entry) (p : Plan) (sources : List (Source Stream)),
    (plan entries 20 (Cycle.ofWords [5, 3])).outcome = .ok p ∧
    ∀ sink, Sink.Grows sink →
      (execute p sources (⟨sink ⟨#[7]⟩, 2⟩ : Window) .start).outcome = .ok () ∧
      (Image.behind 2 (execute p sources
        (⟨sink ⟨#[7]⟩, 2⟩ : Window) .start).device.sink.bytes).files =
        .ok [("a", ⟨#[]⟩), ("a", ⟨#[1, 2, 0]⟩)] := by
  obtain ⟨first, entered⟩ : ∃ entry, Entry.ofText "a" 3 = .ok entry := ⟨_, rfl⟩
  obtain ⟨second, again⟩ : ∃ entry, Entry.ofText "a" 0 = .ok entry := ⟨_, rfl⟩
  obtain ⟨s, made⟩ : ∃ s, Source.make "b" 2 (Stream.make ⟨#[1, 2, 9]⟩ (fun _ => 1) none) = .ok s :=
    ⟨_, rfl⟩
  have supplied : Source.Supply.Of ⟨2, [1, 2, 9]⟩ s :=
    ⟨"b", _, made, Stream.delivers rfl fun _ => Nat.one_pos⟩
  obtain ⟨p, ok⟩ : ∃ p, (plan [first, second] 20 (Cycle.ofWords [5, 3])).outcome = .ok p := by
    refine planAccepted (Nat.le_of_ble_eq_true rfl) ?_ _
    simp [Entry.sectors, (Entry.ofTextOk entered).2, (Entry.ofTextOk again).2]
  have valid : List.Forall₂ (fun (file : String × UInt64) entry =>
      Entry.ofText file.1 file.2 = .ok entry) [("a", 3), ("a", 0)] [first, second] :=
    .cons entered (.cons again .nil)
  refine ⟨_, p, [s, s], ok, ?_⟩
  intro sink grows
  have low : Window.place 2 19 ≤ positionLimit := by decide
  obtain ⟨finished, image, rfl, read, _⟩ := executeRoundTrip valid ok
    (.cons supplied (.cons supplied .nil)) (Nat.le_refl _) (w := ⟨sink ⟨#[7]⟩, 2⟩)
    (grows.reaches _ low) .start
  exact ⟨finished, read⟩

end BootImage
