import Mathlib
import BootImage.Proofs.Image.Walking

/-!
Reading as a decision on any bytes. Every call ends with a result or with what is wrong in the
image, and the images that give a result are told without the reader: by records on sectors and the
lists that link them.
-/
namespace BootImage

/- A result, or a fault found in the bytes. -/
def Settled {β : Type} (result : Except Fault β) : Prop :=
  (∃ value, result = .ok value) ∨ ∃ what, result = .error (.corrupted what)

namespace Settled

variable {β δ : Type} {result : Except Fault β}

theorem ofOk (value : β) : Settled (.ok value) := .inl ⟨value, rfl⟩

theorem ofFault (what : Corruption) : Settled (.error (.corrupted what) : Except Fault β) :=
  .inr ⟨what, rfl⟩

theorem bind {f : β → Except Fault δ} (first : Settled result)
    (later : ∀ value, Settled (f value)) : Settled (result >>= f) := by
  rcases first with ⟨value, rfl⟩ | ⟨what, rfl⟩
  · exact later value
  · exact ofFault what

theorem foldlM {f : δ → β → Except Fault δ} (each : ∀ value item, Settled (f value item))
    (items : List β) (value : δ) : Settled (items.foldlM f value) := by
  induction items generalizing value with
  | nil => exact ofOk value
  | cons item items ih => exact bind (each value item) ih

theorem mapM {f : β → Except Fault δ} (each : ∀ item, Settled (f item)) (items : List β) :
    Settled (items.mapM f) := by
  induction items with
  | nil => exact ofOk []
  | cons item items ih =>
    rw [List.mapM_cons]
    exact bind (each item) fun first => bind ih fun rest => ofOk (first :: rest)

end Settled

namespace Image

section

variable {α : Type} [Record α]

theorem Walks.settled {image : Image} {next : α → UInt32} {seen : List UInt32} {pointer : UInt32}
    {items : List (UInt32 × α)} {outcome : Except Fault Unit}
    (walks : image.Walks next seen pointer items outcome) : Settled outcome := by
  induction walks with
  | ended => exact .ofOk ()
  | looped | outside => exact .ofFault _
  | node live fresh held later ih => exact ih

variable [FixedRecord α]

/- Walks along a link need no bound: from any head there is one that ends by itself, within as many
visits as the image has whole sectors, and its end is what reading gives. -/
def Ends (image : Image) (next : α → UInt32) : Prop :=
  ∀ head, ∃ visited outcome, image.Walks next [] head visited outcome ∧
    visited.length ≤ image.bytes.size / sectorSize ∧
    image.walk next head = outcome.map fun _ => visited

theorem walkEnds (image : Image) (next : α → UInt32) : image.Ends next := by
  intro head
  obtain ⟨visited, outcome, walks⟩ := Walks.total image next .nil (by simp) head
  exact ⟨visited, outcome, walks, walks.few, walks.walked⟩

theorem recordSettled (image : Image) (offset : UInt32) :
    Settled (image.record (α := α) offset) := by
  by_cases inside : image.Inside offset 1
  · obtain ⟨r, held⟩ := recordInside (α := α) inside
    exact recordIff.mpr held ▸ .ofOk r
  · exact recordOutside (α := α) inside ▸ .ofFault _

theorem walkSettled (image : Image) (next : α → UInt32) (head : UInt32) :
    Settled (image.walk next head) := by
  obtain ⟨visited, outcome, walks, _, result⟩ := image.walkEnds next head
  rw [result]
  exact walks.settled.bind fun _ => .ofOk visited

theorem walkLinked {image : Image} {next : α → UInt32} {head : UInt32}
    {items : List (UInt32 × α)} :
    image.walk next head = .ok items ↔ image.Linked next head items :=
  walkIff.trans linkedIff.symm

end

variable (image : Image)

theorem sectorsSettled (offset count : UInt32) : Settled (image.sectors offset count) := by
  by_cases inside : image.Inside offset count
  · exact sectorsInside inside ▸ .ofOk _
  · exact sectorsOutside inside ▸ .ofFault _

theorem superBlockSettled : Settled image.superBlock := by
  refine (image.recordSettled 0).bind fun top => ?_
  split
  · exact .ofOk top
  · exact .ofFault _

theorem fileHeadersSettled : Settled image.fileHeaders :=
  image.superBlockSettled.bind fun top =>
    (image.walkSettled FileHeader.next top.firstFile).bind fun files => .ofOk (files.map Prod.snd)

theorem freeRunsSettled : Settled image.freeRuns :=
  image.superBlockSettled.bind fun top => image.walkSettled FreeRun.next top.firstFree

theorem rawChunksSettled (header : FileHeader) : Settled (image.rawChunks header) := by
  refine (image.walkSettled ChunkNode.next header.firstChunk).bind fun nodes => ?_
  refine Settled.foldlM (fun bytes visit => ?_) nodes ByteArray.empty
  obtain ⟨pointer, node⟩ := visit
  exact (image.sectorsSettled node.data node.length).bind fun more => .ofOk (bytes ++ more)

theorem fileContentSettled (header : FileHeader) : Settled (image.fileContent header) := by
  refine (image.rawChunksSettled header).bind fun bytes => ?_
  split
  · exact .ofFault _
  · exact .ofOk _

theorem filesSettled : Settled image.files :=
  image.fileHeadersSettled.bind fun headers => Settled.mapM (fun header =>
    (image.fileContentSettled header).bind fun content => .ofOk (header.name.text, content)) headers

variable {image}

theorem superBlockIff {top : SuperBlock} :
    image.superBlock = .ok top ↔ image.Holds 0 top ∧ top.magic = magicWord := by
  rw [superBlock, bindOk]
  constructor
  · rintro ⟨r, read, same⟩
    split at same
    · cases same
      exact ⟨recordIff.mp read, by assumption⟩
    · cases same
  · rintro ⟨held, valid⟩
    exact ⟨top, recordIff.mpr held, by rw [if_pos valid]; rfl⟩

theorem fileHeadersIff {headers : List FileHeader} :
    image.fileHeaders = .ok headers ↔ ∃ top visits, image.superBlock = .ok top ∧
      image.Linked FileHeader.next top.firstFile visits ∧ headers = visits.map Prod.snd := by
  simp only [fileHeaders, bindOk, walkLinked]
  constructor
  · rintro ⟨top, found, visits, linked, same⟩
    exact ⟨top, visits, found, linked, (Except.ok.inj same).symm⟩
  · rintro ⟨top, visits, found, linked, rfl⟩
    exact ⟨top, found, visits, linked, rfl⟩

theorem freeRunsIff {frees : List (UInt32 × FreeRun)} :
    image.freeRuns = .ok frees ↔
      ∃ top, image.superBlock = .ok top ∧ image.Linked FreeRun.next top.firstFree frees := by
  simp only [freeRuns, bindOk, walkLinked]

theorem fileContentIff {header : FileHeader} {content : ByteArray} :
    image.fileContent header = .ok content ↔
      ∃ bytes, image.rawChunks header = .ok bytes ∧ header.size.toNat ≤ bytes.size ∧
        content.data.toList = bytes.data.toList.take header.size.toNat := by
  rw [fileContent, bindOk]
  constructor
  · rintro ⟨bytes, raw, same⟩
    split at same
    · cases same
    · cases same
      exact ⟨bytes, raw, by omega, by rw [extractBytes, List.drop_zero]⟩
  · rintro ⟨bytes, raw, enough, front⟩
    refine ⟨bytes, raw, ?_⟩
    have same : content = bytes.extract 0 header.size.toNat :=
      bytesInj (by rw [front, extractBytes, List.drop_zero])
    rw [if_neg (by omega), same]
    rfl

end Image

/-- Bytes of any origin, looping or cut off: each call of a reader ends by itself and gives what the
image holds, or says where it is broken. -/
theorem readingExact (image : Image) :
    (image.Ends FileHeader.next ∧ image.Ends FreeRun.next ∧ image.Ends ChunkNode.next) ∧
    (∀ top, image.superBlock = .ok top ↔ image.Holds 0 top ∧ top.magic = magicWord) ∧
    (∀ headers, image.fileHeaders = .ok headers ↔
      ∃ top visits, image.superBlock = .ok top ∧
        image.Linked FileHeader.next top.firstFile visits ∧ headers = visits.map Prod.snd) ∧
    (∀ frees, image.freeRuns = .ok frees ↔
      ∃ top, image.superBlock = .ok top ∧ image.Linked FreeRun.next top.firstFree frees) ∧
    (∀ header bytes, image.rawChunks header = .ok bytes ↔
      ∃ nodes, image.Linked ChunkNode.next header.firstChunk nodes ∧
        (∀ visit ∈ nodes, image.Inside visit.2.data visit.2.length) ∧
        bytes.data.toList =
          nodes.flatMap fun visit => image.part visit.2.data visit.2.length) ∧
    (∀ header content, image.fileContent header = .ok content ↔
      ∃ bytes, image.rawChunks header = .ok bytes ∧ header.size.toNat ≤ bytes.size ∧
        content.data.toList = bytes.data.toList.take header.size.toNat) ∧
    Settled image.superBlock ∧ Settled image.fileHeaders ∧ Settled image.freeRuns ∧
    (∀ header, Settled (image.rawChunks header) ∧ Settled (image.fileContent header)) ∧
    Settled image.files := by
  refine ⟨⟨image.walkEnds _, image.walkEnds _, image.walkEnds _⟩, fun _ => Image.superBlockIff,
    fun _ => Image.fileHeadersIff, fun _ => Image.freeRunsIff, ?raw,
    fun _ _ => Image.fileContentIff, image.superBlockSettled, image.fileHeadersSettled,
    image.freeRunsSettled,
    fun header => ⟨image.rawChunksSettled header, image.fileContentSettled header⟩,
    image.filesSettled⟩
  case raw =>
    intro header bytes
    simp only [Image.rawChunksIff, Image.linkedIff]

end BootImage
