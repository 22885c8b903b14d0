import Mathlib
import BootImage.Proofs.Name
import BootImage.Proofs.Record.Fields

/-!
Names on the way through a header. A name made from text comes back as that text and closed by a
zero byte. A field that is read is kept as it stands, so closed names are the ones that were written
closed, and bytes behind the first zero tell names apart that look the same.
-/
namespace BootImage

/- The name of a header, where it stands in the bytes of one. -/
def FileHeader.nameField (raw : ByteArray) : List UInt8 := (raw.data.toList.drop 4).take 256

open FileHeader (nameField)

namespace Name

/- Nothing but zeros from the first zero on. -/
def Filled (bytes : List UInt8) : Prop :=
  ∀ first next : Nat, bytes[first]? = some 0 → first ≤ next → next < bytes.length →
    bytes[next]? = some 0

/- Filled, and with a zero at the end of the field at least. -/
structure Closed (bytes : List UInt8) : Prop where
  ended : bytes[255]? = some 0
  filled : Filled bytes

theorem filledPadded {raw : List UInt8} (free : 0 ∉ raw) (count : Nat) :
    Filled (raw ++ List.replicate count 0) := by
  intro first next zero later inside
  have beyond : raw.length ≤ first := by
    by_contra before
    rw [List.getElem?_append_left (Nat.not_le.mp before)] at zero
    exact free (List.mem_of_getElem? zero)
  rw [List.length_append, List.length_replicate] at inside
  rw [List.getElem?_append_right (beyond.trans later), List.getElem?_replicate, if_pos (by omega)]

theorem closedPadded {raw : List UInt8} (free : 0 ∉ raw) (short : raw.length ≤ 255) :
    Closed (raw ++ List.replicate (256 - raw.length) 0) := by
  refine ⟨?_, filledPadded free _⟩
  rw [List.getElem?_append_right short, List.getElem?_replicate, if_pos (by omega)]

theorem visibleFree (name : Name) : 0 ∉ name.visible := by
  intro zero
  have shown := List.mem_takeWhile_imp zero
  simp at shown

/- What is not shown starts with a zero. -/
theorem visibleEnds (raw : List UInt8) (more : (raw.takeWhile (· != 0)).length < raw.length) :
    raw[(raw.takeWhile (· != 0)).length]? = some 0 := by
  induction raw with
  | nil => cases more
  | cons b raw ih =>
    by_cases zero : b = 0
    · simp [zero]
    · have shown : (b != 0) = true := bne_iff_ne.mpr zero
      simp only [List.takeWhile_cons, shown, if_true, List.length_cons] at more ⊢
      rw [List.getElem?_cons_succ]
      exact ih (Nat.lt_of_succ_lt_succ more)

theorem filledBytes {name : Name} (filled : Filled name.bytes) :
    name.bytes = name.visible ++ List.replicate (256 - name.visible.length) 0 := by
  have whole : name.visible ++ name.bytes.drop name.visible.length = name.bytes :=
    List.prefix_iff_eq_append.mp (List.takeWhile_prefix _)
  have zeros : name.bytes.drop name.visible.length =
      List.replicate (256 - name.visible.length) 0 := by
    have length : name.bytes.length = 256 := name.bytesLength
    refine List.eq_replicate_iff.mpr ⟨by rw [List.length_drop, length], fun b member => ?_⟩
    obtain ⟨i, here⟩ := List.mem_iff_getElem?.mp member
    rw [List.getElem?_drop] at here
    obtain ⟨inside, _⟩ := List.getElem?_eq_some_iff.mp here
    have ends := visibleEnds name.bytes (Nat.lt_of_le_of_lt (Nat.le_add_right _ i) inside)
    exact Option.some.inj (here.symm.trans (filled _ _ ends (Nat.le_add_right _ i) inside))
  rw [← zeros, whole]

theorem filledSame {left right : Name} (one : Filled left.bytes) (two : Filled right.bytes) :
    left = right ↔ left.visible = right.visible := by
  refine ⟨congrArg visible, fun same => ?_⟩
  have bytes := filledBytes one
  rw [same, ← filledBytes two] at bytes
  exact sameBytes bytes

theorem visibleShort {name : Name} (zero : 0 ∈ name.bytes) : name.visible.length ≤ 255 := by
  by_contra long
  have length : name.bytes.length = 256 := name.bytesLength
  have all : name.visible = name.bytes :=
    (List.takeWhile_prefix _).eq_of_length_le (by rw [length]; exact Nat.not_le.mp long)
  exact visibleFree name (all ▸ zero)

theorem closedIff {name : Name} : Closed name.bytes ↔ ∃ shown : List UInt8, 0 ∉ shown ∧
    shown.length ≤ 255 ∧ name.bytes = shown ++ List.replicate (256 - shown.length) 0 := by
  constructor
  · intro closed
    have short := visibleShort (List.mem_of_getElem? closed.ended)
    exact ⟨name.visible, visibleFree name, short, filledBytes closed.filled⟩
  · rintro ⟨shown, free, short, bytes⟩
    rw [bytes]
    exact closedPadded free short

/- The closed name that shows the same. -/
theorem closedTwin {name : Name} (unfilled : ¬ Filled name.bytes) :
    ∃ other : Name, Closed other.bytes ∧ name.visible = other.visible ∧ name ≠ other := by
  have short : name.visible.length ≤ 255 :=
    visibleShort (not_not.mp fun none =>
      unfilled fun _ _ zero => absurd (List.mem_of_getElem? zero) none)
  have free := visibleFree name
  have closed := closedPadded free short
  have twin : (name.visible ++ List.replicate (256 - name.visible.length) 0).length = nameSize := by
    rw [List.length_append, List.length_replicate, nameSize]
    omega
  refine ⟨⟨_, twin⟩, closed, (visiblePadded free _).symm, fun same => unfilled ?_⟩
  rw [same]
  exact closed.filled

theorem filledIff {name : Name} : Filled name.bytes ↔ ∀ other : Name, Filled other.bytes →
    (name = other ↔ name.visible = other.visible) := by
  refine ⟨fun one _ two => filledSame one two, fun same => ?_⟩
  by_contra unfilled
  obtain ⟨other, closed, alike, different⟩ := closedTwin unfilled
  exact different ((same other closed.filled).mpr alike)

theorem closedOfText {text : String} {name : Name} (made : ofText text = .ok name) :
    Closed name.bytes := by
  obtain ⟨shown, fits, bytes⟩ := ofTextIff.mp made
  rw [← utf8Length] at bytes fits
  rw [bytes]
  exact closedPadded (utf8ZeroFree (not_or.mp shown).2) fits

end Name

theorem nameFieldRead {raw : ByteArray} {header : FileHeader}
    (read : Record.decode raw = .ok header) : nameField raw = header.name.bytes := by
  have fields : Record.bytes header = raw.data.toList.take 272 := (Record.decodeIff.mp read).1
  have inside : nameField raw = ((raw.data.toList.take 272).drop 4).take 256 := by
    rw [nameField, List.drop_take, List.take_take]
    rfl
  have before : (Word.bytes32 header.next).length = 4 := Word.bytes32Length _
  have length : header.name.bytes.length = 256 := header.name.bytesLength
  rw [inside, ← fields]
  simp only [Record.bytes, List.append_assoc]
  rw [List.drop_left' before, List.take_left' length]

theorem nameFieldWritten {header : FileHeader} {sector : ByteArray}
    (written : Record.encode header = .ok sector) : nameField sector = header.name.bytes := by
  cases (Record.encodeSector header).symm.trans written
  exact nameFieldRead (Record.decodeSector header)

/- A letter of two bytes, many times. -/
def twoByteText (count : Nat) : String := String.ofList (List.replicate count '\u0436')

theorem twoByteSize (count : Nat) : (twoByteText count).utf8ByteSize = 2 * count := by
  have two : '\u0436'.utf8Size = 2 := by decide
  rw [← Name.utf8Length, Name.utf8Encode, twoByteText, String.toList_ofList]
  simp [two, Nat.mul_comm]

theorem twoByteShown {count : Nat} (positive : 0 < count) :
    twoByteText count ≠ "" ∧ '\x00' ∉ (twoByteText count).toList := by
  simp [twoByteText, Nat.pos_iff_ne_zero.mp positive]

/-- Which texts are names is decided by their UTF-8, and every name comes back from its header as
the text it was made from, whatever else the header says. -/
theorem namesSurvive :
    (∀ text f, Name.ofText text = .error f ↔
      (text = "" ∨ '\x00' ∈ text.toList) ∧ f = .invalidName text ∨
        ¬ (text = "" ∨ '\x00' ∈ text.toList) ∧ 255 < text.utf8ByteSize ∧ f = .nameTooLong text) ∧
    (∀ text, (∃ name, Name.ofText text = .ok name) ↔
      text ≠ "" ∧ '\x00' ∉ text.toList ∧ text.utf8ByteSize ≤ 255) ∧
    (∀ text (header : FileHeader), Name.ofText text = .ok header.name →
      ∃ sector, Record.encode header = .ok sector ∧ Record.decode sector = .ok header ∧
        header.name.visible = Name.utf8 text ∧ header.name.text = text ∧
        (nameField sector)[255]? = some 0) ∧
    ∀ (one two : String) (left right : FileHeader) (sector other : ByteArray),
      Name.ofText one = .ok left.name → Name.ofText two = .ok right.name →
      Record.encode left = .ok sector → Record.encode right = .ok other →
        (nameField sector = nameField other ↔ one = two) := by
  refine ⟨fun _ _ => Name.ofTextRefused, fun text => ?accepted, fun text header made => ?survives,
    fun one two left right sector other first second wrote again => ?apart⟩
  case accepted =>
    have shown : ¬ Name.Blank text ↔ text ≠ "" ∧ '\x00' ∉ text.toList := not_or
    rw [← and_assoc, ← shown]
    constructor
    · rintro ⟨_, made⟩
      obtain ⟨visible, fits, _⟩ := Name.ofTextIff.mp made
      exact ⟨visible, fits⟩
    · rintro ⟨visible, fits⟩
      obtain ⟨name, made, _⟩ := Name.ofTextFits visible fits
      exact ⟨name, made⟩
  case survives =>
    have written := Record.encodeSector header
    refine ⟨_, written, Record.decodeSector header, Name.visibleOfText made, Name.textOfText made,
      ?_⟩
    rw [nameFieldWritten written]
    exact (Name.closedOfText made).ended
  case apart =>
    rw [nameFieldWritten wrote, nameFieldWritten again]
    constructor
    · intro same
      rw [← Name.textOfText first, ← Name.textOfText second, Name.sameBytes same]
    · rintro rfl
      rw [Except.ok.inj (first.symm.trans second)]

/- The limit counts bytes, not characters: 127 of these letters are a name, and 128 are not. -/
theorem namesSurviveTwoByte : ∃ (long short : Name) (sector other : ByteArray),
    Name.ofText (twoByteText 127) = .ok long ∧ Name.ofText (twoByteText 1) = .ok short ∧
    Record.encode (⟨7, long, 3, 0xffffffff, 30⟩ : FileHeader) = .ok sector ∧
    Record.encode (⟨0, short, 3, 0, 0⟩ : FileHeader) = .ok other ∧
    Record.decode sector = .ok (⟨7, long, 3, 0xffffffff, 30⟩ : FileHeader) ∧
    long.text = twoByteText 127 ∧ (nameField sector)[255]? = some 0 ∧
    nameField sector ≠ nameField other ∧
    Name.ofText (twoByteText 128) = .error (.nameTooLong (twoByteText 128)) := by
  obtain ⟨refused, accepted, survives, apart⟩ := namesSurvive
  have fits (count : Nat) (positive : 0 < count) (few : count ≤ 127) :
      ∃ name, Name.ofText (twoByteText count) = .ok name := by
    obtain ⟨visible, shown⟩ := twoByteShown positive
    exact (accepted _).mpr ⟨visible, shown, by rw [twoByteSize]; omega⟩
  obtain ⟨long, made⟩ := fits 127 (by decide) (by decide)
  obtain ⟨short, again⟩ := fits 1 (by decide) (by decide)
  obtain ⟨sector, written, read, _, text, zero⟩ := survives _ ⟨7, long, 3, 0xffffffff, 30⟩ made
  obtain ⟨other, wrote, _⟩ := survives _ ⟨0, short, 3, 0, 0⟩ again
  have sizes : twoByteText 127 ≠ twoByteText 1 := by
    intro same
    have bytes := congrArg String.utf8ByteSize same
    rw [twoByteSize, twoByteSize] at bytes
    omega
  have beyond := (refused (twoByteText 128) _).mpr
    (.inr ⟨not_or.mpr (twoByteShown (by decide)), by rw [twoByteSize]; omega, rfl⟩)
  exact ⟨long, short, sector, other, made, again, written, wrote, read, text, zero,
    mt (apart _ _ _ _ _ _ made again written wrote).mp sizes, beyond⟩

/- One stray byte at the end of a field that holds one letter. -/
def strayField : List UInt8 := 97 :: List.replicate 254 0 ++ [98]

def strayHeader : ByteArray :=
  (List.replicate 4 0 ++ strayField ++ List.replicate 12 0).toByteArray

theorem strayRead : ∃ header : FileHeader, Record.decode strayHeader = .ok header ∧
    header.name.bytes = strayField ∧ header.name.visible = [97] := by
  obtain ⟨header, read⟩ : ∃ header : FileHeader, Record.decode strayHeader = .ok header :=
    Record.decodeEnough (by decide +kernel)
  have bytes : header.name.bytes = strayField :=
    (nameFieldRead read).symm.trans (by decide +kernel)
  exact ⟨header, read, bytes, by rw [Name.visible, bytes]; rfl⟩

theorem strayUnfilled : ¬ Name.Filled strayField := by
  intro filled
  have zero := filled 1 255 rfl (by decide) (by decide +kernel)
  exact absurd zero (by decide +kernel)

theorem letterMade : ∃ name, Name.ofText "a" = .ok name ∧ name.visible = [97] := by
  obtain ⟨name, made, _⟩ := @Name.ofTextFits "a" (by decide) (by decide)
  exact ⟨name, made, Name.visibleOfText made⟩

/-- A name that is read is its field, whatever that holds. It is closed where the field is padded
with zeros as text is, and it is told apart by what it shows where the field is filled. -/
theorem namesClosed (raw : ByteArray) (header : FileHeader)
    (read : Record.decode raw = .ok header) :
    header.name.bytes = nameField raw ∧
    (Name.Closed header.name.bytes ↔ ∃ shown : List UInt8, 0 ∉ shown ∧ shown.length ≤ 255 ∧
      nameField raw = shown ++ List.replicate (256 - shown.length) 0) ∧
    ((∀ other : Name, Name.Filled other.bytes →
      (header.name = other ↔ header.name.visible = other.visible)) ↔
        Name.Filled (nameField raw)) ∧
    (∀ text name, Name.ofText text = .ok name → Name.Closed name.bytes) ∧
    ∀ field : List UInt8, field.length = 256 → ∃ (raw : ByteArray) (header : FileHeader),
      Record.decode raw = .ok header ∧ header.name.bytes = field := by
  rw [nameFieldRead read]
  refine ⟨rfl, Name.closedIff, Name.filledIff.symm, fun _ _ => Name.closedOfText,
    fun field length => ?_⟩
  exact ⟨_, _, Record.decodeSector (⟨0, ⟨field, length⟩, 0, 0, 0⟩ : FileHeader), rfl⟩

/- A stray byte is read and hides a name that looks the same; so is a field without any zero. -/
theorem namesClosedStray : ∃ (header endless : FileHeader) (raw : ByteArray) (other name : Name),
    Record.decode strayHeader = .ok header ∧ header.name.bytes = nameField strayHeader ∧
    Name.Filled other.bytes ∧ ¬ (header.name = other ↔ header.name.visible = other.visible) ∧
    Name.ofText "a" = .ok name ∧ Name.Closed name.bytes ∧
    Record.decode raw = .ok endless ∧ endless.name.bytes = List.replicate 256 98 := by
  obtain ⟨header, decoded, bytes, _⟩ := strayRead
  obtain ⟨read, _, apart, made, any⟩ := namesClosed strayHeader header decoded
  have unlike := mt apart.mp (read ▸ bytes ▸ strayUnfilled)
  simp only [not_forall, exists_prop] at unlike
  obtain ⟨other, filled, different⟩ := unlike
  obtain ⟨name, accepted, _⟩ := letterMade
  obtain ⟨raw, endless, found, long⟩ := any (List.replicate 256 98) List.length_replicate
  exact ⟨header, endless, raw, other, name, decoded, read, filled, different, accepted,
    made _ _ accepted, found, long⟩

theorem strayNotClosed : ∃ (header : FileHeader) (name : Name),
    Record.decode strayHeader = .ok header ∧ Name.ofText "a" = .ok name ∧
    header.name.bytes[255]? = some 98 ∧ header.name.visible = name.visible ∧
    header.name ≠ name := by
  obtain ⟨header, decoded, bytes, letter⟩ := strayRead
  obtain ⟨name, made, visible⟩ := letterMade
  refine ⟨header, name, decoded, made, by rw [bytes]; rfl, letter.trans visible.symm, ?_⟩
  rintro rfl
  exact strayUnfilled (bytes ▸ (Name.closedOfText made).filled)

end BootImage
