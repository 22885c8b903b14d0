import Mathlib
import BootImage.Record

/-!
Text in names. Its UTF-8 holds no zero byte, so the padding ends it, and reading it back shows the
same characters.
-/
namespace BootImage

namespace Text.Lossy

theorem charDecoded (before : List Char) (c : Char) (after : List Char) :
    (before ++ c :: after).utf8Encode.utf8DecodeChar? before.utf8Encode.size = some c := by
  have rest : (before.utf8Encode ++ (c :: after).utf8Encode).extract before.utf8Encode.size
      (before.utf8Encode ++ (c :: after).utf8Encode).size = (c :: after).utf8Encode :=
    ByteArray.extract_append_eq_right rfl (by rw [ByteArray.size_append])
  rw [ByteArray.utf8DecodeChar?_eq_utf8DecodeChar?_extract, List.utf8Encode_append, rest,
    List.utf8DecodeChar?_utf8Encode_cons]

theorem charsFromEncoded (before after : List Char) :
    charsFrom (before ++ after).utf8Encode before.utf8Encode.size = after := by
  induction after generalizing before with
  | nil =>
    unfold charsFrom
    simp
  | cons c after ih =>
    have decoded := charDecoded before c after
    have inside := ByteArray.le_size_of_utf8DecodeChar?_eq_some decoded
    have positive := c.utf8Size_pos
    have next : before.utf8Encode.size + c.utf8Size = (before ++ [c]).utf8Encode.size := by
      simp [List.utf8Encode_singleton]
    have later := ih (before ++ [c])
    rw [List.append_assoc, List.singleton_append, ← next] at later
    unfold charsFrom
    rw [dif_pos (by omega)]
    simp only [decoded]
    rw [later]

end Text.Lossy

namespace Name

theorem zeroFree {c : Char} (visible : c ≠ '\x00') : 0 ∉ String.utf8EncodeChar c := by
  -- Bytes of longer encodings carry a mark, and a single byte is zero for the null character only.
  have positive : c.val.toNat ≠ 0 := fun null => visible (Char.ext (UInt32.toNat_inj.mp null))
  simp only [String.utf8EncodeChar]
  split
  · simp only [List.mem_singleton, ← UInt8.toNat_inj, UInt8.toNat_ofNat', UInt8.toNat_zero]
    omega
  · split <;> (try split) <;>
    · simp only [List.mem_cons, List.not_mem_nil, or_false, ← UInt8.toNat_inj, UInt8.toNat_ofNat',
        UInt8.toNat_zero]
      omega

theorem utf8Encode (text : String) : utf8 text = text.toList.flatMap String.utf8EncodeChar := by
  unfold utf8
  rw [String.toUTF8_eq_toByteArray, ← String.utf8Encode_toList, List.utf8Encode,
    List.toList_data_toByteArray]

theorem utf8ZeroFree {text : String} (visible : '\x00' ∉ text.toList) : 0 ∉ utf8 text := by
  rw [utf8Encode]
  intro null
  obtain ⟨c, member, inside⟩ := List.mem_flatMap.mp null
  exact zeroFree (fun same => visible (same ▸ member)) inside

theorem visiblePadded {raw : List UInt8} (free : 0 ∉ raw) (count : Nat) :
    (raw ++ List.replicate count 0).takeWhile (· != 0) = raw := by
  have shown : ∀ b ∈ raw, (b != 0) = true := by
    intro b member
    have other : b ≠ 0 := fun null => free (null ▸ member)
    simpa using other
  rw [List.takeWhile_append_of_pos shown]
  simp

theorem sameBytes {left right : Name} (same : left.bytes = right.bytes) : left = right := by
  cases left
  cases right
  rwa [mk.injEq]

theorem utf8Length (text : String) : (utf8 text).length = text.utf8ByteSize := by
  rw [utf8, Array.length_toList]
  rfl

/- No name shows nothing, and none holds the byte that ends it. -/
def Blank (text : String) : Prop := text = "" ∨ '\x00' ∈ text.toList

instance (text : String) : Decidable (Blank text) := inferInstanceAs (Decidable (_ ∨ _))

theorem blankIff {text : String} :
    (text.isEmpty || text.toList.contains '\x00') = true ↔ Blank text := by
  rw [Bool.or_eq_true, String.isEmpty_iff, List.contains_iff_mem, Blank]

section OfText

variable {text : String}

theorem ofTextBlank (blank : Blank text) : ofText text = .error (.invalidName text) := by
  unfold ofText
  rw [if_pos (blankIff.mpr blank)]

theorem ofTextLong (shown : ¬ Blank text) (long : 255 < text.utf8ByteSize) :
    ofText text = .error (.nameTooLong text) := by
  unfold ofText
  rw [if_neg (mt blankIff.mp shown), dif_neg (by rw [utf8Length, maxNameBytes]; omega)]

theorem ofTextFits (shown : ¬ Blank text) (fits : text.utf8ByteSize ≤ 255) :
    ∃ name, ofText text = .ok name ∧
      name.bytes = utf8 text ++ List.replicate (256 - text.utf8ByteSize) 0 := by
  unfold ofText
  rw [if_neg (mt blankIff.mp shown), dif_pos (by rw [utf8Length, maxNameBytes]; omega)]
  exact ⟨_, rfl, congrArg (fun size => utf8 text ++ List.replicate (256 - size) 0)
    (utf8Length text)⟩

theorem ofTextIff {name : Name} : ofText text = .ok name ↔
    ¬ Blank text ∧ text.utf8ByteSize ≤ 255 ∧
      name.bytes = utf8 text ++ List.replicate (256 - text.utf8ByteSize) 0 := by
  by_cases blank : Blank text
  · rw [ofTextBlank blank]
    exact ⟨nofun, fun told => absurd blank told.1⟩
  rcases Nat.lt_or_ge 255 text.utf8ByteSize with long | fits
  · rw [ofTextLong blank long]
    exact ⟨nofun, fun told => absurd told.2.1 (Nat.not_le.mpr long)⟩
  obtain ⟨made, built, bytes⟩ := ofTextFits blank fits
  rw [built, Except.ok.injEq]
  exact ⟨fun same => same ▸ ⟨blank, fits, bytes⟩,
    fun told => sameBytes (bytes.trans told.2.2.symm)⟩

/- What cannot be shown is told before what is too long. -/
theorem ofTextRefused {f : Fault} : ofText text = .error f ↔
    Blank text ∧ f = .invalidName text ∨
      ¬ Blank text ∧ 255 < text.utf8ByteSize ∧ f = .nameTooLong text := by
  by_cases blank : Blank text
  · rw [ofTextBlank blank, Except.error.injEq]
    simp [blank, eq_comm]
  rcases Nat.lt_or_ge 255 text.utf8ByteSize with long | fits
  · rw [ofTextLong blank long, Except.error.injEq]
    simp [blank, long, eq_comm]
  obtain ⟨made, built, _⟩ := ofTextFits blank fits
  simp [built, blank, Nat.not_lt.mpr fits]

variable {name : Name}

theorem visibleOfText (made : ofText text = .ok name) : name.visible = utf8 text := by
  obtain ⟨shown, _, bytes⟩ := ofTextIff.mp made
  rw [visible, bytes, visiblePadded (utf8ZeroFree (not_or.mp shown).2)]

theorem textOfText (made : ofText text = .ok name) : name.text = text := by
  have stored : (utf8 text).toByteArray = text.toList.utf8Encode := by
    rw [utf8Encode, List.utf8Encode]
  have chars := Text.Lossy.charsFromEncoded [] text.toList
  rw [List.nil_append, List.utf8Encode_nil, ByteArray.size_empty] at chars
  rw [Name.text, visibleOfText made, Text.Lossy.text, stored, chars, String.ofList_toList]

end OfText

end Name

end BootImage
