import Mathlib
import BootImage.Sector

/-!
Words and byte strings as lists. Little-endian words are read back as they were written, whatever
follows them, and any four bytes are such a word; padding, zeros and parts of a string say what they
hold.
-/
namespace BootImage

namespace Word

theorem valueBytes (width n : Nat) : value (bytes width n) = n % 256 ^ width := by
  induction width generalizing n with
  | zero => simp [bytes, value, Nat.mod_one]
  | succ width ih =>
    unfold bytes
    rw [value, ih, Nat.pow_succ', Nat.mod_mul]
    simp

theorem bytes32Length (w : UInt32) : (bytes32 w).length = 4 := bytesLength 4 w.toNat

theorem read32Bytes (w : UInt32) (rest : List UInt8) :
    read32 (bytes32 w ++ rest) = some (w, rest) := by
  have length := bytes32Length w
  have word : UInt32.ofNat (value (bytes32 w)) = w := by
    unfold bytes32
    rw [valueBytes]
    exact UInt32.toNat_inj.mp (by simp)
  unfold read32 read cut
  rw [if_pos (by rw [List.length_append]; omega), List.take_left' length,
    List.drop_left' length]
  simp only [Option.map_some, word]

theorem read32Iff {raw rest : List UInt8} {w : UInt32} :
    read32 raw = some (w, rest) ↔ raw = bytes32 w ++ rest := by
  constructor
  · intro found
    unfold read32 read cut at found
    split at found
    · cases found
      have word := bytesValue (raw.take 4)
      rw [List.length_take_of_le (by assumption)] at word
      have small := valueBytes 4 (value (raw.take 4))
      rw [word] at small
      have fits : value (raw.take 4) < 2 ^ 32 := by omega
      unfold bytes32
      rw [UInt32.toNat_ofNat', Nat.mod_eq_of_lt fits, word, List.take_append_drop]
    · cases found
  · rintro rfl
    exact read32Bytes w rest

theorem read32Enough (raw : List UInt8) (enough : 4 ≤ raw.length) :
    ∃ w rest, read32 raw = some (w, rest) ∧ raw.length = rest.length + 4 := by
  unfold read32 read cut
  rw [if_pos enough]
  exact ⟨_, _, rfl, by rw [List.length_drop]; omega⟩

end Word

theorem bytesBack (bytes : ByteArray) : bytes.data.toList.toByteArray = bytes :=
  ByteArray.ext (by simp)

theorem bytesInj {left right : ByteArray} (same : left.data.toList = right.data.toList) :
    left = right := by
  rw [← bytesBack left, ← bytesBack right, same]

theorem listLength (bytes : ByteArray) : bytes.data.toList.length = bytes.size := by simp

theorem zerosBytes (count : Nat) : (zeros count).data.toList = List.replicate count 0 := by
  simp [zerosData]

theorem paddedBytes (length : Nat) (bytes : ByteArray) : (padded length bytes).data.toList =
    bytes.data.toList ++ List.replicate (length - bytes.size) 0 := by
  simp [padded, appendZerosData]

theorem paddedLength (length : Nat) (bytes : ByteArray) :
    (padded length bytes).data.toList.length = max bytes.size length := by
  rw [paddedBytes, List.length_append, List.length_replicate, listLength]
  omega

theorem paddedBelow {length i : Nat} (low : i < length) (bytes : ByteArray) :
    (padded length bytes).data.toList[i]? = some ((bytes.data[i]?).getD 0) := by
  rw [paddedBytes, ← Array.getElem?_toList]
  rcases Nat.lt_or_ge i bytes.data.toList.length with known | gap
  · rw [List.getElem?_append_left known, List.getElem?_eq_getElem known]
    rfl
  · have size := listLength bytes
    rw [List.getElem?_append_right gap, List.getElem?_eq_none gap, List.getElem?_replicate,
      if_pos (by omega)]
    rfl

theorem paddedBeyond {length i : Nat} (past : length ≤ i) (bytes : ByteArray) :
    (padded length bytes).data.toList[i]? = bytes.data[i]? := by
  rw [paddedBytes, ← Array.getElem?_toList]
  rcases Nat.lt_or_ge i bytes.data.toList.length with known | gap
  · rw [List.getElem?_append_left known]
  · have size := listLength bytes
    rw [List.getElem?_append_right gap, List.getElem?_eq_none gap, List.getElem?_replicate,
      if_neg (by omega)]

theorem paddedByte {length i : Nat} {bytes : ByteArray} (inside : i < (padded length bytes).size) :
    (padded length bytes).data[i]? = some ((bytes.data[i]?).getD 0) := by
  rw [← Array.getElem?_toList]
  rcases Nat.lt_or_ge i length with low | past
  · exact paddedBelow low bytes
  · have size := paddedLength length bytes
    rw [listLength] at size
    have held : i < bytes.data.size := by
      rw [ByteArray.size_data]
      omega
    rw [paddedBeyond past, Array.getElem?_eq_getElem held]
    rfl

theorem extractBytes (bytes : ByteArray) (start stop : Nat) :
    (bytes.extract start stop).data.toList = (bytes.data.toList.take stop).drop start := by
  simp [List.drop_take]

end BootImage
