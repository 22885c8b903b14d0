/-!
Little-endian words of a fixed width, and sectors, the unit an image is laid out and addressed in.
Reading a word takes the leading bytes and hands back the rest; what follows is never looked at.
Nothing here checks an address; devices do.
-/
namespace BootImage

namespace Word

def bytes : Nat → Nat → List UInt8
  | 0, _ => []
  | width + 1, value => UInt8.ofNat value :: bytes width (value / 256)

def value : List UInt8 → Nat
  | [] => 0
  | b :: rest => b.toNat + 256 * value rest

@[simp] theorem bytesLength (width n : Nat) : (bytes width n).length = width := by
  induction width generalizing n with
  | zero => rfl
  | succ width ih => simp [bytes, ih]

theorem bytesValue (raw : List UInt8) : bytes raw.length (value raw) = raw := by
  induction raw with
  | nil => rfl
  | cons b rest ih =>
    have low : UInt8.ofNat (b.toNat + 256 * value rest) = b := by
      apply UInt8.toNat_inj.mp
      have := b.toNat_lt
      simp only [UInt8.toNat_ofNat']
      omega
    have high : (b.toNat + 256 * value rest) / 256 = value rest := by
      have := b.toNat_lt
      omega
    simp [bytes, value, low, high, ih]

def cut (count : Nat) (raw : List UInt8) : Option (List UInt8 × List UInt8) :=
  if count ≤ raw.length then some (raw.take count, raw.drop count) else none

def read (width : Nat) (raw : List UInt8) : Option (Nat × List UInt8) :=
  (cut width raw).map fun (front, rest) => (value front, rest)

def bytes32 (w : UInt32) : List UInt8 := bytes 4 w.toNat

def read32 (raw : List UInt8) : Option (UInt32 × List UInt8) :=
  (read 4 raw).map fun (n, rest) => (UInt32.ofNat n, rest)

end Word

def sectorSize : Nat := 512

def sectorsFor (bytes : UInt64) : UInt64 :=
  bytes / 512 + (if bytes % 512 = 0 then 0 else 1)

def appendZeros : Nat → ByteArray → ByteArray
  | 0, bytes => bytes
  | count + 1, bytes => appendZeros count (bytes.push 0)

def zeros (count : Nat) : ByteArray := appendZeros count ByteArray.empty

theorem appendZerosData (count : Nat) (bytes : ByteArray) :
    (appendZeros count bytes).data = bytes.data ++ Array.replicate count 0 := by
  induction count generalizing bytes with
  | zero => simp [appendZeros]
  | succ count ih =>
    unfold appendZeros
    rw [ih, ByteArray.data_push]
    apply Array.toList_inj.mp
    simp [List.replicate_succ]

theorem zerosData (count : Nat) : (zeros count).data = Array.replicate count 0 := by
  simp [zeros, appendZerosData]

theorem appendZerosEq (count : Nat) (bytes : ByteArray) :
    appendZeros count bytes = bytes ++ zeros count := by
  apply ByteArray.ext
  rw [appendZerosData, ByteArray.data_append, zerosData]

theorem zerosSize (count : Nat) : (zeros count).size = count := by
  simp [ByteArray.size, zerosData]

def padded (length : Nat) (bytes : ByteArray) : ByteArray :=
  appendZeros (length - bytes.size) bytes

theorem paddedSize {length : Nat} {bytes : ByteArray} (fits : bytes.size ≤ length) :
    (padded length bytes).size = length := by
  simp only [padded, appendZerosEq, ByteArray.size_append, zerosSize]
  omega

end BootImage
