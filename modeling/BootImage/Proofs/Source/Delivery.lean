import Mathlib
import BootImage.Proofs.Name
import BootImage.Proofs.Sector
import BootImage.Source

/-!
What sources give out. A reader answers in pieces of its own choice; what is taken from its source
is its content up to the declared size and zeros from there on, whatever the pieces were. Takes one
after the other cut this stretched content into windows, however long each of them is, and leave the
reader where the last window ends, which is never beyond what was declared.
-/
namespace BootImage

namespace Reader

variable {ρ : Type} [Reader ρ]

/- Every answer is the front of what is still to come, and empty only where nothing is. -/
structure Delivery (gives : ρ → List UInt8 → Prop) : Prop where
  answers : ∀ {r content limit}, gives r content → 0 < limit →
    ∃ piece after rest, read r limit = (.ok piece, after) ∧ piece.size ≤ limit ∧
      (piece.size = 0 → content = []) ∧ content = piece.data.toList ++ rest ∧ gives after rest

/-- All reads together give `content`, with no failure among them. -/
def Delivers (r : ρ) (content : List UInt8) : Prop :=
  ∃ gives : ρ → List UInt8 → Prop, Delivery gives ∧ gives r content

theorem gatherDelivery {gives : ρ → List UInt8 → Prop} (delivery : Delivery gives) {r : ρ}
    {content : List UInt8} (given : gives r content) (wanted : Nat) (got : ByteArray) :
    ∃ after, gather r wanted got = (.ok (got ++ (content.take wanted).toByteArray), after) ∧
      gives after (content.drop wanted) := by
  -- A piece may have any length, so the induction is on how much is still wanted.
  induction wanted using Nat.strong_induction_on generalizing r content got with
  | h wanted ih =>
    by_cases nothing : wanted = 0
    · subst nothing
      have done : gather r 0 got = (.ok (got ++ (content.take 0).toByteArray), r) := by
        unfold gather
        rw [if_pos rfl]
        simp
      exact ⟨r, done, given⟩
    · obtain ⟨piece, after, rest, answer, bounded, ended, split, later⟩ :=
        delivery.answers given (Nat.pos_of_ne_zero nothing)
      unfold gather
      rw [if_neg nothing, answer]
      by_cases empty : piece.size = 0
      · have nothingLeft := ended empty
        rw [nothingLeft] at split ⊢
        obtain ⟨_, none⟩ := List.append_eq_nil_iff.mp split.symm
        rw [none] at later
        exact ⟨after, by simp [empty], by simpa using later⟩
      · obtain ⟨last, gathered, kept⟩ := ih (wanted - piece.size) (by omega) later (got ++ piece)
        have length : piece.data.toList.length = piece.size := by simp
        have whole : content.take wanted =
            piece.data.toList ++ rest.take (wanted - piece.size) := by
          rw [split, List.take_append, List.take_of_length_le (by omega), length]
        refine ⟨last, ?_, ?_⟩
        · simp only [empty, show ¬ wanted < piece.size by omega, or_self, if_false, gathered, whole]
          rw [List.toByteArray_append, bytesBack, ByteArray.append_assoc]
        · rw [split, List.drop_append, List.drop_of_length_le (by omega), length]
          exact kept

theorem gatherBounded (r : ρ) (wanted : Nat) (got : ByteArray) {all : ByteArray} {after : ρ}
    (gathered : gather r wanted got = (.ok all, after)) : all.size ≤ got.size + wanted := by
  induction wanted using Nat.strong_induction_on generalizing r got with
  | h wanted ih =>
    unfold gather at gathered
    split at gathered
    · cases gathered
      omega
    · split at gathered
      · cases gathered
      · split at gathered
        · cases gathered
          omega
        · have bounded := ih _ (by omega) _ _ gathered
          rw [ByteArray.size_append] at bounded
          omega

end Reader

namespace Stream

theorem delivers {s : Stream} (sound : s.failure = none) (positive : ∀ i, 0 < s.step i) :
    Reader.Delivers s (s.content.data.toList.drop s.position) := by
  refine ⟨fun s content => s.failure = none ∧ (∀ i, 0 < s.step i) ∧
    content = s.content.data.toList.drop s.position, ⟨?_⟩, sound, positive, rfl⟩
  rintro s _ limit ⟨sound, positive, rfl⟩ asked
  have answer : Reader.read s limit = s.piece limit s.content.size := by
    change s.read limit = _
    unfold Stream.read
    rw [sound]
  refine ⟨_, _, _, answer, ?_, ?_, ?_, sound, positive, rfl⟩
  · rw [ByteArray.size_extract]
    omega
  · intro empty
    have some := positive s.position
    rw [ByteArray.size_extract] at empty
    apply List.drop_eq_nil_of_le
    simp only [Array.length_toList, ByteArray.size_data]
    omega
  · rw [extractBytes, List.drop_take, Nat.add_sub_cancel_left]
    rw [← List.drop_drop, List.take_append_drop]

end Stream

theorem Entry.ofTextOk {name : String} {size : UInt64} {entry : Entry}
    (made : Entry.ofText name size = .ok entry) :
    entry.name.text = name ∧ entry.size.toNat = size.toNat := by
  unfold Entry.ofText at made
  cases stored : Name.ofText name with
  | error f =>
    rw [stored] at made
    cases made
  | ok kept =>
    rw [stored] at made
    change (if size.toNat < UInt32.size then _ else _) = _ at made
    split at made
    · rename_i fits
      cases made
      have whole : size.toUInt32.toNat = size.toNat := by
        rw [UInt64.toNat_toUInt32]
        exact Nat.mod_eq_of_lt fits
      exact ⟨Name.textOfText stored, whole⟩
    · cases made

namespace Source

/-- Content up to a declared size, and zeros without end. -/
def stretched (declared : Nat) (content : List UInt8) (i : Nat) : UInt8 :=
  if i < declared then content.getD i 0 else 0

def front (stream : Nat → UInt8) (length : Nat) : List UInt8 := (List.range length).map stream

theorem frontAppend (stream : Nat → UInt8) (first second : Nat) :
    front stream (first + second) =
      front stream first ++ front (fun i => stream (first + i)) second := by
  simp [front, List.range_add, Function.comp_def]

theorem frontExact (content : List UInt8) :
    front (stretched content.length content) content.length = content := by
  apply List.ext_getElem (by simp [front])
  intro i _ inside
  simp [front, stretched, inside]

theorem stretchedTaken (remaining length : Nat) (content : List UInt8) :
    content.take (min length remaining) ++
      List.replicate (length - (content.take (min length remaining)).length) 0 =
      front (stretched remaining content) length := by
  apply List.ext_getElem (by simp [front])
  intro i _ inside
  simp only [front, List.length_map, List.length_range] at inside
  simp only [front, List.getElem_map, List.getElem_range, stretched, List.getElem_append,
    List.getElem_take, List.getElem_replicate, List.length_take]
  grind

theorem stretchedLater (remaining length : Nat) (content : List UInt8) :
    (fun i => stretched remaining content (length + i)) =
      stretched (remaining - min length remaining) (content.drop (min length remaining)) := by
  funext i
  unfold stretched
  grind

theorem makeFresh {ρ : Type} {name : String} {size : UInt64} {reader : ρ} {s : Source ρ}
    (made : make name size reader = .ok s) :
    s.reader = reader ∧ s.remaining.toNat = size.toNat := by
  unfold make at made
  cases entered : Entry.ofText name size with
  | error f =>
    rw [entered] at made
    cases made
  | ok entry =>
    rw [entered] at made
    cases made
    exact ⟨rfl, (Entry.ofTextOk entered).2⟩

theorem remainingTaken {ρ : Type} (s : Source ρ) (length : Nat) :
    (s.remaining - UInt32.ofNat (min length s.remaining.toNat)).toNat =
      s.remaining.toNat - min length s.remaining.toNat := by
  have top := s.remaining.toNat_lt
  have fits : (UInt32.ofNat (min length s.remaining.toNat)).toNat =
      min length s.remaining.toNat := by
    rw [UInt32.toNat_ofNat']
    omega
  rw [UInt32.toNat_sub_of_le _ _ (UInt32.le_iff_toNat_le.mpr (by omega)), fits]

variable {ρ : Type} [Reader ρ]

def Yields (s : Source ρ) (stream : Nat → UInt8) : Prop :=
  ∃ content, Reader.Delivers s.reader content ∧ stream = stretched s.remaining.toNat content

theorem makeYields {name : String} {size : UInt64} {reader : ρ} {s : Source ρ}
    (made : make name size reader = .ok s) {content : List UInt8}
    (delivers : Reader.Delivers reader content) : s.Yields (stretched size.toNat content) := by
  obtain ⟨rfl, declared⟩ := makeFresh made
  exact ⟨content, delivers, by rw [declared]⟩

theorem takeDelivers {s : Source ρ} {content : List UInt8}
    (delivers : Reader.Delivers s.reader content) (length : Nat) :
    ∃ after, s.take length =
        (.ok (front (stretched s.remaining.toNat content) length).toByteArray, after) ∧
      Reader.Delivers after.reader (content.drop (min length s.remaining.toNat)) ∧
      after.remaining.toNat = s.remaining.toNat - min length s.remaining.toNat := by
  obtain ⟨gives, delivery, given⟩ := delivers
  obtain ⟨reader, gathered, kept⟩ :=
    Reader.gatherDelivery delivery given (min length s.remaining.toNat) .empty
  refine ⟨{ s with reader, remaining := s.remaining - UInt32.ofNat (min length s.remaining.toNat) },
    ?_, ⟨gives, delivery, kept⟩, remainingTaken s length⟩
  simp only [take, gathered, ByteArray.empty_append, ← stretchedTaken]
  have bytes : padded length (content.take (min length s.remaining.toNat)).toByteArray = _ :=
    (bytesBack _).symm
  rw [bytes, paddedBytes]
  simp

theorem takeSize {s after : Source ρ} {length : Nat} {data : ByteArray}
    (taken : s.take length = (.ok data, after)) : data.size = length := by
  rw [take] at taken
  split at taken
  · cases taken
  · rename_i got reader gathered
    cases taken
    have bounded := Reader.gatherBounded _ _ _ gathered
    exact paddedSize (by rw [ByteArray.size_empty] at bounded; omega)

inductive Takes : Source ρ → List Nat → List ByteArray → Source ρ → Prop
  | done {s} : Takes s [] [] s
  | more {s middle after length lengths data later} (first : s.take length = (.ok data, middle))
      (rest : Takes middle lengths later after) : Takes s (length :: lengths) (data :: later) after

theorem takesSizes {s after : Source ρ} {lengths : List Nat} {taken : List ByteArray}
    (takes : Takes s lengths taken after) : taken.map ByteArray.size = lengths := by
  induction takes with
  | done => rfl
  | more first rest ih => rw [List.map_cons, takeSize first, ih]

theorem takesUnique {s left right : Source ρ} {lengths : List Nat} {taken more : List ByteArray}
    (first : Takes s lengths taken left) (second : Takes s lengths more right) :
    taken = more ∧ left = right := by
  induction first generalizing more with
  | done =>
    cases second
    exact ⟨rfl, rfl⟩
  | more answer rest ih =>
    cases second with
    | more again further =>
      cases answer.symm.trans again
      obtain ⟨same, last⟩ := ih further
      exact ⟨congrArg _ same, last⟩

theorem takesDelivers {s : Source ρ} {content : List UInt8}
    (delivers : Reader.Delivers s.reader content) (lengths : List Nat) :
    ∃ taken after, Takes s lengths taken after ∧
      taken.flatMap (·.data.toList) = front (stretched s.remaining.toNat content) lengths.sum ∧
      Reader.Delivers after.reader (content.drop (min lengths.sum s.remaining.toNat)) ∧
      after.remaining.toNat = s.remaining.toNat - min lengths.sum s.remaining.toNat := by
  induction lengths generalizing s content with
  | nil => exact ⟨[], s, .done, rfl, by simpa using delivers, by simp⟩
  | cons length lengths ih =>
    obtain ⟨middle, first, kept, left⟩ := takeDelivers delivers length
    obtain ⟨taken, after, rest, joined, last, behind⟩ := ih kept
    rw [left] at joined last behind
    refine ⟨_, after, .more first rest, ?joined, ?last, ?behind⟩
    case joined =>
      rw [List.flatMap_cons, joined, List.sum_cons, frontAppend, stretchedLater]
      simp
    case last =>
      rw [List.drop_drop] at last
      rw [List.sum_cons]
      convert last using 2
      omega
    case behind =>
      rw [behind, List.sum_cons]
      omega

theorem takesYields {s : Source ρ} {stream : Nat → UInt8} (yields : s.Yields stream)
    (lengths : List Nat) : ∃ taken after, Takes s lengths taken after ∧
      taken.flatMap (·.data.toList) = front stream lengths.sum ∧
      after.Yields fun i => stream (lengths.sum + i) := by
  obtain ⟨content, delivers, rfl⟩ := yields
  obtain ⟨taken, after, takes, joined, kept, left⟩ := takesDelivers delivers lengths
  exact ⟨taken, after, takes, joined, _, kept, by rw [stretchedLater, left]⟩

end Source

variable {ρ : Type} [Reader ρ]

theorem Reader.deliversUnique {r : ρ} {left right : List UInt8} (first : Delivers r left)
    (second : Delivers r right) : left = right := by
  obtain ⟨gives, delivery, given⟩ := first
  obtain ⟨offers, offered, same⟩ := second
  -- Both are the pieces of the same answers, so the induction follows what is still to come.
  obtain ⟨count, length⟩ : ∃ count, count = left.length := ⟨_, rfl⟩
  induction count using Nat.strong_induction_on generalizing r left right with
  | h count ih =>
    obtain ⟨piece, after, rest, answer, _, ended, split, later⟩ :=
      delivery.answers given Nat.one_pos
    obtain ⟨_, _, others, again, _, closed, cut, further⟩ := offered.answers same Nat.one_pos
    cases answer.symm.trans again
    by_cases empty : piece.size = 0
    · rw [ended empty, closed empty]
    · have shorter : rest.length < count := by
        rw [length, split, List.length_append, listLength]
        omega
      rw [split, cut, ih rest.length shorter later further rfl]

namespace Source

/-- How the bytes are divided into takes does not show in them, nor do the pieces in which the
reader gave them. What the reader has still to give says how far it was read. -/
theorem takesSequential {name : String} {size : UInt64} {reader : ρ} {s : Source ρ}
    (made : make name size reader = .ok s) {content : List UInt8}
    (delivers : Reader.Delivers reader content) (lengths : List Nat) :
    ∃ taken after, Takes s lengths taken after ∧ taken.map ByteArray.size = lengths ∧
      taken.flatMap (·.data.toList) = front (stretched size.toNat content) lengths.sum ∧
      ∀ rest, Reader.Delivers after.reader rest ↔
        rest = content.drop (min lengths.sum size.toNat) := by
  obtain ⟨rfl, declared⟩ := makeFresh made
  obtain ⟨taken, after, takes, joined, kept, _⟩ := takesDelivers delivers lengths
  rw [declared] at joined kept
  refine ⟨taken, after, takes, takesSizes takes, joined, fun rest => ⟨?unique, ?kept⟩⟩
  case unique => exact fun other => Reader.deliversUnique other kept
  case kept =>
    rintro rfl
    exact kept

/- Five bytes of which four are declared, given one and two at a time. -/
theorem takesSequentialFive : ∃ (s : Source Stream) (taken : List ByteArray)
    (after : Source Stream),
    make "a" 4 (Stream.make ⟨#[1, 2, 3, 4, 5]⟩ (fun i => i % 2 + 1) none) = .ok s ∧
    Takes s [3, 0, 4] taken after ∧ taken.map ByteArray.size = [3, 0, 4] ∧
    taken.flatMap (·.data.toList) = [1, 2, 3, 4, 0, 0, 0] ∧
    ∀ rest, Reader.Delivers after.reader rest ↔ rest = [5] := by
  obtain ⟨s, made⟩ : ∃ s, make "a" 4
      (Stream.make ⟨#[1, 2, 3, 4, 5]⟩ (fun i => i % 2 + 1) none) = .ok s := ⟨_, rfl⟩
  have delivers := Stream.delivers
    (s := Stream.make ⟨#[1, 2, 3, 4, 5]⟩ (fun i => i % 2 + 1) none) rfl fun i => Nat.succ_pos _
  obtain ⟨taken, after, takes, sizes, joined, left⟩ := takesSequential made delivers [3, 0, 4]
  exact ⟨s, taken, after, made, takes, sizes, joined, left⟩

end Source

end BootImage
