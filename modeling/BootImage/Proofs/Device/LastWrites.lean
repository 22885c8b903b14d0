import Mathlib
import BootImage.Proofs.Device.Sinks

/-!
Writes in any order, each of them tried whether or not one before it was refused. A byte is left as
the last call that covers it has it, so calls that share no sector may change places. How far a sink
reaches in the end is a matter of its kind.
-/
namespace BootImage

/-- A refused call does not keep the ones behind it from being tried. -/
def Device.tryAll {δ : Type} [Device δ] (d : δ) : List Call → List (Except IoError Unit) × δ
  | [] => ([], d)
  | call :: rest =>
    let (outcome, next) := Device.write d call.sector call.data
    let (later, last) := tryAll next rest
    (outcome :: later, last)

namespace Call

/-- The byte of a call for a position; there is none where the call starts at `limit` or behind. -/
def byte? (skip : UInt64) (limit i : Nat) (call : Call) : Option UInt8 :=
  let start := Window.place skip call.sector.toNat
  if start < limit ∧ start ≤ i then call.data.data[i - start]? else none

def lastByte? (skip : UInt64) (limit : Nat) (calls : List Call) (i : Nat) : Option UInt8 :=
  calls.reverse.findSome? (byte? skip limit i)

def stop (skip : UInt64) (limit : Nat) (call : Call) : Nat :=
  let start := Window.place skip call.sector.toNat
  if start < limit then start + call.data.size else 0

def furthest (reach : Call → Nat) (calls : List Call) (size : Nat) : Nat :=
  calls.foldl (fun most call => max most (reach call)) size

def Covers (call : Call) (sector : Nat) : Prop :=
  call.sector.toNat ≤ sector ∧ sector < call.sector.toNat + call.data.size / sectorSize

/-- What a call is answered whose address may be too large for the sink to be asked at all. -/
def answer (skip : UInt64) (call : Call) (asked : Except IoError Unit) : Except IoError Unit :=
  if Window.place skip call.sector.toNat < UInt64.size then asked
  else .error (.unaddressable skip call.sector)

variable {skip : UInt64} {limit i : Nat} {call : Call}

theorem byteInside {b : UInt8} (shown : call.byte? skip limit i = some b) :
    Window.place skip call.sector.toNat < limit ∧ Window.place skip call.sector.toNat ≤ i ∧
      i < Window.place skip call.sector.toNat + call.data.size := by
  unfold byte? at shown
  simp only at shown
  split at shown
  · rename_i reached
    obtain ⟨inside, _⟩ := Array.getElem?_eq_some_iff.mp shown
    rw [ByteArray.size_data] at inside
    omega
  · cases shown

theorem byteOutside
    (outside : i < Window.place skip call.sector.toNat ∨ call.stop skip limit ≤ i) :
    call.byte? skip limit i = none := by
  cases shown : call.byte? skip limit i with
  | none => rfl
  | some b =>
    obtain ⟨near, inside⟩ := byteInside shown
    unfold stop at outside
    simp only [if_pos near] at outside
    omega

theorem byteNear (near : Window.place skip call.sector.toNat < limit) (i : Nat) :
    (if Window.place skip call.sector.toNat ≤ i then
      call.data.data[i - Window.place skip call.sector.toNat]? else none) =
      call.byte? skip limit i := by
  simp only [byte?, near, true_and]

theorem stopNear (near : Window.place skip call.sector.toNat < limit) :
    call.stop skip limit = Window.place skip call.sector.toNat + call.data.size := if_pos near

theorem stopFar (far : limit ≤ Window.place skip call.sector.toNat) : call.stop skip limit = 0 :=
  if_neg (Nat.not_lt.mpr far)

theorem byteFar (far : limit ≤ Window.place skip call.sector.toNat) (i : Nat) :
    call.byte? skip limit i = none :=
  byteOutside (.inr (stopFar far ▸ Nat.zero_le i))

theorem byteEmpty (empty : call.data.size = 0) (i : Nat) : call.byte? skip limit i = none := by
  cases shown : call.byte? skip limit i with
  | none => rfl
  | some b =>
    have inside := byteInside shown
    omega

theorem lastByteCons (calls : List Call) : lastByte? skip limit (call :: calls) i =
    (lastByte? skip limit calls i).or (call.byte? skip limit i) := by
  simp [lastByte?, List.findSome?_append]

theorem lastByteSkipped (low : i < Window.place skip 0) (calls : List Call) :
    lastByte? skip limit calls i = none := by
  apply List.findSome?_eq_none_iff.mpr
  intro call _
  have start := Window.placeMono skip (Nat.zero_le call.sector.toNat)
  exact byteOutside (.inl (Nat.lt_of_lt_of_le low start))

theorem furthestPast {reach : Call → Nat} {calls : List Call} {size : Nat} (past : size ≤ i)
    (short : i < furthest reach calls size) : ∃ call ∈ calls, i < reach call := by
  induction calls generalizing size with
  | nil => exact absurd short (Nat.not_lt.mpr past)
  | cons call calls ih =>
    rcases Nat.lt_or_ge i (reach call) with here | later
    · exact ⟨call, List.mem_cons_self, here⟩
    · obtain ⟨other, member, found⟩ := ih (Nat.max_le.mpr ⟨past, later⟩) short
      exact ⟨other, List.mem_cons_of_mem _ member, found⟩

theorem furthestLeast (reach : Call → Nat) (calls : List Call) (size : Nat) :
    size ≤ furthest reach calls size := by
  induction calls generalizing size with
  | nil => exact Nat.le_refl _
  | cons call calls ih => exact Nat.le_trans (Nat.le_max_left ..) (ih _)

theorem furthestNowhere (calls : List Call) (size : Nat) :
    furthest (fun _ => 0) calls size = size := by
  induction calls generalizing size with
  | nil => rfl
  | cons call calls ih => exact (ih _).trans (Nat.max_zero size)

theorem furthestFiltered (reach : Call → Nat) (calls : List Call) (size : Nat) :
    furthest (fun call => if 0 < call.data.size then reach call else 0) calls size =
      furthest reach (calls.filter (0 < ·.data.size)) size := by
  unfold furthest
  rw [List.foldl_filter]
  congr 1
  funext most call
  by_cases some : 0 < call.data.size <;> simp [some]

/- Calls of whole sectors that share none of them share no byte. -/
theorem byteApart {a b : Call} (first : a.data.size % sectorSize = 0)
    (second : b.data.size % sectorSize = 0)
    (apart : ∀ sector, ¬ (a.Covers sector ∧ b.Covers sector)) (i : Nat) :
    a.byte? skip limit i = none ∨ b.byte? skip limit i = none := by
  cases left : a.byte? skip limit i with
  | none => exact .inl rfl
  | some x =>
    cases right : b.byte? skip limit i with
    | none => exact .inr rfl
    | some y =>
      -- The sector that holds the byte would lie in both.
      have low := (byteInside left).2
      have high := (byteInside right).2
      have both := apart (i / sectorSize - skip.toNat)
      simp only [Covers, Window.place, sectorSize] at *
      omega

end Call

namespace Sink

/- What was written at a position stands there now; where nothing was, what stood there before. -/
structure Patched (before : ByteArray) (length : Nat) (written : Nat → Option UInt8)
    (after : ByteArray) : Prop where
  size : after.size = length
  byte : ∀ i < length, after.data[i]? = some ((written i).getD ((before.data[i]?).getD 0))

namespace Patched

variable {before middle after : ByteArray} {small large : Nat} {early late : Nat → Option UInt8}

theorem none (bytes : ByteArray) : Patched bytes bytes.size (fun _ => .none) bytes := by
  refine ⟨rfl, fun i inside => ?_⟩
  rw [Array.getElem?_eq_getElem inside]
  rfl

theorem next (first : Patched before small early middle) (second : Patched middle large late after)
    (least : before.size ≤ small) (cut : ∀ i, small ≤ i → i < large → early i = .none) :
    Patched before large (fun i => (late i).or (early i)) after := by
  refine ⟨second.size, fun i inside => ?_⟩
  rw [second.byte i inside]
  cases late i with
  | some b => rfl
  | none =>
    rcases Nat.lt_or_ge i small with held | gap
    · rw [first.byte i held]
      rfl
    · have beyond : middle.data[i]? = .none := Array.getElem?_eq_none (first.size.trans_le gap)
      have past : before.data[i]? = .none := Array.getElem?_eq_none (Nat.le_trans least gap)
      rw [beyond, past, cut i gap inside]
      rfl

theorem congr (patched : Patched before small early after) (same : ∀ i < small, early i = late i) :
    Patched before small late after :=
  ⟨patched.size, fun i inside => same i inside ▸ patched.byte i inside⟩

theorem idle (bytes : ByteArray) (unwritten : ∀ i, early i = .none) :
    Patched bytes (max bytes.size 0) early bytes := by
  rw [Nat.max_zero]
  exact (none bytes).congr fun i _ => (unwritten i).symm

theorem unique (left : Patched before small early after)
    (right : Patched before small early middle) : after = middle := by
  apply ByteArray.ext
  apply Array.ext_getElem?
  intro i
  rcases Nat.lt_or_ge i small with held | past
  · rw [left.byte i held, right.byte i held]
  · rw [Array.getElem?_eq_none (left.size.trans_le past),
      Array.getElem?_eq_none (right.size.trans_le past)]

end Patched

theorem byteInside {bytes : ByteArray} {i : Nat} (inside : i < bytes.size) :
    ∃ old, bytes.data[i]? = some old :=
  ⟨_, Array.getElem?_eq_getElem inside⟩

section Written

variable {before data after : ByteArray} {start i : Nat}

theorem writtenOutside (outside : i < start ∨ start + data.size ≤ i) :
    (if start ≤ i then data.data[i - start]? else .none) = .none := by
  rcases outside with low | past
  · exact if_neg (Nat.not_le.mpr low)
  · rw [Array.getElem?_eq_none (by rw [ByteArray.size_data]; omega), ite_self]

theorem writtenInside (least : start ≤ i) (most : i < start + data.size)
    (holds : after.data[i]? = data.data.toList[i - start]?) (old : UInt8) :
    after.data[i]? = some ((if start ≤ i then data.data[i - start]? else .none).getD old) := by
  rw [if_pos least, holds, Array.getElem?_toList,
    Array.getElem?_eq_getElem (by rw [ByteArray.size_data]; omega)]
  rfl

theorem Grown.patched (grown : Grown before start data.data.toList after) :
    Patched before (max before.size (start + data.size))
      (fun i => if start ≤ i then data.data[i - start]? else .none) after := by
  have length := listLength data
  refine ⟨by rw [grown.size, length], fun i inside => ?_⟩
  rcases Nat.lt_or_ge i start with low | least
  · rw [grown.below i low, writtenOutside (.inl low)]
    rfl
  rcases Nat.lt_or_ge i (start + data.size) with most | past
  · exact writtenInside least most (grown.holds least (by omega)) _
  · have inside : i < before.size := by omega
    obtain ⟨old, held⟩ := byteInside inside
    rw [grown.beyond i (by omega), writtenOutside (.inr past), held]
    rfl

theorem Fitted.patched (fitted : Fitted before start data.data.toList after) :
    Patched before before.size (fun i => if start ≤ i then data.data[i - start]? else .none)
      after := by
  have length := listLength data
  refine ⟨fitted.size, fun i inside => ?_⟩
  obtain ⟨old, held⟩ := byteInside inside
  rcases Nat.lt_or_ge i start with low | least
  · rw [fitted.outside i (.inl low), writtenOutside (.inl low), held]
    rfl
  rcases Nat.lt_or_ge i (start + data.size) with most | past
  · exact writtenInside least most (fitted.holds least (by omega) inside) _
  · rw [fitted.outside i (.inr (by omega)), writtenOutside (.inr past), held]
    rfl

end Written

end Sink

namespace Window

variable {skip : UInt64} {limit : Nat}

/- How one kind of sink serves any call: what it answers, and how far it reaches then. -/
structure Serves (skip : UInt64) (limit : Nat) (sink : ByteArray → Sink) (fits : ByteArray → Prop)
    (reach : Call → Nat) (answer : Call → Except IoError Unit) : Prop where
  call : ∀ bytes, fits bytes → ∀ call : Call, ∃ next, fits next ∧
    Device.write (⟨sink bytes, skip⟩ : Window) call.sector call.data =
      (answer call, ⟨sink next, skip⟩) ∧
    Sink.Patched bytes (max bytes.size (reach call)) (call.byte? skip limit ·) next
  cut : ∀ (call later : Call) (i : Nat), reach call ≤ i → i < reach later →
    call.byte? skip limit i = none

namespace Serves

variable {sink : ByteArray → Sink} {fits : ByteArray → Prop} {reach : Call → Nat}
  {answer : Call → Except IoError Unit} (serves : Serves skip limit sink fits reach answer)

include serves

theorem all (bytes : ByteArray) (fit : fits bytes) (calls : List Call) : ∃ after,
    Device.tryAll (⟨sink bytes, skip⟩ : Window) calls = (calls.map answer, ⟨sink after, skip⟩) ∧
      Sink.Patched bytes (Call.furthest reach calls bytes.size) (Call.lastByte? skip limit calls)
        after := by
  induction calls generalizing bytes with
  | nil => exact ⟨bytes, rfl, .none bytes⟩
  | cons call calls ih =>
    obtain ⟨next, still, wrote, first⟩ := serves.call bytes fit call
    obtain ⟨after, later, second⟩ := ih next still
    rw [first.size] at second
    refine ⟨after, ?_, (first.next second (Nat.le_max_left ..) ?_).congr ?_⟩
    · unfold Device.tryAll
      rw [wrote]
      simp only [later, List.map_cons]
    · intro i past short
      obtain ⟨other, _, further⟩ := Call.furthestPast past short
      exact serves.cut call other i (Nat.le_trans (Nat.le_max_right ..) past) further
    · exact fun i _ => (Call.lastByteCons calls).symm

theorem swap (bytes : ByteArray) (fit : fits bytes) {a b : Call}
    (apart : ∀ i, a.byte? skip limit i = none ∨ b.byte? skip limit i = none) : ∃ last,
    Device.tryAll (⟨sink bytes, skip⟩ : Window) [a, b] = ([answer a, answer b], last) ∧
      Device.tryAll (⟨sink bytes, skip⟩ : Window) [b, a] = ([answer b, answer a], last) := by
  obtain ⟨after, forth, left⟩ := serves.all bytes fit [a, b]
  obtain ⟨other, back, right⟩ := serves.all bytes fit [b, a]
  have reached : Call.furthest reach [a, b] bytes.size = Call.furthest reach [b, a] bytes.size :=
    Nat.max_right_comm ..
  have same : ∀ i, Call.lastByte? skip limit [a, b] i = Call.lastByte? skip limit [b, a] i := by
    intro i
    rw [Call.lastByteCons, Call.lastByteCons, Call.lastByteCons, Call.lastByteCons]
    rcases apart i with none | none <;> simp [none]
  rw [reached] at left
  cases (left.congr fun i _ => same i).unique right
  exact ⟨_, forth, back⟩

end Serves

theorem growingServes (skip : UInt64) :
    Serves skip UInt64.size .growing (fun _ => True) (Call.stop skip UInt64.size)
      (Call.answer skip · (.ok ())) := by
  refine ⟨fun bytes _ call => ?_, fun call _ i past _ => Call.byteOutside (.inr past)⟩
  unfold Call.answer
  rcases Nat.lt_or_ge (place skip call.sector.toNat) UInt64.size with near | far
  · rw [Call.stopNear near, if_pos near]
    exact ⟨_, trivial, writeNear near _ _,
      (Sink.overwriteGrown bytes _ call.data).patched.congr fun i _ => Call.byteNear near i⟩
  · rw [Call.stopFar far, if_neg (Nat.not_lt.mpr far)]
    exact ⟨bytes, trivial, writeFar far _ _, .idle bytes (Call.byteFar far)⟩

/- Behind `positionLimit` a file answers for itself, up to where no address is good any more. -/
theorem fileServes (skip : UInt64) :
    Serves skip positionLimit .file (fun _ => True)
      (fun call => if 0 < call.data.size then call.stop skip positionLimit else 0)
      (fun call => call.answer skip (if place skip call.sector.toNat < positionLimit then .ok ()
        else .error .invalidArgument)) := by
  refine ⟨fun bytes _ call => ?_, fun call _ i past _ => ?_⟩
  · unfold Call.answer
    rcases Nat.lt_or_ge (place skip call.sector.toNat) positionLimit with low | high
    · have near : place skip call.sector.toNat < UInt64.size := Nat.lt_trans low (by decide)
      have wrote := writeNear near (.file bytes) call.data
      simp only [Sink.writeAt, if_pos low] at wrote
      rw [if_pos near, if_pos low]
      refine ⟨_, trivial, wrote, ?_⟩
      rcases Nat.eq_zero_or_pos call.data.size with empty | some
      · have nothing : call.data.isEmpty = true := beq_iff_eq.mpr empty
        rw [if_neg (Nat.not_lt.mpr (Nat.le_of_eq empty)), Sink.store, if_pos nothing]
        exact .idle bytes (Call.byteEmpty empty)
      · have filled : ¬ call.data.isEmpty = true :=
          fun empty => Nat.ne_of_gt some (beq_iff_eq.mp empty)
        rw [if_pos some, Call.stopNear low, Sink.store, if_neg filled]
        exact (Sink.overwriteGrown bytes _ call.data).patched.congr fun i _ => Call.byteNear low i
    · refine ⟨bytes, trivial, ?_, ?_⟩
      · rcases Nat.lt_or_ge (place skip call.sector.toNat) UInt64.size with near | far
        · rw [writeNear near, if_pos near, if_neg (Nat.not_lt.mpr high)]
          simp only [Sink.writeAt, if_neg (Nat.not_lt.mpr high)]
        · rw [writeFar far, if_neg (Nat.not_lt.mpr far)]
      · rw [Call.stopFar high, ite_self]
        exact .idle bytes (Call.byteFar high)
  · rcases Nat.eq_zero_or_pos call.data.size with empty | some
    · exact Call.byteEmpty empty i
    · rw [if_pos some] at past
      exact Call.byteOutside (.inr past)

theorem fixedServes (skip : UInt64) (size : Nat) :
    Serves skip UInt64.size .fixed (·.size = size) (fun _ => 0)
      (fun call => call.answer skip (if call.data.size = 0 ∨
        place skip call.sector.toNat + call.data.size ≤ size then .ok ()
        else .error .writeZero)) := by
  refine ⟨fun bytes same call => ?_, fun _ _ _ _ further => absurd further (Nat.not_lt_zero _)⟩
  unfold Call.answer
  rcases Nat.lt_or_ge (place skip call.sector.toNat) UInt64.size with near | far
  · have wrote := writeNear near (.fixed bytes) call.data
    simp only [Sink.writeAt] at wrote
    rw [if_pos near, Nat.max_zero]
    rcases Nat.lt_or_ge (bytes.size - place skip call.sector.toNat) call.data.size with short | fits
    · obtain ⟨after, stored, fitted⟩ := Sink.writeFixedShort short
      rw [stored] at wrote
      rw [if_neg (by omega)]
      exact ⟨after, fitted.size.trans same, wrote,
        fitted.patched.congr fun i _ => Call.byteNear near i⟩
    · obtain ⟨after, stored, fitted⟩ := Sink.writeFixedWhole fits
      rw [stored] at wrote
      rw [if_pos (by omega)]
      exact ⟨after, fitted.size.trans same, wrote,
        fitted.patched.congr fun i _ => Call.byteNear near i⟩
  · rw [if_neg (Nat.not_lt.mpr far)]
    exact ⟨bytes, same, writeFar far _ _, .idle bytes (Call.byteFar far)⟩

/- Sinks that keep nothing; no address is below their limit, so no byte of a call is ever theirs. -/
theorem keeplessServes (skip : UInt64) {sink : Sink} (kept : sink = .discard ∨ sink = .full) :
    ∃ answer, Serves skip 0 (fun _ => sink) (fun _ => True) (fun _ => 0) answer := by
  refine ⟨fun call => call.answer skip (sink.writeAt (place skip call.sector.toNat) call.data).1,
    fun bytes _ call => ⟨bytes, trivial, ?_, .idle bytes (Call.byteFar (Nat.zero_le _))⟩,
    fun _ _ _ _ further => absurd further (Nat.not_lt_zero _)⟩
  unfold Call.answer
  have still : (sink.writeAt (place skip call.sector.toNat) call.data).2 = sink := by
    rcases kept with rfl | rfl <;> rfl
  rcases Nat.lt_or_ge (place skip call.sector.toNat) UInt64.size with near | far
  · rw [writeNear near, if_pos near, still]
  · rw [writeFar far, if_neg (Nat.not_lt.mpr far)]

theorem trySwap (sink : Sink) {a b : Call}
    (apart : ∀ limit i, a.byte? skip limit i = none ∨ b.byte? skip limit i = none) :
    ∃ left right last, Device.tryAll (⟨sink, skip⟩ : Window) [a, b] = ([left, right], last) ∧
      Device.tryAll (⟨sink, skip⟩ : Window) [b, a] = ([right, left], last) := by
  cases sink with
  | growing bytes => exact ⟨_, _, (growingServes skip).swap bytes trivial (apart _)⟩
  | fixed bytes => exact ⟨_, _, (fixedServes skip bytes.size).swap bytes rfl (apart _)⟩
  | file bytes => exact ⟨_, _, (fileServes skip).swap bytes trivial (apart _)⟩
  | discard =>
    obtain ⟨_, serves⟩ := keeplessServes skip (.inl rfl)
    exact ⟨_, _, serves.swap ByteArray.empty trivial (apart _)⟩
  | full =>
    obtain ⟨_, serves⟩ := keeplessServes skip (.inr rfl)
    exact ⟨_, _, serves.swap ByteArray.empty trivial (apart _)⟩

/- What a buffer of this length holds in the end, with the skipped bytes as they were. -/
structure Shows (skip : UInt64) (limit : Nat) (calls : List Call) (before : ByteArray)
    (length : Nat) (after : ByteArray) : Prop where
  patched : Sink.Patched before length (Call.lastByte? skip limit calls) after
  skipped : ∀ i < place skip 0, i < before.size → after.data[i]? = before.data[i]?

theorem showsOfPatched {calls : List Call} {before after : ByteArray} {length : Nat}
    (patched : Sink.Patched before length (Call.lastByte? skip limit calls) after)
    (least : before.size ≤ length) : Shows skip limit calls before length after := by
  refine ⟨patched, fun i low inside => ?_⟩
  obtain ⟨old, held⟩ := Sink.byteInside inside
  rw [patched.byte i (by omega), Call.lastByteSkipped low, held]
  rfl

end Window

open Window (place Shows)

end BootImage
