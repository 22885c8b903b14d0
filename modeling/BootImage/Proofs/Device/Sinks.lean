import Mathlib
import BootImage.Device
import BootImage.Proofs.Device

/-!
What a run of calls leaves in a buffer behind a window. A buffer that grows holds the bytes of the
calls one after another and is longer by no more than they need; one of a fixed size holds the same
bytes as far as it reaches. Every other byte is as it was before.
-/
namespace BootImage

namespace Sink

/- Zeros lie between the old end and the region where there was a gap. -/
structure Grown (before : ByteArray) (start : Nat) (region : List UInt8) (after : ByteArray) :
    Prop where
  size : after.size = max before.size (start + region.length)
  below : ∀ i < start, after.data[i]? = some ((before.data[i]?).getD 0)
  inside : ∀ i < region.length, after.data[start + i]? = region[i]?
  beyond : ∀ i, start + region.length ≤ i → after.data[i]? = before.data[i]?

structure Fitted (before : ByteArray) (start : Nat) (region : List UInt8) (after : ByteArray) :
    Prop where
  size : after.size = before.size
  outside : ∀ i, i < start ∨ start + region.length ≤ i → after.data[i]? = before.data[i]?
  inside : ∀ i < region.length, start + i < before.size → after.data[start + i]? = region[i]?

/- The sinks that grow: what they answer does not depend on what they hold. -/
inductive Grows : (ByteArray → Sink) → Prop
  | buffer : Grows .growing
  | file : Grows .file

/- A sink that takes and keeps whatever is written up to a position. -/
def Reaches (sink : Sink) (stop : Nat) : Prop :=
  match sink with
  | .growing _ => stop ≤ UInt64.size
  | .fixed bytes => stop ≤ min bytes.size UInt64.size
  | .file _ => stop ≤ positionLimit
  | .discard | .full => False

variable {before middle after : ByteArray} {start : Nat} {front back : List UInt8}

theorem overwriteBytes (bytes : ByteArray) (offset : Nat) (data : ByteArray) :
    (overwrite bytes offset data).data.toList =
      (padded offset bytes).data.toList.take offset ++ data.data.toList ++
        (padded offset bytes).data.toList.drop (offset + data.size) := by
  unfold overwrite
  rw [ByteArray.copySlice_eq_append]
  simp

theorem overwriteGrown (bytes : ByteArray) (offset : Nat) (data : ByteArray) :
    Grown bytes offset data.data.toList (overwrite bytes offset data) := by
  have written := overwriteBytes bytes offset data
  have held := paddedLength offset bytes
  have front : ((padded offset bytes).data.toList.take offset).length = offset := by
    rw [List.length_take]
    omega
  have length := listLength data
  refine ⟨?size, ?below, ?inside, ?beyond⟩
  case size =>
    have sum := congrArg List.length written
    rw [listLength, List.length_append, List.length_append, front, List.length_drop] at sum
    omega
  all_goals
    intro i place
    rw [← Array.getElem?_toList, written, List.append_assoc]
  case below =>
    rw [List.getElem?_append_left (by omega), List.getElem?_take_of_lt place, paddedBelow place]
  case inside =>
    rw [List.getElem?_append_right (by omega), front, Nat.add_sub_cancel_left,
      List.getElem?_append_left place]
  case beyond =>
    rw [List.getElem?_append_right (by omega), front, List.getElem?_append_right (by omega),
      List.getElem?_drop, ← paddedBeyond (Nat.le_of_add_right_le place)]
    congr 1
    omega

namespace Grown

theorem none (reached : start ≤ before.size) : Grown before start [] before := by
  refine ⟨by rw [List.length_nil]; omega, ?_, by simp, fun _ _ => rfl⟩
  intro i low
  rw [Array.getElem?_eq_getElem (Nat.lt_of_lt_of_le low reached)]
  rfl

theorem append (first : Grown before start front middle)
    (second : Grown middle (start + front.length) back after) :
    Grown before start (front ++ back) after := by
  refine ⟨?size, ?below, ?inside, ?beyond⟩
  case size =>
    rw [second.size, first.size, List.length_append]
    omega
  case below =>
    intro i low
    rw [second.below i (Nat.lt_add_right _ low), first.below i low]
    rfl
  case inside =>
    intro i inside
    rw [List.length_append] at inside
    rcases Nat.lt_or_ge i front.length with early | late
    · rw [second.below _ (Nat.add_lt_add_left early _), first.inside i early,
        List.getElem?_append_left early, List.getElem?_eq_getElem early]
      rfl
    · have here := second.inside (i - front.length) (by omega)
      rw [List.getElem?_append_right late, ← here]
      congr 1
      omega
  case beyond =>
    intro i past
    rw [List.length_append] at past
    rw [second.beyond i (by omega), first.beyond i (by omega)]

theorem fitted (grown : Grown before start front after)
    (fits : start + front.length ≤ before.size) : Fitted before start front after := by
  refine ⟨by rw [grown.size]; omega, ?_, fun i inside _ => grown.inside i inside⟩
  rintro i (low | past)
  · rw [grown.below i low, Array.getElem?_eq_getElem (by rw [ByteArray.size_data]; omega)]
    rfl
  · exact grown.beyond i past

theorem holds (grown : Grown before start front after) {i : Nat} (least : start ≤ i)
    (most : i < start + front.length) : after.data[i]? = front[i - start]? := by
  have here := grown.inside (i - start) (by omega)
  rwa [Nat.add_sub_cancel' least] at here

theorem shown (grown : Grown before start front after) :
    front <+: after.data.toList.drop start := by
  apply List.prefix_iff_getElem?.mpr
  intro i inside
  rw [List.getElem?_drop, Array.getElem?_toList, grown.inside i inside,
    List.getElem?_eq_getElem inside]

end Grown

namespace Fitted

theorem none (bytes : ByteArray) (start : Nat) : Fitted bytes start [] bytes :=
  ⟨rfl, fun _ _ => rfl, by simp⟩

theorem append (first : Fitted before start front middle)
    (second : Fitted middle (start + front.length) back after) :
    Fitted before start (front ++ back) after := by
  refine ⟨second.size.trans first.size, ?outside, ?inside⟩
  case outside =>
    intro i apart
    rw [List.length_append] at apart
    rw [second.outside i (by omega), first.outside i (by omega)]
  case inside =>
    intro i inside held
    rw [List.length_append] at inside
    rcases Nat.lt_or_ge i front.length with early | late
    · rw [second.outside _ (.inl (Nat.add_lt_add_left early _)), first.inside i early held,
        List.getElem?_append_left early]
    · have here := second.inside (i - front.length) (by omega) (by rw [first.size]; omega)
      rw [List.getElem?_append_right late, ← here]
      congr 1
      omega

/- Behind the end nothing shows, whatever was meant to go there. -/
theorem extend (fitted : Fitted before start front after)
    (full : before.size ≤ start + front.length) (more : List UInt8) :
    Fitted before start (front ++ more) after := by
  refine ⟨fitted.size, ?outside, ?inside⟩
  case outside =>
    intro i apart
    rw [List.length_append] at apart
    exact fitted.outside i (by omega)
  case inside =>
    intro i _ held
    have early : i < front.length := by omega
    rw [fitted.inside i early held, List.getElem?_append_left early]

theorem holds (fitted : Fitted before start front after) {i : Nat} (least : start ≤ i)
    (most : i < start + front.length) (room : i < before.size) :
    after.data[i]? = front[i - start]? := by
  have back : start + (i - start) = i := Nat.add_sub_cancel' least
  have here := fitted.inside (i - start) (by omega) (by rwa [back])
  rwa [back] at here

end Fitted

theorem storeFitted {bytes data : ByteArray} {offset : Nat}
    (fits : data.size ≤ bytes.size - offset) :
    Fitted bytes offset data.data.toList (store bytes offset data) := by
  unfold store
  split
  · rename_i empty
    have nothing : data.data.toList = [] :=
      List.eq_nil_of_length_eq_zero ((listLength data).trans (eq_of_beq empty))
    rw [nothing]
    exact .none bytes offset
  · rename_i some
    have positive : data.size ≠ 0 := fun empty => some (beq_iff_eq.mpr empty)
    exact (overwriteGrown bytes offset data).fitted (by rw [listLength]; omega)

/- What a sink that keeps anything holds after taking data is what one that grows would hold. -/
theorem writeKept {sink after : Sink} {offset : Nat} {data : ByteArray} (some : 0 < data.size)
    (kept : sink ≠ .discard) (wrote : sink.writeAt offset data = (.ok (), after)) :
    after.bytes = overwrite sink.bytes offset data ∧ after ≠ .discard := by
  have filled : data.isEmpty = false := beq_eq_false_iff_ne.mpr (Nat.ne_of_gt some)
  cases sink with
  | growing bytes =>
    cases wrote
    exact ⟨rfl, nofun⟩
  | fixed bytes =>
    simp only [writeAt, writeFixed] at wrote
    split at wrote
    · cases wrote
      simp [Sink.bytes, store, filled]
    · cases wrote
  | file bytes =>
    simp only [writeAt] at wrote
    split at wrote
    · cases wrote
      simp [Sink.bytes, store, filled]
    · cases wrote
  | discard => exact absurd rfl kept
  | full =>
    simp only [writeAt, filled] at wrote
    cases wrote

namespace Grows

variable {sink : ByteArray → Sink} (grows : Grows sink)

include grows

theorem keeps (bytes : ByteArray) : sink bytes ≠ .discard ∧ (sink bytes).bytes = bytes := by
  cases grows <;> exact ⟨nofun, rfl⟩

theorem write (left right : ByteArray) (offset : Nat) (data : ByteArray) : ∃ answer after other,
    (sink left).writeAt offset data = (answer, sink after) ∧
      (sink right).writeAt offset data = (answer, sink other) := by
  cases grows with
  | buffer => exact ⟨.ok (), _, _, rfl, rfl⟩
  | file =>
    simp only [writeAt]
    split
    · exact ⟨.ok (), _, _, rfl, rfl⟩
    · exact ⟨.error .invalidArgument, _, _, rfl, rfl⟩

theorem reaches (bytes : ByteArray) {stop : Nat} (low : stop ≤ positionLimit) :
    (sink bytes).Reaches stop := by
  cases grows with
  | buffer => exact low.trans (by decide)
  | file => exact low

end Grows

theorem writeFixedWhole {bytes data : ByteArray} {offset : Nat}
    (fits : data.size ≤ bytes.size - offset) :
    ∃ after, writeFixed bytes offset data = (.ok (), after) ∧
      Fitted bytes offset data.data.toList after := by
  refine ⟨store bytes offset data, ?_, storeFitted fits⟩
  unfold writeFixed
  rw [if_pos fits]

theorem writeFixedShort {bytes data : ByteArray} {offset : Nat}
    (short : bytes.size - offset < data.size) :
    ∃ after, writeFixed bytes offset data = (.error .writeZero, after) ∧
      Fitted bytes offset data.data.toList after := by
  have part := extractBytes data 0 (bytes.size - offset)
  have size : (data.extract 0 (bytes.size - offset)).size = bytes.size - offset := by
    rw [ByteArray.size_extract]
    omega
  have stored : Fitted bytes offset _ (store bytes offset (data.extract 0 (bytes.size - offset))) :=
    storeFitted (Nat.le_of_eq size)
  have whole : data.data.toList = (data.extract 0 (bytes.size - offset)).data.toList ++
      data.data.toList.drop (bytes.size - offset) := by
    rw [part, List.drop_zero, List.take_append_drop]
  refine ⟨store bytes offset (data.extract 0 (bytes.size - offset)), ?_, ?_⟩
  · unfold writeFixed
    rw [if_neg (Nat.not_le.mpr short)]
  · rw [whole]
    exact stored.extend (by rw [listLength, size]; omega) _

end Sink

namespace Window

variable {skip : UInt64}

def place (skip : UInt64) (sector : Nat) : Nat := (skip.toNat + sector) * sectorSize

theorem placeLater (skip : UInt64) (sector count : Nat) :
    place skip (sector + count) = place skip sector + count * sectorSize := by
  unfold place
  ring

theorem placeMono (skip : UInt64) {first second : Nat} (ordered : first ≤ second) :
    place skip first ≤ place skip second :=
  Nat.mul_le_mul_right _ (Nat.add_le_add_left ordered _)

theorem placeBefore (skip : UInt64) {first second : Nat} (ordered : first < second) :
    place skip first < place skip second :=
  Nat.mul_lt_mul_of_pos_right (Nat.add_lt_add_left ordered _) Nat.succ_pos'

theorem writeNear {sector : UInt64} (near : place skip sector.toNat < UInt64.size) (sink : Sink)
    (data : ByteArray) : Device.write (⟨sink, skip⟩ : Window) sector data =
      ((sink.writeAt (place skip sector.toNat) data).1,
        ⟨(sink.writeAt (place skip sector.toNat) data).2, skip⟩) := by
  have exact : (UInt64.ofNat (place skip sector.toNat)).toNat = place skip sector.toNat := by
    rw [UInt64.toNat_ofNat', Nat.mod_eq_of_lt near]
  unfold place at near exact
  simp only [Device.write, write, byteOffset, if_pos near, exact]
  rfl

theorem writeFar {sector : UInt64} (far : UInt64.size ≤ place skip sector.toNat) (sink : Sink)
    (data : ByteArray) : Device.write (⟨sink, skip⟩ : Window) sector data =
      (.error (.unaddressable skip sector), ⟨sink, skip⟩) := by
  unfold place at far
  simp only [Device.write, write, byteOffset, if_neg (Nat.not_lt.mpr far)]

theorem growingAccepts {start stop : Nat} {calls : List Call} (run : Call.Run start calls stop)
    {bytes : ByteArray} {last : Window}
    (accepts : Device.Accepts (⟨.growing bytes, skip⟩ : Window) calls last)
    (some : start < stop ∨ place skip start ≤ bytes.size) :
    ∃ after, last = ⟨.growing after, skip⟩ ∧
      Sink.Grown bytes (place skip start) (Call.joined calls) after := by
  induction run generalizing bytes with
  | done =>
    cases accepts with
    | done => exact ⟨bytes, rfl, .none (some.resolve_left (Nat.lt_irrefl _))⟩
  | @call start call calls stop count here positive whole later ih =>
    cases accepts with
    | call wrote accepts =>
      rcases Nat.lt_or_ge (place skip call.sector.toNat) UInt64.size with near | far
      · rw [writeNear near] at wrote
        cases wrote
        have first := Sink.overwriteGrown bytes (place skip call.sector.toNat) call.data
        rw [here] at first
        have behind : place skip (start + count) =
            place skip start + call.data.data.toList.length := by
          rw [placeLater, listLength, whole]
        obtain ⟨after, rfl, rest⟩ :=
          ih accepts (.inr (by rw [here, behind, first.size]; exact Nat.le_max_right ..))
        rw [behind, here] at rest
        exact ⟨after, rfl, Call.joinedCons call calls ▸ first.append rest⟩
      · rw [writeFar far] at wrote
        cases wrote

theorem growingShown {start stop : Nat} {calls : List Call} (run : Call.Run start calls stop)
    {bytes : ByteArray} {last : Window}
    (accepts : Device.Accepts (⟨.growing bytes, skip⟩ : Window) calls last) :
    ∃ after, last = ⟨.growing after, skip⟩ ∧
      Call.joined calls <+: after.data.toList.drop (place skip start) := by
  cases run with
  | done =>
    cases accepts with
    | done => exact ⟨bytes, rfl, List.nil_prefix⟩
  | call count here positive whole later =>
    have ends := later.ordered
    obtain ⟨after, same, grown⟩ :=
      growingAccepts (.call count here positive whole later) accepts (.inl (by omega))
    exact ⟨after, same, grown.shown⟩

theorem growingKept {start stop : Nat} {calls : List Call} (run : Call.Run start calls stop)
    {sink : Sink} (kept : sink ≠ .discard) {last : Window}
    (accepts : Device.Accepts (⟨sink, skip⟩ : Window) calls last) :
    Device.Accepts (⟨.growing sink.bytes, skip⟩ : Window) calls
      ⟨.growing last.sink.bytes, skip⟩ := by
  induction run generalizing sink with
  | done =>
    cases accepts
    exact .done
  | @call start call calls stop count here positive whole later ih =>
    cases accepts with
    | call wrote rest =>
      have some : 0 < call.data.size := whole ▸ Nat.mul_pos positive Nat.succ_pos'
      rcases Nat.lt_or_ge (place skip call.sector.toNat) UInt64.size with near | far
      · rw [writeNear near, Prod.mk.injEq] at wrote
        obtain ⟨taken, rfl⟩ := wrote
        obtain ⟨same, still⟩ := Sink.writeKept some kept (Prod.ext taken rfl)
        have grew := ih still rest
        rw [same] at grew
        exact .call (writeNear near (.growing sink.bytes) call.data) grew
      · rw [writeFar far] at wrote
        cases wrote

theorem growingRefuses {start stop : Nat} {calls : List Call} (run : Call.Run start calls stop)
    {bytes : ByteArray} {count : Nat} {e : IoError} {last : Window}
    (refuses : Device.Refuses (⟨.growing bytes, skip⟩ : Window) calls count e last) :
    UInt64.size < place skip stop := by
  induction run generalizing bytes count with
  | done => cases refuses
  | @call start call calls stop length here positive whole later ih =>
    rcases Nat.lt_or_ge (place skip call.sector.toNat) UInt64.size with near | far
    · cases refuses with
      | here refused =>
        rw [writeNear near] at refused
        cases refused
      | later wrote rest =>
        rw [writeNear near] at wrote
        cases wrote
        exact ih rest
    · have ends := later.ordered
      have past : place skip call.sector.toNat < place skip stop := placeBefore skip (by omega)
      exact Nat.lt_of_le_of_lt far past

theorem growsAlike {sink : ByteArray → Sink} (grows : Sink.Grows sink) {left : ByteArray}
    {calls : List Call} {last : Window}
    (accepts : Device.Accepts (⟨sink left, skip⟩ : Window) calls last) (right : ByteArray) :
    ∃ after other, last = ⟨sink after, skip⟩ ∧
      Device.Accepts (⟨sink right, skip⟩ : Window) calls ⟨sink other, skip⟩ := by
  induction calls generalizing left right with
  | nil =>
    cases accepts
    exact ⟨left, right, rfl, .done⟩
  | cons call calls ih =>
    cases accepts with
    | call wrote later =>
      rcases Nat.lt_or_ge (place skip call.sector.toNat) UInt64.size with near | far
      · obtain ⟨answer, _, grown, one, two⟩ :=
          grows.write left right (place skip call.sector.toNat) call.data
        have again := writeNear near (sink right) call.data
        rw [writeNear near, one] at wrote
        rw [two] at again
        cases wrote
        obtain ⟨after, other, same, rest⟩ := ih later grown
        exact ⟨after, other, same, .call again rest⟩
      · rw [writeFar far] at wrote
        cases wrote

theorem growsAccepts {start stop : Nat} {calls : List Call} (run : Call.Run start calls stop)
    {sink : ByteArray → Sink} (grows : Sink.Grows sink) {bytes : ByteArray} {last : Window}
    (accepts : Device.Accepts (⟨sink bytes, skip⟩ : Window) calls last)
    (some : start < stop ∨ place skip start ≤ bytes.size) :
    ∃ after, last = ⟨sink after, skip⟩ ∧
      Sink.Grown bytes (place skip start) (Call.joined calls) after := by
  obtain ⟨kept, held⟩ := grows.keeps bytes
  obtain ⟨after, _, rfl, _⟩ := growsAlike grows accepts bytes
  have grew := growingKept run kept accepts
  rw [held, (grows.keeps after).2] at grew
  obtain ⟨_, same, grown⟩ := growingAccepts run grew some
  cases same
  exact ⟨after, rfl, grown⟩

theorem placeEnds {start stop : Nat} {calls : List Call} (run : Call.Run start calls stop) :
    place skip start + (Call.joined calls).length = place skip stop := by
  have length := run.length
  unfold place
  rw [Nat.add_mul, Nat.add_mul]
  omega

theorem fileAccepts {start stop : Nat} {calls : List Call} (run : Call.Run start calls stop)
    (low : place skip stop ≤ positionLimit) (bytes : ByteArray) :
    ∃ last, Device.Accepts (⟨.file bytes, skip⟩ : Window) calls last := by
  induction run generalizing bytes with
  | done => exact ⟨_, .done⟩
  | @call start call calls stop count here positive whole later ih =>
    have ends := later.ordered
    have before : place skip call.sector.toNat < place skip stop := placeBefore skip (by omega)
    have bound : positionLimit < UInt64.size := by decide
    have wrote := writeNear (Nat.lt_trans (Nat.lt_of_lt_of_le before low) bound)
      (.file bytes) call.data
    simp only [Sink.writeAt, if_pos (Nat.lt_of_lt_of_le before low)] at wrote
    obtain ⟨last, rest⟩ := ih low _
    exact ⟨last, .call wrote rest⟩

/- In a file that reaches to the end of the calls none of them adds a byte. -/
theorem fileSteady {start stop : Nat} {calls : List Call} (run : Call.Run start calls stop)
    {bytes : ByteArray} {last : Window}
    (accepts : Device.Accepts (⟨.file bytes, skip⟩ : Window) calls last)
    (room : place skip stop ≤ bytes.size) (count : Nat) : ∃ now,
      Device.Accepts (⟨.file bytes, skip⟩ : Window) (calls.take count) ⟨.file now, skip⟩ ∧
        now.size = bytes.size := by
  rw [← List.take_append_drop count calls] at run accepts
  obtain ⟨middle, first, second⟩ := run.split
  obtain ⟨_, front, _⟩ := accepts.split
  have starts : place skip start ≤ place skip middle := placeMono skip first.ordered
  have stops : place skip middle ≤ place skip stop := placeMono skip second.ordered
  obtain ⟨now, rfl, grown⟩ := growsAccepts first .file front (.inr (by omega))
  refine ⟨now, front, ?_⟩
  rw [grown.size, placeEnds first]
  omega

/- Only places up to the end of the buffer have to be addressable: behind it no call is made. -/
theorem fixedRun {start stop : Nat} {calls : List Call} (run : Call.Run start calls stop)
    {bytes : ByteArray}
    (reach : ∀ sector, start ≤ sector → sector < stop →
      place skip sector ≤ max (place skip start) bytes.size → place skip sector < UInt64.size)
    (some : start < stop ∨ place skip start ≤ bytes.size) :
    ∃ after, Sink.Fitted bytes (place skip start) (Call.joined calls) after ∧
      ((place skip stop ≤ bytes.size ∧
        Device.Accepts (⟨.fixed bytes, skip⟩ : Window) calls ⟨.fixed after, skip⟩) ∨
      (bytes.size < place skip stop ∧ ∃ count,
        Device.Refuses (⟨.fixed bytes, skip⟩ : Window) calls count .writeZero
          ⟨.fixed after, skip⟩)) := by
  induction run generalizing bytes with
  | done =>
    exact ⟨bytes, .none bytes _, .inl ⟨some.resolve_left (Nat.lt_irrefl _), .done⟩⟩
  | @call start call calls stop count here positive whole later ih =>
    have ends := later.ordered
    have behind : place skip (start + count) =
        place skip start + call.data.data.toList.length := by
      rw [placeLater, listLength, whole]
    have near : place skip call.sector.toNat < UInt64.size := by
      rw [here]
      exact reach start (Nat.le_refl _) (by omega) (Nat.le_max_left ..)
    have wrote := writeNear near (.fixed bytes) call.data
    simp only [Sink.writeAt, here] at wrote
    rcases Nat.lt_or_ge (bytes.size - place skip start) call.data.size with short | fits
    · obtain ⟨after, stored, fitted⟩ := Sink.writeFixedShort short
      rw [stored] at wrote
      have past : place skip (start + count) ≤ place skip stop := placeMono skip ends
      refine ⟨after, Call.joinedCons call calls ▸ fitted.extend (by rw [listLength]; omega) _, .inr
        ⟨?_, 0, .here wrote⟩⟩
      rw [listLength] at behind
      omega
    · obtain ⟨middle, stored, first⟩ := Sink.writeFixedWhole fits
      rw [stored] at wrote
      have held : place skip (start + count) ≤ middle.size := by
        have data : 0 < call.data.size := whole ▸ Nat.mul_pos positive Nat.succ_pos'
        rw [first.size, behind, listLength]
        omega
      have near : ∀ sector, start + count ≤ sector → sector < stop →
          place skip sector ≤ max (place skip (start + count)) middle.size →
          place skip sector < UInt64.size := by
        intro sector least most low
        rw [Nat.max_eq_right held, first.size] at low
        exact reach sector (by omega) most (Nat.le_trans low (Nat.le_max_right ..))
      obtain ⟨after, second, outcome⟩ := ih near (.inr held)
      rw [behind] at second
      refine ⟨after, Call.joinedCons call calls ▸ first.append second, ?_⟩
      rw [first.size] at outcome
      rcases outcome with ⟨whole, accepts⟩ | ⟨short, tried, refuses⟩
      · exact .inl ⟨whole, .call wrote accepts⟩
      · exact .inr ⟨short, tried + 1, .later wrote refuses⟩

theorem reachesAccepts {start stop : Nat} {calls : List Call} (run : Call.Run start calls stop)
    (some : start < stop) {w : Window} (reaches : w.sink.Reaches (place w.skip stop)) :
    w.sink ≠ .discard ∧ ∃ last, Device.Accepts w calls last := by
  obtain ⟨sink, skip⟩ := w
  cases sink with
  | growing bytes =>
    refine ⟨nofun, ?_⟩
    rcases Device.acceptsOrRefuses (⟨.growing bytes, skip⟩ : Window) calls with
      accepts | ⟨count, e, last, refuses⟩
    · exact accepts
    · exact absurd reaches (Nat.not_le.mpr (growingRefuses run refuses))
  | fixed bytes =>
    refine ⟨nofun, ?_⟩
    obtain ⟨room, near⟩ := le_min_iff.mp reaches
    have reach : ∀ sector, start ≤ sector → sector < stop →
        place skip sector ≤ max (place skip start) bytes.size →
        place skip sector < UInt64.size := by
      intro sector _ before _
      exact Nat.lt_of_lt_of_le (placeBefore skip before) near
    obtain ⟨after, _, ⟨_, accepts⟩ | ⟨short, _⟩⟩ := fixedRun run reach (.inl some)
    · exact ⟨_, accepts⟩
    · exact absurd room (Nat.not_le.mpr short)
  | file bytes => exact ⟨nofun, fileAccepts run reaches bytes⟩
  | discard | full => exact reaches.elim

end Window

end BootImage
