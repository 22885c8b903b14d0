import Mathlib
import BootImage.Proofs.Source.Delivery

/-!
Takes that fail. What a failed take had read until then is lost, and the count of what remains is
not lowered for it: later takes go beyond the declared size by as many bytes as were lost. That
happens to a stream just where its failure lies inside the declared size, behind its first byte.
-/
namespace BootImage

namespace Stream

theorem pieceGave {s after : Stream} {limit stop : Nat} {piece : ByteArray}
    (inside : stop ≤ s.content.size) (gave : s.piece limit stop = (.ok piece, after)) :
    after = { s with position := s.position + piece.size } ∧
      piece = s.content.extract s.position (s.position + piece.size) ∧
      piece.size = min (min (s.step s.position) limit) (stop - s.position) := by
  cases gave
  have size : (s.content.extract s.position (s.position +
      min (min (s.step s.position) limit) (stop - s.position))).size =
      min (min (s.step s.position) limit) (stop - s.position) := by
    rw [ByteArray.size_extract]
    omega
  rw [size]
  exact ⟨rfl, rfl, rfl⟩

theorem readGave {s after : Stream} {limit : Nat} {piece : ByteArray}
    (read : Reader.read s limit = (.ok piece, after)) :
    after = { s with position := s.position + piece.size } ∧
      piece = s.content.extract s.position (s.position + piece.size) ∧ piece.size ≤ limit := by
  change s.read limit = _ at read
  unfold Stream.read at read
  split at read
  · obtain ⟨moved, part, size⟩ := pieceGave (Nat.le_refl _) read
    exact ⟨moved, part, by omega⟩
  · split at read
    · cases read
    · obtain ⟨moved, part, size⟩ := pieceGave (Nat.min_le_right _ _) read
      exact ⟨moved, part, by omega⟩

theorem readFailed {s after : Stream} {limit : Nat} {e : IoError}
    (read : Reader.read s limit = (.error e, after)) :
    (∃ k, s.failure = some (k, e) ∧ k ≤ s.position) ∧ after = { s with failure := none } := by
  change s.read limit = _ at read
  unfold Stream.read at read
  split at read
  · cases read
  · rename_i k other pending
    split at read
    · rename_i reached
      cases read
      exact ⟨⟨k, pending, reached⟩, rfl⟩
    · cases read

/- The failure is still to come, and nothing but it ends a reading early. -/
structure Pending (k : Nat) (e : IoError) (s : Stream) : Prop where
  failure : s.failure = some (k, e)
  inside : k ≤ s.content.size
  positive : ∀ i, 0 < s.step i
  ahead : s.position ≤ k

theorem readAhead {k : Nat} {e : IoError} {s after : Stream} (pending : Pending k e s) {limit : Nat}
    (asked : 0 < limit) {piece : ByteArray} (read : Reader.read s limit = (.ok piece, after)) :
    0 < piece.size ∧ Pending k e after := by
  have moved := (readGave read).1
  change s.read limit = _ at read
  unfold Stream.read at read
  rw [pending.failure] at read
  split at read
  · rename_i none
    cases none
  · rename_i same
    cases same
    split at read
    · cases read
    · have inside := pending.inside
      have size := (pieceGave (Nat.min_le_right _ _) read).2.2
      have some := pending.positive s.position
      refine ⟨by omega, ?_⟩
      rw [moved]
      refine ⟨pending.failure, inside, pending.positive, ?_⟩
      change s.position + piece.size ≤ k
      omega

theorem gatherMoved (s : Stream) (wanted : Nat) (got : ByteArray)
    {answer : Except IoError ByteArray} {after : Stream}
    (gathered : Reader.gather s wanted got = (answer, after)) :
    (after.content = s.content ∧ s.position ≤ after.position ∧
      after.position ≤ s.position + wanted) ∧
      ∀ all, answer = .ok all → all = got ++ s.content.extract s.position after.position := by
  fun_induction Reader.gather s wanted got with
  | case1 s got =>
    cases gathered
    refine ⟨⟨rfl, Nat.le_refl _, Nat.le_refl _⟩, ?_⟩
    rintro all same
    cases same
    simp
  | case2 s wanted got some e middle read =>
    cases gathered
    obtain ⟨_, rfl⟩ := readFailed read
    exact ⟨⟨rfl, Nat.le_refl _, Nat.le_add_right _ _⟩, nofun⟩
  | case3 s wanted got some piece middle read ended =>
    cases gathered
    obtain ⟨rfl, _, few⟩ := readGave read
    have empty : piece.size = 0 := by omega
    rw [empty]
    refine ⟨⟨rfl, Nat.le_refl _, Nat.le_add_right _ _⟩, ?_⟩
    rintro all same
    cases same
    simp
  | case4 s wanted got some piece middle read more ih =>
    obtain ⟨rfl, part, few⟩ := readGave read
    obtain ⟨⟨same, forth, within⟩, gave⟩ := ih gathered
    simp only at same forth within gave
    refine ⟨⟨same, by omega, by omega⟩, ?_⟩
    intro all ok
    rw [gave all ok]
    nth_rewrite 1 [part]
    rw [ByteArray.append_assoc, ByteArray.extract_append_extract]
    simp [forth]

theorem gatherPending {k : Nat} {e : IoError} {s : Stream} (pending : Pending k e s) (wanted : Nat)
    (got : ByteArray) :
    (s.position + wanted ≤ k → ∃ all, Reader.gather s wanted got =
      (.ok all, { s with position := s.position + wanted })) ∧
    (k < s.position + wanted → Reader.gather s wanted got =
      (.error e, { s with position := k, failure := none })) := by
  have ahead := pending.ahead
  fun_induction Reader.gather s wanted got with
  | case1 s got => exact ⟨fun _ => ⟨got, rfl⟩, fun beyond => by omega⟩
  | case2 s wanted got some other middle read =>
    obtain ⟨⟨reached, same, before⟩, rfl⟩ := readFailed read
    cases pending.failure.symm.trans same
    have here : s.position = k := by omega
    refine ⟨fun _ => by omega, fun _ => ?_⟩
    rw [← here]
  | case3 s wanted got some piece middle read ended =>
    have positive := (readAhead pending (Nat.pos_of_ne_zero some) read).1
    have few := (readGave read).2.2
    omega
  | case4 s wanted got some piece middle read more ih =>
    have still := (readAhead pending (Nat.pos_of_ne_zero some) read).2
    obtain ⟨rfl, _, few⟩ := readGave read
    obtain ⟨whole, cut⟩ := ih still still.ahead
    have behind : s.position + piece.size + (wanted - piece.size) = s.position + wanted := by
      omega
    simp only [behind] at whole cut
    exact ⟨whole, cut⟩

theorem gatherSound {s : Stream} (sound : s.failure = none) (wanted : Nat) (got : ByteArray) :
    ∃ all after, Reader.gather s wanted got = (.ok all, after) ∧ after.failure = none := by
  fun_induction Reader.gather s wanted got with
  | case1 s got => exact ⟨got, s, rfl, sound⟩
  | case2 s wanted got some e middle read =>
    obtain ⟨⟨k, pending, _⟩, _⟩ := readFailed read
    cases sound.symm.trans pending
  | case3 s wanted got some piece middle read ended =>
    obtain ⟨rfl, _⟩ := readGave read
    exact ⟨got, _, rfl, sound⟩
  | case4 s wanted got some piece middle read more ih =>
    obtain ⟨rfl, _⟩ := readGave read
    exact ih sound

end Stream

namespace Source

/-- The source behind takes of these lengths, the failed ones among them. -/
def tried (s : Source Stream) (lengths : List Nat) : Source Stream :=
  lengths.foldl (fun s length => (s.take length).2) s

/-- What a take had read when it failed. -/
def loss (s : Source Stream) (length : Nat) : Nat :=
  match s.take length with
  | (.ok _, _) => 0
  | (.error _, after) => after.reader.position - s.reader.position

def lost (s : Source Stream) : List Nat → Nat
  | [] => 0
  | length :: lengths => s.loss length + lost (s.take length).2 lengths

theorem triedCons (s : Source Stream) (length : Nat) (lengths : List Nat) :
    s.tried (length :: lengths) = tried (s.take length).2 lengths := rfl

variable {s after : Source Stream}

theorem takeGave {length : Nat} {data : ByteArray} (taken : s.take length = (.ok data, after)) :
    after.reader.content = s.reader.content ∧ s.reader.position ≤ after.reader.position ∧
      after.reader.position + after.remaining.toNat ≤ s.reader.position + s.remaining.toNat ∧
      data = padded length
        (s.reader.content.extract s.reader.position after.reader.position) := by
  have left := remainingTaken s length
  rw [take] at taken
  split at taken
  · cases taken
  · rename_i got reader gathered
    cases taken
    obtain ⟨⟨same, forth, within⟩, gave⟩ := Stream.gatherMoved _ _ _ gathered
    refine ⟨same, forth, ?_, ?_⟩
    · simp only [left]
      omega
    · rw [gave _ rfl, ByteArray.empty_append]

theorem takeFailed {length : Nat} {e : IoError} (failed : s.take length = (.error e, after)) :
    after.reader.content = s.reader.content ∧ s.reader.position ≤ after.reader.position ∧
      after.remaining = s.remaining := by
  rw [take] at failed
  split at failed
  · rename_i e reader gathered
    cases failed
    obtain ⟨⟨same, forth, _⟩, _⟩ := Stream.gatherMoved _ _ _ gathered
    exact ⟨same, forth, rfl⟩
  · cases failed

theorem takeBounded (s : Source Stream) (length : Nat) :
    (s.take length).2.reader.content = s.reader.content ∧
      (s.take length).2.reader.position + (s.take length).2.remaining.toNat ≤
        s.reader.position + s.remaining.toNat + s.loss length := by
  unfold loss
  split
  · rename_i data after taken
    obtain ⟨same, _, within, _⟩ := takeGave taken
    rw [taken]
    exact ⟨same, within⟩
  · rename_i e after failed
    obtain ⟨same, forth, left⟩ := takeFailed failed
    rw [failed]
    refine ⟨same, ?_⟩
    simp only [left]
    omega

theorem triedBounded (s : Source Stream) (lengths : List Nat) :
    (s.tried lengths).reader.content = s.reader.content ∧
      (s.tried lengths).reader.position + (s.tried lengths).remaining.toNat ≤
        s.reader.position + s.remaining.toNat + s.lost lengths := by
  induction lengths generalizing s with
  | nil => exact ⟨rfl, Nat.le_refl _⟩
  | cons length lengths ih =>
    obtain ⟨same, within⟩ := takeBounded s length
    obtain ⟨kept, bounded⟩ := ih (s.take length).2
    rw [triedCons, lost]
    exact ⟨kept.trans same, by omega⟩

theorem lossTaken {length : Nat} {data : ByteArray} (taken : s.take length = (.ok data, after)) :
    s.loss length = 0 := by
  unfold loss
  rw [taken]

theorem lossFailed {length : Nat} {e : IoError} (failed : s.take length = (.error e, after)) :
    s.loss length = after.reader.position - s.reader.position := by
  unfold loss
  rw [failed]

theorem takeSound (sound : s.reader.failure = none) (length : Nat) :
    ∃ data after, s.take length = (.ok data, after) ∧ after.reader.failure = none := by
  obtain ⟨all, reader, gathered, still⟩ :=
    Stream.gatherSound sound (min length s.remaining.toNat) .empty
  rw [take]
  simp only [gathered]
  exact ⟨_, _, rfl, still⟩

theorem triedSound (sound : s.reader.failure = none) (lengths : List Nat) :
    (s.tried lengths).reader.failure = none ∧ s.lost lengths = 0 := by
  induction lengths generalizing s with
  | nil => exact ⟨sound, rfl⟩
  | cons length lengths ih =>
    obtain ⟨data, after, taken, still⟩ := takeSound sound length
    rw [triedCons, lost, lossTaken taken, taken, Nat.zero_add]
    exact ih still

/- As long as the failure is still to come, what was read and what remains are the declared size. -/
structure Unhurt (k : Nat) (e : IoError) (size : Nat) (s : Source Stream) : Prop where
  pending : s.reader.Pending k e
  whole : s.reader.position + s.remaining.toNat = size

theorem takeUnhurt {k size : Nat} {e : IoError} (unhurt : Unhurt k e size s) (length : Nat) :
    (s.reader.position + min length s.remaining.toNat ≤ k ∧
        ∃ data after, s.take length = (.ok data, after) ∧ Unhurt k e size after) ∨
      k < s.reader.position + min length s.remaining.toNat ∧
        ∃ after, s.take length = (.error e, after) ∧ after.reader.position = k ∧
          after.reader.failure = none := by
  obtain ⟨pending, whole⟩ := unhurt
  have left := remainingTaken s length
  obtain ⟨given, cut⟩ := Stream.gatherPending pending (min length s.remaining.toNat) .empty
  rw [take]
  rcases Nat.lt_or_ge k (s.reader.position + min length s.remaining.toNat) with beyond | within
  · simp only [cut beyond]
    exact .inr ⟨beyond, _, rfl, rfl, rfl⟩
  · obtain ⟨all, gathered⟩ := given within
    simp only [gathered]
    refine .inl ⟨within, _, _, rfl,
      ⟨pending.failure, pending.inside, pending.positive, within⟩, ?_⟩
    simp only [left]
    omega

theorem triedUnhurt {k size : Nat} {e : IoError} (unhurt : Unhurt k e size s)
    (lengths : List Nat) :
    Unhurt k e size (s.tried lengths) ∧ s.lost lengths = 0 ∨
      (s.tried lengths).reader.failure = none := by
  induction lengths generalizing s with
  | nil => exact .inl ⟨unhurt, rfl⟩
  | cons length lengths ih =>
    rw [triedCons]
    rcases takeUnhurt unhurt length with
      ⟨_, data, after, taken, still⟩ | ⟨_, after, failed, _, sound⟩
    · rw [lost, lossTaken taken, taken, Nat.zero_add]
      exact ih still
    · rw [failed]
      exact .inr (triedSound sound lengths).1

theorem unhurtMade {name : String} {size : UInt64} {content : ByteArray} {step : Nat → Nat}
    {failure : Option (Nat × IoError)}
    (made : make name size (Stream.make content step failure) = .ok s)
    (positive : ∀ i, 0 < step i) :
    (∃ k e, failure = some (k, e) ∧ k ≤ content.size ∧ Unhurt k e size.toNat s) ∨
      (∀ k e, failure = some (k, e) → content.size < k) ∧ s.reader.failure = none := by
  obtain ⟨reader, declared⟩ := makeFresh made
  rw [reader]
  match failure with
  | none => exact .inr ⟨nofun, rfl⟩
  | some (k, e) =>
    by_cases inside : k ≤ content.size
    · have kept : (Stream.make content step (some (k, e))).failure = some (k, e) := by
        simp [Stream.make, Option.filter, inside]
      refine .inl ⟨k, e, rfl, inside, ?_, ?_⟩
      · rw [reader]
        exact ⟨kept, inside, positive, Nat.zero_le k⟩
      · rw [reader, declared]
        exact Nat.zero_add _
    · refine .inr ⟨?_, by simp [Stream.make, Option.filter, inside]⟩
      rintro _ _ ⟨⟩
      omega

theorem lostSomewhere {lengths : List Nat} (some : 0 < s.lost lengths) :
    ∃ before length, 0 < (s.tried before).loss length := by
  induction lengths generalizing s with
  | nil => exact absurd some (Nat.lt_irrefl 0)
  | cons length lengths ih =>
    rw [lost] at some
    rcases Nat.eq_zero_or_pos (s.loss length) with none | here
    · obtain ⟨before, later, found⟩ := ih (s := (s.take length).2) (by omega)
      exact ⟨length :: before, later, found⟩
    · exact ⟨[], length, here⟩

theorem takeFailedMade {name : String} {size : UInt64} {content : ByteArray} {step : Nat → Nat}
    {failure : Option (Nat × IoError)}
    (made : make name size (Stream.make content step failure) = .ok s)
    (positive : ∀ i, 0 < step i) {lengths : List Nat} {length : Nat} {e : IoError}
    (failed : (s.tried lengths).take length = (.error e, after)) :
    s.lost lengths = 0 ∧ (s.tried lengths).reader.position ≤ after.reader.position ∧
      (s.tried lengths).reader.position + after.remaining.toNat = size.toNat ∧
      after.reader.position < size.toNat ∧ after.reader.position ≤ content.size ∧
      ∃ other, failure = some (after.reader.position, other) := by
  have sound : (s.tried lengths).reader.failure ≠ none := by
    intro none
    obtain ⟨_, _, taken, _⟩ := takeSound none length
    cases taken.symm.trans failed
  rcases unhurtMade made positive with ⟨k, other, pending, inside, fresh⟩ | ⟨_, never⟩
  · rcases triedUnhurt fresh lengths with ⟨unhurt, none⟩ | late
    · rcases takeUnhurt unhurt length with ⟨_, _, _, taken, _⟩ | ⟨beyond, _, again, stopped, _⟩
      · cases taken.symm.trans failed
      · cases again.symm.trans failed
        obtain ⟨_, forth, left⟩ := takeFailed failed
        have whole := unhurt.whole
        rw [left, stopped]
        exact ⟨none, stopped ▸ forth, whole, by omega, inside, _, pending⟩
    · exact absurd late sound
  · exact absurd (triedSound never lengths).1 sound

/- A take of the whole that is cut by the failure leaves as much to be taken as before. -/
theorem cutExceeds {name : String} {size : UInt64} {content : ByteArray} {step : Nat → Nat}
    {k : Nat} {e : IoError}
    (made : make name size (Stream.make content step (some (k, e))) = .ok s)
    (positive : ∀ i, 0 < step i) (started : k ≠ 0) (early : k < size.toNat)
    (inside : k ≤ content.size) :
    size.toNat < (s.tried [size.toNat]).reader.position +
      (s.tried [size.toNat]).remaining.toNat := by
  obtain ⟨reader, declared⟩ := makeFresh made
  have start : s.reader.position = 0 := by
    rw [reader]
    rfl
  rcases unhurtMade made positive with ⟨_, _, ⟨⟩, _, unhurt⟩ | ⟨outside, _⟩
  · rcases takeUnhurt unhurt size.toNat with ⟨within, _⟩ | ⟨_, after, failed, stopped, _⟩
    · omega
    · rw [triedCons, failed]
      change size.toNat < after.reader.position + after.remaining.toNat
      rw [(takeFailed failed).2.2]
      omega
  · have beyond := outside k e rfl
    omega

theorem harmlessLoses {name : String} {size : UInt64} {content : ByteArray} {step : Nat → Nat}
    {failure : Option (Nat × IoError)}
    (made : make name size (Stream.make content step failure) = .ok s)
    (positive : ∀ i, 0 < step i)
    (harmless : ∀ k e, failure = some (k, e) → k = 0 ∨ size.toNat ≤ k ∨ content.size < k)
    (lengths : List Nat) : s.lost lengths = 0 := by
  by_contra some
  obtain ⟨before, length, loss⟩ := lostSomewhere (Nat.pos_of_ne_zero some)
  unfold Source.loss at loss
  split at loss
  · omega
  · rename_i e after failed
    obtain ⟨_, _, _, small, inside, other, same⟩ := takeFailedMade made positive failed
    have outside := harmless _ _ same
    omega

/-- The declared size bounds what is read but for what failed takes have lost: as many bytes more
may be read, and it is kept whatever is taken just where the failure cannot cut a take in two. -/
theorem takesOverrun {name : String} {size : UInt64} {content : ByteArray} {step : Nat → Nat}
    {failure : Option (Nat × IoError)} {s : Source Stream}
    (made : make name size (Stream.make content step failure) = .ok s) :
    (∀ lengths current, s.tried lengths = current →
      current.reader.position + current.remaining.toNat ≤ size.toNat + s.lost lengths ∧
      (∀ length data after, current.take length = (.ok data, after) →
        data = padded length (content.extract current.reader.position after.reader.position) ∧
          after.reader.position ≤ size.toNat + s.lost lengths) ∧
      ((∀ i, 0 < step i) → ∀ length e after, current.take length = (.error e, after) →
        s.lost lengths = 0 ∧ after.reader.position + after.remaining.toNat =
          size.toNat + current.loss length)) ∧
    ((∀ i, 0 < step i) →
      ((∀ lengths, (s.tried lengths).reader.position + (s.tried lengths).remaining.toNat ≤
          size.toNat) ↔
        ∀ k e, failure = some (k, e) → k = 0 ∨ size.toNat ≤ k ∨ content.size < k)) := by
  obtain ⟨reader, declared⟩ := makeFresh made
  have start : s.reader.position = 0 := by
    rw [reader]
    rfl
  have bounded := triedBounded s
  rw [start, declared, Nat.zero_add] at bounded
  refine ⟨?runs, fun positive => ⟨?cut, ?kept⟩⟩
  case runs =>
    rintro lengths _ rfl
    obtain ⟨same, limit⟩ := bounded lengths
    refine ⟨limit, ?given, ?failed⟩
    case given =>
      intro length data after taken
      obtain ⟨_, _, within, part⟩ := takeGave taken
      rw [same, reader] at part
      exact ⟨part, by omega⟩
    case failed =>
      intro positive length e after failed
      obtain ⟨none, forth, whole, _⟩ := takeFailedMade made positive failed
      have loss := lossFailed failed
      exact ⟨none, by omega⟩
  case cut =>
    rintro keeps k e rfl
    by_contra inside
    have within := keeps [size.toNat]
    have exceeds := cutExceeds made positive (by omega) (by omega) (by omega)
    omega
  case kept =>
    intro harmless lengths
    have none := harmlessLoses made positive harmless lengths
    have limit := (bounded lengths).2
    omega

/- Four bytes are declared and two are lost, so that all six are read. -/
theorem takesOverrunSix : ∃ s after last : Source Stream,
    make "a" 4 (Stream.make ⟨#[1, 2, 3, 4, 5, 6]⟩ (fun _ => 1)
      (some (3, ⟨.other, "source failed"⟩))) = .ok s ∧
    (s.tried [1]).take 3 = (.error ⟨.other, "source failed"⟩, after) ∧
    after.reader.position + after.remaining.toNat = 4 + (s.tried [1]).loss 3 ∧
    (s.tried [1]).loss 3 = 2 ∧
    (s.tried [1, 3]).take 9 = (.ok (padded 9 ⟨#[4, 5, 6]⟩), last) ∧
    last.reader.position ≤ 4 + s.lost [1, 3] ∧
    ¬ ∀ lengths, (s.tried lengths).reader.position + (s.tried lengths).remaining.toNat ≤ 4 := by
  obtain ⟨s, made, failed, given, loss⟩ : ∃ s, make "a" 4 (Stream.make ⟨#[1, 2, 3, 4, 5, 6]⟩
        (fun _ => 1) (some (3, ⟨.other, "source failed"⟩))) = .ok s ∧
      ((s.tried [1]).take 3).1 = .error ⟨.other, "source failed"⟩ ∧
      ((s.tried [1, 3]).take 9).1 = .ok (padded 9 ⟨#[4, 5, 6]⟩) ∧ (s.tried [1]).loss 3 = 2 := by
    obtain ⟨entry, made⟩ : ∃ entry, make "a" 4 (Stream.make ⟨#[1, 2, 3, 4, 5, 6]⟩ (fun _ => 1)
        (some (3, ⟨.other, "source failed"⟩))) = .ok ⟨entry, Stream.make ⟨#[1, 2, 3, 4, 5, 6]⟩
          (fun _ => 1) (some (3, ⟨.other, "source failed"⟩)), 4⟩ := ⟨_, rfl⟩
    exact ⟨_, made, by cbv, by cbv, by cbv⟩
  have positive : ∀ i : Nat, 0 < (fun _ => 1) i := fun _ => Nat.one_pos
  have cut : ¬ ∀ k e, some (3, (⟨.other, "source failed"⟩ : IoError)) = some (k, e) →
      k = 0 ∨ (4 : UInt64).toNat ≤ k ∨ (⟨#[1, 2, 3, 4, 5, 6]⟩ : ByteArray).size < k :=
    fun outside => absurd (outside 3 _ rfl) (by decide)
  obtain ⟨runs, keeping⟩ := takesOverrun made
  obtain ⟨_, _, fails⟩ := runs [1] _ rfl
  obtain ⟨_, gives, _⟩ := runs [1, 3] _ rfl
  have stopped : (s.tried [1]).take 3 =
      (.error ⟨.other, "source failed"⟩, ((s.tried [1]).take 3).2) := Prod.ext failed rfl
  have more : (s.tried [1, 3]).take 9 =
      (.ok (padded 9 ⟨#[4, 5, 6]⟩), ((s.tried [1, 3]).take 9).2) := Prod.ext given rfl
  exact ⟨s, _, _, made, stopped, (fails positive _ _ _ stopped).2, loss, more,
    (gives _ _ _ more).2, fun keeps => cut ((keeping positive).mp keeps)⟩

/- Two bytes are declared; with the first one lost, the third byte is given out. -/
theorem declaredPassed : ∃ s first second : Source Stream,
    make "a" 2 (Stream.make ⟨#[97, 0, 99, 100]⟩ (fun _ => 1)
      (some (1, ⟨.other, "source failed"⟩))) = .ok s ∧
    s.take 2 = (.error ⟨.other, "source failed"⟩, first) ∧
    2 < first.reader.position + first.remaining.toNat ∧
    first.take 2 = (.ok ⟨#[0, 99]⟩, second) ∧ second.reader.position = 3 := by
  obtain ⟨entry, made⟩ : ∃ entry, make "a" 2 (Stream.make ⟨#[97, 0, 99, 100]⟩ (fun _ => 1)
      (some (1, ⟨.other, "source failed"⟩))) = .ok ⟨entry, Stream.make ⟨#[97, 0, 99, 100]⟩
        (fun _ => 1) (some (1, ⟨.other, "source failed"⟩)), 2⟩ := ⟨_, rfl⟩
  exact ⟨_, _, _, made, Prod.ext (by cbv) rfl, by cbv, Prod.ext (by cbv) rfl, by cbv⟩

end Source

end BootImage
