import Mathlib
import BootImage.Proofs.Image.Decoding
import BootImage.Random

/-!
The calls of a finished run. Block by block they cover the sectors of the region once and in
ascending order; a free run is its header and then zeros, as many sectors in a call as a batch has.
-/
namespace BootImage

def Call.sectors (call : Call) : List Nat :=
  List.range' call.sector.toNat (call.data.size / sectorSize)

theorem Call.Run.sectors {start stop : Nat} {calls : List Call} (run : Run start calls stop) :
    calls.flatMap Call.sectors = List.range' start (stop - start) := by
  induction run with
  | done => simp
  | @call start call calls stop count here some whole later ih =>
    have ends := later.ordered
    have own : call.sectors = List.range' start count := by
      unfold Call.sectors
      rw [here, whole, Nat.mul_div_cancel count (show 0 < sectorSize from Nat.succ_pos')]
    have split : stop - start = count + (stop - (start + count)) := by omega
    rw [List.flatMap_cons, own, ih, split, ← List.range'_append_1]

/- A whole batch in each call but the last, which may be shorter. -/
def zeroBatches (start count : Nat) : List Call :=
  (List.range ((count + 127) / 128)).map fun i =>
    ⟨UInt64.ofNat (start + 128 * i), zeros (min 128 (count - 128 * i) * sectorSize)⟩

theorem zeroCallsBatches (start : UInt64) (count : Nat) :
    zeroCalls start count = zeroBatches start.toNat count := by
  have batch : zeroBatchSectors = 128 := rfl
  induction start, count using zeroCalls.induct with
  | case1 start =>
    unfold zeroCalls
    rfl
  | case2 start count some short =>
    have one : (count + 127) / 128 = 1 := by omega
    have all : min 128 (count - 128 * 0) = count := by omega
    unfold zeroCalls zeroBatches
    rw [if_neg some, if_pos short, one, List.range_one, List.map_singleton, all]
    simp
  | case3 start count some long ih =>
    have more : (count + 127) / 128 = (count - 128 + 127) / 128 + 1 := by omega
    have all : min 128 (count - 128 * 0) = 128 := by omega
    rw [batch] at ih
    unfold zeroBatches at ih ⊢
    unfold zeroCalls
    rw [if_neg some, if_neg long, batch, ih, more, List.range_succ_eq_map, List.map_cons, all,
      List.map_map]
    congr 1
    · simp [zeroBatch, batch]
    · apply List.map_congr_left
      intro i _
      have rest : count - 128 - 128 * i = count - 128 * (i + 1) := by omega
      have sector : UInt64.ofNat ((start + UInt64.ofNat 128).toNat + 128 * i) =
          UInt64.ofNat (start.toNat + 128 * (i + 1)) := by
        rw [Nat.mul_succ, UInt64.ofNat_add, UInt64.ofNat_toNat, UInt64.ofNat_add, UInt64.ofNat_add,
          UInt64.ofNat_toNat, UInt64.add_assoc, UInt64.add_comm (UInt64.ofNat 128)]
      simp only [Function.comp_apply, Nat.succ_eq_add_one, rest, sector]

def Call.Encodes {α : Type} [Record α] (call : Call) (offset : UInt32) (record : α) : Prop :=
  call.sector = offset.toUInt64 ∧ call.data.size = sectorSize ∧
    Record.encode record = .ok call.data

theorem recordEncodes {α : Type} [Record α] [FixedRecord α] (offset : UInt32) (record : α) :
    Call.Encodes ⟨offset.toUInt64, Record.sector record⟩ offset record :=
  ⟨rfl, Record.sectorLength record, Record.encodeSector record⟩

namespace Block

def WrittenBy (b : Block) (calls : List Call) : Prop :=
  match b.content with
  | .superBlock record => ∃ call, call.Encodes b.offset record ∧ calls = [call]
  | .file _ record => ∃ call, call.Encodes b.offset record ∧ calls = [call]
  | .chunkNode record => ∃ call, call.Encodes b.offset record ∧ calls = [call]
  | .free record => ∃ call, call.Encodes b.offset record ∧
    calls = call :: zeroBatches (b.offset.toNat + 1) (record.length.toNat - 1)
  | .chunkData length => ∃ data, data.size = length.toNat * sectorSize ∧
    calls = [⟨b.offset.toUInt64, data⟩]

theorem plannedWritten {contents : Contents} {b : Block} (some : 0 < b.sectors.toNat)
    (filled : b.Filled contents) : b.WrittenBy (b.planned contents) := by
  obtain ⟨offset, content, label⟩ := b
  cases content with
  | superBlock record =>
    exact ⟨_, recordEncodes offset record, by simp only [planned, calls, recordCall]; rfl⟩
  | file source record =>
    exact ⟨_, recordEncodes offset record, by simp only [planned, calls, recordCall]; rfl⟩
  | chunkNode record =>
    exact ⟨_, recordEncodes offset record, by simp only [planned, calls, recordCall]; rfl⟩
  | free record =>
    have next : (offset.toUInt64 + 1).toNat = offset.toNat + 1 := by
      have top := offset.toNat_lt
      rw [UInt64.toNat_add, UInt32.toNat_toUInt64]
      exact Nat.mod_eq_of_lt (by simp only [UInt64.toNat_one]; omega)
    have length : record.filler.toNat = record.length.toNat - 1 :=
      Nat.eq_sub_of_add_eq (fillerLength some)
    refine ⟨_, recordEncodes offset record, ?_⟩
    simp only [planned, calls, recordCall, ← next, ← length, ← zeroCallsBatches]
    rfl
  | chunkData length =>
    obtain ⟨data, found, size⟩ := filled length rfl
    refine ⟨data, size, ?_⟩
    simp only [planned, calls, found]
    rfl

end Block

theorem plannedParts {blocks : List Block} {contents : Contents} {start stop : Nat}
    (tiled : Tiled start (blocks.map Block.extent) stop)
    (filled : ∀ b ∈ blocks, b.Filled contents) :
    List.Forall₂ Block.WrittenBy blocks (blocks.map (Block.planned contents)) := by
  refine List.forall₂_map_right_iff.mpr (List.forall₂_same.mpr ?_)
  intro b member
  have within := tiled.bounds (List.mem_map.mpr ⟨b, member, rfl⟩)
  exact Block.plannedWritten within.2.1 (filled b member)

variable {γ : Type} [Generator γ] {ρ : Type} [Reader ρ] {δ : Type} [Device δ]

/-- A finished run writes the region from its first sector to its last, each of them once. -/
theorem executeCalls {entries : List Entry} {capacity : UInt32} {g : γ} {p : Plan}
    (ok : (plan entries capacity g).outcome = .ok p) {sources : List (Source ρ)} {device : δ}
    {progress : Progress} (finished : (execute p sources device progress).outcome = .ok ()) :
    ∃ run, run = execute p sources device progress ∧
      Device.Accepts device run.calls run.device ∧
      (∃ parts, List.Forall₂ Block.WrittenBy p.blocks parts ∧ run.calls = parts.flatten) ∧
      Call.Run 0 run.calls (capacity.toNat - 1) ∧
      run.calls.flatMap Call.sectors = List.range (capacity.toNat - 1) ∧
      ∃ total : UInt64, total.toNat + 1 = capacity.toNat ∧
        run.progress = ⟨progress.position + total, some total⟩ := by
  obtain ⟨order, address, laid⟩ := planLaid ok
  obtain ⟨after, filling, last, read, accepts, whole⟩ := laid.finished finished
  have filled := laid.filled read
  have run := (Plan.callsRun laid.tiled filled).1
  have sectors := run.sectors
  rw [Nat.sub_zero, ← List.range_eq_range'] at sectors
  refine ⟨_, rfl, ?_⟩
  rw [whole]
  exact ⟨accepts, ⟨_, plannedParts laid.tiled filled, rfl⟩, run, sectors, p.totalSectors,
    laid.total.2, rfl⟩

/- A file of two sectors at the front of a region that is longer than three batches of zeros. -/
theorem oneFileFinishes : ∃ (p : Plan) (s : Source Stream),
    (plan [.twoSectors] 400 (Cycle.ofWords [5, 3])).outcome = .ok p ∧
    ∀ sink, Sink.Grows sink → ∀ (initial : ByteArray) (progress : Progress),
      (execute p [s] (⟨sink initial, 2⟩ : Window) progress).outcome = .ok () := by
  obtain ⟨s, given⟩ := oneFileGiven
  obtain ⟨p, ok⟩ : ∃ p, (plan [.twoSectors] 400 (Cycle.ofWords [5, 3])).outcome = .ok p :=
    planAccepted (by decide) (by decide) _
  obtain ⟨order, address, laid⟩ := planLaid ok
  refine ⟨p, s, ok, ?_⟩
  intro sink grows initial progress
  have low : Window.place 2 399 ≤ positionLimit := by decide
  exact (laid.executed given (w := ⟨sink initial, 2⟩) (grows.reaches _ low) progress).1

theorem executeCallsBatches : ∃ (p : Plan) (s : Source Stream),
    (plan [.twoSectors] 400 (Cycle.ofWords [5, 3])).outcome = .ok p ∧
    ∃ run, run = execute p [s] (⟨.growing ⟨#[7]⟩, 2⟩ : Window) .start ∧ run.outcome = .ok () ∧
      (∃ parts, List.Forall₂ Block.WrittenBy p.blocks parts ∧ run.calls = parts.flatten) ∧
      run.calls.flatMap Call.sectors = List.range 399 ∧ run.progress = ⟨399, some 399⟩ := by
  obtain ⟨p, s, ok, finishes⟩ := oneFileFinishes
  have finished := finishes _ .buffer ⟨#[7]⟩ .start
  obtain ⟨_, rfl, _, parts, _, sectors, total, whole, ends⟩ := executeCalls ok finished
  obtain rfl : total = 399 := UInt64.toNat_inj.mp (Nat.succ.inj whole)
  exact ⟨p, s, ok, _, rfl, finished, parts, sectors, ends⟩

end BootImage
