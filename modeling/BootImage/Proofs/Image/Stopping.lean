import Mathlib
import BootImage.Proofs.Image.Overwriting
import BootImage.Proofs.Image.ReadFirst

/-!
Runs that a device stops. The calls are fixed by the plan and its sources before the first of them
is made, so a stopped run has made the front of them; and a sink that is too small holds as much of
the region as there is room for.
-/
namespace BootImage

/- What is left of a run whose device refused the call behind the first `count` of them. -/
structure Execution.Stopped {ρ δ : Type} (run : Execution ρ δ) (p : Plan) (calls : List Call)
    (progress : Progress) (count : Nat) (e : IoError) (last : δ) : Prop where
  outcome : run.outcome = .error (.io e)
  tried : run.calls = calls.take (count + 1)
  device : run.device = last
  position : ∃ b ∈ p.blocks, ∃ call, calls[count]? = some call ∧
    b.extent.Covers call.sector.toNat ∧
    run.progress.position = progress.position + b.offset.toUInt64

variable {γ : Type} [Generator γ] {ρ : Type} [Reader ρ] {δ : Type} [Device δ]

namespace Laid

variable {draws : List Draw} {capacity : UInt32} {order : List Draft} {address : Slot → UInt32}
  {p : Plan} (laid : Laid draws capacity order address p) {sources after : List (Source ρ)}
  {filling : Filling} (read : Filling.ofPlan p sources = (.ok (), after, filling))

include laid read

theorem stopped {device last : δ} {count : Nat} {e : IoError}
    (refuses : Device.Refuses device (p.calls filling.contents) count e last)
    (progress : Progress) : (execute p sources device progress).Stopped p
      (p.calls filling.contents) progress count e last := by
  obtain ⟨b, member, call, found, covered, run⟩ :=
    executeRefused laid.tiled read (laid.filled read) refuses progress
  rw [run]
  exact ⟨rfl, rfl, rfl, b, member, call, found, covered, rfl⟩

theorem fixedEnds {skip : UInt64} {initial : ByteArray}
    (near : Window.place skip 0 < UInt64.size)
    (far : initial.size < UInt64.size ∨ Window.place skip (capacity.toNat - 1) ≤ UInt64.size)
    (progress : Progress) :
    ∃ run after, run = execute p sources (⟨.fixed initial, skip⟩ : Window) progress ∧
      run.device = ⟨.fixed after, skip⟩ ∧
      Sink.Fitted initial (Window.place skip 0) (Call.joined (p.calls filling.contents)) after ∧
      ((Window.place skip (capacity.toNat - 1) ≤ initial.size ∧ run.outcome = .ok ()) ∨
        (initial.size < Window.place skip (capacity.toNat - 1) ∧
          run.outcome = .error (.io .writeZero))) := by
  have filled := laid.filled read
  have reach : ∀ sector, 0 ≤ sector → sector < capacity.toNat - 1 →
      Window.place skip sector ≤ max (Window.place skip 0) initial.size →
      Window.place skip sector < UInt64.size := by
    intro sector _ before low
    rcases far with small | addressable
    · omega
    · exact Nat.lt_of_lt_of_le (Window.placeBefore skip before) addressable
  obtain ⟨after, fitted, ends⟩ :=
    Window.fixedRun (Plan.callsRun laid.tiled filled).1 reach (.inl laid.room)
  rcases ends with ⟨fits, accepts⟩ | ⟨short, count, refuses⟩
  · have run := executeAccepted laid.tiled read filled accepts progress
    refine ⟨_, after, rfl, ?_⟩
    rw [run]
    exact ⟨rfl, fitted, .inl ⟨fits, rfl⟩⟩
  · have run := laid.stopped read refuses progress
    exact ⟨_, after, rfl, run.device, fitted, .inr ⟨short, run.outcome⟩⟩

end Laid

/-- The calls are the same for every device. A run makes all of them or those up to the first that
is refused, and a sink of a fixed size refuses one just when the region does not fit. -/
theorem executeStops {entries : List Entry} {capacity : UInt32} {g : γ} {p : Plan}
    (ok : (plan entries capacity g).outcome = .ok p) {sources : List (Source ρ)}
    (supplied : p.Supplied sources) :
    ∃ calls, Call.Run 0 calls (capacity.toNat - 1) ∧
      (∀ {δ : Type} [Device δ] (device : δ) (progress : Progress),
        ∃ run, run = execute p sources device progress ∧
          (run.outcome = .ok () → run.calls = calls ∧ Device.Accepts device calls run.device) ∧
          (∀ last, Device.Accepts device calls last → run.outcome = .ok ()) ∧
          ∀ count e last, Device.Refuses device calls count e last →
            run.Stopped p calls progress count e last) ∧
      ∀ (skip : UInt64) (initial : ByteArray) (progress : Progress),
        Window.place skip 0 < UInt64.size →
        initial.size < UInt64.size ∨ Window.place skip (capacity.toNat - 1) ≤ UInt64.size →
        ∃ run after, run = execute p sources (⟨.fixed initial, skip⟩ : Window) progress ∧
          run.device = ⟨.fixed after, skip⟩ ∧
          (run.outcome = .ok () ↔ Window.place skip (capacity.toNat - 1) ≤ initial.size) ∧
          (initial.size < Window.place skip (capacity.toNat - 1) →
            run.outcome = .error (.io .writeZero)) ∧
          Sink.Fitted initial (Window.place skip 0) (Call.joined calls) after ∧
          ∀ (held whole : ByteArray) (later : Progress),
            (execute p sources (⟨.growing held, skip⟩ : Window) later).outcome = .ok () →
            (execute p sources (⟨.growing held, skip⟩ : Window) later).device =
              ⟨.growing whole, skip⟩ →
            ∀ i, Window.place skip 0 ≤ i → i < Window.place skip (capacity.toNat - 1) →
              i < initial.size → after.data[i]? = whole.data[i]? := by
  obtain ⟨order, address, laid⟩ := planLaid ok
  obtain ⟨after, filling, read⟩ := Filling.ofPlanSupplied laid supplied
  have filled := laid.filled read
  obtain ⟨run, joined, _⟩ := Plan.callsRun laid.tiled filled
  refine ⟨p.calls filling.contents, run, ?any, ?fixed⟩
  case any =>
    intro δ _ device progress
    refine ⟨_, rfl, ?finished, ?accepted, fun _ _ _ refuses => laid.stopped read refuses progress⟩
    case finished =>
      intro done
      obtain ⟨_, _, last, again, accepts, whole⟩ := laid.finished done
      cases read.symm.trans again
      rw [whole]
      exact ⟨rfl, accepts⟩
    case accepted =>
      intro last accepts
      rw [executeAccepted laid.tiled read filled accepts progress]
  case fixed =>
    intro skip initial progress near far
    obtain ⟨_, bytes, rfl, device, fitted, ends⟩ := laid.fixedEnds read near far progress
    refine ⟨_, bytes, rfl, device, ?exactly, ?short, fitted, ?alike⟩
    case exactly =>
      rcases ends with ⟨fits, done⟩ | ⟨small, failed⟩
      · exact ⟨fun _ => fits, fun _ => done⟩
      · rw [failed]
        exact ⟨nofun, fun fits => absurd small (Nat.not_lt.mpr fits)⟩
    case short =>
      intro small
      rcases ends with ⟨fits, _⟩ | ⟨_, failed⟩
      · exact absurd small (Nat.not_lt.mpr fits)
      · exact failed
    case alike =>
      intro held whole later done left i least most inside
      obtain ⟨_, right, grown⟩ := laid.overwritten read .buffer done
      cases left.symm.trans right
      rw [joined] at fitted
      rw [laid.regionEnds read] at most
      exact (fitted.holds least most inside).trans (grown.holds least most).symm

/- The sink that is too small ends in the middle of the superblock. -/
theorem executeStopsMidway : ∃ (p : Plan) (s : Source Stream) (calls : List Call),
    (plan [.twoSectors] 400 (Cycle.ofWords [5, 3])).outcome = .ok p ∧
    p.Supplied [s] ∧ 0 < calls.length ∧
    (∀ k < calls.length, ∃ kept : Window,
      (execute p [s] (Refusing.of (⟨.growing ⟨#[7]⟩, 2⟩ : Window) (some k)) .start).Stopped p calls
        .start k Refusing.refused ⟨kept, some k, (calls.take k).toArray⟩) ∧
    (execute p [s] (⟨.fixed (zeros 1300), 2⟩ : Window) .start).outcome = .error (.io .writeZero) ∧
    ∃ after, (execute p [s] (⟨.fixed (zeros 1300), 2⟩ : Window) .start).device =
      ⟨.fixed after, 2⟩ ∧ Sink.Fitted (zeros 1300) (2 * sectorSize) (Call.joined calls) after := by
  obtain ⟨p, s, ok, finishes⟩ := oneFileFinishes
  obtain ⟨order, address, laid⟩ := planLaid ok
  have finished := finishes _ .buffer ⟨#[7]⟩ .start
  obtain ⟨_, _, _, read, _⟩ := laid.finished finished
  have supplied := Filling.ofPlanSupplies laid read
  obtain ⟨calls, run, any, fixed⟩ := executeStops ok supplied
  obtain ⟨_, rfl, finishing, _⟩ := any (⟨.growing ⟨#[7]⟩, 2⟩ : Window) .start
  have accepts := (finishing finished).2
  have near : Window.place 2 0 < UInt64.size := by decide
  have size : (zeros 1300).size = 1300 := zerosSize 1300
  have short : (zeros 1300).size < Window.place 2 399 := by
    rw [size]
    decide
  obtain ⟨_, after, rfl, device, _, failed, fitted, _⟩ :=
    fixed 2 (zeros 1300) .start near (.inr (by decide))
  refine ⟨p, s, calls, ok, supplied, run.nonempty (by decide), ?_, failed short, after, device,
    fitted⟩
  intro k inside
  rw [← List.take_append_drop k calls] at accepts
  obtain ⟨kept, front, _⟩ := accepts.split
  obtain ⟨_, rfl, _, _, stops⟩ :=
    any (Refusing.of (⟨.growing ⟨#[7]⟩, 2⟩ : Window) (some k)) .start
  exact ⟨kept, stops _ _ _ (Refusing.refuses front inside)⟩

end BootImage
