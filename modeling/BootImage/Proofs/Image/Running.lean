import Mathlib
import BootImage.Proofs.Image.Filling
import BootImage.Proofs.Image.Written

/-!
A run of a whole plan. Its sources are read first and fix the calls; a device takes all of them or
refuses one. After a run that ends well every sink that keeps what it is given holds the region.
-/
namespace BootImage

/- All of the calls, or those up to the first that the device refuses. -/
inductive Execution.Makes {ρ δ : Type} [Device δ] (run : Execution ρ δ) (device : δ)
    (calls : List Call) : Prop
  | all (done : run.outcome = .ok ()) (made : run.calls = calls)
      (accepts : Device.Accepts device calls run.device)
  | front {count e} (failed : run.outcome = .error (.io e))
      (made : run.calls = calls.take (count + 1))
      (refuses : Device.Refuses device calls count e run.device)

namespace Laid

variable {draws : List Draw} {capacity : UInt32} {order : List Draft} {address : Slot → UInt32}
  {p : Plan} (laid : Laid draws capacity order address p)

include laid

theorem chunkDrawn {b : Block} (member : b ∈ p.blocks) {length : UInt32}
    (content : b.content = .chunkData length) :
    ∃ file draw chunk, draws[file]? = some draw ∧ draw.chunks[chunk]? = some length ∧
      b.offset = address (.chunkData file chunk) := by
  rw [laid.blocks] at member
  obtain ⟨d, inside, rfl⟩ := List.mem_map.mp member
  rcases List.mem_cons.mp inside with rfl | rest
  · cases content
  · rcases List.mem_append.mp rest with part | last
    · cases Draft.memOfDraws.mp (laid.shuffled.mem_iff.mp part) with
      | header drawn => cases content
      | freeRun drawn => cases content
      | chunkNode drawn cut => cases content
      | @chunkData file draw chunk _ drawn cut =>
        cases content
        exact ⟨file, draw, chunk, drawn, cut, rfl⟩
    · cases List.mem_singleton.mp last
      cases content

theorem total : p.totalSectors = UInt64.ofNat (capacity.toNat - 1) ∧
    p.totalSectors.toNat + 1 = capacity.toNat := by
  have room := laid.room
  have top := capacity.toNat_lt
  have sum := Plan.totalSectorsTiled laid.tiled (by simp only [UInt64.size]; omega)
  rw [Nat.zero_add] at sum
  exact ⟨by rw [← sum, UInt64.ofNat_toNat], by omega⟩

variable {ρ δ : Type} [Reader ρ] [Device δ] {sources after : List (Source ρ)} {filling : Filling}

section

variable (read : Filling.ofPlan p sources = (.ok (), after, filling))

include read

theorem filled : ∀ b ∈ p.blocks, b.Filled filling.contents := by
  intro b member length content
  obtain ⟨file, draw, chunk, drawn, cut, place⟩ := laid.chunkDrawn member content
  obtain ⟨data, kept⟩ := Filling.ofPlanHeld laid read drawn
  obtain ⟨bytes, found, size⟩ := kept.chunk cut
  exact ⟨bytes, place ▸ kept.kept _ _ found, size⟩

theorem makes (device : δ) (progress : Progress) :
    (execute p sources device progress).Makes device (p.calls filling.contents) := by
  have filled := laid.filled read
  rcases Device.acceptsOrRefuses device (p.calls filling.contents) with
    ⟨last, accepts⟩ | ⟨count, e, last, refuses⟩
  · rw [executeAccepted laid.tiled read filled accepts progress]
    exact .all rfl rfl accepts
  · obtain ⟨_, _, _, _, _, stopped⟩ := executeRefused laid.tiled read filled refuses progress
    rw [stopped]
    exact .front rfl rfl refuses

end

theorem finished {device : δ} {progress : Progress}
    (done : (execute p sources device progress).outcome = .ok ()) :
    ∃ after filling last, Filling.ofPlan p sources = (.ok (), after, filling) ∧
      Device.Accepts device (p.calls filling.contents) last ∧ execute p sources device progress =
        { sources := after, pieces := filling.pieces.toList, filled := true, device := last,
          calls := p.calls filling.contents,
          progress := ⟨progress.position + p.totalSectors, some p.totalSectors⟩,
          outcome := .ok () } := by
  rcases Filling.fillsOrFails p sources with ⟨after, filling, read⟩ | ⟨f, after, filling, read⟩
  · cases laid.makes read device progress with
    | all _ _ accepts =>
      have whole := executeAccepted laid.tiled read (laid.filled read) accepts progress
      rw [← laid.total.1] at whole
      exact ⟨after, filling, _, read, accepts, whole⟩
    | front failed =>
      rw [failed] at done
      cases done
  · rw [executeUnread read] at done
    cases done

section

variable (read : Filling.ofPlan p sources = (.ok (), after, filling))

include read

theorem regionEnds (skip : UInt64) : Window.place skip (capacity.toNat - 1) =
    Window.place skip 0 + (p.bytes filling.contents).length := by
  rw [(Plan.callsRun laid.tiled (laid.filled read)).2.2, ← Window.placeLater, Nat.zero_add]

theorem overwritten {sink : ByteArray → Sink} (grows : Sink.Grows sink) {skip : UInt64}
    {initial : ByteArray} {progress : Progress}
    (done : (execute p sources (⟨sink initial, skip⟩ : Window) progress).outcome = .ok ()) :
    ∃ bytes, (execute p sources (⟨sink initial, skip⟩ : Window) progress).device =
        ⟨sink bytes, skip⟩ ∧
      Sink.Grown initial (Window.place skip 0) (p.bytes filling.contents) bytes := by
  obtain ⟨_, _, last, again, accepts, whole⟩ := laid.finished done
  cases read.symm.trans again
  obtain ⟨run, joined, _⟩ := Plan.callsRun laid.tiled (laid.filled read)
  obtain ⟨bytes, same, grown⟩ := Window.growsAccepts run grows accepts (.inl laid.room)
  rw [joined] at grown
  rw [whole]
  exact ⟨bytes, same, grown⟩

theorem regionShown {w : Window} (kept : w.sink ≠ .discard) {progress : Progress}
    (done : (execute p sources w progress).outcome = .ok ()) : p.bytes filling.contents <+:
      (Image.behind w.skip (execute p sources w progress).device.sink.bytes).bytes.data.toList := by
  obtain ⟨_, _, last, again, accepts, whole⟩ := laid.finished done
  cases read.symm.trans again
  obtain ⟨run, joined, _⟩ := Plan.callsRun laid.tiled (laid.filled read)
  obtain ⟨bytes, same, shown⟩ := Window.growingShown run (Window.growingKept run kept accepts)
  have held : last.sink.bytes = bytes := congrArg (·.sink.bytes) same
  rw [joined] at shown
  rw [whole, Image.behindBytes, held]
  exact shown

end

theorem executed {stream : Nat → Nat → UInt8}
    (given : ∀ file < draws.length, ∃ s, sources[file]? = some s ∧ s.Yields (stream file))
    {w : Window} (reaches : w.sink.Reaches (Window.place w.skip (capacity.toNat - 1)))
    (progress : Progress) :
    (execute p sources w progress).outcome = .ok () ∧
      ∃ contents, (∀ b ∈ p.blocks, b.Filled contents) ∧
        p.bytes contents <+: (Image.behind w.skip
          (execute p sources w progress).device.sink.bytes).bytes.data.toList ∧
        ∀ file draw, draws[file]? = some draw → ∃ data,
          Filling.Held address contents file draw data ∧ data.flatMap (·.data.toList) =
            Source.front (stream file) (draw.entry.sectors * sectorSize) := by
  obtain ⟨after, filling, read, each⟩ := Filling.ofPlanYields laid given
  have filled := laid.filled read
  have run := (Plan.callsRun laid.tiled filled).1
  obtain ⟨kept, last, accepts⟩ := Window.reachesAccepts run laid.room reaches
  have finished : (execute p sources w progress).outcome = .ok () := by
    rw [executeAccepted laid.tiled read filled accepts progress]
  exact ⟨finished, filling.contents, filled, laid.regionShown read kept finished, each⟩

end Laid

end BootImage
