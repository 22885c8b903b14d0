import Mathlib
import BootImage.Device
import BootImage.Proofs.Sector

/-!
Writes that follow each other, and how a device takes them. Each call of a run starts on the sector
where the one before it ended; the device accepts all of them, or some first call is refused and
none behind it is tried.
-/
namespace BootImage

namespace Call

inductive Run : Nat → List Call → Nat → Prop
  | done {start} : Run start [] start
  | call {start call calls stop} (count : Nat) (here : call.sector.toNat = start) (some : 0 < count)
      (whole : call.data.size = count * sectorSize) (later : Run (start + count) calls stop) :
      Run start (call :: calls) stop

def joined (calls : List Call) : List UInt8 := calls.flatMap (·.data.data.toList)

theorem joinedAppend (front back : List Call) :
    joined (front ++ back) = joined front ++ joined back :=
  List.flatMap_append

theorem joinedCons (call : Call) (calls : List Call) :
    joined (call :: calls) = call.data.data.toList ++ joined calls :=
  List.flatMap_cons

namespace Run

theorem append {start middle stop : Nat} {front back : List Call} (first : Run start front middle)
    (second : Run middle back stop) : Run start (front ++ back) stop := by
  induction first with
  | done => exact second
  | call count here some whole later ih => exact .call count here some whole (ih second)

theorem sector (call : Call) (whole : call.data.size = sectorSize) {calls : List Call} {stop : Nat}
    (later : Run (call.sector.toNat + 1) calls stop) :
    Run call.sector.toNat (call :: calls) stop :=
  .call 1 rfl Nat.one_pos (whole.trans (Nat.one_mul _).symm) later

theorem ordered {start stop : Nat} {calls : List Call} (run : Run start calls stop) :
    start ≤ stop := by
  induction run with
  | done => exact Nat.le_refl _
  | call count here some whole later ih => omega

theorem length {start stop : Nat} {calls : List Call} (run : Run start calls stop) :
    start * sectorSize + (joined calls).length = stop * sectorSize := by
  induction run with
  | done => exact Nat.add_zero _
  | call count here some whole later ih =>
    rw [joinedCons, List.length_append, listLength, whole, ← ih]
    ring

theorem split {start stop : Nat} {front back : List Call} (run : Run start (front ++ back) stop) :
    ∃ middle, Run start front middle ∧ Run middle back stop := by
  induction front generalizing start with
  | nil => exact ⟨start, .done, run⟩
  | cons call front ih =>
    cases run with
    | call count here some whole later =>
      obtain ⟨middle, first, second⟩ := ih later
      exact ⟨middle, .call count here some whole first, second⟩

theorem nonempty {start stop : Nat} {calls : List Call} (run : Run start calls stop)
    (some : start < stop) : 0 < calls.length := by
  cases run with
  | done => exact absurd some (Nat.lt_irrefl _)
  | call => exact Nat.succ_pos _

theorem inside {start stop : Nat} {calls : List Call} (run : Run start calls stop) {call : Call}
    (member : call ∈ calls) : start ≤ call.sector.toNat ∧ call.sector.toNat < stop := by
  induction run with
  | done => simp at member
  | call count here some whole later ih =>
    have ends := later.ordered
    rcases List.mem_cons.mp member with rfl | rest
    · omega
    · have within := ih rest
      omega

end Run

end Call

namespace Device

variable {δ : Type} [Device δ]

inductive Accepts : δ → List Call → δ → Prop
  | done {d} : Accepts d [] d
  | call {d next last call calls} (wrote : write d call.sector call.data = (.ok (), next))
      (later : Accepts next calls last) : Accepts d (call :: calls) last

/- The first `count` calls are accepted and the one behind them is refused. -/
inductive Refuses : δ → List Call → Nat → IoError → δ → Prop
  | here {d last call calls e} (refused : write d call.sector call.data = (.error e, last)) :
      Refuses d (call :: calls) 0 e last
  | later {d next last call calls count e}
      (wrote : write d call.sector call.data = (.ok (), next))
      (rest : Refuses next calls count e last) : Refuses d (call :: calls) (count + 1) e last

theorem acceptsOrRefuses (d : δ) (calls : List Call) :
    (∃ last, Accepts d calls last) ∨ ∃ count e last, Refuses d calls count e last := by
  induction calls generalizing d with
  | nil => exact .inl ⟨d, .done⟩
  | cons call calls ih =>
    cases answer : write d call.sector call.data with
    | mk outcome next =>
      cases outcome with
      | error e => exact .inr ⟨0, e, next, .here answer⟩
      | ok =>
        rcases ih next with ⟨last, accepts⟩ | ⟨count, e, last, refuses⟩
        · exact .inl ⟨last, .call answer accepts⟩
        · exact .inr ⟨count + 1, e, last, .later answer refuses⟩

variable {d last : δ}

namespace Accepts

theorem split {front back : List Call} (accepts : Accepts d (front ++ back) last) :
    ∃ middle, Accepts d front middle ∧ Accepts middle back last := by
  induction front generalizing d with
  | nil => exact ⟨d, .done, accepts⟩
  | cons call front ih =>
    cases accepts with
    | call wrote later =>
      obtain ⟨middle, first, second⟩ := ih later
      exact ⟨middle, .call wrote first, second⟩

theorem perform {calls : List Call} (accepts : Accepts d calls last) (tried : Array Call) :
    perform d tried calls = ⟨last, tried ++ calls.toArray, .ok ()⟩ := by
  induction accepts generalizing tried with
  | done => simp [BootImage.perform]
  | call wrote later ih =>
    rw [BootImage.perform, wrote]
    simp [ih]

end Accepts

namespace Refuses

variable {count : Nat} {e : IoError}

theorem inside {calls : List Call} (refuses : Refuses d calls count e last) :
    ∃ call ∈ calls, calls[count]? = some call := by
  induction refuses with
  | @here d last call calls e refused => exact ⟨call, List.mem_cons_self, rfl⟩
  | later wrote rest ih =>
    obtain ⟨call, member, found⟩ := ih
    exact ⟨call, List.mem_cons_of_mem _ member, found⟩

theorem split {front back : List Call} (refuses : Refuses d (front ++ back) count e last) :
    Refuses d front count e last ∨ ∃ middle further, Accepts d front middle ∧
      count = front.length + further ∧ Refuses middle back further e last := by
  induction front generalizing d count with
  | nil => exact .inr ⟨d, count, .done, (Nat.zero_add _).symm, refuses⟩
  | cons call front ih =>
    cases refuses with
    | here refused => exact .inl (.here refused)
    | later wrote rest =>
      rcases ih rest with early | ⟨middle, further, first, rfl, late⟩
      · exact .inl (.later wrote early)
      · exact .inr ⟨middle, further, .call wrote first, by rw [List.length_cons]; omega, late⟩

theorem perform {calls : List Call} (refuses : Refuses d calls count e last)
    (tried : Array Call) :
    perform d tried calls = ⟨last, tried ++ (calls.take (count + 1)).toArray, .error e⟩ := by
  induction refuses generalizing tried with
  | here refused =>
    rw [BootImage.perform, refused]
    simp
  | later wrote rest ih =>
    rw [BootImage.perform, wrote]
    simp [ih]

end Refuses

end Device

end BootImage
