import Mathlib
import BootImage.Random

/-!
Words that bring a draw to a wanted outcome. A bounded draw leaves no value of its range out, and
a cycle gives whatever words one likes before it starts over.
-/
namespace BootImage.Generator

inductive Gives {γ : Type} [Generator γ] : γ → List UInt32 → γ → Prop
  | nothing {g} : Gives g [] g
  | word {g after last w words} (first : next g = (w, after)) (later : Gives after words last) :
      Gives g (w :: words) last

theorem Gives.split {γ : Type} [Generator γ] {g last : γ} {front back : List UInt32}
    (gives : Gives g (front ++ back) last) :
    ∃ middle, Gives g front middle ∧ Gives middle back last := by
  induction front generalizing g with
  | nil => exact ⟨g, .nothing, gives⟩
  | cons w front ih =>
    cases gives with
    | word first later =>
      obtain ⟨middle, before, behind⟩ := ih later
      exact ⟨middle, .word first before, behind⟩

/-- Some words lead to the outcome, whatever generator they come from. -/
def Reaches {α : Type} (draw : {γ : Type} → [Generator γ] → γ → α × γ) (outcome : α) : Prop :=
  ∃ words, ∀ {γ : Type} [Generator γ] {g after : γ}, Gives g words after →
    draw g = (outcome, after)

theorem scaledTo {count value : Nat} (inside : value < count) (few : count ≤ UInt32.size) :
    ∃ w : UInt32, w.toNat * count / UInt32.size = value := by
  have some : 0 < count := Nat.zero_lt_of_lt inside
  have below : value * UInt32.size + (count - 1) < count * UInt32.size := by
    have most := Nat.mul_le_mul_right UInt32.size (Nat.succ_le_of_lt inside)
    rw [Nat.succ_mul] at most
    omega
  -- The least word whose multiple reaches the value's part of the interval.
  obtain ⟨least, division⟩ : ∃ least, least = (value * UInt32.size + (count - 1)) / count :=
    ⟨_, rfl⟩
  have small : least < UInt32.size := by
    rw [division]
    exact Nat.div_lt_of_lt_mul below
  have whole := Nat.div_add_mod (value * UInt32.size + (count - 1)) count
  have rest := Nat.mod_lt (value * UInt32.size + (count - 1)) some
  rw [← division, Nat.mul_comm] at whole
  refine ⟨UInt32.ofNat least, ?_⟩
  rw [UInt32.toNat_ofNat', Nat.mod_eq_of_lt small]
  exact Nat.div_eq_of_lt_le (by omega) (by rw [Nat.succ_mul]; omega)

theorem belowReaches {count value : Nat} (inside : value < count) (few : count ≤ UInt32.size) :
    Reaches (fun g => below count g) value := by
  obtain ⟨w, quotient⟩ := scaledTo inside few
  have bound : w.toNat * count % UInt32.size < UInt32.size := Nat.mod_lt _ (by decide)
  have carry := Nat.not_le.mpr bound
  by_cases second : UInt32.size - count < w.toNat * count % UInt32.size
  · -- A second word of zero never carries.
    refine ⟨[w, 0], fun gives => ?_⟩
    cases gives with
    | word first later =>
      cases later with
      | word next last =>
        cases last
        simp [below, first, next, quotient, second, carry]
  · refine ⟨[w], fun gives => ?_⟩
    cases gives with
    | word first later =>
      cases later
      simp [below, first, quotient, second]

theorem rangeReaches {low value high : UInt32} (least : low ≤ value) (most : value ≤ high) :
    Reaches (fun g => range low high g) value := by
  have above := UInt32.le_iff_toNat_le.mp least
  have below := UInt32.le_iff_toNat_le.mp most
  have top := high.toNat_lt
  obtain ⟨words, reaches⟩ : Reaches (fun g => Generator.below (high.toNat - low.toNat + 1) g)
      (value.toNat - low.toNat) :=
    belowReaches (by omega) (by simp only [UInt32.size]; omega)
  refine ⟨words, fun gives => ?_⟩
  have back : low + UInt32.ofNat (value.toNat - low.toNat) = value := by
    apply UInt32.toNat_inj.mp
    simp only [UInt32.toNat_add, UInt32.toNat_ofNat']
    omega
  simp only [range, reaches gives, back]

end BootImage.Generator

namespace BootImage.Cycle

open Generator (Gives Reaches)

theorem givesRest {words front back : List UInt32} (whole : words = front ++ back) :
    Gives (⟨words.toArray, front.length⟩ : Cycle) back ⟨words.toArray, words.length⟩ := by
  induction back generalizing front with
  | nil =>
    rw [List.append_nil] at whole
    rw [whole]
    exact .nothing
  | cons w back ih =>
    have later := ih (whole.trans (List.append_cons front w back))
    rw [List.length_append] at later
    refine .word ?_ later
    have inside : front.length < words.length := by simp [whole]
    have here : words[front.length]? = some w := by simp [whole]
    change Cycle.next _ = _
    simp [Cycle.next, Nat.mod_eq_of_lt inside, here]

theorem reached {α : Type} {draw : {γ : Type} → [Generator γ] → γ → α × γ} {outcome : α}
    (reaches : Reaches draw outcome) : ∃ c : Cycle, (draw c).1 = outcome := by
  obtain ⟨words, leads⟩ := reaches
  have gives : Gives (ofWords words) words _ := givesRest (List.nil_append words).symm
  exact ⟨ofWords words, congrArg Prod.fst (leads gives)⟩

end BootImage.Cycle
