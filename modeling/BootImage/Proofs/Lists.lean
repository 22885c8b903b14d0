import Mathlib
import BootImage.Record

/-!
Steps that may fail, lists that go together member by member, and lists whose members are known by a
key or by their place. Lists held together by pointers, in a plan or in an image: from a head, each
record says where the next one is, until the null pointer. Whatever the records are looked up in, a
list that ends visits no place twice.
-/
namespace BootImage

section

variable {α β ε : Type}

theorem bindOk {result : Except ε α} {f : α → Except ε β} {value : β} :
    (result >>= f) = .ok value ↔ ∃ first, result = .ok first ∧ f first = .ok value := by
  cases result with
  | error fault => simp [bind, Except.bind]
  | ok first => simp [bind, Except.bind]

theorem mapMPaired {f : α → Except ε β} {items : List α} {results : List β}
    (each : List.Forall₂ (fun a b => f a = .ok b) items results) :
    items.mapM f = .ok results := by
  induction each with
  | nil => rfl
  | cons here each ih =>
    rw [List.mapM_cons, here, ih]
    rfl

theorem mapMOk {f : α → Except ε β} {g : α → β} {items : List α}
    (each : ∀ a ∈ items, f a = .ok (g a)) : items.mapM f = .ok (items.map g) :=
  mapMPaired (List.forall₂_map_right_iff.mpr (List.forall₂_same.mpr each))

theorem mapMSame {f g : α → Except ε β} {items : List α} (same : ∀ a ∈ items, f a = g a) :
    items.mapM f = items.mapM g := by
  induction items with
  | nil => rfl
  | cons a items ih =>
    obtain ⟨here, rest⟩ := List.forall_mem_cons.mp same
    rw [List.mapM_cons, List.mapM_cons, here, ih rest]

theorem forall₂Partner {R : α → β → Prop} {left : List α} {right : List β}
    (paired : List.Forall₂ R left right) {a : α} (member : a ∈ left) : ∃ b, R a b := by
  obtain ⟨i, inside, rfl⟩ := List.getElem_of_mem member
  exact ⟨_, paired.get inside (paired.length_eq ▸ inside)⟩

theorem forall₂OfEach {R : α → β → Prop} {items : List α} (each : ∀ a ∈ items, ∃ b, R a b) :
    ∃ partners, List.Forall₂ R items partners := by
  induction items with
  | nil => exact ⟨[], .nil⟩
  | cons a items ih =>
    obtain ⟨b, here⟩ := each a List.mem_cons_self
    obtain ⟨partners, rest⟩ := ih fun c member => each c (List.mem_cons_of_mem _ member)
    exact ⟨b :: partners, .cons here rest⟩

theorem lookupKept [BEq α] [LawfulBEq α] {keep : α × β → Bool} {a : α}
    (held : ∀ b, keep (a, b) = true) (entries : List (α × β)) :
    (entries.filter keep).lookup a = entries.lookup a := by
  induction entries with
  | nil => rfl
  | cons entry entries ih =>
    obtain ⟨known, b⟩ := entry
    by_cases same : a = known
    · subst same
      rw [List.filter_cons_of_pos (held b), List.lookup_cons_self, List.lookup_cons_self]
    · have apart : (a == known) = false := beq_eq_false_iff_ne.mpr same
      cases kept : keep (known, b) with
      | false => rw [List.filter_cons_of_neg (by simp [kept]), ih, List.lookup_cons, apart]
      | true => rw [List.filter_cons_of_pos kept, List.lookup_cons, List.lookup_cons, apart, ih]

end

theorem numberedNodup {α β : Type} (members : α → Nat → List β) (number : β → Option Nat)
    (items : List α) (each : ∀ a n, (members a n).Nodup)
    (carried : ∀ a n, ∀ b ∈ members a n, number b = some n) :
    (items.zipIdx.flatMap fun (a, n) => members a n).Nodup := by
  rw [List.nodup_flatMap]
  constructor
  · exact fun item _ => each item.1 item.2
  · have apart : items.zipIdx.Pairwise fun a b => a.2 ≠ b.2 := by
      have numbers : (items.zipIdx.map Prod.snd).Nodup := by
        rw [List.zipIdx_map_snd]
        exact List.nodup_range'
      exact List.pairwise_map.mp numbers
    apply apart.imp
    intro a b different slot left right
    have same := (carried _ _ slot left).symm.trans (carried _ _ slot right)
    exact different (Option.some.inj same)

theorem numberedReverse {α β : Type} (visit : α × Nat → β) {items : List α} {last : Nat}
    (known : last < items.length) :
    ((items.take (last + 1)).zipIdx.map visit).reverse =
      visit (items[last], last) :: ((items.take last).zipIdx.map visit).reverse := by
  rw [← List.take_append_getElem known, List.zipIdx_append, List.map_append, List.reverse_append,
    List.length_take, Nat.min_eq_left (Nat.le_of_lt known)]
  simp

inductive Chain {α : Type} (at? : UInt32 → Option α) (next : α → UInt32) :
    UInt32 → List (UInt32 × α) → Prop where
  | ended : Chain at? next nullPointer []
  | node {pointer record rest} (live : pointer ≠ nullPointer) (found : at? pointer = some record)
      (later : Chain at? next (next record) rest) :
      Chain at? next pointer ((pointer, record) :: rest)

namespace Chain

variable {α β : Type} {at? : UInt32 → Option α} {next : α → UInt32} {head : UInt32}
  {items more : List (UInt32 × α)}

theorem unique (left : Chain at? next head items) (right : Chain at? next head more) :
    items = more := by
  induction left generalizing more with
  | ended =>
    cases right with
    | ended => rfl
    | node live found later => exact absurd rfl live
  | node live found later ih =>
    cases right with
    | ended => exact absurd rfl live
    | node _ again rest =>
      cases Option.some.inj (found.symm.trans again)
      rw [ih rest]

theorem member (chain : Chain at? next head items) {pointer : UInt32} {record : α}
    (inside : (pointer, record) ∈ items) : pointer ≠ nullPointer ∧ at? pointer = some record := by
  induction chain with
  | ended => simp at inside
  | node live found later ih =>
    rcases List.mem_cons.mp inside with same | rest
    · cases same
      exact ⟨live, found⟩
    · exact ih rest

theorem suffix (chain : Chain at? next head items) {pointer : UInt32} {record : α}
    (inside : (pointer, record) ∈ items) :
    ∃ before after, items = before ++ (pointer, record) :: after ∧
      Chain at? next pointer ((pointer, record) :: after) := by
  induction chain with
  | ended => simp at inside
  | @node start first rest live found later ih =>
    rcases List.mem_cons.mp inside with same | further
    · cases same
      exact ⟨[], rest, rfl, .node live found later⟩
    · obtain ⟨before, after, split, tail⟩ := ih further
      exact ⟨(start, first) :: before, after, by rw [split]; rfl, tail⟩

theorem nodup (chain : Chain at? next head items) : (items.map Prod.fst).Nodup := by
  -- From one place there is one way on, so a second visit would never end.
  induction chain with
  | ended => exact .nil
  | @node pointer record rest live found later ih =>
    have once : pointer ∉ rest.map Prod.fst := by
      intro again
      obtain ⟨⟨_, other⟩, inside, rfl⟩ := List.mem_map.mp again
      obtain ⟨before, after, split, tail⟩ := suffix later inside
      have same := unique (.node live found later) tail
      have lengths := congrArg List.length same
      rw [split] at lengths
      simp only [List.length_cons, List.length_append] at lengths
      omega
    exact List.nodup_cons.mpr ⟨once, ih⟩

theorem transfer {elsewhere? : UInt32 → Option β} {onward : β → UInt32} (form : α → β)
    (chain : Chain at? next head items)
    (agrees : ∀ pointer record, (pointer, record) ∈ items →
      elsewhere? pointer = some (form record))
    (links : ∀ record, onward (form record) = next record) :
    Chain elsewhere? onward head (items.map fun (pointer, record) => (pointer, form record)) := by
  induction chain with
  | ended => exact .ended
  | @node pointer record rest live found later ih =>
    have following := ih fun p r inside => agrees p r (List.mem_cons_of_mem _ inside)
    rw [← links record] at following
    exact .node live (agrees pointer record List.mem_cons_self) following

end Chain

end BootImage
