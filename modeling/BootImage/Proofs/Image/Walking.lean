import Mathlib
import BootImage.Image.Reading
import BootImage.Proofs.Lists
import BootImage.Proofs.Record
import BootImage.Proofs.Sector

/-!
Reading an image of any bytes. Sectors inside it give their bytes, a record is read where its bytes
stand in front of a sector, and a walk does not need its bound: it visits distinct sectors of the
image, and gives a list just if the list is linked there.
-/
namespace BootImage

namespace Image

variable {image : Image}

def Inside (image : Image) (offset count : UInt32) : Prop :=
  (offset.toNat + count.toNat) * sectorSize ≤ image.bytes.size

def part (image : Image) (offset count : UInt32) : List UInt8 :=
  (image.bytes.data.toList.drop (offset.toNat * sectorSize)).take (count.toNat * sectorSize)

theorem sectorsInside {offset count : UInt32} (inside : image.Inside offset count) :
    image.sectors offset count = .ok (image.part offset count).toByteArray := by
  unfold Inside at inside
  rw [Nat.add_mul] at inside
  have exact : image.bytes.extract (offset.toNat * sectorSize)
      (offset.toNat * sectorSize + count.toNat * sectorSize) =
      (image.part offset count).toByteArray := by
    apply bytesInj
    rw [extractBytes, List.drop_take, Nat.add_sub_cancel_left, List.toList_data_toByteArray, part]
  unfold sectors
  rw [if_pos inside, exact]

theorem sectorsOutside {offset count : UInt32} (outside : ¬image.Inside offset count) :
    image.sectors offset count = .error (.corrupted (.outsideImage offset)) := by
  unfold Inside at outside
  rw [Nat.add_mul] at outside
  unfold sectors
  rw [if_neg outside]

theorem sectorsIff {offset count : UInt32} {data : ByteArray} :
    image.sectors offset count = .ok data ↔
      image.Inside offset count ∧ data.data.toList = image.part offset count := by
  by_cases inside : image.Inside offset count
  · rw [sectorsInside inside, Except.ok.injEq]
    constructor
    · rintro rfl
      exact ⟨inside, List.toList_data_toByteArray⟩
    · rintro ⟨_, same⟩
      rw [← same, bytesBack]
  · rw [sectorsOutside inside]
    simp only [reduceCtorEq, inside, false_and]

theorem sectorsShown {offset count : UInt32} {part : List UInt8}
    (inside : offset.toNat * sectorSize ≤ image.bytes.size)
    (shown : part <+: image.bytes.data.toList.drop (offset.toNat * sectorSize))
    (whole : part.length = count.toNat * sectorSize) :
    image.sectors offset count = .ok part.toByteArray := by
  have fits := shown.length_le
  rw [whole, List.length_drop, listLength] at fits
  have within : image.Inside offset count := by
    unfold Inside
    rw [Nat.add_mul]
    omega
  rw [sectorsInside within, Image.part, ← whole, ← List.prefix_iff_eq_take.mp shown]

theorem partLength {offset : UInt32} (inside : image.Inside offset 1) :
    (image.part offset 1).length = sectorSize := by
  unfold Inside at inside
  rw [UInt32.toNat_one, Nat.add_mul, Nat.one_mul] at inside
  rw [part, UInt32.toNat_one, Nat.one_mul, List.length_take, List.length_drop, listLength]
  omega

section

variable {α : Type} [Record α]

/- A whole sector that begins with the bytes of a record. -/
def Holds (image : Image) (offset : UInt32) (r : α) : Prop :=
  image.Inside offset 1 ∧ Record.bytes r <+: image.part offset 1

def record? (image : Image) (offset : UInt32) : Option α :=
  match image.record offset with
  | .ok r => some r
  | .error _ => none

theorem recordOutside {offset : UInt32} (outside : ¬image.Inside offset 1) :
    image.record (α := α) offset = .error (.corrupted (.outsideImage offset)) := by
  unfold record
  rw [sectorsOutside outside]
  rfl

variable (next : α → UInt32)

/- What a walk does from a pointer on, past the sectors seen before: the records it visits and how
it ends. Nothing bounds the steps. -/
inductive Walks (image : Image) :
    List UInt32 → UInt32 → List (UInt32 × α) → Except Fault Unit → Prop where
  | ended {seen} : Walks image seen nullPointer [] (.ok ())
  | looped {seen pointer} (live : pointer ≠ nullPointer) (again : pointer ∈ seen) :
      Walks image seen pointer [] (.error (.corrupted (.loop (Record.kind α) pointer)))
  | outside {seen pointer} (live : pointer ≠ nullPointer) (fresh : pointer ∉ seen)
      (beyond : ¬image.Inside pointer 1) :
      Walks image seen pointer [] (.error (.corrupted (.outsideImage pointer)))
  | node {seen pointer r items outcome} (live : pointer ≠ nullPointer) (fresh : pointer ∉ seen)
      (held : image.Holds pointer r)
      (later : Walks image (pointer :: seen) (next r) items outcome) :
      Walks image seen pointer ((pointer, r) :: items) outcome

/- A list in an image: the head and the links are the sectors of its records and the null pointer
that ends it, in order, and no sector stands twice. -/
structure Linked (image : Image) (head : UInt32) (items : List (UInt32 × α)) : Prop where
  linked : head :: items.map (fun item => next item.2) = items.map Prod.fst ++ [nullPointer]
  live : ∀ item ∈ items, item.1 ≠ nullPointer
  held : ∀ item ∈ items, image.Holds item.1 item.2
  once : (items.map Prod.fst).Nodup

variable {next}

theorem visitedFew {seen : List UInt32} (once : seen.Nodup)
    (inside : ∀ pointer ∈ seen, image.Inside pointer 1) :
    seen.length ≤ image.bytes.size / sectorSize := by
  have within : seen.map UInt32.toNat ⊆ List.range (image.bytes.size / sectorSize) := by
    intro sector member
    obtain ⟨pointer, visited, rfl⟩ := List.mem_map.mp member
    exact List.mem_range.mpr ((Nat.le_div_iff_mul_le Nat.succ_pos').mpr (inside _ visited))
  have distinct := once.map (f := UInt32.toNat) fun a b => UInt32.toNat_inj.mp
  simpa using (List.subperm_of_subset distinct within).length_le

variable {seen : List UInt32} {pointer : UInt32} {items : List (UInt32 × α)}
  {outcome : Except Fault Unit}

namespace Walks

theorem visits (walks : image.Walks next seen pointer items outcome) :
    (items.map Prod.fst).Nodup ∧
      ∀ item ∈ items, item.1 ∉ seen ∧ item.1 ≠ nullPointer ∧ image.Holds item.1 item.2 := by
  induction walks with
  | ended | looped | outside => simp
  | node live fresh held later ih =>
    obtain ⟨once, each⟩ := ih
    constructor
    · refine List.nodup_cons.mpr ⟨fun again => ?_, once⟩
      obtain ⟨item, member, same⟩ := List.mem_map.mp again
      exact (each item member).1 (same ▸ List.mem_cons_self)
    · intro item member
      rcases List.mem_cons.mp member with rfl | further
      · exact ⟨fresh, live, held⟩
      · obtain ⟨new, rest⟩ := each item further
        exact ⟨fun old => new (List.mem_cons_of_mem _ old), rest⟩

theorem few (walks : image.Walks next seen pointer items outcome) :
    items.length ≤ image.bytes.size / sectorSize := by
  obtain ⟨once, each⟩ := walks.visits
  rw [← List.length_map Prod.fst]
  refine visitedFew once fun offset member => ?_
  obtain ⟨item, visited, rfl⟩ := List.mem_map.mp member
  exact (each item visited).2.2.1

end Walks

variable [FixedRecord α]

def Shows (image : Image) (offset : UInt32) (r : α) : Prop :=
  image.record offset = .ok r ∧
    image.sectors offset 1 = .ok (padded sectorSize (Record.bytes r).toByteArray)

theorem recordShown {offset : UInt32} {r : α}
    (shown : (Record.sector r).data.toList <+:
      image.bytes.data.toList.drop (offset.toNat * sectorSize)) : image.Shows offset r := by
  have length : (Record.sector r).data.toList.length = sectorSize := by
    rw [listLength, Record.sectorLength]
  have fits := shown.length_le
  rw [length, List.length_drop, listLength] at fits
  have some : 0 < sectorSize := Nat.succ_pos'
  have read : image.sectors offset 1 = .ok (Record.sector r).data.toList.toByteArray :=
    sectorsShown (by omega) shown (length.trans (Nat.one_mul _).symm)
  rw [bytesBack] at read
  have decoded : image.record offset = .ok r := by
    unfold record
    rw [read]
    exact Record.decodeSector r
  exact ⟨decoded, read⟩

theorem recordIff {offset : UInt32} {r : α} :
    image.record offset = .ok r ↔ image.Holds offset r := by
  by_cases inside : image.Inside offset 1
  · have parsed : Record.parse (image.part offset 1) = some r ↔ image.Holds offset r := by
      rw [FixedRecord.parsed, Holds]
      exact (and_iff_right inside).symm
    rw [← parsed, record, sectorsInside inside]
    simp only [bind, Except.bind, Record.decode, List.toList_data_toByteArray]
    cases Record.parse (α := α) (image.part offset 1) <;> simp
  · simp only [recordOutside inside, Holds, inside, false_and, reduceCtorEq]

theorem recordInside {offset : UInt32} (inside : image.Inside offset 1) :
    ∃ r : α, image.Holds offset r := by
  have enough : FixedRecord.width α ≤ (image.part offset 1).length :=
    FixedRecord.small.trans_eq (partLength inside).symm
  obtain ⟨r, parsed⟩ := FixedRecord.enough enough
  exact ⟨r, inside, FixedRecord.parsed.mp parsed⟩

theorem foundIff {offset : UInt32} {r : α} :
    image.record? offset = some r ↔ image.Holds offset r := by
  rw [← recordIff, record?]
  cases image.record (α := α) offset <;> simp

namespace Walks

theorem total (image : Image) (next : α → UInt32) {seen : List UInt32} (once : seen.Nodup)
    (inside : ∀ pointer ∈ seen, image.Inside pointer 1) (pointer : UInt32) :
    ∃ items outcome, image.Walks next seen pointer items outcome := by
  -- A visited node takes one of the sectors that were not seen.
  induction left : image.bytes.size / sectorSize - seen.length using Nat.strongRecOn
    generalizing seen pointer with
  | ind left ih =>
    by_cases null : pointer = nullPointer
    · subst null
      exact ⟨_, _, .ended⟩
    by_cases again : pointer ∈ seen
    · exact ⟨_, _, .looped null again⟩
    by_cases within : image.Inside pointer 1
    · obtain ⟨r, held⟩ := recordInside (α := α) within
      have nowOnce : (pointer :: seen).Nodup := List.nodup_cons.mpr ⟨again, once⟩
      have nowInside : ∀ offset ∈ pointer :: seen, image.Inside offset 1 :=
        List.forall_mem_cons.mpr ⟨within, inside⟩
      have few := visitedFew nowOnce nowInside
      rw [List.length_cons] at few
      obtain ⟨items, outcome, later⟩ :=
        ih _ (by rw [List.length_cons]; omega) nowOnce nowInside (next r) rfl
      exact ⟨_, _, .node null again held later⟩
    · exact ⟨_, _, .outside null again within⟩

theorem computed (walks : image.Walks next seen pointer items outcome) {fuel : Nat}
    (enough : items.length < fuel) {known : Std.HashSet UInt32}
    (same : ∀ offset, known.contains offset = true ↔ offset ∈ seen) (done : Array (UInt32 × α)) :
    image.walkFrom next fuel known done pointer = outcome.map fun _ => done.toList ++ items := by
  -- The set stands for the list of sectors seen, and the fuel outlasts the walk.
  obtain ⟨fuel, rfl⟩ := Nat.exists_eq_add_one_of_ne_zero (Nat.ne_zero_of_lt enough)
  induction walks generalizing fuel known done with
  | ended => simp [walkFrom, Except.map]
  | looped live again =>
    unfold walkFrom
    rw [if_neg live, if_pos ((same _).mpr again)]
    rfl
  | outside live fresh beyond =>
    unfold walkFrom
    rw [if_neg live, if_neg (mt (same _).mp fresh), recordOutside beyond]
    rfl
  | @node seen pointer r items outcome live fresh held later ih =>
    have still : ∀ offset, (known.insert pointer).contains offset = true ↔
        offset ∈ pointer :: seen := by
      intro offset
      rw [Std.HashSet.contains_insert, Bool.or_eq_true, beq_iff_eq, same, List.mem_cons,
        eq_comm]
    obtain ⟨fuel, rfl⟩ := Nat.exists_eq_add_one_of_ne_zero
      (Nat.ne_zero_of_lt (Nat.lt_of_succ_lt_succ enough))
    unfold walkFrom
    rw [if_neg live, if_neg (mt (same _).mp fresh), recordIff.mpr held]
    simp only [bind, Except.bind]
    rw [ih still _ fuel (Nat.lt_of_succ_lt_succ enough)]
    simp

theorem walked (walks : image.Walks next [] pointer items outcome) :
    image.walk next pointer = outcome.map fun _ => items := by
  have few := walks.few
  unfold walk
  rw [walks.computed (by omega) (by simp)]
  simp

theorem chain (walks : image.Walks next seen pointer items outcome) (finished : outcome = .ok ()) :
    Chain image.record? next pointer items := by
  induction walks with
  | ended => exact .ended
  | looped | outside => cases finished
  | node live fresh held later ih => exact .node live (foundIff.mpr held) (ih finished)

end Walks

theorem chainWalks {head : UInt32} {items : List (UInt32 × α)}
    (chain : Chain image.record? next head items) {seen : List UInt32}
    (fresh : ∀ item ∈ items, item.1 ∉ seen) : image.Walks next seen head items (.ok ()) := by
  induction chain generalizing seen with
  | ended => exact .ended
  | @node pointer r items live found later ih =>
    have once : pointer ∉ items.map Prod.fst :=
      (List.nodup_cons.mp (Chain.node live found later).nodup).1
    refine .node live (fresh _ List.mem_cons_self) (foundIff.mp found) (ih fun item member => ?_)
    rw [List.mem_cons, not_or]
    exact ⟨fun same => once (List.mem_map.mpr ⟨item, member, same⟩),
      fresh item (List.mem_cons_of_mem _ member)⟩

theorem walkChain {head : UInt32} {items : List (UInt32 × α)}
    (chain : Chain image.record? next head items) : image.walk next head = .ok items :=
  (chainWalks chain fun _ _ => List.not_mem_nil).walked

theorem walkIff {head : UInt32} {items : List (UInt32 × α)} :
    image.walk next head = .ok items ↔ Chain image.record? next head items := by
  constructor
  · intro read
    obtain ⟨visited, outcome, walks⟩ := Walks.total image next .nil (by simp) head
    rw [walks.walked] at read
    cases outcome with
    | error f => cases read
    | ok => exact Except.ok.inj read ▸ walks.chain rfl
  · exact walkChain

theorem Linked.chain {head : UInt32} {items : List (UInt32 × α)}
    (list : image.Linked next head items) : Chain image.record? next head items := by
  obtain ⟨linked, live, held, once⟩ := list
  induction items generalizing head with
  | nil =>
    cases List.singleton_inj.mp linked
    exact .ended
  | cons item items ih =>
    obtain ⟨pointer, r⟩ := item
    obtain ⟨same, later⟩ := List.cons.inj linked
    rw [same]
    refine .node (live _ List.mem_cons_self) (foundIff.mpr (held _ List.mem_cons_self)) (ih later
      (fun item member => live item (List.mem_cons_of_mem _ member))
      (fun item member => held item (List.mem_cons_of_mem _ member)) (List.nodup_cons.mp once).2)

theorem linkedIff {head : UInt32} {items : List (UInt32 × α)} :
    image.Linked next head items ↔ Chain image.record? next head items := by
  refine ⟨Linked.chain, fun chain => ⟨?linked, ?live, ?held, chain.nodup⟩⟩
  case linked =>
    induction chain with
    | ended => rfl
    | node live found later ih => exact congrArg _ ih
  case live => exact fun item member => (chain.member member).1
  case held => exact fun item member => foundIff.mp (chain.member member).2

end

theorem chunksJoined {nodes : List (UInt32 × ChunkNode)} {front bytes : ByteArray} :
    nodes.foldlM (fun bytes (_, node) =>
        return bytes ++ (← image.sectors node.data node.length)) front =
      (.ok bytes : Except Fault ByteArray) ↔
    (∀ visit ∈ nodes, image.Inside visit.2.data visit.2.length) ∧
      bytes.data.toList = front.data.toList ++
        nodes.flatMap fun visit => image.part visit.2.data visit.2.length := by
  induction nodes generalizing front with
  | nil =>
    rw [List.foldlM_nil]
    constructor
    · rintro ⟨rfl⟩
      simp
    · rintro ⟨_, same⟩
      have unchanged : bytes = front := bytesInj (by simpa using same)
      rw [unchanged]
      rfl
  | cons visit nodes ih =>
    obtain ⟨pointer, node⟩ := visit
    rw [List.foldlM_cons, List.forall_mem_cons, List.flatMap_cons]
    by_cases inside : image.Inside node.data node.length
    · simp only [sectorsInside inside]
      change List.foldlM _ (front ++ _) nodes = _ ↔ _
      rw [ih]
      simp only [inside, true_and, ByteArray.data_append, Array.toList_append,
        List.toList_data_toByteArray, List.append_assoc]
    · simp only [sectorsOutside inside, inside, false_and, iff_false]
      exact fun failed => by cases failed

theorem rawChunksIff {header : FileHeader} {bytes : ByteArray} :
    image.rawChunks header = .ok bytes ↔
      ∃ nodes, Chain image.record? ChunkNode.next header.firstChunk nodes ∧
        (∀ visit ∈ nodes, image.Inside visit.2.data visit.2.length) ∧
        bytes.data.toList =
          nodes.flatMap fun visit => image.part visit.2.data visit.2.length := by
  unfold rawChunks
  constructor
  · intro read
    cases walked : image.walk ChunkNode.next header.firstChunk with
    | error f =>
      rw [walked] at read
      cases read
    | ok nodes =>
      rw [walked] at read
      obtain ⟨inside, joined⟩ := chunksJoined.mp read
      exact ⟨nodes, walkIff.mp walked, inside, by simpa using joined⟩
  · rintro ⟨nodes, chain, inside, joined⟩
    rw [walkChain chain]
    exact chunksJoined.mpr ⟨inside, by simpa using joined⟩

theorem rawChunksJoined {header : FileHeader} {nodes : List (UInt32 × ChunkNode)}
    {data : List ByteArray}
    (chain : Chain image.record? ChunkNode.next header.firstChunk nodes)
    (each : List.Forall₂ (fun visit part =>
      image.sectors visit.2.data visit.2.length = .ok part) nodes data) :
    ∃ bytes, image.rawChunks header = .ok bytes ∧
      bytes.data.toList = data.flatMap (·.data.toList) := by
  have inside : ∀ visit ∈ nodes, image.Inside visit.2.data visit.2.length := by
    intro visit member
    obtain ⟨part, read⟩ := forall₂Partner each member
    exact (sectorsIff.mp read).1
  have joined : (nodes.flatMap fun visit => image.part visit.2.data visit.2.length) =
      data.flatMap (·.data.toList) := by
    clear chain inside
    induction each with
    | nil => rfl
    | cons read each ih => rw [List.flatMap_cons, List.flatMap_cons, ih, (sectorsIff.mp read).2]
  exact ⟨_, rawChunksIff.mpr ⟨nodes, chain, inside, List.toList_data_toByteArray⟩,
    List.toList_data_toByteArray.trans joined⟩

end Image

end BootImage
