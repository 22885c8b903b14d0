import Mathlib
import BootImage.Proofs.FileTree.Output

/-!
Opening an image where a file is or could be. What succeeds keeps every byte and adds zeros; what
fails leaves the tree alone, but for one range of lengths: a word can hold them and a file cannot
have them, and there a file that was not there before is left behind empty.
-/
namespace BootImage.FileTree

/- No path tells the trees apart. -/
structure Same (before after : FileTree) : Prop where
  working : after.working = before.working
  nodes : ∀ place, after.node? place = before.node? place

/- A path whose last part names nothing yet, in a directory that is there. -/
def Vacant (t : FileTree) (path : String) : Prop :=
  ∃ place, t.Writable path place ∧ t.node? place = none

variable {t : FileTree} {path : String} {place : Place} {skip total : UInt64}

theorem samePut {node : Node} (inside : place ≠ []) (held : t.node? place = some node) :
    t.Same (t.put place node) := by
  refine ⟨rfl, fun other => ?_⟩
  by_cases same : other = place
  · rw [same, nodePut t inside, held]
  · exact nodePutElsewhere t node same

theorem Writable.unique {other : Place} (left : t.Writable path place)
    (right : t.Writable path other) : place = other := by
  cases left.located.symm.trans right.located
  rfl

theorem Writable.output (writable : t.Writable path place) {content : ByteArray}
    (held : (t.node? place).getD (.regular ByteArray.empty) = .regular content) :
    t.Output path content := by
  cases known : t.node? place with
  | none =>
    rw [known] at held
    cases held
    refine .absent fun target located => ?_
    cases writable.located.symm.trans located
    exact known
  | some node =>
    rw [known] at held
    cases held
    exact .regular (writable.shown known)

theorem Output.keepless {old : ByteArray} (output : t.Output path old)
    (writable : t.Writable path place) {node : Node} (known : t.node? place = some node) :
    node = .regular old := by
  have held := output.held writable
  rwa [known] at held

/- An extension that is refused shows just where the file was not there before. -/
theorem strandedIff {content : ByteArray} (writable : t.Writable path place)
    (held : (t.node? place).getD (.regular ByteArray.empty) = .regular content) :
    ¬ t.Same (t.put place (.regular content)) ↔ t.Vacant path := by
  cases known : t.node? place with
  | none =>
    refine iff_of_true (fun same => ?_) ⟨place, writable, known⟩
    have here := same.nodes place
    rw [nodePut t writable.inside, known] at here
    cases here
  | some node =>
    rw [known] at held
    cases held
    refine iff_of_false (not_not_intro (samePut writable.inside known)) ?_
    rintro ⟨other, right, none⟩
    cases writable.unique right
    cases known.symm.trans none

/-- A region within reach is opened wherever a file can be written, and nothing but zeros behind the
old end is added. A failure shows in the tree exactly where a new file would be too long. -/
theorem openImageExtends (t : FileTree) (path : String) (skip total : UInt64) :
    (∀ image after, t.openImage path skip total = (.ok image, after) →
      (∀ old, t.Output path old → ∃ new : ByteArray,
        new.data.toList = old.data.toList ++
          List.replicate ((skip.toNat + total.toNat) * 512 - old.size) 0 ∧
        image.window = ⟨.file new, skip⟩ ∧ t.Rewritten path new after) ∧
      ((∀ old, ¬ t.Output path old) → after = t)) ∧
    (∀ place, t.Writable path place → (skip.toNat + total.toNat) * 512 < 2 ^ 63 →
      ∃ image after, t.openImage path skip total = (.ok image, after)) ∧
    ∀ e after, t.openImage path skip total = (.error e, after) →
      (¬ t.Same after ↔ t.Vacant path ∧ 2 ^ 63 ≤ (skip.toNat + total.toNat) * 512 ∧
        (skip.toNat + total.toNat) * 512 < 2 ^ 64) ∧
      (t.Same after ∨ e = .lengthOutOfRange ∧ t.Rewritten path ByteArray.empty after) := by
  have opens := openImageOpens t path skip total
  have length : required skip total = (skip.toNat + total.toNat) * 512 := rfl
  rw [← length]
  generalize t.openImage path skip total = opened at opens
  cases opens with
  | refused cause =>
    refine ⟨nofun, fun place writable low => ?_, fun e after same => ?_⟩
    · rcases cause with far | nowhere
      · exact absurd (Nat.lt_of_le_of_lt far low) (by decide)
      · exact absurd writable (nowhere place)
    · cases same
      have alike : t.Same t := ⟨rfl, fun _ => rfl⟩
      refine ⟨iff_of_false (not_not_intro alike) ?_, .inl alike⟩
      rintro ⟨⟨place, writable, _⟩, _, near⟩
      rcases cause with far | nowhere
      · exact absurd near (Nat.not_lt.mpr far)
      · exact nowhere place writable
  | @device there sink writable keepless =>
    refine ⟨fun image after same => ?_, fun _ _ _ => ⟨_, _, rfl⟩, nofun⟩
    cases same
    refine ⟨fun old output => ?_, fun _ => rfl⟩
    rcases keepless with ⟨known, _⟩ | ⟨known, _⟩ <;> cases output.keepless writable known
  | @file there content writable held =>
    refine ⟨fun image after same => ?_, fun _ _ _ => ⟨_, _, rfl⟩, nofun⟩
    cases same
    refine ⟨fun old output => ?_, fun none => absurd (writable.output held) (none content)⟩
    cases (output.held writable).symm.trans held
    exact ⟨_, paddedBytes _ content, rfl, writable.rewritten _⟩
  | @tooLong there content writable held beyond long addressable =>
    refine ⟨nofun, fun _ _ low => absurd long (Nat.not_le.mpr low), fun e after same => ?_⟩
    cases same
    have stranded := strandedIff writable held
    refine ⟨stranded.trans ⟨fun vacant => ⟨vacant, long, addressable⟩, And.left⟩, ?_⟩
    by_cases alike : t.Same (t.put there (.regular content))
    · exact .inl alike
    · obtain ⟨other, right, none⟩ := stranded.mp alike
      cases writable.unique right
      rw [none] at held
      cases held
      exact .inr ⟨rfl, writable.rewritten _⟩

theorem freshOpened :
    fresh.openForWriting "x" = .ok (["work", "x"], .regular ByteArray.empty) := by cbv

/- The file is made, and only then found to be too long. -/
theorem freshStranded {skip total length : UInt64} (measured : byteOffset skip total = .ok length)
    (long : 2 ^ 63 ≤ length.toNat) : fresh.openImage "x" skip total =
      (.error .lengthOutOfRange, fresh.put ["work", "x"] (.regular ByteArray.empty)) := by
  have refused : extend ByteArray.empty length = .error .lengthOutOfRange := by
    unfold extend
    rw [if_neg (by rw [ByteArray.size_empty]; omega), if_neg (by rw [positionLimit]; omega)]
  unfold openImage
  simp only [measured, freshOpened, refused]

/- An image of three sectors, and one whose length no file can have, both at a path that is new. -/
theorem openImageExtendsFresh : ∃ (image : OpenImage) (made left : FileTree) (new : ByteArray)
    (e : IoError), fresh.openImage "x" 1 2 = (.ok image, made) ∧
    new.data.toList = List.replicate 1536 0 ∧ fresh.Rewritten "x" new made ∧
    fresh.openImage "x" 18014398509481984 5 = (.error e, left) ∧ ¬ fresh.Same left := by
  obtain ⟨writable, held⟩ := writingIff.mp freshOpened
  have none : fresh.node? ["work", "x"] = none := by cbv
  obtain ⟨made, opens, _⟩ := openImageExtends fresh "x" 1 2
  obtain ⟨image, after, opened⟩ := opens _ writable (by decide)
  obtain ⟨new, bytes, _, rewritten⟩ := (made image after opened).1 _ (writable.output held)
  have length : ((1 : UInt64).toNat + (2 : UInt64).toNat) * 512 - ByteArray.empty.size = 1536 := rfl
  rw [length, ByteArray.data_empty, List.nil_append] at bytes
  obtain ⟨_, _, fails⟩ := openImageExtends fresh "x" 18014398509481984 5
  have long : (18014398509481984 : UInt64).toNat + (5 : UInt64).toNat = 18014398509481989 := by
    decide
  rw [long] at fails
  have measured : byteOffset 18014398509481984 5 = .ok 9223372036854778368 := by cbv
  have failed := freshStranded measured (by decide)
  have stranded := (fails _ _ failed).1.mpr ⟨⟨_, writable, none⟩, by norm_num, by norm_num⟩
  exact ⟨image, after, _, new, _, opened, bytes, rewritten, failed, stranded⟩

/- The shortest of the lengths that are beyond a file. -/
theorem emptyLeftBehind : ∃ e left, e.kind = .invalidInput ∧
    fresh.openImage "x" 18014398509481984 0 = (.error e, left) ∧
    fresh.regularAt? "x" = none ∧ left.regularAt? "x" = some ByteArray.empty := by
  obtain ⟨writable, _⟩ := writingIff.mp freshOpened
  have measured : byteOffset 18014398509481984 0 = .ok 9223372036854775808 := by cbv
  exact ⟨.lengthOutOfRange, _, rfl, freshStranded measured (by decide), by cbv,
    (writable.rewritten ByteArray.empty).shown⟩

end BootImage.FileTree
