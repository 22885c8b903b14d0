import Mathlib
import BootImage.FileTree
import BootImage.Proofs.Lists
import BootImage.Proofs.Sector

/-!
Files that are written at a path. A path leads to the same place before and after a file is put
there, so what was put is found again; opening an image makes the file or adds zeros to it.
-/
namespace BootImage.FileTree

variable {t : FileTree} {path : String} {place : Place} {old : ByteArray}

theorem nodePut (t : FileTree) (inside : place ≠ []) (node : Node) :
    (t.put place node).node? place = some node := by
  have some : place.isEmpty = false := by simpa using inside
  simp [node?, put, some]

theorem nodePutElsewhere (t : FileTree) (node : Node) {other : Place} (apart : other ≠ place) :
    (t.put place node).node? other = t.node? other := by
  have first : (other == place) = false := beq_eq_false_iff_ne.mpr apart
  unfold node? put
  rw [List.lookup_cons, first]
  simp only
  rw [lookupKept]
  exact fun _ => bne_iff_ne.mpr apart

/- The steps of a path. Only its last part may name something else than a directory. -/
inductive Leads (t : FileTree) : Place → List String → Place → Option Node → Prop
  | arrived {here} : Leads t here [] here (some .directory)
  | stay {here rest place node} (later : Leads t here rest place node) :
      Leads t here ("." :: rest) place node
  | back {here rest place node} (later : Leads t here.dropLast rest place node) :
      Leads t here (".." :: rest) place node
  | enter {here part rest place node} (named : part ≠ "." ∧ part ≠ "..")
      (short : part.utf8ByteSize ≤ maxComponent)
      (directory : t.node? (here ++ [part]) = some .directory)
      (later : Leads t (here ++ [part]) rest place node) : Leads t here (part :: rest) place node
  | last {here part} (named : part ≠ "." ∧ part ≠ "..") (short : part.utf8ByteSize ≤ maxComponent)
      (other : t.node? (here ++ [part]) ≠ some .directory) :
      Leads t here [part] (here ++ [part]) (t.node? (here ++ [part]))

theorem leadsOfDescend {here : Place} {parts : List String} {node : Option Node}
    (found : t.descend here parts = .ok (place, node)) : t.Leads here parts place node := by
  induction parts generalizing here with
  | nil =>
    cases found
    exact .arrived
  | cons part rest ih =>
    unfold descend at found
    split at found
    · rename_i dot
      exact dot ▸ .stay (ih found)
    · rename_i single
      split at found
      · rename_i dots
        exact dots ▸ .back (ih found)
      · rename_i double
        split at found
        · cases found
        · rename_i short
          have fits := Nat.le_of_not_lt short
          simp only at found
          split at found
          · rename_i directory
            exact .enter ⟨single, double⟩ fits directory (ih found)
          · rename_i node other known
            split at found
            · rename_i empty
              obtain rfl := List.isEmpty_iff.mp empty
              cases found
              exact known ▸ .last ⟨single, double⟩ fits fun directory =>
                other (Option.some.inj (known.symm.trans directory))
            · cases found
          · rename_i known
            split at found
            · rename_i empty
              obtain rfl := List.isEmpty_iff.mp empty
              cases found
              exact known ▸ .last ⟨single, double⟩ fits (known ▸ nofun)
            · cases found

theorem descendOfLeads {here : Place} {parts : List String} {node : Option Node}
    (leads : t.Leads here parts place node) : t.descend here parts = .ok (place, node) := by
  induction leads with
  | arrived => rfl
  | stay later ih =>
    unfold descend
    rw [if_pos rfl, ih]
  | back later ih =>
    unfold descend
    rw [if_neg (by decide), if_pos rfl, ih]
  | enter named short directory later ih =>
    unfold descend
    rw [if_neg named.1, if_neg named.2, if_neg (Nat.not_lt.mpr short)]
    simp only [directory, ih]
  | @last here part named short other =>
    unfold descend
    rw [if_neg named.1, if_neg named.2, if_neg (Nat.not_lt.mpr short)]
    simp only
    split
    · rename_i directory
      exact absurd directory other
    all_goals
      rename_i known
      rw [known]
      rfl

theorem Leads.node {here : Place} {parts : List String} {node : Option Node}
    (leads : t.Leads here parts place node) : node = some .directory ∨ node = t.node? place := by
  induction leads with
  | arrived => exact .inl rfl
  | stay later ih | back later ih | enter named short directory later ih => exact ih
  | last => exact .inr rfl

theorem Leads.put (content : ByteArray) {here : Place} {parts : List String} {node : Option Node}
    (leads : t.Leads here parts place node) (plain : node ≠ some .directory)
    (before : t.node? place ≠ some .directory) :
    (t.put place (.regular content)).Leads here parts place (some (.regular content)) := by
  -- Only directories are passed through, and the place that changes is none of them.
  have inside : place ≠ [] := fun root => before (by rw [root]; rfl)
  induction leads with
  | arrived => exact absurd rfl plain
  | stay later ih => exact .stay (ih plain before inside)
  | back later ih => exact .back (ih plain before inside)
  | @enter here part rest place node named short directory later ih =>
    have apart : here ++ [part] ≠ place := fun same => before (same ▸ directory)
    exact .enter named short ((nodePutElsewhere t _ apart).trans directory) (ih plain before inside)
  | @last here part named short other =>
    have here := nodePut t inside (.regular content)
    rw [← here]
    exact .last named short (here ▸ nofun)

/- A place that a file can be written to, as the path leads there: it holds one, or nothing yet. -/
structure Writable (t : FileTree) (path : String) (place : Place) : Prop where
  named : checkPath path = .ok ()
  leads : t.Leads (t.outset path) (Path.components path) place (t.node? place)
  ends : Path.endsInSlash path = false
  plain : t.node? place ≠ some .directory

theorem locateIff {target : Target} : t.locate path = .ok target ↔ checkPath path = .ok () ∧
    t.Leads (t.outset path) (Path.components path) target.place target.node ∧
    target.slash = Path.endsInSlash path := by
  simp only [locate, bindOk]
  constructor
  · intro located
    obtain ⟨_, named, ⟨place, node⟩, found, same⟩ := located
    cases same
    exact ⟨named, leadsOfDescend found, rfl⟩
  · intro held
    obtain ⟨named, leads, slash⟩ := held
    exact ⟨(), named, _, descendOfLeads leads, by rw [← slash]; rfl⟩

namespace Writable

variable (writable : t.Writable path place)

include writable

theorem inside : place ≠ [] := fun root => writable.plain (by rw [root]; rfl)

theorem put (content : ByteArray) : (t.put place (.regular content)).Writable path place := by
  have here := nodePut t writable.inside (.regular content)
  have leads := writable.leads.put content writable.plain writable.plain
  exact ⟨writable.named, here ▸ leads, writable.ends, here ▸ nofun⟩

theorem located : t.locate path = .ok ⟨place, t.node? place, false⟩ :=
  locateIff.mpr ⟨writable.named, writable.leads, writable.ends.symm⟩

theorem shown {content : ByteArray} (held : t.node? place = some (.regular content)) :
    t.regularAt? path = some content := by
  unfold regularAt?
  rw [writable.located, held]

end Writable

/- What may be written over at a path: the bytes of a regular file, or nothing where nothing is. -/
inductive Output (t : FileTree) (path : String) : ByteArray → Prop
  | regular {content} (found : t.regularAt? path = some content) : Output t path content
  | absent (none : ∀ target, t.locate path = .ok target → target.node = none) :
      Output t path ByteArray.empty

/- One file is written, and nothing else changes. -/
structure Rewritten (before : FileTree) (path : String) (content : ByteArray) (after : FileTree) :
    Prop where
  shown : after.regularAt? path = some content
  others : ∃ place, before.Writable path place ∧
    ∀ other, other ≠ place → after.node? other = before.node? other

theorem Writable.rewritten (writable : t.Writable path place) (content : ByteArray) :
    t.Rewritten path content (t.put place (.regular content)) :=
  ⟨(writable.put content).shown (nodePut t writable.inside _), place, writable,
    fun _ apart => nodePutElsewhere t _ apart⟩

theorem Writable.again (writable : t.Writable path place) (first content : ByteArray) :
    t.Rewritten path content ((t.put place (.regular first)).put place (.regular content)) := by
  have second := (writable.put first).rewritten content
  refine ⟨second.shown, place, writable, fun other apart => ?_⟩
  rw [nodePutElsewhere _ _ apart, nodePutElsewhere t _ apart]

theorem Output.node (output : t.Output path old) {node : Option Node}
    (located : t.locate path = .ok ⟨place, node, false⟩) :
    (node = none ∧ old = ByteArray.empty) ∨ node = some (.regular old) := by
  cases output with
  | regular found =>
    unfold regularAt? at found
    rw [located] at found
    split at found
    · rename_i same
      cases same
      cases found
      exact .inr rfl
    · cases found
  | absent none => exact .inl ⟨none _ located, rfl⟩

theorem writingIff {node : Node} : t.openForWriting path = .ok (place, node) ↔
    t.Writable path place ∧ (t.node? place).getD (.regular ByteArray.empty) = node := by
  constructor
  · intro opened
    unfold openForWriting at opened
    split at opened
    · obtain ⟨_, _, failed⟩ := bindOk.mp opened
      cases failed
    · rename_i ending
      obtain ⟨⟨there, held, slash⟩, located, opened⟩ := bindOk.mp opened
      obtain ⟨named, leads, -⟩ := locateIff.mp located
      have plain : Path.endsInSlash path = false := by simpa using ending
      have known := leads.node
      simp only at leads known opened
      split at opened
      · cases opened
        obtain known := known.resolve_left nofun
        exact ⟨⟨named, known ▸ leads, plain, known ▸ nofun⟩, known ▸ rfl⟩
      · cases opened
      · rename_i other
        cases opened
        have other : some node ≠ some .directory := fun same => other (Option.some.inj same)
        obtain known := known.resolve_left other
        exact ⟨⟨named, known ▸ leads, plain, known ▸ other⟩, known ▸ rfl⟩
  · rintro ⟨writable, rfl⟩
    have ending : ¬ Path.endsInSlash path = true := by simp [writable.ends]
    unfold openForWriting
    rw [if_neg ending]
    refine bindOk.mpr ⟨_, writable.located, ?_⟩
    have plain := writable.plain
    cases held : t.node? place with
    | none => rfl
    | some node =>
      cases node with
      | directory => exact absurd held plain
      | regular content => rfl
      | null => rfl
      | full => rfl

theorem Output.held (output : t.Output path old) (writable : t.Writable path place) :
    (t.node? place).getD (.regular ByteArray.empty) = .regular old := by
  rcases output.node writable.located with ⟨none, rfl⟩ | held
  · rw [none]
    rfl
  · rw [held]
    rfl

theorem extendOk {content longer : ByteArray} {required : UInt64}
    (extended : extend content required = .ok longer) :
    longer = padded required.toNat content := by
  unfold extend at extended
  split at extended
  · rename_i enough
    cases extended
    unfold padded
    rw [Nat.sub_eq_zero_of_le enough]
    rfl
  · split at extended
    · cases extended
      rfl
    · cases extended

theorem byteOffsetOk {first second offset : UInt64} (exact : byteOffset first second = .ok offset) :
    offset.toNat = (first.toNat + second.toNat) * sectorSize := by
  unfold byteOffset at exact
  simp only at exact
  split at exact
  · rename_i fits
    cases exact
    rw [UInt64.toNat_ofNat', Nat.mod_eq_of_lt fits]
  · cases exact

theorem byteOffsetError {first second : UInt64} {e : IoError}
    (refused : byteOffset first second = .error e) :
    UInt64.size ≤ (first.toNat + second.toNat) * sectorSize := by
  unfold byteOffset at refused
  simp only at refused
  split at refused
  · cases refused
  · rename_i far
    exact Nat.le_of_not_lt far

/-- The bytes an image has up to the end of its last sector. -/
def required (skip total : UInt64) : Nat := (skip.toNat + total.toNat) * sectorSize

/- What opening an image comes to. A file is there before it is extended, so even an extension that
is refused can leave one behind. -/
inductive Opens (t : FileTree) (path : String) (skip total : UInt64) :
    Except IoError OpenImage × FileTree → Prop
  | refused {e} (cause : UInt64.size ≤ required skip total ∨ ∀ there, ¬ t.Writable path there) :
      Opens t path skip total (.error e, t)
  | device {there sink} (writable : t.Writable path there)
      (keepless : t.node? there = some .null ∧ sink = .discard ∨
        t.node? there = some .full ∧ sink = .full) :
      Opens t path skip total (.ok ⟨there, ⟨sink, skip⟩⟩, t)
  | file {there content} (writable : t.Writable path there)
      (held : (t.node? there).getD (.regular ByteArray.empty) = .regular content) :
      Opens t path skip total (.ok ⟨there, ⟨.file (padded (required skip total) content), skip⟩⟩,
        t.put there (.regular (padded (required skip total) content)))
  | tooLong {there content} (writable : t.Writable path there)
      (held : (t.node? there).getD (.regular ByteArray.empty) = .regular content)
      (beyond : content.size < required skip total) (long : positionLimit ≤ required skip total)
      (addressable : required skip total < UInt64.size) :
      Opens t path skip total (.error .lengthOutOfRange, t.put there (.regular content))

theorem extendError {content : ByteArray} {length : UInt64} {e : IoError}
    (refused : extend content length = .error e) :
    e = .lengthOutOfRange ∧ content.size < length.toNat ∧ positionLimit ≤ length.toNat := by
  unfold extend at refused
  split at refused
  · cases refused
  · split at refused <;> cases refused
    exact ⟨rfl, by omega, by omega⟩

theorem nodeOther {node : Node} (held : (t.node? place).getD (.regular ByteArray.empty) = node)
    (other : ∀ content, node ≠ .regular content) : t.node? place = some node := by
  cases known : t.node? place with
  | none =>
    rw [known] at held
    exact absurd held.symm (other _)
  | some found =>
    rw [known] at held
    exact congrArg some held

theorem openImageOpens (t : FileTree) (path : String) (skip total : UInt64) :
    Opens t path skip total (t.openImage path skip total) := by
  unfold openImage
  split
  · rename_i e far
    exact .refused (.inl (byteOffsetError far))
  · rename_i length measured
    have exact : length.toNat = required skip total := byteOffsetOk measured
    split
    · rename_i e refused
      exact .refused (.inr fun place writable =>
        nomatch refused.symm.trans (writingIff.mpr ⟨writable, rfl⟩))
    · rename_i place content opened
      obtain ⟨writable, held⟩ := writingIff.mp opened
      split
      · rename_i e refused
        obtain ⟨rfl, beyond, long⟩ := extendError refused
        rw [exact] at beyond long
        exact .tooLong writable held beyond long (exact ▸ length.toNat_lt)
      · rename_i longer extended
        rw [extendOk extended, exact]
        exact .file writable held
    · rename_i opened
      obtain ⟨writable, held⟩ := writingIff.mp opened
      exact .device writable (.inl ⟨nodeOther held nofun, rfl⟩)
    · rename_i opened
      obtain ⟨writable, held⟩ := writingIff.mp opened
      exact .device writable (.inr ⟨nodeOther held nofun, rfl⟩)
    · rename_i opened
      obtain ⟨writable, held⟩ := writingIff.mp opened
      exact absurd (nodeOther held nofun) writable.plain

theorem Output.image (output : t.Output path old) (skip total : UInt64) :
    (∃ e after, t.openImage path skip total = (.error e, after) ∧
      (after = t ∨ t.Rewritten path old after)) ∨
    ∃ place longer, t.Writable path place ∧
      longer = padded ((skip.toNat + total.toNat) * sectorSize) old ∧
      t.openImage path skip total =
        (.ok ⟨place, ⟨.file longer, skip⟩⟩, t.put place (.regular longer)) := by
  have opens := openImageOpens t path skip total
  generalize t.openImage path skip total = opened at opens
  cases opens with
  | refused cause => exact .inl ⟨_, t, rfl, .inl rfl⟩
  | device writable keepless =>
    have held := output.held writable
    rcases keepless with ⟨known, _⟩ | ⟨known, _⟩ <;> rw [known] at held <;> cases held
  | file writable held =>
    cases (output.held writable).symm.trans held
    exact .inr ⟨_, _, writable, rfl, rfl⟩
  | tooLong writable held beyond long addressable =>
    cases (output.held writable).symm.trans held
    exact .inl ⟨_, _, rfl, .inr (writable.rewritten old)⟩

end BootImage.FileTree
