import Mathlib
import BootImage.Command.Run
import BootImage.Proofs.Lists
import BootImage.Proofs.Source.Delivery

/-!
Loading the programs of a command line: all of them or none, each by its own file and name. The
bytes of a regular file are then given without failure.
-/
namespace BootImage.Command

variable {openFile : Opener}

/- A program whose file cannot be opened, or whose name or size an image has no room for. -/
inductive Unloadable (openFile : Opener) (args : Args) (program : Program) : Prop
  | unopened {e} (refused : openFile (Path.join args.searchDir program.file) = .error e)
  | unfit {size handle f}
      (opened : openFile (Path.join args.searchDir program.file) = .ok (size, handle))
      (rejected : Entry.ofText program.name size = .error f)

theorem Unloadable.fails {args : Args} {program : Program}
    (unloadable : Unloadable openFile args program) : ∃ fault,
      loadProgram openFile program.name (Path.join args.searchDir program.file) = .error fault := by
  cases unloadable with
  | unopened refused =>
    unfold loadProgram
    rw [refused]
    exact ⟨_, rfl⟩
  | unfit opened rejected =>
    unfold loadProgram Source.make
    rw [opened]
    simp only [Except.mapError, bind, Except.bind]
    rw [rejected]
    exact ⟨_, rfl⟩

theorem loadFromIff {searchDir : String} {log : List LogLine} {loaded all : List (Source Handle)}
    {programs : List Program} :
    (loadFrom openFile searchDir log loaded programs).outcome = .ok all ↔
      ∃ sources, all = loaded ++ sources ∧ List.Forall₂ (fun program s =>
        loadProgram openFile program.name (Path.join searchDir program.file) = .ok s)
        programs sources := by
  induction programs generalizing log loaded with
  | nil =>
    simp only [loadFrom, List.forall₂_nil_left_iff, exists_eq_right, List.append_nil]
    exact ⟨fun same => (Except.ok.inj same).symm, fun same => congrArg _ same.symm⟩
  | cons program programs ih =>
    simp only [loadFrom, List.forall₂_cons_left_iff]
    cases made : loadProgram openFile program.name (Path.join searchDir program.file) with
    | error fault => simp
    | ok s =>
      simp only [ih, Except.ok.injEq]
      constructor
      · intro later
        obtain ⟨sources, whole, rest⟩ := later
        exact ⟨s :: sources, by simp [whole], s, sources, rfl, rest, rfl⟩
      · intro first
        obtain ⟨_, whole, _, sources, rfl, rest, rfl⟩ := first
        exact ⟨sources, by simp [whole], rest⟩

theorem loadIff {args : Args} {sources : List (Source Handle)} :
    (load openFile args).outcome = .ok sources ↔ List.Forall₂ (fun program s =>
      loadProgram openFile program.name (Path.join args.searchDir program.file) = .ok s)
      args.programs sources := by
  simp [load, loadFromIff]

theorem loadOne {args : Args} {name file : String} {size : UInt64} {handle : Handle}
    {s : Source Handle} (one : args.programs = [⟨name, file⟩])
    (opened : openFile (Path.join args.searchDir file) = .ok (size, handle))
    (made : Source.make name size handle = .ok s) :
    (load openFile args).outcome = .ok [s] := by
  rw [loadIff, one]
  refine .cons ?_ .nil
  unfold loadProgram
  rw [opened]
  exact made

theorem loadRefused {args : Args} {program : Program} (member : program ∈ args.programs)
    (unloadable : Unloadable openFile args program) :
    ∃ failure, (load openFile args).outcome = .error failure := by
  cases loaded : (load openFile args).outcome with
  | error failure => exact ⟨failure, rfl⟩
  | ok sources =>
    obtain ⟨s, made⟩ := forall₂Partner (loadIff.mp loaded) member
    obtain ⟨fault, failed⟩ := unloadable.fails
    cases made.symm.trans failed

theorem handleDelivers {content : ByteArray} (some : 0 < content.size) :
    Reader.Delivers (Handle.content (.ofContent content)) content.data.toList := by
  obtain ⟨gives, delivery, given⟩ :=
    Stream.delivers (s := .ofContent content) rfl fun _ => some
  refine ⟨fun handle rest => ∃ s, handle = .content s ∧ gives s rest, ⟨?_⟩, _, rfl, given⟩
  intro handle rest limit held asked
  obtain ⟨s, rfl, here⟩ := held
  obtain ⟨piece, after, later, answer, fits, ends, split, still⟩ := delivery.answers here asked
  refine ⟨piece, .content after, later, ?_, fits, ends, split, after, rfl, still⟩
  change Handle.read _ _ = _
  change Stream.read s limit = _ at answer
  simp only [Handle.read, answer]

end BootImage.Command
