import Mathlib
import BootImage.Proofs.Command.Loading
import BootImage.Proofs.FileTree.Output
import BootImage.Proofs.Image.Overwriting

/-!
What the command does to the tree of files. Before there is a plan nothing is touched; a run that
fails to read has added zeros at most; and a finished run writes its region and keeps the rest.
-/
namespace BootImage.Command

theorem mapErrorOk {ε ε' α : Type} {result : Except ε α} {f : ε → ε'} {value : α} :
    result.mapError f = .ok value ↔ result = .ok value := by
  cases result with
  | error fault => exact ⟨nofun, nofun⟩
  | ok first => simp [Except.mapError]

section

variable {γ : Type} [Generator γ] {openFile : Opener} {g : γ} {tree : FileTree} {args : Args}
  {color : Bool}

theorem runUnloaded {failure : Failure} (refused : (load openFile args).outcome = .error failure) :
    (runWith openFile g tree args color).tree = tree := by
  simp only [runWith, refused]

theorem runUnplanned {sources : List (Source Handle)} {f : Fault}
    (loaded : (load openFile args).outcome = .ok sources)
    (refused : (planFor args g sources).outcome = .error f) :
    (runWith openFile g tree args color).tree = tree := by
  simp only [runWith, loaded, refused]

theorem runDry (dry : args.dryRun = true) : (runWith openFile g tree args color).tree = tree := by
  unfold runWith
  simp only
  split
  · rfl
  · split
    · rfl
    · rw [if_pos dry]

theorem runPlanned (tree : FileTree) (color : Bool) {sources : List (Source Handle)} {p : Plan}
    (loaded : (load openFile args).outcome = .ok sources)
    (planned : (planFor args g sources).outcome = .ok p) (wet : args.dryRun = false) :
    ∃ log, runWith openFile g tree args color = writeOutput tree args color p sources log :=
  ⟨_, by simp only [runWith, loaded, planned, wet]; rfl⟩

theorem runFinished (done : (runWith openFile g tree args color).outcome = .ok ()) :
    ∃ sources p, (load openFile args).outcome = .ok sources ∧
      (planFor args g sources).outcome = .ok p := by
  unfold runWith at done
  simp only at done
  split at done
  · cases done
  · rename_i sources loaded
    split at done
    · cases done
    · rename_i p planned
      exact ⟨sources, p, loaded, planned⟩

end

theorem writeEnds (args : Args) (color : Bool) (p : Plan) (sources : List (Source Handle))
    (window : Window) :
    (write args color p sources window).window = (execute p sources window .start).device ∧
      (write args color p sources window).outcome =
        (execute p sources window .start).outcome.mapError .build := by
  unfold write
  simp only
  split
  · rename_i failed
    rw [failed]
    exact ⟨rfl, rfl⟩
  · rename_i done
    rw [done]
    exact ⟨rfl, rfl⟩

/- Either the output cannot be opened, or what becomes of it is up to the execution of the plan. -/
theorem writeOutputEnds {tree : FileTree} (args : Args) {old : ByteArray}
    (output : tree.Output args.output old) (color : Bool) (p : Plan)
    (sources : List (Source Handle)) (log : List LogLine) :
    ∃ result, result = writeOutput tree args color p sources log ∧
      ((∃ e, (tree.openImage args.output args.skip args.numSectors.toUInt64).1 = .error e ∧
        result.outcome = .error (.output args.output e) ∧
        (result.tree = tree ∨ tree.Rewritten args.output old result.tree)) ∨
      ∃ place opened, opened = padded (Window.place args.skip args.numSectors.toNat) old ∧
        tree.Writable args.output place ∧
        (tree.openImage args.output args.skip args.numSectors.toUInt64).1 =
          .ok ⟨place, ⟨.file opened, args.skip⟩⟩ ∧
        ∃ run, run = execute p sources (⟨.file opened, args.skip⟩ : Window) .start ∧
          result.tree = (tree.put place (.regular opened)).close place run.device ∧
          result.outcome = run.outcome.mapError .build) := by
  refine ⟨_, rfl, ?_⟩
  unfold writeOutput
  rcases output.image args.skip args.numSectors.toUInt64 with
    ⟨e, after, stopped, kept⟩ | ⟨place, opened, writable, long, made⟩
  · rw [stopped]
    exact .inl ⟨e, rfl, rfl, kept⟩
  · rw [UInt32.toNat_toUInt64] at long
    obtain ⟨device, outcome⟩ := writeEnds args color p sources ⟨.file opened, args.skip⟩
    rw [made]
    exact .inr ⟨place, opened, long, writable, rfl, _, rfl, by rw [← device], outcome⟩

variable {γ : Type} [Generator γ]

section

variable {openFile : Opener} {g : γ} {tree : FileTree} {args : Args} {color : Bool}
  {old : ByteArray} (output : tree.Output args.output old) (wet : args.dryRun = false)

include output wet

/- What the output held is kept where the files cannot be read; zeros may have been added. -/
theorem runUnread {sources : List (Source Handle)} {p : Plan}
    (loaded : (load openFile args).outcome = .ok sources)
    (planned : (planFor args g sources).outcome = .ok p) {file : Nat} {lengths : List Nat}
    {s : Source Handle} (wanted : p.Wants file lengths) (given : sources[file]? = some s)
    (fails : s.Fails lengths) :
    ∃ result, result = runWith openFile g tree args color ∧
      (∃ failure, result.outcome = .error failure) ∧
      (result.tree = tree ∨
        ∃ count, tree.Rewritten args.output (old ++ zeros count) result.tree) := by
  obtain ⟨log, whole⟩ := runPlanned tree color loaded planned wet
  obtain ⟨order, address, laid⟩ := planLaid planned
  obtain ⟨result, rfl, ends⟩ := writeOutputEnds args output color p sources log
  refine ⟨_, rfl, ?_⟩
  rw [whole]
  rcases ends with
    ⟨e, _, failed, same | kept⟩ | ⟨place, opened, long, writable, _, _, rfl, after, outcome⟩
  · exact ⟨⟨_, failed⟩, .inl same⟩
  · have same : old ++ zeros 0 = old := ByteArray.append_empty
    exact ⟨⟨_, failed⟩, .inr ⟨0, same.symm ▸ kept⟩⟩
  · obtain ⟨⟨f, failed⟩, device⟩ :=
      laid.unread wanted given fails (⟨.file opened, args.skip⟩ : Window) .start
    rw [device] at after
    rw [failed] at outcome
    obtain ⟨count, added⟩ : ∃ count, opened = old ++ zeros count :=
      ⟨_, by rw [long, padded, appendZerosEq]⟩
    refine ⟨⟨_, outcome⟩, .inr ⟨count, ?_⟩⟩
    rw [after, ← added]
    exact writable.again opened opened

/- The region is written over the output, which has its final length from the first call on. -/
theorem runOverlays (done : (runWith openFile g tree args color).outcome = .ok ()) :
    ∃ sources p place opened run new,
      (load openFile args).outcome = .ok sources ∧ (planFor args g sources).outcome = .ok p ∧
      (tree.openImage args.output args.skip args.numSectors.toUInt64).1 =
        .ok ⟨place, ⟨.file opened, args.skip⟩⟩ ∧
      run = execute p sources (⟨.file opened, args.skip⟩ : Window) .start ∧
      tree.Rewritten args.output new (runWith openFile g tree args color).tree ∧
      Overlaid old args.skip args.numSectors.toNat new ∧
      ∀ count, ∃ now, Device.Accepts (⟨.file opened, args.skip⟩ : Window)
        (run.calls.take count) ⟨.file now, args.skip⟩ ∧ now.size = new.size := by
  obtain ⟨sources, p, loaded, planned⟩ := runFinished done
  obtain ⟨log, whole⟩ := runPlanned tree color loaded planned wet
  obtain ⟨order, address, laid⟩ := planLaid planned
  obtain ⟨result, rfl, ends⟩ := writeOutputEnds args output color p sources log
  rw [whole] at done ⊢
  rcases ends with
    ⟨_, _, failed, _⟩ | ⟨place, opened, long, writable, image, _, rfl, after, outcome⟩
  · rw [failed] at done
    cases done
  · obtain ⟨run, new, rfl, device, overlaid, steady⟩ :=
      laid.overlays long (mapErrorOk.mp (outcome ▸ done))
    rw [device] at after
    exact ⟨sources, p, place, opened, _, new, loaded, planned, image, rfl,
      after ▸ writable.again opened new, overlaid, steady⟩

end

/-- The output is left alone until there is a plan to write; then it is made as long as the region
needs. What it held is never lost but where a run that could read everything has written. -/
theorem runEffect (openFile : Opener) (g : γ) (tree : FileTree) (args : Args) (color : Bool) :
    ∃ result, result = runWith openFile g tree args color ∧
      ((args.dryRun = true ∨ (∃ program ∈ args.programs, Unloadable openFile args program) ∨
          ∃ sources f, (load openFile args).outcome = .ok sources ∧
            (planFor args g sources).outcome = .error f) → result.tree = tree) ∧
      ∀ old, tree.Output args.output old → args.dryRun = false →
        (∀ sources p, (load openFile args).outcome = .ok sources →
          (planFor args g sources).outcome = .ok p →
          (∃ file lengths s, p.Wants file lengths ∧ sources[file]? = some s ∧ s.Fails lengths) →
            (∃ failure, result.outcome = .error failure) ∧
            (result.tree = tree ∨
              ∃ count, tree.Rewritten args.output (old ++ zeros count) result.tree)) ∧
        (result.outcome = .ok () → ∃ sources p place opened run new,
          (load openFile args).outcome = .ok sources ∧ (planFor args g sources).outcome = .ok p ∧
          (tree.openImage args.output args.skip args.numSectors.toUInt64).1 =
            .ok ⟨place, ⟨.file opened, args.skip⟩⟩ ∧
          run = execute p sources (⟨.file opened, args.skip⟩ : Window) .start ∧
          tree.Rewritten args.output new result.tree ∧
          Overlaid old args.skip args.numSectors.toNat new ∧
          ∀ count, ∃ now, Device.Accepts (⟨.file opened, args.skip⟩ : Window)
            (run.calls.take count) ⟨.file now, args.skip⟩ ∧ now.size = new.size) := by
  refine ⟨_, rfl, ?untouched, ?output⟩
  case untouched =>
    intro stopped
    rcases stopped with dry | ⟨program, member, unloadable⟩ | ⟨sources, f, loaded, refused⟩
    · exact runDry dry
    · obtain ⟨failure, refused⟩ := loadRefused member unloadable
      exact runUnloaded refused
    · exact runUnplanned loaded refused
  case output =>
    intro old output wet
    refine ⟨?_, runOverlays output wet⟩
    intro sources p loaded planned failing
    obtain ⟨file, lengths, s, wanted, given, fails⟩ := failing
    obtain ⟨_, rfl, kept⟩ := runUnread output wet loaded planned wanted given fails
    exact kept

/- With an output that opens and an execution that ends well on it, so does the whole run. -/
theorem runEnds {openFile : Opener} {g : γ} {tree : FileTree} {args : Args} {old : ByteArray}
    (output : tree.Output args.output old) (color : Bool) {sources : List (Source Handle)}
    {p : Plan} (loaded : (load openFile args).outcome = .ok sources)
    (planned : (planFor args g sources).outcome = .ok p) (wet : args.dryRun = false)
    (opens : ∃ image, (tree.openImage args.output args.skip args.numSectors.toUInt64).1 = .ok image)
    (writes : ∀ bytes,
      (execute p sources (⟨.file bytes, args.skip⟩ : Window) .start).outcome = .ok ()) :
    (runWith openFile g tree args color).outcome = .ok () := by
  obtain ⟨log, whole⟩ := runPlanned tree color loaded planned wet
  obtain ⟨result, same, ends⟩ := writeOutputEnds args output color p sources log
  rw [whole, ← same]
  rcases ends with ⟨e, refused, _⟩ | ⟨place, opened, _, _, _, _, rfl, _, outcome⟩
  · obtain ⟨image, made⟩ := opens
    cases refused.symm.trans made
  · rw [outcome]
    exact mapErrorOk.mpr (writes opened)

theorem regularWritten {args : Args} {g : γ} {p : Plan} {name : String} {size : UInt64}
    {content : ByteArray} (some : 0 < content.size) {s : Source Handle}
    (made : Source.make name size (Handle.content (.ofContent content)) = .ok s)
    (planned : (planFor args g [s]).outcome = .ok p)
    (low : Window.place args.skip (args.numSectors.toNat - 1) ≤ positionLimit)
    (bytes : ByteArray) :
    (execute p [s] (⟨.file bytes, args.skip⟩ : Window) .start).outcome = .ok () := by
  obtain ⟨order, address, laid⟩ := planLaid planned
  have count := Draw.ofEntriesCount [s.entry] g
  have given : ∀ file < (Draw.ofEntries [s.entry] g).1.length, ∃ source, [s][file]? = .some source ∧
      source.Yields (Source.stretched size.toNat content.data.toList) := by
    intro file first
    rw [count] at first
    obtain rfl : file = 0 := Nat.lt_one_iff.mp first
    exact ⟨s, rfl, Source.makeYields made (handleDelivers some)⟩
  exact (laid.executed given (w := ⟨.file bytes, args.skip⟩) low .start).1

/- A directory is opened like a file, and the first read from it fails. -/
theorem directoryUnread {args : Args} {g : γ} {p : Plan} {s : Source Handle}
    (reader : s.reader = .directory) (whole : s.remaining = s.entry.size)
    (some : 0 < s.entry.size.toNat) (planned : (planFor args g [s]).outcome = .ok p) :
    ∃ lengths, p.Wants 0 lengths ∧ s.Fails lengths := by
  obtain ⟨order, address, laid⟩ := planLaid planned
  obtain ⟨draw, drawn, entered⟩ : ∃ draw, (Draw.ofEntries [s.entry] g).1[0]? = .some draw ∧
      draw.entry = s.entry := ⟨_, rfl, rfl⟩
  have cut := (laid.fits draw (List.mem_of_getElem? drawn)).chunks
  refine ⟨_, laid.wants.mpr ⟨draw, drawn, rfl⟩, ?_⟩
  cases chunks : draw.chunks with
  | nil =>
    have none := (Chunks.cutNothing cut).mp chunks
    have size := s.entry.sizeWithin
    rw [entered] at none
    rw [none] at size
    omega
  | cons length lengths =>
    have positive := Chunks.cutPositive cut length (chunks ▸ List.mem_cons_self)
    have wanted : min (length.toNat * sectorSize) s.remaining.toNat ≠ 0 := by
      have bytes : 0 < length.toNat * sectorSize := Nat.mul_pos positive Nat.succ_pos'
      rw [whole]
      omega
    have refused : (s.take (length.toNat * sectorSize)).1 = .error .isADirectory := by
      unfold Source.take Reader.gather
      simp only [if_neg wanted, reader]
      rfl
    exact .here (Prod.ext refused rfl)

/- A file of one byte, a directory, and an output that holds a byte. -/
def threeNodes : FileTree :=
  ⟨[(["a"], .regular ⟨#[5]⟩), (["b"], .regular ⟨#[7]⟩), (["d"], .directory)], []⟩

def packing (file : String) : Args := ⟨[⟨"a", file⟩], "", "b", 20, 1, some 5, false, false⟩

theorem threeNodesOutput : threeNodes.Output "b" ⟨#[7]⟩ := .regular (by cbv)

theorem threeNodesOpen : ∃ image, (threeNodes.openImage "b" 1 20).1 = .ok image := by
  have here : threeNodes.openForWriting "b" = .ok (["b"], .regular ⟨#[7]⟩) := by cbv
  have measured : byteOffset 1 20 = .ok 10752 := by cbv
  unfold FileTree.openImage
  simp only [measured, here]
  exact ⟨_, rfl⟩

theorem fileLoaded : ∃ s : Source Handle, s.entry.size = 1 ∧
    Source.make "a" 1 (Handle.content (.ofContent ⟨#[5]⟩)) = .ok s ∧
    (load threeNodes.openForReading (packing "a")).outcome = .ok [s] := by
  have file : threeNodes.openForReading (Path.join "" "a") =
      .ok (1, .content (.ofContent ⟨#[5]⟩)) := by
    have located : threeNodes.locate (Path.join "" "a") =
        .ok ⟨["a"], some (.regular ⟨#[5]⟩), false⟩ := by
      cbv
    unfold FileTree.openForReading
    rw [located]
    rfl
  obtain ⟨s, made, size⟩ : ∃ s, Source.make "a" 1 (Handle.content (.ofContent ⟨#[5]⟩)) = .ok s ∧
      s.entry.size = 1 := ⟨_, rfl, rfl⟩
  exact ⟨s, size, made, loadOne rfl file made⟩

theorem directoryLoaded : ∃ s : Source Handle, s.entry.size = 4096 ∧ s.reader = .directory ∧
    s.remaining = s.entry.size ∧
    (load threeNodes.openForReading (packing "d")).outcome = .ok [s] := by
  have directory : threeNodes.openForReading (Path.join "" "d") = .ok (4096, .directory) := by cbv
  obtain ⟨s, made, size, reader, whole⟩ : ∃ s, Source.make "a" 4096 Handle.directory = .ok s ∧
      s.entry.size = 4096 ∧ s.reader = .directory ∧ s.remaining = s.entry.size :=
    ⟨_, rfl, rfl, rfl, rfl⟩
  exact ⟨s, size, reader, whole, loadOne rfl directory made⟩

theorem packingPlanned (file : String) (g : γ) {s : Source Handle}
    (small : s.entry.size.toNat ≤ 4096) :
    ∃ p, (planFor (packing file) g [s]).outcome = .ok p := by
  refine planAccepted (by simp [maxFiles]) ?_ g
  have room : (packing file).numSectors.toNat = 20 := rfl
  rw [room]
  simp only [List.map_cons, List.map_nil, List.sum_cons, List.sum_nil, Entry.sectors]
  omega

/- One program that is a file and one that is a directory, and an output of a single byte. -/
theorem runEffectThree : ∃ (tree : FileTree) (args bad : Args),
    tree.Output "b" ⟨#[7]⟩ ∧ (run tree args 0 false).outcome = .ok () ∧
    (∃ new, tree.Rewritten "b" new (run tree args 0 false).tree ∧ Overlaid ⟨#[7]⟩ 1 20 new) ∧
    (∃ failure, (run tree bad 0 false).outcome = .error failure) ∧
    ((run tree bad 0 false).tree = tree ∨
      ∃ count, tree.Rewritten "b" (⟨#[7]⟩ ++ zeros count) (run tree bad 0 false).tree) ∧
    (run tree { bad with dryRun := true } 0 false).tree = tree := by
  obtain ⟨s, size, made, loaded⟩ := fileLoaded
  obtain ⟨t, large, reader, whole, unread⟩ := directoryLoaded
  obtain ⟨p, planned⟩ := packingPlanned "a" (generatorFor (packing "a") 0) (s := s) (by simp [size])
  obtain ⟨q, placed⟩ := packingPlanned "d" (generatorFor (packing "d") 0) (s := t) (by simp [large])
  have writes := regularWritten (by decide) made planned (by decide)
  have done : (run threeNodes (packing "a") 0 false).outcome = .ok () :=
    runEnds threeNodesOutput false loaded planned rfl threeNodesOpen writes
  obtain ⟨_, rfl, _, good⟩ := runEffect threeNodes.openForReading
    (generatorFor (packing "a") 0) threeNodes (packing "a") false
  obtain ⟨_, rfl, _, failing⟩ := runEffect threeNodes.openForReading
    (generatorFor (packing "d") 0) threeNodes (packing "d") false
  obtain ⟨_, rfl, untouched, _⟩ := runEffect threeNodes.openForReading
    (generatorFor (packing "d") 0) threeNodes { packing "d" with dryRun := true } false
  obtain ⟨_, _, _, _, _, new, _, _, _, _, written, overlaid, _⟩ :=
    (good _ threeNodesOutput rfl).2 done
  obtain ⟨lengths, wanted, fails⟩ := directoryUnread reader whole (by rw [large]; decide) placed
  obtain ⟨failed, kept⟩ :=
    (failing _ threeNodesOutput rfl).1 _ q unread placed ⟨0, lengths, t, wanted, rfl, fails⟩
  exact ⟨threeNodes, packing "a", packing "d", threeNodesOutput, done, ⟨new, written, overlaid⟩,
    failed, kept, untouched (.inl rfl)⟩

end BootImage.Command
