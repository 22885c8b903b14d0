import Mathlib
import BootImage.Device
import BootImage.Proofs.Image.Calls

/-!
All reading comes before all writing. What a file needs of its source is fixed by its chunks in the
plan; if one source cannot give it, nothing is written at all, and a run that is stopped at its
first call has already taken everything.
-/
namespace BootImage

namespace Source

variable {ρ : Type} [Reader ρ] {s : Source ρ} {lengths : List Nat}

/- One of the reads fails, after those before it were answered. -/
inductive Fails : Source ρ → List Nat → Prop
  | here {s after length lengths e} (refused : s.take length = (.error e, after)) :
      Fails s (length :: lengths)
  | later {s middle length lengths data} (first : s.take length = (.ok data, middle))
      (rest : Fails middle lengths) : Fails s (length :: lengths)

theorem takesOrFails (s : Source ρ) (lengths : List Nat) :
    (∃ taken after, Takes s lengths taken after) ∨ s.Fails lengths := by
  induction lengths generalizing s with
  | nil => exact .inl ⟨[], s, .done⟩
  | cons length lengths ih =>
    cases answer : s.take length with
    | mk result middle =>
      cases result with
      | error e => exact .inr (.here answer)
      | ok data =>
        rcases ih middle with ⟨taken, after, takes⟩ | fails
        · exact .inl ⟨data :: taken, after, .more answer takes⟩
        · exact .inr (.later answer fails)

theorem takesNotFails {taken : List ByteArray} {after : Source ρ}
    (takes : Takes s lengths taken after) : ¬ s.Fails lengths := by
  induction takes with
  | done => nofun
  | more first rest ih =>
    intro fails
    cases fails with
    | here refused => cases first.symm.trans refused
    | later again further =>
      cases first.symm.trans again
      exact ih further

end Source

namespace Plan

/- The lengths to be read for a file, along the list of its chunks. -/
inductive Wants (p : Plan) (file : Nat) : List Nat → Prop
  | header {offset header label nodes} (block : ⟨offset, .file file header, label⟩ ∈ p.blocks)
      (chain : Chain p.chunkNodeAt? ChunkNode.next header.firstChunk nodes) :
      Wants p file (Filling.sizes nodes)

def Supplied {ρ : Type} [Reader ρ] (p : Plan) (sources : List (Source ρ)) : Prop :=
  ∀ file lengths, p.Wants file lengths → ∃ s, sources[file]? = some s ∧ ¬ s.Fails lengths

end Plan

namespace Laid

variable {draws : List Draw} {capacity : UInt32} {order : List Draft} {address : Slot → UInt32}
  {p : Plan}

theorem headerDrawn (laid : Laid draws capacity order address p) {offset : UInt32} {file : Nat}
    {header : FileHeader} {label : String} (block : ⟨offset, .file file header, label⟩ ∈ p.blocks) :
    ∃ draw, draws[file]? = some draw ∧ header = Draft.fileHeader address file draw := by
  obtain ⟨files, all, headers⟩ := laid.headers
  have met : (file, header) ∈ p.blocks.filterMap Block.file? :=
    List.mem_filterMap.mpr ⟨_, block, rfl⟩
  rw [headers] at met
  obtain ⟨⟨draw, number⟩, member, same⟩ := List.mem_map.mp met
  cases same
  exact ⟨draw, Filling.filesDrawn all _ member, rfl⟩

theorem headerBlock (laid : Laid draws capacity order address p) {file : Nat} {draw : Draw}
    (drawn : draws[file]? = some draw) :
    (Draft.linkedHeader file draw).block address ∈ p.blocks :=
  ((Plan.blockAtIff laid.tiled _ _).mp (laid.partFound (.header drawn)).2).1

theorem wants (laid : Laid draws capacity order address p) {file : Nat} {lengths : List Nat} :
    p.Wants file lengths ↔
      ∃ draw, draws[file]? = some draw ∧ lengths = draw.chunks.map (·.toNat * sectorSize) := by
  constructor
  · intro wanted
    cases wanted with
    | header block chain =>
      obtain ⟨draw, drawn, rfl⟩ := laid.headerDrawn block
      rw [chain.unique (laid.chunkChain drawn), Filling.chunkSizes]
      exact ⟨draw, drawn, rfl⟩
  · rintro ⟨draw, drawn, rfl⟩
    rw [← Filling.chunkSizes address]
    exact .header (laid.headerBlock drawn) (laid.chunkChain drawn)

theorem unsupplied (laid : Laid draws capacity order address p) {ρ : Type} [Reader ρ]
    {sources : List (Source ρ)}
    (missing : (∃ file lengths s, p.Wants file lengths ∧ sources[file]? = some s ∧
      s.Fails lengths) ∨ sources.length < draws.length) : ¬ p.Supplied sources := by
  intro supplied
  rcases missing with ⟨file, lengths, s, wanted, here, fails⟩ | few
  · obtain ⟨t, given, sound⟩ := supplied file lengths wanted
    cases here.symm.trans given
    exact sound fails
  · have drawn := List.getElem?_eq_getElem few
    obtain ⟨t, given, _⟩ := supplied _ _ (laid.wants.mpr ⟨_, drawn, rfl⟩)
    simp at given

end Laid

namespace Filling

variable {ρ : Type} [Reader ρ]

theorem readsElsewhere {files : List (Draw × Nat)} {sources after : List (Source ρ)}
    {taken : List (List ByteArray)} (reads : Reads files sources taken after) {file : Nat}
    (other : file ∉ files.map Prod.snd) : after[file]? = sources[file]? := by
  induction reads with
  | done => rfl
  | file given takes later ih =>
    obtain ⟨apart, rest⟩ := not_or.mp (mt List.mem_cons.mpr other)
    rw [ih rest, List.getElem?_set_ne (Ne.symm apart)]

theorem readsTaken {files : List (Draw × Nat)} {sources after : List (Source ρ)}
    {taken : List (List ByteArray)} (reads : Reads files sources taken after)
    (distinct : (files.map Prod.snd).Nodup) {file : Draw × Nat} (member : file ∈ files) :
    ∃ s data last, sources[file.2]? = some s ∧
      Source.Takes s (file.1.chunks.map (·.toNat * sectorSize)) data last ∧
      after[file.2]? = some last := by
  induction reads with
  | done => simp at member
  | @file draw number files sources s middle data rest after given takes later ih =>
    obtain ⟨once, distinct⟩ := List.nodup_cons.mp distinct
    rcases List.mem_cons.mp member with rfl | further
    · have kept := readsElsewhere later once
      have inside := (List.getElem?_eq_some_iff.mp given).1
      rw [List.getElem?_set_self inside] at kept
      exact ⟨s, data, middle, given, takes, kept⟩
    · obtain ⟨t, pieces, last, here, took, left⟩ := ih distinct further
      have apart : number ≠ file.2 := fun same =>
        once (same ▸ List.mem_map.mpr ⟨file, further, rfl⟩)
      rw [List.getElem?_set_ne apart] at here
      exact ⟨t, pieces, last, here, took, left⟩

variable {draws : List Draw} {capacity : UInt32} {order : List Draft} {address : Slot → UInt32}
  {p : Plan}

theorem ofPlanTaken (laid : Laid draws capacity order address p) {sources after : List (Source ρ)}
    {filling : Filling} (read : ofPlan p sources = (.ok (), after, filling)) {file : Nat}
    {draw : Draw} (drawn : draws[file]? = some draw) :
    ∃ s data last, sources[file]? = some s ∧
      Source.Takes s (draw.chunks.map (·.toNat * sectorSize)) data last ∧
      after[file]? = some last := by
  obtain ⟨files, all, headers⟩ := laid.headers
  obtain ⟨taken, reads, _⟩ := takenOfRead laid headers (filesDrawn all) read
  exact readsTaken reads (filesNumbered all)
    (all.mem_iff.mpr (List.mk_mem_zipIdx_iff_getElem?.mpr drawn))

theorem ofPlanSupplies (laid : Laid draws capacity order address p)
    {sources after : List (Source ρ)} {filling : Filling}
    (read : ofPlan p sources = (.ok (), after, filling)) : p.Supplied sources := by
  intro file lengths wanted
  obtain ⟨draw, drawn, rfl⟩ := laid.wants.mp wanted
  obtain ⟨s, _, _, given, takes, _⟩ := ofPlanTaken laid read drawn
  exact ⟨s, given, Source.takesNotFails takes⟩

theorem ofPlanSupplied (laid : Laid draws capacity order address p) {sources : List (Source ρ)}
    (supplied : p.Supplied sources) :
    ∃ after filling, ofPlan p sources = (.ok (), after, filling) := by
  obtain ⟨files, all, headers⟩ := laid.headers
  have given : ∀ file ∈ files, ∃ s data after, sources[file.2]? = some s ∧
      Source.Takes s (file.1.chunks.map (·.toNat * sectorSize)) data after ∧ True := by
    intro file member
    obtain ⟨s, here, sound⟩ := supplied _ _ (laid.wants.mpr ⟨_, filesDrawn all _ member, rfl⟩)
    obtain ⟨data, after, takes⟩ := (Source.takesOrFails s _).resolve_right sound
    exact ⟨s, data, after, here, takes, trivial⟩
  obtain ⟨taken, after, reads, _⟩ := readsOfEach (filesNumbered all) given
  obtain ⟨pieces, run⟩ := ofPlanReads laid all headers reads
  exact ⟨after, _, run⟩

end Filling

namespace Refusing

variable {δ : Type} [Device δ]

/- In the middle of a run: the call to refuse is counted from the first one that was passed on. -/
theorem refusesBehind {inner last : δ} {calls : List Call} {count : Nat}
    (accepts : Device.Accepts inner (calls.take count) last) (inside : count < calls.length)
    (passed : Array Call) :
    Device.Refuses (⟨inner, some (passed.size + count), passed⟩ : Refusing δ) calls count refused
      ⟨last, some (passed.size + count), passed ++ (calls.take count).toArray⟩ := by
  induction count generalizing inner calls passed with
  | zero =>
    cases calls with
    | nil => simp at inside
    | cons call calls =>
      cases accepts
      refine .here ?_
      simp [Device.write, write]
  | succ count ih =>
    cases calls with
    | nil => simp at inside
    | cons call calls =>
      rw [List.take_succ_cons] at accepts
      cases accepts with
      | @call _ next _ _ _ wrote later =>
        have rest := ih later (Nat.lt_of_succ_lt_succ inside) (passed.push call)
        have ahead : (passed.push call).size + count = passed.size + (count + 1) := by
          rw [Array.size_push]
          omega
        have behind : passed.push call ++ (calls.take count).toArray =
            passed ++ ((call :: calls).take (count + 1)).toArray := by
          simp
        rw [ahead, behind] at rest
        have on : some (passed.size + (count + 1)) ≠ some passed.size := by simp
        refine .later ?_ rest
        change Refusing.write _ _ _ = _
        unfold Refusing.write
        rw [if_neg on, wrote]

theorem refuses {inner last : δ} {calls : List Call} {count : Nat}
    (accepts : Device.Accepts inner (calls.take count) last) (inside : count < calls.length) :
    Device.Refuses (of inner (some count)) calls count refused
      ⟨last, some count, (calls.take count).toArray⟩ := by
  have behind := refusesBehind accepts inside #[]
  simpa [of] using behind

end Refusing

variable {γ : Type} [Generator γ] {ρ : Type} [Reader ρ] {δ : Type} [Device δ]

/-- Without all that its sources are asked for, a run does nothing; and a run that is stopped at its
first call leaves the sources as it would without a stop, each taken for all chunks of its file. -/
theorem executeReadsFirst {entries : List Entry} {capacity : UInt32} {g : γ} {p : Plan}
    (ok : (plan entries capacity g).outcome = .ok p) (sources : List (Source ρ)) (device : δ)
    (progress : Progress) : ∃ run, run = execute p sources device progress ∧
      ((∃ file lengths s, p.Wants file lengths ∧ sources[file]? = some s ∧ s.Fails lengths) ∨
          sources.length < entries.length →
        (∃ f, run.outcome = .error f) ∧ run.calls = [] ∧ run.device = device ∧
          run.progress = progress) ∧
      (run.calls ≠ [] →
        ∃ first, first = execute p sources (Refusing.of device (some 0)) progress ∧
          first.calls = run.calls.take 1 ∧ first.device.passed = #[] ∧
          ∀ (file : Nat) (entry : Entry), entries[file]? = some entry →
            ∃ lengths s taken after, p.Wants file lengths ∧
              lengths.sum = (entry.size.toNat + 511) / 512 * 512 ∧
              sources[file]? = some s ∧ Source.Takes s lengths taken after ∧
              first.sources[file]? = some after ∧ run.sources[file]? = some after) := by
  obtain ⟨order, address, laid⟩ := planLaid ok
  have same := (Draw.ofEntriesFit entries g).1
  refine ⟨_, rfl, ?fails, ?taken⟩
  case fails =>
    intro missing
    rw [← same, List.length_map] at missing
    rcases Filling.fillsOrFails p sources with ⟨after, filling, read⟩ | ⟨f, after, filling, read⟩
    · exact absurd (Filling.ofPlanSupplies laid read) (laid.unsupplied missing)
    · rw [executeUnread read]
      exact ⟨⟨f, rfl⟩, rfl, rfl, rfl⟩
  case taken =>
    intro some
    rcases Filling.fillsOrFails p sources with ⟨after, filling, read⟩ | ⟨f, after, filling, read⟩
    · have filled := laid.filled read
      have run := (Plan.callsRun laid.tiled filled).1
      obtain ⟨left, count, made⟩ := executeStarted laid.tiled read filled device progress
      have before : Device.Accepts device ((p.calls filling.contents).take 0) device := .done
      have refuses := Refusing.refuses before (run.nonempty laid.room)
      obtain ⟨_, _, _, _, _, stopped⟩ := executeRefused laid.tiled read filled refuses progress
      refine ⟨_, rfl, ?_⟩
      rw [stopped, made, left]
      refine ⟨by simp [List.take_take], rfl, ?_⟩
      intro file entry given
      rw [← same, List.getElem?_map] at given
      obtain ⟨draw, drawn, rfl⟩ := Option.map_eq_some_iff.mp given
      obtain ⟨s, data, last, here, takes, kept⟩ := Filling.ofPlanTaken laid read drawn
      have sectors := Chunks.cutSum (laid.fits draw (List.mem_of_getElem? drawn)).chunks
      refine ⟨_, s, data, last, laid.wants.mpr ⟨draw, drawn, rfl⟩, ?_, here, takes, kept, kept⟩
      rw [List.sum_map_mul_right, sectors]
      rfl
    · rw [executeUnread read] at some
      contradiction

/- One source fails at its first byte; with the other a run goes on to its end. -/
theorem executeReadsFirstOne : ∃ (p : Plan) (bad good : Source Stream) (sink : Window),
    (plan [.twoSectors] 400 (Cycle.ofWords [5, 3])).outcome = .ok p ∧
    p.Wants 0 [1024] ∧ bad.Fails [1024] ∧
    (∃ f, (execute p [bad] sink .start).outcome = .error f) ∧
    (execute p [bad] sink .start).calls = [] ∧
    (execute p ([] : List (Source Stream)) sink .start).calls = [] ∧
    (execute p [good] sink .start).calls ≠ [] ∧ ∃ lengths taken after, p.Wants 0 lengths ∧
      Source.Takes good lengths taken after ∧
      (execute p [good] (Refusing.of sink (some 0)) .start).sources[0]? = some after := by
  obtain ⟨p, good, ok, finishes⟩ := oneFileFinishes
  obtain ⟨bad, fails⟩ : ∃ bad : Source Stream, bad.Fails [1024] := by
    obtain ⟨bad, made⟩ : ∃ s, Source.make "b" 2
      (Stream.make ⟨#[1]⟩ (fun _ => 1) (some (0, Refusing.refused))) = .ok s := ⟨_, rfl⟩
    have refused : (bad.take 1024).1 = .error Refusing.refused := by
      cases made
      unfold Source.take Reader.gather
      rfl
    exact ⟨bad, .here (Prod.ext refused rfl)⟩
  obtain ⟨order, address, laid⟩ := planLaid ok
  obtain ⟨draw, drawn, chunks⟩ : ∃ draw,
      (Draw.ofEntries [.twoSectors] (Cycle.ofWords [5, 3])).1[0]? = some draw ∧
      draw.chunks = [2] := by
    refine ⟨_, rfl, ?_⟩
    change (Chunks.draw 2 _).1 = [2]
    unfold Chunks.draw Chunks.drawFrom
    rfl
  have wants : p.Wants 0 [1024] := laid.wants.mpr ⟨draw, drawn, by rw [chunks]; rfl⟩
  obtain ⟨sink, finished⟩ : ∃ sink : Window, (execute p [good] sink .start).outcome = .ok () :=
    ⟨_, finishes _ .buffer ⟨#[7]⟩ .start⟩
  obtain ⟨_, rfl, stops, _⟩ := executeReadsFirst ok [bad] sink .start
  obtain ⟨failed, none, _⟩ := stops (.inl ⟨0, _, bad, wants, rfl, fails⟩)
  obtain ⟨_, rfl, lacks, _⟩ := executeReadsFirst ok ([] : List (Source Stream)) sink .start
  have missing := (lacks (.inr (by decide))).2.1
  have some : (execute p [good] sink .start).calls ≠ [] := by
    obtain ⟨_, _, _, read, _, whole⟩ := laid.finished finished
    have run := (Plan.callsRun laid.tiled (laid.filled read)).1
    rw [whole]
    exact List.ne_nil_of_length_pos (run.nonempty laid.room)
  obtain ⟨_, rfl, _, takes⟩ := executeReadsFirst ok [good] sink .start
  obtain ⟨_, rfl, _, _, each⟩ := takes some
  obtain ⟨lengths, _, taken, after, wanted, _, given, took, first, _⟩ := each 0 _ rfl
  cases given
  exact ⟨p, bad, good, sink, ok, wants, fails, failed, none, missing, some, lengths, taken, after,
    wanted, took, first⟩

end BootImage
