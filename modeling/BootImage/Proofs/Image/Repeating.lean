import Mathlib
import BootImage.Proofs.Image.ReadFirst
import BootImage.Proofs.Image.RoundTrip

/-!
One plan executed again and again. Whatever becomes of its writes, a run takes its full share of
each source; so run after run writes the next part of every file, and zeros behind its end.
-/
namespace BootImage

section

variable {ρ : Type} [Reader ρ] {δ : Type} [Device δ]

/- Runs in turn, each on a device of its own, with the sources as the run before has left them. -/
def executeEach (p : Plan) (sources : List (Source ρ)) : List (δ × Progress) → List (Execution ρ δ)
  | [] => []
  | (device, progress) :: tries =>
    let run := execute p sources device progress
    run :: executeEach p run.sources tries

def Filling.leaves (p : Plan) (sources : List (Source ρ)) : List (Source ρ) :=
  (ofPlan p sources).2.1

theorem executeLeaves (p : Plan) (sources : List (Source ρ)) (device : δ) (progress : Progress) :
    (execute p sources device progress).sources = Filling.leaves p sources := by
  unfold execute Filling.leaves
  split
  · rename_i stopped
    rw [stopped]
  · rename_i read
    rw [read]

theorem executeEachAt (p : Plan) (sources : List (Source ρ)) (tries : List (δ × Progress))
    (k : Nat) : (executeEach p sources tries)[k]? = tries[k]?.map fun (device, progress) =>
      execute p ((Filling.leaves p)^[k] sources) device progress := by
  induction tries generalizing sources k with
  | nil => rfl
  | cons first tries ih =>
    cases k with
    | zero => rfl
    | succ k =>
      rw [Function.iterate_succ_apply, ← executeLeaves p sources first.1 first.2]
      exact ih _ k

end

def Call.range (call : Call) : UInt64 × Nat := (call.sector, call.data.size)

namespace Block

variable {b : Block} {contents : Contents} {length : UInt32}

/- The calls for a block in two runs: for a chunk, other bytes in the same place. -/
inductive Renewed (contents : Contents) (b : Block) : List Call → List Call → Prop
  | chunk {length before data} (content : b.content = .chunkData length)
      (kept : contents[b.offset]? = some data) (size : data.size = length.toNat * sectorSize)
      (alike : before.size = data.size) :
      Renewed contents b [⟨b.offset.toUInt64, before⟩] [⟨b.offset.toUInt64, data⟩]
  | other {calls} (content : ∀ length, b.content ≠ .chunkData length) :
      Renewed contents b calls calls

theorem plannedChunk (content : b.content = .chunkData length) {data : ByteArray}
    (kept : contents[b.offset]? = some data) :
    b.planned contents = [⟨b.offset.toUInt64, data⟩] := by
  obtain ⟨offset, _, label⟩ := b
  cases content
  simp only [planned, calls, kept]
  rfl

theorem plannedRenewed {first : Contents} (filled : b.Filled first) (again : b.Filled contents) :
    b.Renewed contents (b.planned first) (b.planned contents) := by
  by_cases chunk : ∃ length, b.content = .chunkData length
  · obtain ⟨length, content⟩ := chunk
    obtain ⟨before, old, same⟩ := filled length content
    obtain ⟨data, kept, size⟩ := again length content
    rw [plannedChunk content old, plannedChunk content kept]
    exact .chunk content kept size (same.trans size.symm)
  · have other := not_exists.mp chunk
    rw [plannedOther other]
    exact .other other

theorem Renewed.ranges {first later : List Call} (renewed : b.Renewed contents first later) :
    later.map Call.range = first.map Call.range := by
  cases renewed with
  | chunk content kept size alike => simp [Call.range, alike]
  | other => rfl

end Block

/- What is kept of a file, put together along the list of its chunks. -/
inductive Plan.Gathers (p : Plan) (contents : Contents) (file : Nat) : List UInt8 → Prop
  | header {offset header label nodes data} (block : ⟨offset, .file file header, label⟩ ∈ p.blocks)
      (chain : Chain p.chunkNodeAt? ChunkNode.next header.firstChunk nodes)
      (kept : List.Forall₂ (fun visit bytes => contents[visit.2.data]? = some bytes) nodes data) :
      Gathers p contents file (data.flatMap (·.data.toList))

theorem Source.frontBlank {stream : Nat → UInt8} {length : Nat} (none : ∀ i, stream i = 0) :
    front stream length = List.replicate length 0 := by
  refine List.eq_replicate_iff.mpr ⟨by simp [front], ?_⟩
  intro byte member
  obtain ⟨i, _, rfl⟩ := List.mem_map.mp member
  exact none i

namespace Source.Supply

/- The bytes for one run, which takes `share` of them. -/
def window (supply : Supply) (run share : Nat) : List UInt8 :=
  front (fun i => supply.stream (run * share + i)) share

theorem windowBlank {supply : Supply} {entry : Entry} {run : Nat} (later : 0 < run)
    (declared : supply.declared.toNat = entry.size.toNat) :
    supply.window run (entry.sectors * sectorSize) =
      List.replicate (entry.sectors * sectorSize) 0 := by
  have spent := Nat.le_mul_of_pos_left (entry.sectors * sectorSize) later
  have whole := entry.sizeWithin
  exact frontBlank fun i => if_neg (by omega)

end Source.Supply

theorem zerosOfBytes {bytes : ByteArray} (none : ∀ byte ∈ bytes.data.toList, byte = 0) :
    bytes = zeros bytes.size :=
  bytesInj (by rw [zerosBytes]; exact List.eq_replicate_iff.mpr ⟨listLength bytes, none⟩)

namespace Filling

variable {ρ : Type} [Reader ρ] {draws : List Draw} {capacity : UInt32} {order : List Draft}
  {address : Slot → UInt32} {p : Plan} {contents : Contents} {file : Nat} {draw : Draw}
  {data : List ByteArray}

theorem Held.visits (held : Held address contents file draw data) :
    List.Forall₂ (fun visit bytes => contents[visit.2.data]? = some bytes)
      (Draft.nodeVisits address file draw) data := by
  have count := takenCount held.sizes
  refine List.forall₂_iff_get.mpr ⟨by simp [Draft.nodeVisits, count], ?_⟩
  intro i _ known
  have kept := held.kept i data[i] (List.getElem?_eq_getElem known)
  simpa [Draft.nodeVisits, Draft.nodeRecord] using kept

theorem Held.gathers (held : Held address contents file draw data)
    (laid : Laid draws capacity order address p) (drawn : draws[file]? = some draw) :
    p.Gathers contents file (data.flatMap (·.data.toList)) :=
  .header (laid.headerBlock drawn) (laid.chunkChain drawn) held.visits

theorem Held.blank (held : Held address contents file draw data)
    (none : ∀ byte ∈ data.flatMap (·.data.toList), byte = 0) {chunk : Nat} {length : UInt32}
    (cut : draw.chunks[chunk]? = some length) :
    contents[address (.chunkData file chunk)]? = some (zeros (length.toNat * sectorSize)) := by
  obtain ⟨bytes, found, size⟩ := held.chunk cut
  have member := List.mem_of_getElem? found
  have same := zerosOfBytes fun byte inside =>
    none byte (List.mem_flatMap.mpr ⟨bytes, member, inside⟩)
  rw [held.kept chunk bytes found, ← size, ← same]

/- How many bytes a run takes for a file. -/
def share (draws : List Draw) (file : Nat) : Nat :=
  draws[file]?.elim 0 fun draw => draw.entry.sectors * sectorSize

theorem shareDrawn (drawn : draws[file]? = some draw) :
    share draws file = draw.entry.sectors * sectorSize := by
  rw [share, drawn]
  rfl

/- The sources as they stand before a run: so many shares of each stream are gone. -/
def Stand (draws : List Draw) (stream : Nat → Nat → UInt8) (run : Nat) (sources : List (Source ρ)) :
    Prop :=
  ∀ file < draws.length, ∃ s, sources[file]? = some s ∧
    s.Yields fun i => stream file (run * share draws file + i)

variable {stream : Nat → Nat → UInt8} {run : Nat} {sources : List (Source ρ)}

theorem Stand.step (laid : Laid draws capacity order address p)
    (stand : Stand draws stream run sources) : ∃ filling,
    ofPlan p sources = (.ok (), leaves p sources, filling) ∧
    Stand draws stream (run + 1) (leaves p sources) ∧
    ∀ file draw, draws[file]? = some draw → ∃ data, Held address filling.contents file draw data ∧
      data.flatMap (·.data.toList) = Source.front
        (fun i => stream file (run * share draws file + i)) (share draws file) := by
  obtain ⟨after, filling, read, each⟩ := ofPlanYields laid stand
  have left : leaves p sources = after := congrArg (·.2.1) read
  rw [left]
  refine ⟨filling, read, ?stand, ?each⟩
  case stand =>
    intro file inside
    have drawn := List.getElem?_eq_getElem inside
    obtain ⟨s, data, last, given, takes, kept⟩ := ofPlanTaken laid read drawn
    obtain ⟨t, here, yields⟩ := stand file inside
    cases given.symm.trans here
    obtain ⟨taken, rest, again, _, further⟩ := Source.takesYields yields
      (draws[file].chunks.map (·.toNat * sectorSize))
    obtain ⟨_, rfl⟩ := Source.takesUnique takes again
    refine ⟨last, kept, ?_⟩
    rw [laid.chunkBytes drawn, ← shareDrawn drawn] at further
    simpa only [Nat.succ_mul, Nat.add_assoc] using further
  case each =>
    intro file draw drawn
    have taken := each file draw drawn
    rwa [← shareDrawn drawn] at taken

theorem Stand.steps (laid : Laid draws capacity order address p)
    (stand : Stand draws stream 0 sources) (run : Nat) :
    Stand draws stream run ((leaves p)^[run] sources) := by
  induction run with
  | zero => exact stand
  | succ run ih =>
    obtain ⟨_, _, later, _⟩ := ih.step laid
    rw [Function.iterate_succ_apply']
    exact later

end Filling

namespace Laid

variable {draws : List Draw} {capacity : UInt32} {order : List Draft} {address : Slot → UInt32}
  {p : Plan} (laid : Laid draws capacity order address p)

include laid

theorem chunksBlank {contents : Contents}
    (none : ∀ file draw, draws[file]? = some draw → ∃ data,
      Filling.Held address contents file draw data ∧
        ∀ byte ∈ data.flatMap (·.data.toList), byte = 0)
    {b : Block} (member : b ∈ p.blocks) {length : UInt32}
    (content : b.content = .chunkData length) :
    b.planned contents = [⟨b.offset.toUInt64, zeros (length.toNat * sectorSize)⟩] := by
  obtain ⟨file, draw, chunk, drawn, cut, place⟩ := laid.chunkDrawn member content
  obtain ⟨data, held, blank⟩ := none file draw drawn
  exact Block.plannedChunk content (place ▸ held.blank blank cut)

/- Run after run reads whole, and holds the next window of every stream. -/
theorem windows {ρ : Type} [Reader ρ] {supplies : List Source.Supply} {sources : List (Source ρ)}
    (supplied : List.Forall₂ Source.Supply.Of supplies sources)
    (enough : draws.length ≤ sources.length) : ∃ filling : Nat → Filling,
      (∀ k, Filling.ofPlan p ((Filling.leaves p)^[k] sources) =
        (.ok (), Filling.leaves p ((Filling.leaves p)^[k] sources), filling k)) ∧
      ∀ (k file : Nat) (draw : Draw) (supply : Source.Supply), draws[file]? = some draw →
        supplies[file]? = some supply → ∃ data,
          Filling.Held address (filling k).contents file draw data ∧
            data.flatMap (·.data.toList) = supply.window k (draw.entry.sectors * sectorSize) := by
  have stand : Filling.Stand draws (Source.Supply.streams supplies) 0 sources := by
    intro file inside
    have known := Nat.lt_of_lt_of_le inside enough
    obtain ⟨s, given, yields⟩ := Source.Supply.yieldsEach supplied known
    exact ⟨s, given, by simpa using yields⟩
  choose filling read _ each using fun k => (stand.steps laid k).step laid
  refine ⟨filling, read, ?_⟩
  intro k file draw supply drawn given
  obtain ⟨data, held, joined⟩ := each k file draw drawn
  rw [Filling.shareDrawn drawn, Source.Supply.streamsAt given] at joined
  exact ⟨data, held, joined⟩

end Laid

theorem Plan.callsRenewed {p : Plan} {first contents : Contents} (renewed : ∀ b ∈ p.blocks,
    b.Renewed contents (b.planned first) (b.planned contents)) :
    (p.calls contents).map Call.range = (p.calls first).map Call.range := by
  unfold Plan.calls
  rw [List.map_flatMap, List.map_flatMap]
  exact List.flatMap_congr fun b member => (renewed b member).ranges

variable {γ : Type} [Generator γ] {ρ : Type} [Reader ρ] {δ : Type} [Device δ]

/-- Run after run makes the calls of the first one, with the next bytes of every file in its chunks,
however many of its calls the devices take. -/
theorem executeAgain {entries : List Entry} {capacity : UInt32} {g : γ} {p : Plan}
    (ok : (plan entries capacity g).outcome = .ok p) {supplies : List Source.Supply}
    {sources : List (Source ρ)} (supplied : List.Forall₂ Source.Supply.Of supplies sources)
    (enough : entries.length ≤ sources.length) (tries : List (δ × Progress)) :
    ∃ contents : Nat → Contents,
      (∀ (k : Nat) (device : δ) (progress : Progress), tries[k]? = some (device, progress) →
        ∃ run : Execution ρ δ, (executeEach p sources tries)[k]? = some run ∧
          run.Makes device (p.calls (contents k))) ∧
      (∀ (k file : Nat) (entry : Entry) (supply : Source.Supply), entries[file]? = some entry →
        supplies[file]? = some supply →
          p.Gathers (contents k) file (supply.window k (entry.sectors * sectorSize)) ∧
          (0 < k → supply.declared.toNat = entry.size.toNat →
            supply.window k (entry.sectors * sectorSize) =
              List.replicate (entry.sectors * sectorSize) 0)) ∧
      (∀ k, (p.calls (contents k)).map Call.range = (p.calls (contents 0)).map Call.range ∧
        ∀ b ∈ p.blocks, b.Renewed (contents k) (b.planned (contents 0)) (b.planned (contents k))) ∧
      ((∀ pair ∈ entries.zip supplies, pair.2.declared.toNat = pair.1.size.toNat) →
        ∀ k, 0 < k → ∀ b ∈ p.blocks, ∀ length, b.content = .chunkData length →
          b.planned (contents k) = [⟨b.offset.toUInt64, zeros (length.toNat * sectorSize)⟩]) := by
  obtain ⟨order, address, laid⟩ := planLaid ok
  have same := (Draw.ofEntriesFit entries g).1
  have drawn := Draw.ofEntriesCount entries g
  have counted := supplied.length_eq
  obtain ⟨filling, read, windows⟩ := laid.windows supplied (by omega)
  have filled := fun k => laid.filled (read k)
  refine ⟨fun k => (filling k).contents, ?runs, ?files, ?calls, ?blank⟩
  case runs =>
    intro k device progress here
    refine ⟨_, ?_, laid.makes (read k) device progress⟩
    rw [executeEachAt, here]
    rfl
  case files =>
    intro k file entry supply known given
    rw [← same, List.getElem?_map] at known
    obtain ⟨draw, drawn, rfl⟩ := Option.map_eq_some_iff.mp known
    obtain ⟨data, held, joined⟩ := windows k file draw supply drawn given
    exact ⟨joined ▸ held.gathers laid drawn, Source.Supply.windowBlank⟩
  case calls =>
    intro k
    have renewed : ∀ b ∈ p.blocks, b.Renewed (filling k).contents
        (b.planned (filling 0).contents) (b.planned (filling k).contents) :=
      fun b member => Block.plannedRenewed (filled 0 b member) (filled k b member)
    exact ⟨Plan.callsRenewed renewed, renewed⟩
  case blank =>
    intro exact k later b member length content
    refine laid.chunksBlank ?_ member content
    intro file draw drawn
    have inside := (List.getElem?_eq_some_iff.mp drawn).1
    have given := List.getElem?_eq_getElem (show file < supplies.length by omega)
    obtain ⟨data, held, joined⟩ := windows k file draw _ drawn given
    have entered : entries[file]? = some draw.entry := by
      rw [← same, List.getElem?_map, drawn]
      rfl
    have declared := exact (draw.entry, supplies[file])
      (List.mem_of_getElem? (List.getElem?_zip_eq_some.mpr ⟨entered, given⟩))
    refine ⟨data, held, ?_⟩
    rw [joined, Source.Supply.windowBlank later declared]
    exact fun byte => List.eq_of_mem_replicate

/- Three bytes, written three times: a device that takes nothing, one that takes all, and one that
stops in the middle. -/
theorem executeAgainThree : ∃ (p : Plan) (s : Source Stream) (contents : Nat → Contents),
    (plan [.threeBytes] 20 (Cycle.ofWords [5, 3])).outcome = .ok p ∧
    (∀ k stop, [some 0, none, some 2][k]? = some stop →
      ∃ run : Execution Stream (Refusing Window),
        (executeEach p [s] ([some 0, none, some 2].map fun stop =>
          (Refusing.of ⟨.growing ⟨#[7]⟩, 2⟩ stop, .start)))[k]? = some run ∧
        run.Makes (Refusing.of ⟨.growing ⟨#[7]⟩, 2⟩ stop) (p.calls (contents k))) ∧
    p.Gathers (contents 0) 0 ([1, 2, 9] ++ List.replicate 509 0) ∧
    p.Gathers (contents 2) 0 (List.replicate 512 0) ∧
    ∀ b ∈ p.blocks, ∀ length, b.content = .chunkData length →
      b.planned (contents 2) = [⟨b.offset.toUInt64, zeros (length.toNat * sectorSize)⟩] := by
  obtain ⟨s, made⟩ : ∃ s, Source.make "b" 3 (Stream.make ⟨#[1, 2, 9]⟩ (fun _ => 1) none) = .ok s :=
    ⟨_, rfl⟩
  have supplied : Source.Supply.Of ⟨3, [1, 2, 9]⟩ s :=
    ⟨"b", _, made, Stream.delivers rfl fun _ => Nat.one_pos⟩
  obtain ⟨p, ok⟩ : ∃ p, (plan [.threeBytes] 20 (Cycle.ofWords [5, 3])).outcome = .ok p :=
    planAccepted (by decide) (by decide) _
  obtain ⟨contents, runs, files, _, blank⟩ := executeAgain ok (.cons supplied .nil) (Nat.le_refl 1)
    ([some 0, none, some 2].map fun stop =>
      (Refusing.of (⟨.growing ⟨#[7]⟩, 2⟩ : Window) stop, .start))
  have first : p.Gathers (contents 0) 0 ((⟨3, [1, 2, 9]⟩ : Source.Supply).window 0 512) :=
    (files 0 0 _ _ rfl rfl).1
  obtain ⟨last, spent⟩ := files 2 0 _ _ rfl rfl
  rw [spent (by decide) rfl] at last
  have start : (⟨3, [1, 2, 9]⟩ : Source.Supply).window 0 512 = [1, 2, 9] ++ List.replicate 509 0 :=
    (Source.frontAppend _ 3 509).trans (congrArg _ (Source.frontBlank fun i => if_neg (by
      change ¬ 0 + (3 + i) < 3
      omega)))
  rw [start] at first
  refine ⟨p, s, contents, ok, ?_, first, last, ?_⟩
  · intro k stop here
    exact runs k _ .start (by rw [List.getElem?_map, here]; rfl)
  · refine blank ?_ 2 (by decide)
    intro pair member
    cases List.mem_singleton.mp member
    rfl

end BootImage
