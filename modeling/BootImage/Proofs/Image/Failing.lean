import Mathlib
import BootImage.Proofs.Image.ReadFirst

/-!
What can go wrong. A plan is refused for its number of files or for its capacity; under a plan that
was made, only a source or the device can stop a run, and their error is the one that comes out.
-/
namespace BootImage

/- A list of drafts on its own: no slot twice, and no link out of the list or to an absent file. -/
structure Draft.Closed (entries : List Entry) (drafts : List Draft) : Prop where
  apart : (drafts.map Draft.slot).Nodup
  linked : ∀ d ∈ drafts, ∀ slot ∈ d.links.targets, slot ∈ drafts.map Draft.slot
  headers : ∀ d ∈ drafts, ∀ source entry next firstChunk,
    d.links = .header source entry next firstChunk → entries[source]? = some entry

section

variable {γ : Type} [Generator γ]

/- What is placed, in the order of the places; the last free block takes what is left over. -/
def drawnDrafts (entries : List Entry) (g : γ) (length : UInt32) : List Draft :=
  let (draws, g) := Draw.ofEntries entries g
  let built := Builder.ofDraws draws
  let (order, _) := Shuffle.shuffle built.shuffled g
  built.superBlock :: (order.toList ++ [Draft.lastFree length])

theorem drawnDraftsLinked (entries : List Entry) (g : γ) (length : UInt32) :
    drawnDrafts entries g length = Draft.linkedTop (Draw.ofEntries entries g).1.length ::
      ((drawnOrder entries g).1 ++ [Draft.lastFree length]) := by
  simp only [drawnDrafts, drawnOrder, Builder.shuffledLinked, Builder.superBlockLinked]

theorem draftsClosed (entries : List Entry) (g : γ) (length : UInt32) :
    Draft.Closed entries (drawnDrafts entries g length) := by
  have same := (Draw.ofEntriesFit entries g).1
  have shuffled := drawnOrderPerm entries g
  have slots : ((drawnDrafts entries g length).map Draft.slot).Perm
      (Draft.slots (Draw.ofEntries entries g).1) := by
    rw [drawnDraftsLinked]
    exact Draft.slotsShuffled shuffled
  refine ⟨slots.nodup_iff.mpr (Draft.slotsNodup _), ?linked, ?headers⟩
  case linked =>
    intro d member slot target
    rw [drawnDraftsLinked] at member
    exact slots.mem_iff.mpr (targetsClosed shuffled member slot target)
  case headers =>
    intro d member source entry next firstChunk links
    rw [drawnDraftsLinked] at member
    rcases List.mem_cons.mp member with rfl | rest
    · cases links
    · rcases List.mem_append.mp rest with inside | last
      · cases Draft.memOfDraws.mp (shuffled.mem_iff.mp inside) with
        | header drawn =>
          cases links
          rw [← same, List.getElem?_map, drawn]
          rfl
        | freeRun | chunkData | chunkNode => cases links
      · cases List.mem_singleton.mp last
        cases links

end

namespace Source

variable {ρ : Type} [Reader ρ] {s : Source ρ} {lengths : List Nat}

/- As `Fails`, with the error of the read that failed. -/
inductive FailsWith : Source ρ → List Nat → IoError → Prop
  | here {s after length lengths e} (refused : s.take length = (.error e, after)) :
      FailsWith s (length :: lengths) e
  | later {s middle length lengths data e} (first : s.take length = (.ok data, middle))
      (rest : FailsWith middle lengths e) : FailsWith s (length :: lengths) e

theorem failsError (fails : s.Fails lengths) : ∃ e, s.FailsWith lengths e := by
  induction fails with
  | here refused => exact ⟨_, .here refused⟩
  | later first rest ih =>
    obtain ⟨e, further⟩ := ih
    exact ⟨e, .later first further⟩

end Source

namespace Filling

variable {ρ : Type} [Reader ρ]

theorem followFailed {index : BlockIndex} {head : UInt32} {nodes : List (UInt32 × ChunkNode)}
    (chain : Chain index.chunkNode? ChunkNode.next head nodes) {s : Source ρ} {e : IoError}
    (fails : s.FailsWith (sizes nodes) e) (name : String) {fuel : Nat}
    (enough : nodes.length < fuel) (filling : Filling)
    (fresh : ∀ place ∈ places nodes, place ∉ filling.contents) (apart : (places nodes).Nodup) :
    (followChain index name fuel head s filling).1 = .error (.io e) := by
  induction chain generalizing s fuel filling with
  | ended => cases fails
  | @node pointer node nodes live found later ih =>
    obtain ⟨contents, pieces⟩ := filling
    cases fuel with
    | zero => simp at enough
    | succ fuel =>
      unfold followChain
      rw [if_neg live, found]
      cases fails with
      | here refused => simp only [refused]
      | @later _ middle _ _ data _ first rest =>
        have free : contents.contains node.data = false := by
          simpa using fresh node.data List.mem_cons_self
        have still := freshBehind [node.data] fresh apart [data]
        simp only [first, free, Bool.false_eq_true, if_false]
        exact ih rest (Nat.lt_of_succ_lt_succ enough) _ still (List.nodup_cons.mp apart).2

variable {draws : List Draw} {capacity : UInt32} {order : List Draft} {address : Slot → UInt32}
  {p : Plan}

theorem readFileFailed (laid : Laid draws capacity order address p) {file : Nat} {draw : Draw}
    (here : draws[file]? = some draw) {sources : List (Source ρ)} {s : Source ρ}
    (given : sources[file]? = some s) {e : IoError}
    (fails : s.FailsWith (draw.chunks.map (·.toNat * sectorSize)) e) (filling : Filling)
    (fresh : ∀ place ∈ chunkPlaces address file draw, place ∉ filling.contents)
    (apart : (chunkPlaces address file draw).Nodup) (offset : UInt32) (label : String)
    (blocks : List Block) :
    (readFiles p.index (p.blocks.length + 1)
      (⟨offset, .file file (Draft.fileHeader address file draw), label⟩ :: blocks) sources
      filling).1 = .error (.io e) := by
  rw [← chunkSizes address file draw] at fails
  have followed := followFailed (laid.chunkChain here) fails
    (Draft.fileHeader address file draw).name.text (laid.visitsBelowBlocks here) filling fresh apart
  rw [readFiles, given]
  simp only
  split
  · rename_i f after filling stopped
    rw [stopped] at followed
    exact followed
  · rename_i after filling finished
    rw [finished] at followed
    cases followed

/- The only way not to end well is the failure of a source that has not been touched before. -/
theorem readStops (laid : Laid draws capacity order address p) {blocks : List Block}
    {files : List (Draw × Nat)}
    (headers : blocks.filterMap Block.file? = files.map (Draft.numbered address))
    (drawn : ∀ file ∈ files, draws[file.2]? = some file.1) {sources : List (Source ρ)}
    (enough : draws.length ≤ sources.length) (distinct : (files.map Prod.snd).Nodup)
    (filling : Filling) (fresh : ∀ place ∈ filePlaces address files, place ∉ filling.contents)
    (apart : (filePlaces address files).Nodup) {f : Fault}
    (stopped : (readFiles p.index (p.blocks.length + 1) blocks sources filling).1 = .error f) :
    ∃ file ∈ files, ∃ s e, sources[file.2]? = some s ∧
      s.FailsWith (file.1.chunks.map (·.toNat * sectorSize)) e ∧ f = .io e := by
  induction blocks generalizing files sources filling with
  | nil => cases stopped
  | cons b blocks ih =>
    obtain ⟨offset, content, label⟩ := b
    cases content with
    | file number header =>
      obtain ⟨⟨draw, _⟩, files, rfl, same, others⟩ := List.map_eq_cons_iff.mp headers.symm
      cases same
      have here : draws[number]? = some draw := drawn _ List.mem_cons_self
      have inside : number < sources.length :=
        Nat.lt_of_lt_of_le (List.getElem?_eq_some_iff.mp here).1 enough
      have given := List.getElem?_eq_getElem inside
      obtain ⟨other, distinct⟩ := List.nodup_cons.mp distinct
      rw [placesCons] at fresh apart
      obtain ⟨own, rest, _⟩ := List.nodup_append.mp apart
      have first := fun place member => fresh place (List.mem_append_left _ member)
      rcases Source.takesOrFails sources[number] (draw.chunks.map (·.toNat * sectorSize)) with
        ⟨data, middle, takes⟩ | fails
      · obtain ⟨pieces, step⟩ :=
          readFile laid here given takes filling first own offset label blocks
        rw [step] at stopped
        obtain ⟨file, member, s, e, known, fails, io⟩ := ih others.symm
          (fun file member => drawn file (List.mem_cons_of_mem _ member))
          (by rw [List.length_set]; exact enough) distinct _ (freshBehind _ fresh apart data) rest
          stopped
        have elsewhere : number ≠ file.2 := fun same =>
          other (same ▸ List.mem_map.mpr ⟨file, member, rfl⟩)
        rw [List.getElem?_set_ne elsewhere] at known
        exact ⟨file, List.mem_cons_of_mem _ member, s, e, known, fails, io⟩
      · obtain ⟨e, fails⟩ := Source.failsError fails
        have failed := readFileFailed laid here given fails filling first own offset label blocks
        rw [stopped] at failed
        cases failed
        exact ⟨_, List.mem_cons_self, _, e, given, fails, rfl⟩
    | superBlock record => exact ih headers drawn enough distinct filling fresh apart stopped
    | free record => exact ih headers drawn enough distinct filling fresh apart stopped
    | chunkNode record => exact ih headers drawn enough distinct filling fresh apart stopped
    | chunkData length => exact ih headers drawn enough distinct filling fresh apart stopped

theorem ofPlanStopped (laid : Laid draws capacity order address p) {sources : List (Source ρ)}
    (enough : draws.length ≤ sources.length) {f : Fault}
    (stopped : (ofPlan p sources).1 = .error f) :
    ∃ file lengths s e, p.Wants file lengths ∧ sources[file]? = some s ∧ s.FailsWith lengths e ∧
      f = .io e := by
  obtain ⟨files, all, headers⟩ := laid.headers
  have drawn := filesDrawn all
  obtain ⟨file, member, s, e, given, fails, io⟩ := readStops laid headers drawn enough
    (filesNumbered all) .empty (by simp [empty]) (chunkPlacesDistinct laid all) stopped
  exact ⟨file.2, _, s, e, laid.wants.mpr ⟨_, drawn file member, rfl⟩, given, fails, io⟩

end Filling

theorem Device.Refuses.front {δ : Type} [Device δ] {d last : δ} {calls : List Call} {count : Nat}
    {e : IoError} (refuses : Refuses d calls count e last) :
    Refuses d (calls.take (count + 1)) count e last ∧
      (calls.take (count + 1)).length = count + 1 := by
  induction refuses with
  | here refused => exact ⟨.here refused, rfl⟩
  | later wrote rest ih => exact ⟨.later wrote ih.1, congrArg (· + 1) ih.2⟩

/- The ways a run can end. A failure is reported as it was met: in a source, before any call, or at
the last call, which the device refused. -/
inductive Execution.Ends {ρ δ : Type} [Reader ρ] [Device δ] (run : Execution ρ δ) (p : Plan)
    (sources : List (Source ρ)) (device : δ) : Prop
  | finished (done : run.outcome = .ok ()) (accepts : Device.Accepts device run.calls run.device)
  | unread {file lengths s e} (wanted : p.Wants file lengths) (given : sources[file]? = some s)
      (fails : s.FailsWith lengths e) (reported : run.outcome = .error (.io e))
      (silent : run.calls = [])
  | refused {count e} (refuses : Device.Refuses device run.calls count e run.device)
      (last : run.calls.length = count + 1) (reported : run.outcome = .error (.io e))

variable {γ : Type} [Generator γ] {ρ : Type} [Reader ρ] {δ : Type} [Device δ]

theorem Laid.ends {draws : List Draw} {capacity : UInt32} {order : List Draft}
    {address : Slot → UInt32} {p : Plan} (laid : Laid draws capacity order address p)
    {sources : List (Source ρ)} (enough : draws.length ≤ sources.length) (device : δ)
    (progress : Progress) : (execute p sources device progress).Ends p sources device := by
  rcases Filling.fillsOrFails p sources with ⟨after, filling, read⟩ | ⟨f, after, filling, read⟩
  · cases laid.makes read device progress with
    | all done made accepts => exact .finished done (made ▸ accepts)
    | front failed made refuses =>
      obtain ⟨front, count⟩ := refuses.front
      rw [← made] at front count
      exact .refused front count failed
  · obtain ⟨file, lengths, s, e, wanted, given, fails, rfl⟩ :=
      Filling.ofPlanStopped laid enough (congrArg Prod.fst read)
    rw [executeUnread read]
    exact .unread wanted given fails rfl rfl

/-- No check on the planner's own work ever fails: whatever chance draws, the blocks link to each
other and to the files given, and a run stops for an outside error or not at all. -/
theorem onlyOutsideFaults (entries : List Entry) (capacity : UInt32) (g : γ) :
    (∀ length, Draft.Closed entries (drawnDrafts entries g length)) ∧
    ((∃ p, (plan entries capacity g).outcome = .ok p) ∨
      (maxFiles < entries.length ∧
        (plan entries capacity g).outcome = .error (.tooManyFiles entries.length)) ∨
      ∃ required, (plan entries capacity g).outcome =
        .error (.capacityExceeded required capacity)) ∧
    ∀ p, (plan entries capacity g).outcome = .ok p →
      (∃ address length, p.blocks = (drawnDrafts entries g length).map (Draft.block address)) ∧
      (∀ offset b, p.blockAt? offset = some b → b ∈ p.blocks) ∧
      ∀ {ρ δ : Type} [Reader ρ] [Device δ] (sources : List (Source ρ)) (device : δ)
        (progress : Progress), entries.length ≤ sources.length →
        (execute p sources device progress).Ends p sources device := by
  refine ⟨draftsClosed entries g, ?planned, ?run⟩
  case planned =>
    rcases Nat.lt_or_ge maxFiles entries.length with many | few
    · exact .inr (.inl ⟨many, by rw [planTooMany many]⟩)
    · rcases planOutcome few capacity g with ⟨_, refused⟩ | ⟨_, _, p, accepted, _⟩
      · exact .inr (.inr ⟨_, refused⟩)
      · exact .inl ⟨p, accepted⟩
  case run =>
    intro p ok
    obtain ⟨address, laid⟩ := planOrdered ok
    have count := Draw.ofEntriesCount entries g
    refine ⟨⟨address, capacity - address .lastFree - 1, ?blocks⟩,
      fun offset b found => ((Plan.blockAtIff laid.tiled _ _).mp found).1, ?ends⟩
    case blocks =>
      rw [drawnDraftsLinked]
      exact laid.blocks
    case ends =>
      intro ρ δ _ _ sources device progress enough
      exact laid.ends (by omega) device progress

/- One file under any source, on a sink that may refuse any write; one source lets a run finish. -/
theorem onlyOutsideFaultsOne : ∃ (p : Plan) (good : Source Stream),
    (plan [.twoSectors] 400 (Cycle.ofWords [5, 3])).outcome = .ok p ∧
    (execute p [good] (⟨.growing ⟨#[7]⟩, 2⟩ : Window) .start).outcome = .ok () ∧
    ∀ (s : Source Stream) (device : Refusing Window) (progress : Progress),
      (execute p [s] device progress).Ends p [s] device := by
  obtain ⟨p, good, ok, finishes⟩ := oneFileFinishes
  obtain ⟨_, _, runs⟩ := onlyOutsideFaults [.twoSectors] 400 (Cycle.ofWords [5, 3])
  obtain ⟨_, _, ends⟩ := runs p ok
  exact ⟨p, good, ok, finishes _ .buffer ⟨#[7]⟩ .start, fun s device progress =>
    ends [s] device progress (Nat.le_refl 1)⟩

end BootImage
