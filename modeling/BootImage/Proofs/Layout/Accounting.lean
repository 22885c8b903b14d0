import Mathlib
import BootImage.Proofs.Layout.Pointers

/-!
The sums of a plan set against its lists. They are taken over the blocks in the order on disk, and
following the pointers gives the same numbers; with the sector left over they make up the capacity.
-/
namespace BootImage

namespace Draft

theorem countOfChunks {kind : Draft → Bool} {number : Nat}
    (each : ∀ file chunks name length chunk,
      (ofChunk file chunks name length chunk).countP kind = number) (file : Nat) (draw : Draw) :
    (ofChunks file draw).countP kind = draw.chunks.length * number := by
  unfold ofChunks
  rw [List.countP_flatMap, List.map_eq_replicate_iff.mpr, List.sum_replicate, List.length_zipIdx,
    smul_eq_mul]
  intro part _
  exact each _ _ _ _ _

theorem countOfDraws {kind : Draft → Bool} {number : Draw → Nat}
    (each : ∀ file draw, (ofDraw file draw).countP kind = number draw) (draws : List Draw) :
    (ofDraws draws).countP kind = (draws.map number).sum := by
  have named : draws.map number = draws.zipIdx.map (number ∘ Prod.fst) := by
    rw [← List.map_map, List.zipIdx_map_fst]
  unfold ofDraws
  rw [List.countP_flatMap, named]
  congr 1
  apply List.map_congr_left
  intro part _
  exact each part.2 part.1

end Draft

namespace Laid

variable {draws : List Draw} {capacity : UInt32} {order : List Draft} {address : Slot → UInt32}
  {p : Plan}

theorem counted (laid : Laid draws capacity order address p) {kind : Content → Bool}
    {number : Draw → Nat} (top : ∀ record, kind (.superBlock record) = false)
    (free : ∀ record, kind (.free record) = false)
    (each : ∀ file draw, (Draft.ofDraw file draw).countP
      (fun d => kind (d.links.content address)) = number draw) :
    p.blocks.countP (fun b => kind b.content) = (draws.map number).sum := by
  have parts := (laid.shuffled.countP_eq _).trans (Draft.countOfDraws each draws)
  have first : kind ((Draft.linkedTop draws.length).block address).content = false := top _
  rw [laid.frontAndLast, List.countP_append, List.map_cons, List.countP_cons, List.countP_map,
    List.countP_singleton, if_neg (by simp [first]), if_neg (by simp [free])]
  exact parts

theorem filesCounted (laid : Laid draws capacity order address p) :
    p.summary.files = draws.length := by
  have each : ∀ file draw, (Draft.ofDraw file draw).countP
      (fun d => (d.links.content address).isFile) = 1 := by
    intro file draw
    have chunks : (Draft.ofChunks file draw).countP
        (fun d => (d.links.content address).isFile) = draw.chunks.length * 0 :=
      Draft.countOfChunks (fun _ _ _ _ _ => rfl) file draw
    rw [Draft.ofDraw, List.countP_append, chunks]
    rfl
  have count := laid.counted (fun _ => rfl) (fun _ => rfl) each
  rw [List.map_const', List.sum_replicate, smul_eq_mul, Nat.mul_one] at count
  exact count

theorem nodesCounted (laid : Laid draws capacity order address p) :
    p.summary.chunks = (draws.map (·.chunks.length)).sum := by
  refine laid.counted (fun _ => rfl) (fun _ => rfl) ?_
  intro file draw
  have chunks : (Draft.ofChunks file draw).countP
      (fun d => (d.links.content address).isChunkNode) = draw.chunks.length * 1 :=
    Draft.countOfChunks (fun _ _ _ _ _ => rfl) file draw
  rw [Draft.ofDraw, List.countP_append, chunks, Nat.mul_one]
  rfl

theorem trailingLength (laid : Laid draws capacity order address p) :
    p.trailingFree = capacity - address .lastFree - 1 := by
  unfold Plan.trailingFree
  rw [laid.frontAndLast, List.getLast?_concat]

theorem trailingPositive (laid : Laid draws capacity order address p) :
    1 ≤ p.trailingFree.toNat := by
  have last : ⟨address .lastFree, .free ⟨nullPointer, capacity - address .lastFree - 1⟩,
      "the last free block"⟩ ∈ p.blocks := by
    rw [laid.frontAndLast]
    simp
  rw [laid.trailingLength]
  exact (laid.tiled.bounds (List.mem_map.mpr ⟨_, last, rfl⟩)).2.1

theorem whole (laid : Laid draws capacity order address p) :
    (address .lastFree).toNat + p.trailingFree.toNat + 1 = capacity.toNat := by
  rw [laid.trailingLength]
  exact laid.trailing

theorem sectorsTotal (laid : Laid draws capacity order address p) :
    p.totalSectors.toNat = (address .lastFree).toNat + p.trailingFree.toNat := by
  have top := capacity.toNat_lt
  have whole := laid.whole
  have total := Plan.totalSectorsTiled laid.tiled (by simp only [UInt64.size]; omega)
  omega

theorem sectorsSummed (laid : Laid draws capacity order address p) :
    p.summary.usedSectors = address .lastFree := by
  have total := laid.sectorsTotal
  have front : p.trailingFree.toUInt64 ≤ p.totalSectors := by
    rw [UInt64.le_iff_toNat_le, UInt32.toNat_toUInt64]
    omega
  have least := (address .lastFree).toNat_lt
  apply UInt32.toNat_inj.mp
  change (p.totalSectors - p.trailingFree.toUInt64).toUInt32.toNat = _
  rw [UInt64.toNat_toUInt32, UInt64.toNat_sub_of_le _ _ front, UInt32.toNat_toUInt64]
  omega

end Laid

theorem usedSectorsParted (draws : List Draw) : usedSectors draws =
    1 + (draws.map (·.chunks.length)).sum +
      ((draws.map Draw.entry).map fun e => (e.size.toNat + 511) / 512 + 1).sum +
      (draws.map (·.freeRun.toNat)).sum := by
  unfold usedSectors
  induction draws with
  | nil => rfl
  | cons draw draws ih =>
    simp only [List.map_cons, List.sum_cons, Draw.sectors, Entry.sectors]
    omega

namespace Tour.Complete

variable {draws : List Draw} {p : Plan} {t : Tour}

theorem sources (complete : t.Complete draws p) :
    t.files.map (·.2.1) = (List.range draws.length).reverse := by
  have files := congrArg (List.map Prod.fst) complete.files
  rw [List.map_map, List.map_reverse, List.map_map] at files
  rw [List.range_eq_range', ← List.zipIdx_map_snd 0 draws]
  exact files

theorem nodesMet (complete : t.Complete draws p) :
    (t.nodes.map List.length).sum = (draws.map (·.chunks.length)).sum := by
  have lengths := congrArg (List.map List.length) complete.lengths
  rw [List.map_map, List.map_reverse, List.map_map] at lengths
  have numbers : t.nodes.map List.length = (draws.map (·.chunks.length)).reverse := by
    simpa [Function.comp_def] using lengths
  rw [numbers, List.sum_reverse]

theorem freesMet (complete : t.Complete draws p) : ∃ runs last, t.frees = runs ++ [last] ∧
    (runs.map (·.2.length.toNat)).sum = (draws.map (·.freeRun.toNat)).sum ∧
    p.blocks.getLast? = some ⟨last.1, .free last.2, "the last free block"⟩ := by
  obtain ⟨runs, last, frees, lengths, _, final⟩ := complete.frees
  have named := congrArg (List.map UInt32.toNat) lengths
  rw [List.map_map, List.map_reverse, List.map_map] at named
  have numbers : runs.map (·.2.length.toNat) = (draws.map (·.freeRun.toNat)).reverse := named
  exact ⟨runs, last, frees, by rw [numbers, List.sum_reverse], final⟩

end Tour.Complete

/- What a summary counts over the blocks and what a walk by pointers meets are the same files, nodes
and free runs. The last free run is told apart from the `runs` before it. -/
structure Summary.Agrees (s : Summary) (entries : List Entry) (p : Plan) (t : Tour)
    (runs : List (UInt32 × FreeRun)) (last : UInt32 × FreeRun) : Prop where
  files : s.files = entries.length
  headers : t.files.map (·.2.1) = (List.range s.files).reverse
  chunks : s.chunks = (t.nodes.map List.length).sum
  frees : t.frees = runs ++ [last]
  final : p.blocks.getLast? = some ⟨last.1, .free last.2, "the last free block"⟩
  used : s.usedSectors = last.1
  parts : s.usedSectors.toNat = 1 + s.chunks +
    (entries.map fun e => (e.size.toNat + 511) / 512 + 1).sum +
    (runs.map (·.2.length.toNat)).sum
  trailing : s.trailingFree = last.2.length
  positive : 1 ≤ s.trailingFree.toNat
  whole : s.usedSectors.toNat + s.trailingFree.toNat + 1 = s.capacity.toNat

variable {γ : Type} [Generator γ]

/-- The summary of a plan leaves no sector out: what it counts over the blocks is what there is to
be met from the superblock on. -/
theorem planAccounts {entries : List Entry} {capacity : UInt32} {g : γ} {p : Plan}
    (ok : (plan entries capacity g).outcome = .ok p) :
    p.summary.capacity = capacity ∧
    ∃ t : Tour, t.Of p ∧ (∀ u : Tour, u.Of p → u = t) ∧
      ∃ runs last, p.summary.Agrees entries p t runs last := by
  obtain ⟨order, address, laid⟩ := planLaid ok
  obtain ⟨same, _⟩ := Draw.ofEntriesFit entries g
  have complete := laid.tourComplete
  obtain ⟨runs, last, frees, lengths, final⟩ := complete.freesMet
  have files := laid.filesCounted
  have summed := laid.sectorsSummed
  have sized : p.summary.capacity = capacity := laid.sized
  have free : last = (address .lastFree, ⟨nullPointer, capacity - address .lastFree - 1⟩) := by
    rw [laid.frontAndLast, List.getLast?_concat] at final
    obtain ⟨_, _⟩ := last
    cases final
    rfl
  refine ⟨sized, _, laid.tourOf, fun u other => other.unique laid.tourOf, runs, last, ?_⟩
  exact {
    files := files.trans (Draw.ofEntriesCount entries g)
    headers := by
      rw [files]
      exact complete.sources
    chunks := laid.nodesCounted.trans complete.nodesMet.symm
    frees
    final
    used := by
      rw [free]
      exact summed
    parts := by
      rw [summed, laid.lastAddress, usedSectorsParted, same, lengths, laid.nodesCounted]
    trailing := by
      rw [free]
      exact laid.trailingLength
    positive := laid.trailingPositive
    whole := by
      rw [summed, sized]
      exact laid.whole }

/- Seventeen of the sectors are the superblock, the two headers and fourteen sectors of content. -/
theorem planAccountsForty : ∃ (p : Plan) (t : Tour) (runs : List (UInt32 × FreeRun))
    (last : UInt32 × FreeRun),
    (plan [.fourteenSectors, .noSectors] 40 (Cycle.ofWords [5, 3])).outcome = .ok p ∧
      t.Of p ∧ t.frees = runs ++ [last] ∧ p.summary.files = 2 ∧ p.summary.usedSectors = last.1 ∧
      last.1.toNat = 17 + (t.nodes.map List.length).sum + (runs.map (·.2.length.toNat)).sum ∧
      last.1.toNat + last.2.length.toNat = 39 := by
  obtain ⟨p, ok⟩ := twoFilesPlanned
  obtain ⟨sized, t, follows, _, runs, last, agrees⟩ := planAccounts ok
  have parts := agrees.parts
  have whole := agrees.whole
  have capacity : (40 : UInt32).toNat = 40 := rfl
  have content : ([.fourteenSectors, .noSectors].map fun e : Entry =>
      (e.size.toNat + 511) / 512 + 1).sum = 16 := rfl
  rw [agrees.used, agrees.trailing, sized, capacity] at whole
  rw [agrees.used, agrees.chunks, content] at parts
  exact ⟨p, t, runs, last, ok, follows, agrees.frees, agrees.files, agrees.used, by omega,
    by omega⟩

end BootImage
