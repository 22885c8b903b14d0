/-!
Random words, bounded draws from them, and random order. A draw below `count` scales one word to the
interval and draws a second one where a single word would leave the outcome biased. In random order
item `i` in turn changes places with an item at a random position up to `i`; one draw is split into
the positions of several items, as many as its range allows, and what is drawn depends on how many
items there are, not on what they are. Two generators are here: chosen words in turn, starting over
after the last, and the key stream of ChaCha with twelve rounds, under a key that is spread out from
a 64-bit seed, with nonce zero and a block counter that starts at zero.
-/
namespace BootImage

class Generator (γ : Type) where
  next : γ → UInt32 × γ

namespace Generator

variable {γ : Type} [Generator γ]

def below (count : Nat) (g : γ) : Nat × γ :=
  let (word, g) := next g
  let scaled := word.toNat * count
  let result := scaled / UInt32.size
  let low := scaled % UInt32.size
  if UInt32.size - count < low then
    let (word, g) := next g
    (if UInt32.size ≤ low + word.toNat * count / UInt32.size then result + 1 else result, g)
  else (result, g)

def range (low high : UInt32) (g : γ) : UInt32 × γ :=
  let (offset, g) := below (high.toNat - low.toNat + 1) g
  (low + UInt32.ofNat offset, g)

theorem belowBounded {count : Nat} (g : γ) (positive : 0 < count) (word : count ≤ UInt32.size) :
    (below count g).1 < count := by
  simp only [below, UInt32.size] at word ⊢
  generalize (next g).1 = w
  have bound := w.toNat_lt
  have scaled : w.toNat * count ≤ 4294967295 * count := Nat.mul_le_mul_right _ (by omega)
  have quotient := Nat.div_add_mod (w.toNat * count) 4294967296
  have top : w.toNat * count / 4294967296 < count := by
    rw [Nat.div_lt_iff_lt_mul (by decide)]
    omega
  split
  · -- a second word is drawn only where the first leaves room for the carry
    have carry : w.toNat * count / 4294967296 + 1 < count := by
      rcases Nat.lt_or_ge (w.toNat * count / 4294967296 + 1) count with fits | full
      · exact fits
      · have last : w.toNat * count / 4294967296 = count - 1 := by omega
        rw [last] at quotient
        omega
    simp only
    split <;> omega
  · exact top

theorem rangeBounds {low high : UInt32} (g : γ) (ordered : low ≤ high) :
    low ≤ (range low high g).1 ∧ (range low high g).1 ≤ high := by
  have order := UInt32.le_iff_toNat_le.mp ordered
  have top := high.toNat_lt
  have drawn : (below (high.toNat - low.toNat + 1) g).1 < high.toNat - low.toNat + 1 :=
    belowBounded g (by omega) (by simp only [UInt32.size]; omega)
  have offset : (UInt32.ofNat (below (high.toNat - low.toNat + 1) g).1).toNat =
      (below (high.toNat - low.toNat + 1) g).1 := by
    simp only [UInt32.toNat_ofNat']
    omega
  have total : (range low high g).1.toNat =
      low.toNat + (below (high.toNat - low.toNat + 1) g).1 := by
    simp only [range, UInt32.toNat_add, offset]
    omega
  simp only [UInt32.le_iff_toNat_le, total]
  omega

end Generator

namespace Shuffle

/-- A supply of positions: the k-th one asked for, counted from one, lies below k. -/
structure Positions (γ : Type) where
  given : Nat
  store : Nat
  left : Nat
  generator : γ

def batchFrom : Nat → Nat → Nat → Nat × Nat
  -- The product doubles at least, so 32 steps are enough.
  | 0, product, factor => (product, factor)
  | fuel + 1, product, factor =>
    if product * factor < UInt32.size then batchFrom fuel (product * factor) (factor + 1)
    else (product, factor)

variable {γ : Type} [Generator γ]

def Positions.refill (p : Positions γ) : Positions γ :=
  if p.left = 0 then
    let k := p.given + 1
    let (product, factor) := batchFrom 32 k (k + 1)
    let (store, generator) := Generator.below product p.generator
    { p with store, left := factor - k, generator }
  else p

def Positions.next (p : Positions γ) : Nat × Positions γ :=
  let p := p.refill
  let k := p.given + 1
  if p.left = 1 then (p.store, { p with given := k, left := 0 })
  else (p.store % k, { p with given := k, store := p.store / k, left := p.left - 1 })

def Positions.start (g : γ) : Positions γ := ⟨0, 0, 1, g⟩

def step {α : Type} (state : Array α × Positions γ) (i : Nat) : Array α × Positions γ :=
  let (items, positions) := state
  let (j, positions) := positions.next
  (items.swapIfInBounds i j, positions)

def shuffle {α : Type} (items : Array α) (g : γ) : Array α × γ :=
  let (items, positions) := (List.range items.size).foldl step (items, Positions.start g)
  (items, positions.generator)

theorem stepPerm {α : Type} (state : Array α × Positions γ) (i : Nat) :
    (step state i).1.Perm state.1 := by
  simp only [step, Array.swapIfInBounds_def]
  split
  · split
    · exact Array.swap_perm ..
    · exact .rfl
  · exact .rfl

theorem stepsPerm {α : Type} (indices : List Nat) (state : Array α × Positions γ) :
    (indices.foldl step state).1.Perm state.1 := by
  induction indices generalizing state with
  | nil => exact .rfl
  | cons i rest ih => exact (ih (step state i)).trans (stepPerm state i)

theorem shufflePerm {α : Type} (items : Array α) (g : γ) :
    (shuffle items g).1.toList.Perm items.toList :=
  Array.perm_iff_toList_perm.mp (stepsPerm _ _)

theorem stepMap {α β : Type} (f : α → β) (items : Array α) (positions : Positions γ) (i : Nat) :
    step (items.map f, positions) i =
      ((step (items, positions) i).1.map f, (step (items, positions) i).2) := by
  simp only [step, Array.swapIfInBounds_def, Array.size_map]
  split
  · split
    · simp only [Array.swap_def, Array.map_set, Array.getElem_map]
    · rfl
  · rfl

theorem stepsMap {α β : Type} (f : α → β) (indices : List Nat) (items : Array α)
    (positions : Positions γ) : indices.foldl step (items.map f, positions) =
      ((indices.foldl step (items, positions)).1.map f,
        (indices.foldl step (items, positions)).2) := by
  induction indices generalizing items positions with
  | nil => rfl
  | cons i rest ih =>
    rw [List.foldl_cons, stepMap, ih]
    rfl

theorem shuffleMap {α β : Type} (f : α → β) (items : Array α) (g : γ) :
    shuffle (items.map f) g = ((shuffle items g).1.map f, (shuffle items g).2) := by
  simp only [shuffle, Array.size_map, stepsMap]

end Shuffle

structure Cycle where
  words : Array UInt32
  position : Nat
  deriving DecidableEq, Repr

namespace Cycle

def ofWords (words : List UInt32) : Cycle := ⟨words.toArray, 0⟩

def next (c : Cycle) : UInt32 × Cycle :=
  (c.words.getD (c.position % c.words.size) 0, { c with position := c.position + 1 })

instance : Generator Cycle := ⟨next⟩

end Cycle

structure ChaCha where
  key : Vector UInt32 8
  block : UInt64
  ready : List UInt32
  deriving DecidableEq, Repr

namespace ChaCha

def rotateLeft (w count : UInt32) : UInt32 := w <<< count ||| w >>> (32 - count)

def rotateRight (w count : UInt32) : UInt32 := w >>> count ||| w <<< (32 - count)

abbrev Block := Vector UInt32 16

def quarterRound (a b c d : Fin 16) (s : Block) : Block :=
  -- The amount is taken modulo 32, so that a rotation by zero keeps the word.
  let s := s.set a (s[a] + s[b])
  let s := s.set d (rotateLeft (s[d] ^^^ s[a]) 16)
  let s := s.set c (s[c] + s[d])
  let s := s.set b (rotateLeft (s[b] ^^^ s[c]) 12)
  let s := s.set a (s[a] + s[b])
  let s := s.set d (rotateLeft (s[d] ^^^ s[a]) 8)
  let s := s.set c (s[c] + s[d])
  s.set b (rotateLeft (s[b] ^^^ s[c]) 7)

def doubleRound (s : Block) : Block :=
  let s := quarterRound 0 4 8 12 s
  let s := quarterRound 1 5 9 13 s
  let s := quarterRound 2 6 10 14 s
  let s := quarterRound 3 7 11 15 s
  let s := quarterRound 0 5 10 15 s
  let s := quarterRound 1 6 11 12 s
  let s := quarterRound 2 7 8 13 s
  quarterRound 3 4 9 14 s

def input (key : Vector UInt32 8) (block : UInt64) : Block :=
  #v[0x61707865, 0x3320646e, 0x79622d32, 0x6b206574,
     key[0], key[1], key[2], key[3], key[4], key[5], key[6], key[7],
     block.toUInt32, (block >>> 32).toUInt32, 0, 0]

def output (key : Vector UInt32 8) (block : UInt64) : Block :=
  let start := input key block
  let mixed := doubleRound <| doubleRound <| doubleRound <| doubleRound <| doubleRound <|
    doubleRound start
  Vector.ofFn fun i : Fin 16 => mixed[i] + start[i]

def next (s : ChaCha) : UInt32 × ChaCha :=
  match s.ready with
  | word :: rest => (word, { s with ready := rest })
  | [] =>
    let words := output s.key s.block
    (words[0], { s with block := s.block + 1, ready := words.toList.tail })

instance : Generator ChaCha := ⟨next⟩

def spread (state : UInt64) : UInt64 := state * 6364136223846793005 + 11634580027462260723

def keyWord (state : UInt64) : UInt32 :=
  rotateRight (((state >>> 18) ^^^ state) >>> 27).toUInt32 (state >>> 59).toUInt32

def ofSeed (seed : UInt64) : ChaCha where
  key := Vector.ofFn fun i : Fin 8 => keyWord (Nat.repeat spread (i + 1) seed)
  block := 0
  ready := []

end ChaCha

end BootImage
