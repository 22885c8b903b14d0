import BootImage.Record

/-!
Files to be packed: what planning knows of them, and their content, which is taken once, from front
to back. No more is read than the declared size; where the content is shorter, zeros take its place.
Readers give bytes in pieces of their own choice. Streams are readers over known content that may
fail once, at a position where a byte is asked for; a stream's step bounds a piece, and a piece of
nothing passes for the end.
-/
namespace BootImage

structure Entry where
  name : Name
  size : UInt32
  deriving DecidableEq, Repr

def Entry.ofText (name : String) (size : UInt64) : Except Fault Entry := do
  let stored ← Name.ofText name
  if size.toNat < UInt32.size then .ok ⟨stored, size.toUInt32⟩
  else .error (.fileTooLarge stored.text size)

/-- A read asks for at least one byte. An empty answer is the end of the content. A read that is
interrupted is simply made again and is no answer here: an error is always a failure to read. -/
class Reader (ρ : Type) where
  read : ρ → Nat → Except IoError ByteArray × ρ

def Reader.gather {ρ : Type} [Reader ρ] (r : ρ) (wanted : Nat) (got : ByteArray) :
    Except IoError ByteArray × ρ :=
  -- An answer longer than was asked for is taken for the end as well; bytes read before a failure
  -- are lost.
  if wanted = 0 then (.ok got, r)
  else
    match Reader.read r wanted with
    | (.error e, r) => (.error e, r)
    | (.ok piece, r) =>
      if piece.size = 0 ∨ wanted < piece.size then (.ok got, r)
      else gather r (wanted - piece.size) (got ++ piece)
termination_by wanted
decreasing_by omega

structure Stream where
  content : ByteArray
  position : Nat
  step : Nat → Nat
  failure : Option (Nat × IoError)

namespace Stream

def make (content : ByteArray) (step : Nat → Nat) (failure : Option (Nat × IoError)) : Stream where
  content
  position := 0
  step
  failure := failure.filter fun (k, _) => k ≤ content.size

def ofContent (content : ByteArray) : Stream := make content (fun _ => content.size) none

def piece (s : Stream) (limit stop : Nat) : Except IoError ByteArray × Stream :=
  let count := min (min (s.step s.position) limit) (stop - s.position)
  (.ok (s.content.extract s.position (s.position + count)),
    { s with position := s.position + count })

def read (s : Stream) (limit : Nat) : Except IoError ByteArray × Stream :=
  match s.failure with
  | none => s.piece limit s.content.size
  | some (k, e) =>
    if k ≤ s.position then (.error e, { s with failure := none })
    else s.piece limit (min k s.content.size)

instance : Reader Stream := ⟨read⟩

end Stream

structure Source (ρ : Type) where
  entry : Entry
  reader : ρ
  remaining : UInt32

namespace Source

variable {ρ : Type}

def make (name : String) (size : UInt64) (reader : ρ) : Except Fault (Source ρ) := do
  let entry ← Entry.ofText name size
  .ok ⟨entry, reader, entry.size⟩

def take [Reader ρ] (s : Source ρ) (length : Nat) : Except IoError ByteArray × Source ρ :=
  -- A failed read leaves the count of remaining bytes as it was.
  let wanted := min length s.remaining.toNat
  match Reader.gather s.reader wanted ByteArray.empty with
  | (.error e, reader) => (.error e, { s with reader })
  | (.ok got, reader) =>
    (.ok (padded length got),
      { s with reader, remaining := s.remaining - UInt32.ofNat wanted })

end Source

end BootImage
