import BootImage.Text

/-!
What is said of a run. Log lines are values: an operation's log is computed from what it did, and
printing is left to the caller. Faults are everything that can go wrong, by cause, with its wording;
a fault says what was wrong with the input, the device or the plan, and does not say what was
already written when it arose.
-/
namespace BootImage

inductive Level
  | info | debug | trace
  deriving DecidableEq, Repr

namespace Level

def rank : Level → Nat
  | .info => 0
  | .debug => 1
  | .trace => 2

def name : Level → String
  | .info => "INFO"
  | .debug => "DEBUG"
  | .trace => "TRACE"

end Level

structure LogLine where
  level : Level
  text : String
  deriving DecidableEq, Repr

def keepUpTo (limit : Level) (lines : List LogLine) : List LogLine :=
  lines.filter fun line => line.level.rank ≤ limit.rank

inductive IoKind
  | other | invalidInput | writeZero | notFound | isADirectory | notADirectory
  | storageFull | permissionDenied | invalidFilename
  deriving DecidableEq, Repr

structure IoError where
  kind : IoKind
  text : String
  deriving DecidableEq, Repr

namespace IoError

def notFound : IoError := ⟨.notFound, "No such file or directory (os error 2)"⟩
def notADirectory : IoError := ⟨.notADirectory, "Not a directory (os error 20)"⟩
def isADirectory : IoError := ⟨.isADirectory, "Is a directory (os error 21)"⟩
def invalidArgument : IoError := ⟨.invalidInput, "Invalid argument (os error 22)"⟩
def storageFull : IoError := ⟨.storageFull, "No space left on device (os error 28)"⟩
def nameTooLong : IoError := ⟨.invalidFilename, "File name too long (os error 36)"⟩
def nulInPath : IoError := ⟨.invalidInput, "file name contained an unexpected NUL byte"⟩
def lengthOutOfRange : IoError :=
  ⟨.invalidInput, "number too large to fit in target type"⟩
def writeZero : IoError := ⟨.writeZero, "failed to write whole buffer"⟩

def unaddressable (first second : UInt64) : IoError :=
  ⟨.invalidInput, s!"sector {first} + {second} is beyond any addressable device"⟩

end IoError

inductive Corruption
  | unplaced (label : String)
  | noSource (name : String)
  | notAChunkNode (pointer : UInt32) (name : String)
  | sharedChunk (sector : UInt32)
  | unreferenced (label : String) (sector : UInt32)
  | outsideImage (sector : UInt32)
  | badMagic (magic : UInt32)
  | loop (kind : String) (sector : UInt32)
  | shortChunks (name : String) (held size : Nat)
  deriving DecidableEq, Repr

def Corruption.message : Corruption → String
  | .unplaced label => s!"{label} was never placed"
  | .noSource name => s!"no source for {name}"
  | .notAChunkNode pointer name =>
    s!"chunk pointer {pointer} of {name} does not name a chunk node"
  | .sharedChunk sector => s!"chunk at sector {sector} is shared"
  | .unreferenced label sector =>
    s!"{label} at sector {sector} is not referenced by any chunk node"
  | .outsideImage sector => s!"sector {sector} is outside the image"
  | .badMagic magic => "bad magic 0x" ++ Text.Quoted.hexDigits magic.toNat
  | .loop kind sector => s!"{kind} list loops at sector {sector}"
  | .shortChunks name held size =>
    s!"{name} has {held} byte(s) of chunks for {size} byte(s)"

def maxNameBytes : Nat := 255

def maxFiles : Nat := 128

inductive Fault
  | io (error : IoError)
  | shortRecord
  | capacityExceeded (required : UInt64) (capacity : UInt32)
  | nameTooLong (name : String)
  | invalidName (name : String)
  | fileTooLarge (name : String) (size : UInt64)
  | tooManyFiles (count : Nat)
  | invalidProgram (given : String)
  | corrupted (what : Corruption)
  | recordOverflow (kind : String) (length : Nat)
  deriving DecidableEq, Repr

def Fault.message : Fault → String
  | .io error => s!"Disk I/O error: {error.text}"
  | .shortRecord => "Record encoding error: io error: unexpected end of file"
  | .capacityExceeded required capacity =>
    s!"Filesystem is too big for the disk: needs {required} sectors, disk has {capacity}"
  | .nameTooLong name => s!"File name '{name}' is too long (at most {maxNameBytes} bytes)"
  | .invalidName name => "Invalid file name: " ++ Text.Quoted.quote name
  | .fileTooLarge name size => s!"File '{name}' is too large: {size} bytes"
  | .tooManyFiles count => s!"Too many programs: {count} given, at most {maxFiles} supported"
  | .invalidProgram given => s!"Invalid program spec '{given}', expected NAME:FILE"
  | .corrupted what => "Layout plan is inconsistent: " ++ what.message
  | .recordOverflow kind length => s!"{kind} record is {length} bytes, larger than one sector"

end BootImage
