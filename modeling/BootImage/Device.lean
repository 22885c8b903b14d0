import BootImage.Fault
import BootImage.Sector

/-!
Devices that are written in sectors, and runs of writes that stop at the first refusal. A device is
any state that answers writes; nothing is assumed of what it keeps. Sinks are where bytes go at a
position: buffers that grow or keep their size, regular files, and the two devices that take
everything or nothing. A window on a sink counts sectors from a fixed number of skipped ones, and
refuses a write whose byte offset needs more than 64 bits.
-/
namespace BootImage

structure Call where
  sector : UInt64
  data : ByteArray

class Device (δ : Type) where
  write : δ → UInt64 → ByteArray → Except IoError Unit × δ

structure Performed (δ : Type) where
  device : δ
  -- Every write tried, the refused one included.
  calls : Array Call
  outcome : Except IoError Unit

def perform {δ : Type} [Device δ] (d : δ) (calls : Array Call) : List Call → Performed δ
  | [] => ⟨d, calls, .ok ()⟩
  | call :: rest =>
    match Device.write d call.sector call.data with
    | (.ok _, d) => perform d (calls.push call) rest
    | (.error e, d) => ⟨d, calls.push call, .error e⟩

structure Refusing (δ : Type) where
  inner : δ
  refuseAt : Option Nat
  passed : Array Call

namespace Refusing

variable {δ : Type}

def of (inner : δ) (refuseAt : Option Nat) : Refusing δ := ⟨inner, refuseAt, #[]⟩

def refused : IoError := ⟨.permissionDenied, "write refused"⟩

def write [Device δ] (d : Refusing δ) (sector : UInt64) (data : ByteArray) :
    Except IoError Unit × Refusing δ :=
  if d.refuseAt = some d.passed.size then (.error refused, d)
  else
    let (outcome, inner) := Device.write d.inner sector data
    (outcome, ⟨inner, d.refuseAt, d.passed.push ⟨sector, data⟩⟩)

instance [Device δ] : Device (Refusing δ) := ⟨write⟩

end Refusing

def positionLimit : Nat := 9223372036854775808

inductive Sink
  /-- Grows to wherever a write starts, even an empty one. -/
  | growing (bytes : ByteArray)
  | fixed (bytes : ByteArray)
  /-- Grows only where there is data, and has no position from `positionLimit` on. -/
  | file (bytes : ByteArray)
  | discard
  | full

namespace Sink

def bytes : Sink → ByteArray
  | .growing bytes | .fixed bytes | .file bytes => bytes
  | .discard | .full => ByteArray.empty

def overwrite (bytes : ByteArray) (offset : Nat) (data : ByteArray) : ByteArray :=
  data.copySlice 0 (padded offset bytes) offset data.size false

def store (bytes : ByteArray) (offset : Nat) (data : ByteArray) : ByteArray :=
  -- Without data not even the gap is filled.
  if data.isEmpty then bytes else overwrite bytes offset data

def writeFixed (bytes : ByteArray) (offset : Nat) (data : ByteArray) :
    Except IoError Unit × ByteArray :=
  let room := bytes.size - offset
  if data.size ≤ room then (.ok (), store bytes offset data)
  else (.error .writeZero, store bytes offset (data.extract 0 room))

def writeAt (sink : Sink) (offset : Nat) (data : ByteArray) : Except IoError Unit × Sink :=
  match sink with
  | .growing bytes => (.ok (), .growing (overwrite bytes offset data))
  | .fixed bytes =>
    let (outcome, bytes) := writeFixed bytes offset data
    (outcome, .fixed bytes)
  | .file bytes =>
    if offset < positionLimit then (.ok (), .file (store bytes offset data))
    else (.error .invalidArgument, .file bytes)
  | .discard => (.ok (), .discard)
  | .full => (if data.isEmpty then .ok () else .error .storageFull, .full)

end Sink

def byteOffset (first second : UInt64) : Except IoError UInt64 :=
  let offset := (first.toNat + second.toNat) * sectorSize
  if offset < UInt64.size then .ok (UInt64.ofNat offset) else .error (.unaddressable first second)

structure Window where
  sink : Sink
  skip : UInt64

namespace Window

def write (w : Window) (sector : UInt64) (data : ByteArray) : Except IoError Unit × Window :=
  match byteOffset w.skip sector with
  | .error e => (.error e, w)
  | .ok offset =>
    let (outcome, sink) := w.sink.writeAt offset.toNat data
    (outcome, ⟨sink, w.skip⟩)

instance : Device Window := ⟨write⟩

end Window

def Call.logLine? (skip : UInt64) (call : Call) : Option LogLine :=
  -- A write is logged once its address is known to be good, whatever the sink then says.
  match byteOffset skip call.sector with
  | .ok _ => some ⟨.trace, s!"write {call.data.size / sectorSize} sector(s) at {call.sector}"⟩
  | .error _ => none

end BootImage
