import BootImage.Fault

/-!
The arguments of the command. A program is given as the name it gets in the image and the file it is
read from, with a colon between; counts are decimal numerals of a bounded width. Arguments are read
from the left, but a value that stands apart from its option, and a row of programs, are looked at
only once the next known option or the end is met; so an unknown option is reported before them.
-/
namespace BootImage

structure Program where
  name : String
  file : String
  deriving DecidableEq, Repr

def Program.parse (given : String) : Except Fault Program :=
  let chars := given.toList
  let name := chars.takeWhile (· != ':')
  match chars.dropWhile (· != ':') with
  | [] => .error (.invalidProgram given)
  | _ :: file =>
    if name.isEmpty || file.isEmpty || file.contains ':' then .error (.invalidProgram given)
    else .ok ⟨String.ofList name, String.ofList file⟩

namespace Numeral

inductive Fault
  | empty
  | invalidDigit
  | tooLarge
  | tooSmall
  | outside (value : Int) (top : Nat)
  deriving DecidableEq, Repr

def Fault.message : Fault → String
  | .empty => "cannot parse integer from empty string"
  | .invalidDigit => "invalid digit found in string"
  | .tooLarge => "number too large to fit in target type"
  | .tooSmall => "number too small to fit in target type"
  | .outside value top => s!"{value} is not in 0..={top}"

def digit? (c : Char) : Option Nat :=
  if '0' ≤ c ∧ c ≤ '9' then some (c.toNat - '0'.toNat) else none

def digits (top : Nat) (beyond : Fault) : Nat → List Char → Except Fault Nat
  | sofar, [] => .ok sofar
  | sofar, c :: rest =>
    match digit? c with
    | none => .error .invalidDigit
    | some d =>
      let value := sofar * 10 + d
      if top < value then .error beyond else digits top beyond value rest

def unsigned (top : Nat) (text : String) : Except Fault Nat :=
  match text.toList with
  | [] => .error .empty
  | ['+'] => .error .invalidDigit
  | '+' :: rest => digits top .tooLarge 0 rest
  | chars => digits top .tooLarge 0 chars

def signedLimit : Nat := 9223372036854775808

def signed64 (text : String) : Except Fault Int :=
  match text.toList with
  | [] => .error .empty
  | ['+'] | ['-'] => .error .invalidDigit
  | '+' :: rest => Int.ofNat <$> digits (signedLimit - 1) .tooLarge 0 rest
  | '-' :: rest => (fun n => -Int.ofNat n) <$> digits signedLimit .tooSmall 0 rest
  | chars => Int.ofNat <$> digits (signedLimit - 1) .tooLarge 0 chars

def word64 (text : String) : Except Fault UInt64 :=
  UInt64.ofNat <$> unsigned (UInt64.size - 1) text

def word32 (text : String) : Except Fault UInt32 := do
  -- Read as a signed number first, so a negative one is a number out of range.
  let value ← signed64 text
  if 0 ≤ value ∧ value < UInt32.size then return UInt32.ofNat value.toNat
  else .error (.outside value (UInt32.size - 1))

end Numeral

structure Args where
  programs : List Program
  searchDir : String
  output : String
  numSectors : UInt32
  skip : UInt64
  seed : Option UInt64
  dryRun : Bool
  verbose : Bool
  deriving DecidableEq, Repr

inductive ArgFault
  | help
  | version
  | unknown
  | missingValue
  | needlessValue
  | repeated
  | badNumber (fault : Numeral.Fault)
  | badProgram (fault : Fault)
  deriving DecidableEq, Repr

def ArgFault.summary : ArgFault → String
  | .help => "help was asked for"
  | .version => "the version was asked for"
  | .unknown => "unknown option"
  | .missingValue => "a value is missing"
  | .needlessValue => "a value where none is taken"
  | .repeated => "an option was given twice"
  | .badNumber fault => fault.message
  | .badProgram fault => fault.message

inductive Setting
  | searchDir | output | numSectors | skip | seed
  deriving DecidableEq, Repr

inductive Switch
  | dryRun | verbose | help | version
  deriving DecidableEq, Repr

inductive Key
  | setting (s : Setting)
  | switch (s : Switch)
  deriving DecidableEq, Repr

namespace Key

def ofShort? : Char → Option Key
  | 'd' => some (.setting .searchDir)
  | 'o' => some (.setting .output)
  | 'n' => some (.setting .numSectors)
  | 's' => some (.setting .skip)
  | 'v' => some (.switch .verbose)
  | 'h' => some (.switch .help)
  | 'V' => some (.switch .version)
  | _ => none

def ofLong? : String → Option Key
  | "search-dir" => some (.setting .searchDir)
  | "out" => some (.setting .output)
  | "num-sectors" => some (.setting .numSectors)
  | "skip" => some (.setting .skip)
  | "seed" => some (.setting .seed)
  | "dry-run" => some (.switch .dryRun)
  | "verbose" => some (.switch .verbose)
  | "help" => some (.switch .help)
  | "version" => some (.switch .version)
  | _ => none

end Key

structure Given where
  programs : List Program
  searchDir : Option String
  output : Option String
  numSectors : Option UInt32
  skip : Option UInt64
  seed : Option UInt64
  dryRun : Bool
  verbose : Bool
  deriving DecidableEq, Repr

namespace Given

def nothing : Given := ⟨[], none, none, none, none, none, false, false⟩

def has (g : Given) : Setting → Bool
  | .searchDir => g.searchDir.isSome
  | .output => g.output.isSome
  | .numSectors => g.numSectors.isSome
  | .skip => g.skip.isSome
  | .seed => g.seed.isSome

def path (text : String) : Except ArgFault String :=
  if text.isEmpty then .error .missingValue else .ok text

def assign (g : Given) (s : Setting) (text : String) : Except ArgFault Given :=
  match s with
  | .searchDir => do
    let dir ← path text
    return { g with searchDir := some dir }
  | .output => do
    let output ← path text
    return { g with output := some output }
  | .numSectors => do
    let count ← (Numeral.word32 text).mapError .badNumber
    return { g with numSectors := some count }
  | .skip => do
    let skip ← (Numeral.word64 text).mapError .badNumber
    return { g with skip := some skip }
  | .seed => do
    let seed ← (Numeral.word64 text).mapError .badNumber
    return { g with seed := some seed }

def set (g : Given) (s : Setting) (text : String) : Except ArgFault Given :=
  -- An option is taken once, and a second value is not even read.
  if g.has s then .error .repeated else g.assign s text

def flip (g : Given) : Switch → Except ArgFault Given
  | .dryRun => if g.dryRun then .error .repeated else .ok { g with dryRun := true }
  | .verbose => if g.verbose then .error .repeated else .ok { g with verbose := true }
  | .help => .error .help
  | .version => .error .version

def addPrograms (g : Given) (texts : List String) : Except ArgFault Given := do
  let programs ← texts.mapM fun text => (Program.parse text).mapError .badProgram
  return { g with programs := g.programs ++ programs }

def toArgs (g : Given) : Args where
  programs := g.programs
  searchDir := g.searchDir.getD "."
  output := g.output.getD "hd.img"
  numSectors := g.numSectors.getD 634966
  skip := g.skip.getD 1
  seed := g.seed
  dryRun := g.dryRun
  verbose := g.verbose

end Given

inductive Pending
  | nothing
  | programs (texts : List String)
  | awaiting (s : Setting)
  | value (s : Setting) (text : String)
  deriving DecidableEq, Repr

structure ArgState where
  given : Given
  pending : Pending
  trailing : Bool
  deriving DecidableEq, Repr

namespace ArgState

def start : ArgState := ⟨.nothing, .nothing, false⟩

def settle (st : ArgState) : Except ArgFault Given :=
  match st.pending with
  | .nothing => .ok st.given
  | .programs texts => st.given.addPrograms texts
  | .awaiting _ => .error .missingValue
  | .value s text => st.given.set s text

def settled (st : ArgState) (given : Given) : ArgState := ⟨given, .nothing, st.trailing⟩

def attach (st : ArgState) (s : Setting) (text : String) : Except ArgFault ArgState := do
  let given ← st.settle
  return st.settled (← given.set s text)

def await (st : ArgState) (s : Setting) : Except ArgFault ArgState := do
  let given ← st.settle
  return ⟨given, .awaiting s, st.trailing⟩

def flip (st : ArgState) (s : Switch) : Except ArgFault ArgState := do
  let given ← st.settle
  return st.settled (← given.flip s)

def long (st : ArgState) (name : String) (value : Option String) : Except ArgFault ArgState :=
  match Key.ofLong? name, value with
  | none, _ => .error .unknown
  | some (.setting s), some text => st.attach s text
  | some (.setting s), none => st.await s
  | some (.switch _), some _ => .error .needlessValue
  | some (.switch s), none => st.flip s

def shorts (st : ArgState) : List Char → Except ArgFault ArgState
  | [] => .ok st
  | c :: rest =>
    match Key.ofShort? c with
    | none => .error .unknown
    | some (.switch s) => do
      let st ← st.flip s
      st.shorts rest
    | some (.setting s) =>
      match rest with
      | [] => st.await s
      | '=' :: text => st.attach s (String.ofList text)
      | text => st.attach s (String.ofList text)

def program (st : ArgState) (text : String) : Except ArgFault ArgState :=
  match st.pending with
  | .programs texts => .ok { st with pending := .programs (texts ++ [text]) }
  | .nothing | .awaiting _ | .value .. => do
    let given ← st.settle
    return ⟨given, .programs [text], st.trailing⟩

def word (st : ArgState) (text : String) : Except ArgFault ArgState :=
  match st.pending with
  | .awaiting s => .ok { st with pending := .value s text }
  | .nothing | .programs _ | .value .. => st.program text

def step (st : ArgState) (arg : String) : Except ArgFault ArgState :=
  if st.trailing then st.program arg
  else
    match arg.toList with
    | ['-', '-'] => .ok { st with trailing := true }
    | '-' :: '-' :: body =>
      let name := String.ofList (body.takeWhile (· != '='))
      match body.dropWhile (· != '=') with
      | [] => st.long name none
      | _ :: text => st.long name (some (String.ofList text))
    | '-' :: c :: row => st.shorts (c :: row)
    | _ => st.word arg

end ArgState

def Args.parse (args : List String) : Except ArgFault Args := do
  let st ← args.foldlM ArgState.step ArgState.start
  let given ← st.settle
  return given.toArgs

end BootImage
