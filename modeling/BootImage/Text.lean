import BootImage.Text.Unprintable

/-!
Text for people: in columns, read from bytes that need not be UTF-8, and in double quotes.
Columns count characters and never cut a longer text. Every maximal ill-formed part of the bytes
becomes one U+FFFD: a lead byte with as many of its continuation bytes as could still belong to a
character. In quotes the quote, the backslash, four controls and every code point without a printed
form are escaped; an apostrophe and everything else stand as they are.
-/
namespace BootImage

namespace Text.Column

def blanks (count : Nat) : String := String.ofList (List.replicate count ' ')

def left (width : Nat) (text : String) : String :=
  text ++ blanks (width - text.length)

def right (width : Nat) (text : String) : String :=
  blanks (width - text.length) ++ text

end Text.Column

namespace Text.Lossy

def continuation (b : UInt8) : Bool := 0x80 ≤ b && b ≤ 0xBF

def admits (lead second : UInt8) : Bool :=
  if lead = 0xE0 then 0xA0 ≤ second && second ≤ 0xBF
  else if lead = 0xED then 0x80 ≤ second && second ≤ 0x9F
  else if lead = 0xF0 then 0x90 ≤ second && second ≤ 0xBF
  else if lead = 0xF4 then 0x80 ≤ second && second ≤ 0x8F
  else 0xC2 ≤ lead && lead ≤ 0xF4 && continuation second

def holdsAt (bytes : ByteArray) (i : Nat) (test : UInt8 → Bool) : Bool :=
  if h : i < bytes.size then test bytes[i] else false

def illFormed (bytes : ByteArray) (i : Nat) (lead : UInt8) : Nat :=
  if holdsAt bytes (i + 1) (admits lead) then
    if 0xF0 ≤ lead && holdsAt bytes (i + 2) continuation then 3 else 2
  else 1

theorem illFormedPositive (bytes : ByteArray) (i : Nat) (lead : UInt8) :
    0 < illFormed bytes i lead := by
  unfold illFormed
  split <;> (try split) <;> decide

def replacement : Char := '\ufffd'

def charsFrom (bytes : ByteArray) (i : Nat) : List Char :=
  if h : i < bytes.size then
    match bytes.utf8DecodeChar? i with
    | some c => c :: charsFrom bytes (i + c.utf8Size)
    | none => replacement :: charsFrom bytes (i + illFormed bytes i bytes[i])
  else []
termination_by bytes.size - i
decreasing_by
  · have := c.utf8Size_pos
    omega
  · have := illFormedPositive bytes i bytes[i]
    omega

def text (bytes : List UInt8) : String :=
  String.ofList (charsFrom bytes.toByteArray 0)

end Text.Lossy

namespace Text.Quoted

def hexDigits (n : Nat) : String := String.ofList (Nat.toDigits 16 n)

def escape (c : Char) : String :=
  match c with
  | '\x00' => "\\0"
  | '\t' => "\\t"
  | '\n' => "\\n"
  | '\r' => "\\r"
  | '"' => "\\\""
  | '\\' => "\\\\"
  | c =>
    if Unprintable.unprintable c then "\\u\x7b" ++ hexDigits c.toNat ++ "\x7d"
    else c.toString

def quote (text : String) : String :=
  "\"" ++ String.join (text.toList.map escape) ++ "\""

end Text.Quoted

end BootImage
