set_option autoImplicit false

/-!
# Text: reading UTF-8

A character is one to four bytes long, and its first byte tells how many.  Only the shortest
encoding counts, surrogates have none, and nothing lies above U+10FFFF; each of these rules shows in
the second byte already.  Where the bytes stop following the rules, either the text ends too early
or some bytes are wrong, and then one to three bytes belong to the wrong sequence.
-/

namespace ClassScript.Text

/-- The first place at which bytes are no UTF-8. -/
structure Utf8Fault where
  /-- how many bytes before it are right -/
  index : Nat
  /-- how many bytes are wrong, unless the text ends in the middle of a character -/
  wrong : Option Nat
  deriving DecidableEq, Repr

/-- The fault in words. -/
def Utf8Fault.message (f : Utf8Fault) : String :=
  match f.wrong with
  | some count =>
    "invalid utf-8 sequence of " ++ toString count ++ " bytes from index " ++ toString f.index
  | none => "incomplete utf-8 byte sequence from index " ++ toString f.index

/-- The form of a character by its first byte: the bits that this byte gives, the bounds of the
second byte, and how many bytes there are after the first. -/
structure Utf8Lead where
  bits : Nat
  low : Nat
  high : Nat
  more : Nat
  deriving Repr

/-- The form that a first byte announces, if it can be one. -/
def Utf8Lead.of? (b : Nat) : Option Utf8Lead :=
  if b < 0x80 then some { bits := b, low := 0, high := 0, more := 0 }
  else if b < 0xc2 then none
  else if b < 0xe0 then some { bits := b - 0xc0, low := 0x80, high := 0xbf, more := 1 }
  else if b = 0xe0 then some { bits := 0, low := 0xa0, high := 0xbf, more := 2 }
  else if b = 0xed then some { bits := 0x0d, low := 0x80, high := 0x9f, more := 2 }
  else if b < 0xf0 then some { bits := b - 0xe0, low := 0x80, high := 0xbf, more := 2 }
  else if b = 0xf0 then some { bits := 0, low := 0x90, high := 0xbf, more := 3 }
  else if b < 0xf4 then some { bits := b - 0xf0, low := 0x80, high := 0xbf, more := 3 }
  else if b = 0xf4 then some { bits := 4, low := 0x80, high := 0x8f, more := 3 }
  else none

/-- Read `more` bytes of a character of which `seen` bytes are read and give `bits`.  Yields the
code point, or how many bytes are wrong, if it is not the end of the text that is missing. -/
def readTail (low high seen : Nat) : Nat → Nat → List UInt8 → Except (Option Nat) Nat
  | 0, bits, _ => .ok bits
  | _ + 1, _, [] => .error none
  | more + 1, bits, b :: rest =>
    if low ≤ b.toNat ∧ b.toNat ≤ high then
      readTail 0x80 0xbf (seen + 1) more (bits * 64 + (b.toNat - 0x80)) rest
    else .error (some seen)

/-- The characters of some bytes, of which `index` others come before. -/
def decodeFrom (index : Nat) (bytes : List UInt8) : Except Utf8Fault (List Char) :=
  match bytes with
  | [] => .ok []
  | b :: rest =>
    match Utf8Lead.of? b.toNat with
    | none => .error { index, wrong := some 1 }
    | some lead =>
      match readTail lead.low lead.high 1 lead.more lead.bits rest with
      | .error wrong => .error { index, wrong }
      | .ok code =>
        (decodeFrom (index + 1 + lead.more) (rest.drop lead.more)).map (Char.ofNat code :: ·)
termination_by bytes.length
decreasing_by simp only [List.length_drop, List.length_cons]; omega

/-- The text that some bytes encode. -/
def decodeUtf8 (bytes : List UInt8) : Except Utf8Fault String :=
  (decodeFrom 0 bytes).map String.ofList

end ClassScript.Text
