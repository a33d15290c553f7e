import OrderDesk.Text.Utf8

/-!
The texts in paths and queries, which may write bytes as a percent sign and two hexadecimal digits. A
percent sign with anything else after it stands for itself.
-/

namespace OrderDesk.Api

open Text (Utf8.Bytes)

def hexValue? (b : UInt8) : Option UInt8 :=
  if 0x30 ≤ b ∧ b ≤ 0x39 then some (b - 0x30)
  else if 0x41 ≤ b ∧ b ≤ 0x46 then some (b - 0x37)
  else if 0x61 ≤ b ∧ b ≤ 0x66 then some (b - 0x57)
  else none

def escaped? : Utf8.Bytes → Option UInt8
  | h :: l :: _ =>
    match hexValue? h, hexValue? l with
    | some h, some l => some (16 * h + l)
    | _, _ => none
  | _ => none

def percentDecodeAfter : Nat → Utf8.Bytes → Utf8.Bytes
  | _, [] => []
  | n + 1, _ :: s => percentDecodeAfter n s
  | 0, b :: s =>
    if b = 0x25 then
      match escaped? s with
      | some v => v :: percentDecodeAfter 2 s
      | none => b :: percentDecodeAfter 0 s
    else b :: percentDecodeAfter 0 s

def percentDecode (s : Utf8.Bytes) : Utf8.Bytes := percentDecodeAfter 0 s

def segmentText? (segment : List Char) : Option String :=
  (Text.Utf8.decode? (percentDecode (Text.Utf8.encode segment))).map String.ofList

/-- A part of a form, where a plus sign is a space. Bytes that are no UTF-8 are replaced. -/
def formText (part : List Char) : String :=
  Text.Utf8.toStringLossy
    (percentDecode (Text.Utf8.encode (part.map fun c => if c = '+' then ' ' else c)))

def splitOn (separator : Char) : List Char → List (List Char)
  | [] => [[]]
  | c :: s =>
    if c = separator then [] :: splitOn separator s
    else match splitOn separator s with
      | [] => [[c]]
      | p :: ps => (c :: p) :: ps

/-- The names and values of a form, in order; a part without an equals sign has an empty value. -/
def formPairs (query : List Char) : List (String × String) :=
  ((splitOn '&' query).filter (· ≠ [])).map fun part =>
    (formText (part.takeWhile (· ≠ '=')), formText ((part.dropWhile (· ≠ '=')).drop 1))

end OrderDesk.Api
