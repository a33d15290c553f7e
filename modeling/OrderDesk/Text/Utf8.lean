/-!
UTF-8: characters as one to four bytes. `encode` writes them, `decode?` reads a well-formed
sequence, and `decodeLossy` reads any sequence, with one U+FFFD for each maximal part that no
character starts with. Both readers drive one machine, a byte at a time.
-/

namespace OrderDesk.Text.Utf8

abbrev Bytes := List UInt8

def encodeChar (c : Char) : Bytes :=
  let n := c.toNat
  if n < 0x80 then [UInt8.ofNat n]
  else if n < 0x800 then [UInt8.ofNat (0xC0 + n / 64), UInt8.ofNat (0x80 + n % 64)]
  else if n < 0x10000 then
    [UInt8.ofNat (0xE0 + n / 4096), UInt8.ofNat (0x80 + n / 64 % 64),
      UInt8.ofNat (0x80 + n % 64)]
  else
    [UInt8.ofNat (0xF0 + n / 262144), UInt8.ofNat (0x80 + n / 4096 % 64),
      UInt8.ofNat (0x80 + n / 64 % 64), UInt8.ofNat (0x80 + n % 64)]

def encode (s : List Char) : Bytes := s.flatMap encodeChar

theorem encode_append (s t : List Char) : encode (s ++ t) = encode s ++ encode t := by
  simp [encode]

/-- Between characters, or inside one: `owed` bytes are missing, the next of them lies from `low`
to `high`, and `code` holds the bits read so far. -/
inductive State where
  | start
  | inside (owed low high code : Nat)
deriving DecidableEq, Repr

inductive Effect where
  | char (c : Char)
  | grow (q : State)
  | refuse
deriving DecidableEq, Repr

/-- The first byte of a character. No character starts with C0, C1, or a byte above F4; the second
byte's range leaves out overlong forms, surrogates and code points above U+10FFFF. -/
def first (b : Nat) : Effect :=
  if b < 0x80 then .char (Char.ofNat b)
  else if b < 0xC2 then .refuse
  else if b < 0xE0 then .grow (.inside 1 0x80 0xBF (b - 0xC0))
  else if b = 0xE0 then .grow (.inside 2 0xA0 0xBF 0)
  else if b = 0xED then .grow (.inside 2 0x80 0x9F 0xD)
  else if b < 0xF0 then .grow (.inside 2 0x80 0xBF (b - 0xE0))
  else if b = 0xF0 then .grow (.inside 3 0x90 0xBF 0)
  else if b < 0xF4 then .grow (.inside 3 0x80 0xBF (b - 0xF0))
  else if b = 0xF4 then .grow (.inside 3 0x80 0x8F 4)
  else .refuse

def next (owed low high code b : Nat) : Effect :=
  if low ≤ b ∧ b ≤ high then
    let code := code * 64 + (b - 0x80)
    if owed = 1 then .char (Char.ofNat code) else .grow (.inside (owed - 1) 0x80 0xBF code)
  else .refuse

def decodeFrom : State → Bytes → Option (List Char)
  | .start, [] => some []
  | .inside .., [] => none
  | q, b :: rest =>
    match (match q with
      | .start => first b.toNat
      | .inside owed low high code => next owed low high code b.toNat) with
    | .char c => (decodeFrom .start rest).map (c :: ·)
    | .grow q => decodeFrom q rest
    | .refuse => none

def decode? (bs : Bytes) : Option (List Char) := decodeFrom .start bs

def replacement : Char := Char.ofNat 0xFFFD

def startLossy (b : UInt8) : List Char × State :=
  match first b.toNat with
  | .char c => ([c], .start)
  | .grow q => ([], q)
  | .refuse => ([replacement], .start)

/-- One byte of any sequence. A byte that cannot go on with a character ends that part and is then
read as the start of the next. -/
def stepLossy : State → UInt8 → List Char × State
  | .start, b => startLossy b
  | .inside owed low high code, b =>
    match next owed low high code b.toNat with
    | .char c => ([c], .start)
    | .grow q => ([], q)
    | .refuse => (replacement :: (startLossy b).1, (startLossy b).2)

def lossyFrom : State → Bytes → List Char
  | .start, [] => []
  | .inside .., [] => [replacement]
  | q, b :: rest => (stepLossy q b).1 ++ lossyFrom (stepLossy q b).2 rest

def decodeLossy (bs : Bytes) : List Char := lossyFrom .start bs

def ofString (s : String) : Bytes := encode s.toList

def toStringLossy (bs : Bytes) : String := String.ofList (decodeLossy bs)

end OrderDesk.Text.Utf8
