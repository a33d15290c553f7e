import OrderDesk.Order.Basic
import OrderDesk.Wire.Reader

/-!
Reading records. A record is an object with known keys in any order, each at most once, and any other
keys; or an array of its fields in their order. A field that is left out takes its fallback, or is
missing.
-/

namespace OrderDesk.Wire

inductive Content where
  | text (s : String)
  | integer (i : Int64)
  | moment (t : Moment)
  | locale (l : Locale)
  | currency (c : Currency)
  | delivery (d : Delivery)
  | payment (p : Payment)
  | items (xs : List Item)
deriving DecidableEq, Repr

abbrev Reader (α : Type) := Input → Except Fault (α × Input)

structure Field where
  key : String
  read : Reader Content
  fallback : Option Content

structure Record (α : Type) where
  name : String
  fields : List Field
  build : List Content → Option α

/-! ## Values -/

def valueStart (s : Input) : Except Fault (UInt8 × Input) :=
  match skipSpace s with
  | [] => .error .eof
  | b :: rest => .ok (b, rest)

def readText : Reader String := fun s => do
  let (b, rest) ← valueStart s
  if b = quoteMark then stringRest rest else throw (mismatch "a string" (b :: rest))

def integerOf : Numeral → Except Fault Int64
  | .integer i =>
    if i < twoTo 63 then .ok (Int64.ofInt i) else .error (.data (.wrongValue (.integer i) "i64"))
  | .float x => .error (.data (.wrongType (.float x) "i64"))

def readInteger : Reader Int64 := fun s => do
  let (b, rest) ← valueStart s
  if b = minusSign ∨ isDigit b then
    let (x, rest) ← numeral (b :: rest)
    let i ← integerOf x
    pure (i, rest)
  else throw (mismatch "i64" (b :: rest))

def readMoment : Reader Moment := fun s => do
  let (b, rest) ← valueStart s
  if b = quoteMark then
    let (text, rest) ← stringRest rest
    match Rfc3339.parse text.toList with
    | .ok t => pure (t, rest)
    | .error f => throw (.data (.moment f))
  else throw (mismatch "an RFC 3339 formatted date and time string" (b :: rest))

def named {α : Type} (all : List α) (name : α → String) (text : String) : Except Fault α :=
  match all.find? fun a => name a = text with
  | some a => .ok a
  | none => .error (.data (.unknownName text (all.map name)))

/-- A value by its name: a string, or an object whose only key is the name and whose value is null. -/
def readNamed {α : Type} (all : List α) (name : α → String) : Reader α := fun s => do
  let (b, rest) ← valueStart s
  if b = quoteMark then
    let (text, rest) ← stringRest rest
    let a ← named all name text
    pure (a, rest)
  else if b = openBrace then
    let (q, rest) ← valueStart rest
    if q = quoteMark then
      let (text, rest) ← stringRest rest
      let a ← named all name text
      let rest ← colonRest rest
      let (n, rest) ← valueStart rest
      if n = letterN then
        let rest ← expectBytes nullRest rest
        let (e, rest) ← valueStart rest
        if e = closeBrace then pure (a, rest) else throw .malformed
      else throw (mismatch "unit" (n :: rest))
    else throw .malformed
  else throw .malformed

/-! ## Objects -/

def keyStart (first : Bool) (b : UInt8) (rest : Input) : Except Fault Input :=
  if b = comma ∧ !first then
    match skipSpace rest with
    | [] => .error .eof
    | q :: rest => if q = quoteMark then .ok rest else .error .malformed
  else if b = quoteMark ∧ first then .ok rest
  else .error .malformed

def fieldIndex? (fs : List Field) (key : String) : Option Nat := fs.findIdx? fun f => f.key = key

def readSlot (fs : List Field) (slots : List (Option Content)) (i : Nat) (s : Input) :
    Except Fault (List (Option Content) × Input) :=
  match fs[i]? with
  | none => .error .malformed
  | some f =>
    if (slots[i]?.join).isSome then .error (.data (.duplicate f.key))
    else do
      let s ← colonRest s
      let (c, s) ← f.read s
      pure (slots.set i (some c), s)

/-- The members of an object and its closing brace. Each takes at least one byte, so the length of
the payload is fuel enough. -/
def readMembers (fs : List Field) :
    Nat → Bool → List (Option Content) → Input → Except Fault (List (Option Content) × Input)
  | 0, _, _, _ => .error .eof
  | fuel + 1, first, slots, s =>
    match skipSpace s with
    | [] => .error .eof
    | b :: rest =>
      if b = closeBrace then .ok (slots, rest)
      else do
        let s ← keyStart first b rest
        let (key, s) ← stringRest s
        match fieldIndex? fs key with
        | some i =>
          let (slots, s) ← readSlot fs slots i s
          readMembers fs fuel false slots s
        | none =>
          let s ← colonRest s
          let s ← skip s
          readMembers fs fuel false slots s

def fillSlots : List Field → List (Option Content) → Except Fault (List Content)
  | [], _ => .ok []
  | f :: fs, slots =>
    match (slots.head?.join).or f.fallback with
    | some c => (fillSlots fs slots.tail).map (c :: ·)
    | none => .error (.data (.missing f.key))

/-! ## Arrays -/

def nextElement (first : Bool) (s : Input) : Except Fault (Option Input) :=
  match skipSpace s with
  | [] => .error .eof
  | b :: rest =>
    if b = closeBracket then .ok none
    else if b = comma ∧ !first then
      match skipSpace rest with
      | [] => .error .eof
      | c :: after => if c = closeBracket then .error .malformed else .ok (some (c :: after))
    else if first then .ok (some (b :: rest))
    else .error .malformed

def arrayEnd (s : Input) : Except Fault Input :=
  match skipSpace s with
  | [] => .error .eof
  | b :: rest => if b = closeBracket then .ok rest else .error .malformed

def readFields (wrong : Nat → Fault) :
    List Field → Nat → Bool → Input → Except Fault (List Content × Input)
  | [], _, _, s => .ok ([], s)
  | f :: fs, i, first, s => do
    match ← nextElement first s with
    | some s =>
      let (c, s) ← f.read s
      let (cs, s) ← readFields wrong fs (i + 1) false s
      pure (c :: cs, s)
    | none =>
      match f.fallback with
      | none => throw (wrong i)
      | some c =>
        let (cs, s) ← readFields wrong fs (i + 1) first s
        pure (c :: cs, s)

def readElements {α : Type} (read : Reader α) :
    Nat → Bool → Input → Except Fault (List α × Input)
  | 0, _, _ => .error .eof
  | fuel + 1, first, s => do
    match ← nextElement first s with
    | none => (arrayEnd s).map fun rest => ([], rest)
    | some s =>
      let (x, s) ← read s
      let (xs, s) ← readElements read fuel false s
      pure (x :: xs, s)

def readList {α : Type} (read : Reader α) : Reader (List α) := fun s => do
  let (b, rest) ← valueStart s
  if b = openBracket then readElements read (rest.length + 1) true rest
  else throw (mismatch "a sequence" (b :: rest))

/-! ## Records -/

/-- What the contents of all fields make. The readers of the fields give contents of the right kinds,
so there is always something. -/
def Record.make {α : Type} (r : Record α) (cs : List Content) : Except Fault α :=
  match r.build cs with
  | some a => .ok a
  | none => .error .malformed

def Record.read {α : Type} (r : Record α) : Reader α := fun s => do
  let (b, rest) ← valueStart s
  if b = openBracket then
    let wrong (i : Nat) : Fault := .data (.wrongLength i r.name r.fields.length)
    let (cs, s) ← readFields wrong r.fields 0 true rest
    let s ← arrayEnd s
    let a ← r.make cs
    pure (a, s)
  else if b = openBrace then
    let (slots, s) ← readMembers r.fields (rest.length + 1) true (r.fields.map fun _ => none) rest
    let cs ← fillSlots r.fields slots
    let a ← r.make cs
    pure (a, s)
  else throw (mismatch ("struct " ++ r.name) (b :: rest))

/-- Reads a whole payload: nothing but white space may follow the value. -/
def decodeWith {α : Type} (read : Reader α) (bs : Input) : Except Fault α := do
  let (a, rest) ← read bs
  if skipSpace rest = [] then pure a else throw .malformed

end OrderDesk.Wire
