import Mathlib.Data.List.Nodup
import OrderDesk.Proofs.Wire.Cuts

/-!
Objects and arrays read back as they were written: an object with the keys of a record in their
order, and an array of objects.
-/

namespace OrderDesk.Wire

open Text.Utf8 (encode encodeChar encode_append)

variable {α : Type} {bs rest : Input} {fs todo : List Field} {f : Field} {c : Content}
  {cs : List Content} {ms : List (String × List Char)} {text : List Char} {fuel i : Nat}

/-! ## Parts -/

theorem separated_cons (p : List Char) (ps : List (List Char)) :
    separated (p :: ps) = p ++ ps.flatMap (',' :: ·) := by
  induction ps generalizing p with
  | nil => simp [separated]
  | cons q ps ih =>
    have hcons : separated (p :: q :: ps) = p ++ ',' :: separated (q :: ps) := rfl
    rw [hcons, ih, List.flatMap_cons]
    rfl

theorem length_le_separated (ps : List (List Char)) (h : ∀ p ∈ ps, p ≠ []) :
    ps.length ≤ (separated ps).length := by
  cases ps with
  | nil => exact le_rfl
  | cons p ps =>
    have hp := List.length_pos_of_ne_nil (h p List.mem_cons_self)
    have hps (qs : List (List Char)) : qs.length ≤ (qs.flatMap (',' :: ·)).length := by
      induction qs with
      | nil => exact le_rfl
      | cons q qs ih =>
        rw [List.flatMap_cons, List.length_append, List.length_cons, List.length_cons]
        omega
    have hrest := hps ps
    rw [separated_cons, List.length_append, List.length_cons]
    omega

theorem length_le_encode_separated (ps : List (List Char)) (h : ∀ p ∈ ps, p ≠ []) :
    ps.length ≤ (encode (separated ps)).length :=
  (length_le_separated ps h).trans (Text.Utf8.length_le_encode _)

/-! ## Objects -/

def member (m : String × List Char) : List Char := writeText m.1 ++ ':' :: m.2

inductive Fits : List Field → List (String × List Char) → List Content → Prop where
  | nil : Fits [] [] []
  | cons {f : Field} {text : List Char} {c : Content} {fs : List Field}
      {ms : List (String × List Char)} {cs : List Content} (h : Sturdy f.read text c)
      (hs : Fits fs ms cs) : Fits (f :: fs) ((f.key, text) :: ms) (c :: cs)

theorem encode_member (m : String × List Char) (rest : Input) :
    encode (member m) ++ rest = quoteMark :: (encode (m.1.toList.flatMap writeChar) ++
      quoteMark :: colon :: (encode m.2 ++ rest)) := by
  have hcolon : encode (':' :: m.2) = colon :: encode m.2 := rfl
  rw [member, encode_append, List.append_assoc, writeText, encode_writeChars, hcolon]
  rfl

theorem colonRest_colon (s : Input) : colonRest (colon :: s) = .ok s := by
  rw [colonRest, skipSpace_cons (by decide)]
  rfl

def lead (first : Bool) : Input := if first then [] else [comma]

theorem readMembers_open (fs : List Field) (slots : List (Option Content)) (fuel : Nat)
    (first : Bool) (s : Input) :
    readMembers fs (fuel + 1) first slots (lead first ++ quoteMark :: s) = (do
      let (key, s) ← stringRest s
      match fieldIndex? fs key with
      | some i =>
        let (slots, s) ← readSlot fs slots i s
        readMembers fs fuel false slots s
      | none =>
        let s ← colonRest s
        let s ← skip s
        readMembers fs fuel false slots s) := by
  cases first <;> rfl

theorem readMembers_member (slots : List (Option Content)) (fuel : Nat)
    (hkey : fieldIndex? fs f.key = some i) (hi : fs[i]? = some f) (hslot : slots[i]?.join = none)
    (h : Reads f.read text c) (first : Bool) (hrest : Ends rest) :
    readMembers fs (fuel + 1) first slots (lead first ++ (encode (member (f.key, text)) ++ rest)) =
      readMembers fs fuel false (slots.set i (some c)) rest := by
  have hread : readSlot fs slots i (colon :: (encode text ++ rest)) =
      .ok (slots.set i (some c), rest) := by
    simp only [readSlot, hi, hslot, Option.isSome_none, colonRest_colon, h rest hrest, bind,
      Except.bind]
    rfl
  rw [encode_member, readMembers_open]
  simp only [bind, Except.bind, stringRest_writeChars, String.ofList_toList, hkey, hread]

theorem fieldIndex?_append {before after : List Field}
    (hnodup : ((before ++ f :: after).map Field.key).Nodup) :
    fieldIndex? (before ++ f :: after) f.key = some before.length := by
  rw [List.map_append, List.map_cons] at hnodup
  have hbefore : ∀ g ∈ before, ¬ g.key = f.key := by
    intro g hg he
    have hdisjoint := List.disjoint_of_nodup_append hnodup
    exact hdisjoint (List.mem_map_of_mem hg) (he ▸ List.mem_cons_self)
  rw [fieldIndex?, List.findIdx?_append, List.findIdx?_eq_none_iff.2 (by simpa using hbefore)]
  simp [List.findIdx?_cons]

theorem ends_members (ms : List (String × List Char)) (rest : Input) :
    Ends (encode ((ms.map member).flatMap (',' :: ·)) ++ closeBrace :: rest) := by
  cases ms with
  | nil => exact ends_cons (.inr (.inr rfl)) rest
  | cons m ms => exact ends_cons (.inl rfl) _

theorem encode_members_cons (m : String × List Char) (ms : List (String × List Char)) :
    encode (((m :: ms).map member).flatMap (',' :: ·)) =
      lead false ++ (encode (member m) ++ encode ((ms.map member).flatMap (',' :: ·))) := by
  rw [List.map_cons, List.flatMap_cons, encode_append]
  rfl

def slotsAfter (done : List Content) (todo : List Field) : List (Option Content) :=
  done.map some ++ todo.map fun _ => none

theorem slotsAfter_set (f : Field) (c : Content) (done : List Content) (todo : List Field) :
    (slotsAfter done (f :: todo)).set done.length (some c) = slotsAfter (done ++ [c]) todo := by
  rw [slotsAfter, List.set_append_right _ _ (by simp)]
  simp [slotsAfter]

theorem slotsAfter_next (f : Field) (done : List Content) (todo : List Field) :
    (slotsAfter done (f :: todo))[done.length]?.join = none := by
  rw [slotsAfter, List.getElem?_append_right (by simp)]
  simp

theorem readMembers_fits (hfits : Fits todo ms cs) (before : List Field) (done : List Content)
    (fuel : Nat) (hdone : done.length = before.length)
    (hnodup : ((before ++ todo).map Field.key).Nodup) (hfuel : ms.length < fuel) (rest : Input) :
    readMembers (before ++ todo) fuel false (slotsAfter done todo)
        (encode ((ms.map member).flatMap (',' :: ·)) ++ closeBrace :: rest) =
      .ok ((done ++ cs).map some, rest) := by
  obtain ⟨fuel, rfl⟩ := Nat.exists_eq_succ_of_ne_zero (Nat.ne_zero_of_lt hfuel)
  induction hfits generalizing before done fuel with
  | nil =>
    rw [List.append_nil, slotsAfter, List.map_nil, List.append_nil, List.append_nil]
    change readMembers before (fuel + 1) false (done.map some) (closeBrace :: rest) = _
    rw [readMembers, skipSpace_cons (by decide)]
    exact if_pos rfl
  | @cons f text c fs ms cs h hs ih =>
    have hfield : (before ++ f :: fs)[before.length]? = some f := by simp
    obtain ⟨fuel, rfl⟩ :=
      Nat.exists_eq_succ_of_ne_zero (Nat.ne_zero_of_lt (Nat.lt_of_succ_lt_succ hfuel))
    have hmore := ih (before ++ [f]) (done ++ [c]) (by simp [hdone]) (by simpa using hnodup) fuel
      (Nat.lt_of_succ_lt_succ hfuel)
    rw [encode_members_cons, List.append_assoc, List.append_assoc, readMembers_member _ _
      (fieldIndex?_append hnodup) hfield (hdone ▸ slotsAfter_next f done fs) h.reads false
      (ends_members ms rest), ← hdone, slotsAfter_set]
    simpa using hmore

theorem readMembers_object (hfits : Fits fs ms cs) (hnodup : (fs.map Field.key).Nodup)
    (hfuel : ms.length < fuel) (rest : Input) :
    readMembers fs fuel true (fs.map fun _ => none)
        (encode (separated (ms.map member)) ++ closeBrace :: rest) = .ok (cs.map some, rest) := by
  obtain ⟨fuel, rfl⟩ := Nat.exists_eq_succ_of_ne_zero (Nat.ne_zero_of_lt hfuel)
  cases hfits with
  | nil =>
    change readMembers [] (fuel + 1) true [] (closeBrace :: rest) = _
    rw [readMembers, skipSpace_cons (by decide)]
    exact if_pos rfl
  | @cons f text c fs ms cs h hs =>
    have hmore := readMembers_fits hs [f] [c] fuel rfl hnodup (Nat.lt_of_succ_lt_succ hfuel) rest
    have hkey : fieldIndex? (f :: fs) f.key = some 0 := by simp [fieldIndex?, List.findIdx?_cons]
    have hmember := readMembers_member (none :: fs.map fun _ => none) fuel hkey rfl rfl h.reads true
      (ends_members ms rest)
    have hcons : ((f.key, text) :: ms).map member = member (f.key, text) :: ms.map member := rfl
    rw [hcons, separated_cons, encode_append, List.append_assoc]
    exact hmember.trans hmore

theorem fillSlots_some (hfits : Fits fs ms cs) : fillSlots fs (cs.map some) = .ok cs := by
  induction hfits with
  | nil => rfl
  | cons h hs ih =>
    simp only [List.map_cons, fillSlots, List.head?_cons, Option.join_some, Option.some_or,
      List.tail_cons, ih]
    rfl

theorem encode_writeObject (ms : List (String × List Char)) (rest : Input) :
    encode (writeObject ms) ++ rest =
      openBrace :: (encode (separated (ms.map member)) ++ closeBrace :: rest) := by
  have hsplit : writeObject ms =
      [Char.ofNat 0x7B] ++ separated (ms.map member) ++ [Char.ofNat 0x7D] := rfl
  rw [hsplit, encode_append, encode_append, List.append_assoc, List.append_assoc]
  rfl

theorem reads_record {r : Record α} {a : α} (hfits : Fits r.fields ms cs)
    (hnodup : (r.fields.map Field.key).Nodup) (hbuild : r.build cs = some a) :
    Reads r.read (writeObject ms) a := by
  intro rest _
  have hlen : ms.length < (encode (separated (ms.map member)) ++ closeBrace :: rest).length + 1 := by
    have hparts := length_le_encode_separated (ms.map member) fun p hp => by
      obtain ⟨m, -, rfl⟩ := List.mem_map.1 hp
      exact List.cons_ne_nil _ _
    rw [List.length_map] at hparts
    rw [List.length_append]
    omega
  have hmembers := readMembers_object hfits hnodup hlen rest
  rw [encode_writeObject]
  simp only [Record.read, valueStart_cons (b := openBrace) (by decide), bind, Except.bind,
    if_neg (show openBrace ≠ openBracket by decide), if_true, hmembers, fillSlots_some hfits,
    Record.make, hbuild]
  rfl

/-! ## Arrays -/

section
variable {read : Reader α} {write : α → List Char}

theorem nextElement_lead (hstart : text.head? = some (Char.ofNat 0x7B)) (first : Bool)
    (rest : Input) :
    nextElement first (lead first ++ (encode text ++ rest)) = .ok (some (encode text ++ rest)) := by
  obtain ⟨s, rfl⟩ := List.head?_eq_some_iff.1 hstart
  cases first <;> rfl

theorem nextElement_bracket (first : Bool) (rest : Input) :
    nextElement first (closeBracket :: rest) = .ok none := by
  cases first <;> rfl

theorem arrayEnd_bracket (rest : Input) : arrayEnd (closeBracket :: rest) = .ok rest := rfl

theorem readElements_bracket (read : Reader α) (fuel : Nat) (first : Bool) (rest : Input) :
    readElements read (fuel + 1) first (closeBracket :: rest) = .ok ([], rest) := by
  simp only [readElements, nextElement_bracket, arrayEnd_bracket, bind, Except.bind, Except.map]

theorem readElements_element {x : α} {xs : List α} {left : Input} (h : Reads read text x)
    (hstart : text.head? = some (Char.ofNat 0x7B)) (first : Bool) (hrest : Ends rest)
    (hmore : readElements read fuel false rest = .ok (xs, left)) :
    readElements read (fuel + 1) first (lead first ++ (encode text ++ rest)) =
      .ok (x :: xs, left) := by
  simp only [readElements, nextElement_lead hstart, h rest hrest, hmore, bind, Except.bind]
  rfl

theorem ends_elements (ps : List (List Char)) (rest : Input) :
    Ends (encode (ps.flatMap (',' :: ·)) ++ closeBracket :: rest) := by
  cases ps with
  | nil => exact ends_cons (.inr (.inl rfl)) rest
  | cons p ps => exact ends_cons (.inl rfl) _

theorem readElements_rest (hread : ∀ x, Reads read (write x) x)
    (hstart : ∀ x, (write x).head? = some (Char.ofNat 0x7B)) (xs : List α) (fuel : Nat)
    (hfuel : xs.length < fuel) (rest : Input) :
    readElements read fuel false (encode ((xs.map write).flatMap (',' :: ·)) ++ closeBracket :: rest) =
      .ok (xs, rest) := by
  obtain ⟨fuel, rfl⟩ := Nat.exists_eq_succ_of_ne_zero (Nat.ne_zero_of_lt hfuel)
  induction xs generalizing fuel with
  | nil => exact readElements_bracket read fuel false rest
  | cons x xs ih =>
    obtain ⟨fuel, rfl⟩ :=
      Nat.exists_eq_succ_of_ne_zero (Nat.ne_zero_of_lt (Nat.lt_of_succ_lt_succ hfuel))
    have hmore := ih fuel (Nat.lt_of_succ_lt_succ hfuel)
    have hsplit : encode (((x :: xs).map write).flatMap (',' :: ·)) ++ closeBracket :: rest =
        lead false ++ (encode (write x) ++
          (encode ((xs.map write).flatMap (',' :: ·)) ++ closeBracket :: rest)) := by
      rw [List.map_cons, List.flatMap_cons, encode_append, List.append_assoc]
      rfl
    rw [hsplit]
    exact readElements_element (hread x) (hstart x) false (ends_elements _ rest) hmore

theorem readElements_array (hread : ∀ x, Reads read (write x) x)
    (hstart : ∀ x, (write x).head? = some (Char.ofNat 0x7B)) (xs : List α) (fuel : Nat)
    (hfuel : xs.length < fuel) (rest : Input) :
    readElements read fuel true (encode (separated (xs.map write)) ++ closeBracket :: rest) =
      .ok (xs, rest) := by
  obtain ⟨fuel, rfl⟩ := Nat.exists_eq_succ_of_ne_zero (Nat.ne_zero_of_lt hfuel)
  cases xs with
  | nil => exact readElements_bracket read fuel true rest
  | cons x xs =>
    have hmore := readElements_rest hread hstart xs fuel (Nat.lt_of_succ_lt_succ hfuel) rest
    rw [List.map_cons, separated_cons, encode_append, List.append_assoc]
    exact readElements_element (hread x) (hstart x) true (ends_elements _ rest) hmore

theorem encode_writeArray (ps : List (List Char)) (rest : Input) :
    encode (writeArray ps) ++ rest =
      openBracket :: (encode (separated ps) ++ closeBracket :: rest) := by
  have hsplit : writeArray ps = ['['] ++ separated ps ++ [']'] := rfl
  rw [hsplit, encode_append, encode_append, List.append_assoc, List.append_assoc]
  rfl

theorem reads_list (hread : ∀ x, Reads read (write x) x)
    (hstart : ∀ x, (write x).head? = some (Char.ofNat 0x7B)) (xs : List α) :
    Reads (readList read) (writeArray (xs.map write)) xs := by
  intro rest _
  have hlen : xs.length < (encode (separated (xs.map write)) ++ closeBracket :: rest).length + 1 := by
    have hparts := length_le_encode_separated (xs.map write) fun p hp => by
      obtain ⟨x, -, rfl⟩ := List.mem_map.1 hp
      intro hnil
      have hx := hstart x
      rw [hnil] at hx
      cases hx
    rw [List.length_map] at hparts
    rw [List.length_append]
    omega
  rw [encode_writeArray]
  simp only [readList, valueStart_cons (b := openBracket) (by decide), bind, Except.bind, if_true]
  exact readElements_array hread hstart xs _ hlen rest

end

end OrderDesk.Wire
