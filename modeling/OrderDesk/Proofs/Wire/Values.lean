import OrderDesk.Proofs.Text.Decimal
import OrderDesk.Proofs.Time.Rfc3339
import OrderDesk.Proofs.Wire.Strings
import OrderDesk.Wire.Record

/-!
Plain values read back as they were written: texts, integers, moments and names. After a value in an
array or an object there is white space, a comma or a closing mark, and that is where its reader
stops.
-/

namespace OrderDesk.Wire

open Text.Utf8 (encode encodeChar encode_append)

def Ends (rest : Input) : Prop :=
  ∀ b ∈ rest.head?, isSpace b = true ∨ b = comma ∨ b = closeBracket ∨ b = closeBrace

def Reads {α : Type} (read : Reader α) (text : List Char) (a : α) : Prop :=
  ∀ rest, Ends rest → read (encode text ++ rest) = .ok (a, rest)

variable {α β : Type} {text : List Char} {a : α} {b : UInt8} {bs rest : Input}

theorem ends_nil : Ends [] := by
  intro b hb
  cases hb

theorem ends_cons (h : b = comma ∨ b = closeBracket ∨ b = closeBrace) (rest : Input) :
    Ends (b :: rest) := by
  intro c hc
  obtain rfl := Option.some.inj hc
  exact .inr h

theorem ends_space (h : isSpace b = true) (rest : Input) : Ends (b :: rest) := by
  intro c hc
  obtain rfl := Option.some.inj hc
  exact .inl h

theorem isSpace_cases (h : isSpace b = true) : b = 0x20 ∨ b = 0x0A ∨ b = 0x0D ∨ b = 0x09 := by
  simpa [isSpace, or_assoc] using h

theorem skipSpace_cons (h : isSpace b = false) (rest : Input) : skipSpace (b :: rest) = b :: rest := by
  rw [skipSpace, List.dropWhile_cons_of_neg (by simp [h])]

theorem valueStart_cons (h : isSpace b = false) (rest : Input) :
    valueStart (b :: rest) = .ok (b, rest) := by
  rw [valueStart, skipSpace_cons h]

theorem Reads.map {read : Reader α} (h : Reads read text a) (f : α → β) :
    Reads (fun s => (read s).map fun r => (f r.1, r.2)) text (f a) := by
  intro rest hrest
  simp only [h rest hrest, Except.map]

/-! ## Strings -/

theorem encode_writeChars (s : List Char) (rest : Input) :
    encode (writeChars s) ++ rest =
      quoteMark :: (encode (s.flatMap writeChar) ++ quoteMark :: rest) := by
  have hsplit : writeChars s = ['"'] ++ s.flatMap writeChar ++ ['"'] := rfl
  rw [hsplit, encode_append, encode_append, List.append_assoc, List.append_assoc]
  rfl

theorem reads_text (s : String) : Reads readText (writeText s) s := by
  intro rest _
  rw [writeText, encode_writeChars]
  simp only [readText, valueStart_cons (b := quoteMark) (by decide), bind, Except.bind, if_true,
    stringRest_writeChars, String.ofList_toList]

theorem reads_moment (t : Moment) : Reads readMoment (writeMoment t) t := by
  intro rest _
  rw [writeMoment, encode_writeChars]
  simp only [readMoment, valueStart_cons (b := quoteMark) (by decide), bind, Except.bind, if_true,
    stringRest_writeChars, String.toList_ofList, Rfc3339.parse_print]
  rfl

theorem reads_named {all : List α} {name : α → String}
    (h : all.find? (fun b => name b = name a) = some a) :
    Reads (readNamed all name) (writeText (name a)) a := by
  intro rest _
  rw [writeText, encode_writeChars]
  simp only [readNamed, valueStart_cons (b := quoteMark) (by decide), bind, Except.bind, if_true,
    stringRest_writeChars, String.ofList_toList, named, h]
  rfl

/-! ## Integers -/

open Text.Decimal (ofNat ofInt digitValue value)

def digitByte (d : Char) : UInt8 := UInt8.ofNat d.toNat

theorem digitByte_spec {d : Char} (h : Text.Decimal.isDigit d = true) :
    encodeChar d = [digitByte d] ∧ isDigit (digitByte d) = true ∧
      (digitByte d).toNat - 0x30 = digitValue d ∧ (digitByte d = 0x30 → d = '0') := by
  simp only [Text.Decimal.isDigit, Bool.and_eq_true, decide_eq_true_eq] at h
  obtain ⟨hlow, hhigh⟩ := h
  have hlow : 48 ≤ d.toNat := hlow
  have hhigh : d.toNat ≤ 57 := hhigh
  have hbyte : (digitByte d).toNat = d.toNat := Text.Utf8.toNat_ofNat (by omega)
  refine ⟨Text.Utf8.encodeChar_ascii (by omega), ?_, ?_, fun hzero => ?_⟩
  · simp only [isDigit, Bool.and_eq_true, decide_eq_true_eq, UInt8.le_iff_toNat_le, hbyte]
    exact ⟨hlow, hhigh⟩
  · rw [hbyte]
    rfl
  · have hd : d.toNat = 48 := by
      rw [← hbyte, hzero]
      rfl
    rw [← Char.ofNat_toNat d, hd]

theorem ascii_of_isDigit {d : Char} (h : Text.Decimal.isDigit d = true) : d.toNat < 0x80 := by
  simp only [Text.Decimal.isDigit, Bool.and_eq_true, decide_eq_true_eq] at h
  have hhigh : d.toNat ≤ 57 := h.2
  omega

theorem encode_digits {ds : List Char} (h : ∀ d ∈ ds, Text.Decimal.isDigit d = true) :
    encode ds = ds.map digitByte := Text.Utf8.encode_ascii fun d hd => ascii_of_isDigit (h d hd)

def extend (n : Nat) (ds : List Char) : Nat := ds.foldl (fun n d => 10 * n + digitValue d) n

theorem le_extend (n : Nat) (ds : List Char) : n ≤ extend n ds := by
  induction ds generalizing n with
  | nil => exact le_rfl
  | cons d ds ih =>
    have hstep : n ≤ 10 * n + digitValue d := by omega
    exact hstep.trans (ih _)

theorem absorb_digits {ds : List Char} (h : ∀ d ∈ ds, Text.Decimal.isDigit d = true) {n : Nat}
    (hn : extend n ds ≤ mostWord) : absorb n (ds.map digitByte) = (extend n ds, ds.length) := by
  induction ds generalizing n with
  | nil => rfl
  | cons d ds ih =>
    have hd := (digitByte_spec (h d List.mem_cons_self)).2.2.1
    have hmore := ih (fun e he => h e (List.mem_cons_of_mem _ he)) hn
    have hfits : 10 * n + digitValue d ≤ mostWord := (le_extend _ ds).trans hn
    simp only [List.map_cons, absorb, hd, if_pos hfits, hmore]
    rfl

theorem not_isDigit_of_ends (h : Ends (b :: rest)) :
    isDigit b = false ∧ b ≠ point ∧ isExponentMark b = false := by
  rcases h b rfl with h | rfl | rfl | rfl
  · rcases isSpace_cases h with rfl | rfl | rfl | rfl <;> decide
  all_goals decide

theorem takeWhile_digits {ds : List Char} (h : ∀ d ∈ ds, Text.Decimal.isDigit d = true)
    (hrest : Ends rest) :
    (ds.map digitByte ++ rest).takeWhile isDigit = ds.map digitByte ∧
      (ds.map digitByte ++ rest).dropWhile isDigit = rest := by
  have hd : ∀ b ∈ ds.map digitByte, isDigit b = true := by
    intro b hb
    obtain ⟨d, hd, rfl⟩ := List.mem_map.1 hb
    exact (digitByte_spec (h d hd)).2.1
  rw [List.takeWhile_append_of_pos hd, List.dropWhile_append_of_pos hd]
  cases rest with
  | nil => exact ⟨List.append_nil _, rfl⟩
  | cons b rest =>
    have hb := (not_isDigit_of_ends hrest).1
    rw [List.takeWhile_cons_of_neg (by simp [hb]), List.dropWhile_cons_of_neg (by simp [hb])]
    exact ⟨List.append_nil _, rfl⟩

theorem integerRest_ends (negative : Bool) (n : Nat) (hrest : Ends rest) :
    integerRest negative n 0 rest = .ok (wholeNumeral negative n, rest) := by
  cases rest with
  | nil => rfl
  | cons b rest =>
    obtain ⟨-, hpoint, hmark⟩ := not_isDigit_of_ends hrest
    simp only [integerRest, if_neg hpoint, hmark]
    rfl

theorem numeralRest_ofNat {n : Nat} (hn : n ≤ mostWord) (negative : Bool) (hrest : Ends rest) :
    numeralRest negative (encode (ofNat n) ++ rest) = .ok (wholeNumeral negative n, rest) := by
  have hd : ∀ d ∈ ofNat n, Text.Decimal.isDigit d = true := fun d =>
    Text.Decimal.isDigit_of_mem_ofNat
  obtain ⟨htake, hdrop⟩ := takeWhile_digits hd hrest
  have habsorb := absorb_digits hd (n := 0) ((Text.Decimal.value_ofNat n).trans_le hn)
  have hzero : extend 0 (ofNat n) = n := Text.Decimal.value_ofNat n
  rw [hzero] at habsorb
  rw [encode_digits hd]
  cases hds : ofNat n with
  | nil => exact absurd hds (Text.Decimal.ofNat_ne_nil n)
  | cons d ds =>
    rw [hds] at htake hdrop habsorb hd
    obtain ⟨-, hfirst, -, hlead⟩ := digitByte_spec (hd d List.mem_cons_self)
    -- only zero starts with a zero, and there the zero stands alone
    have halone : ¬ (digitByte d = 0x30 ∧ ((d :: ds).map digitByte).length ≠ 1) := by
      rintro ⟨hd0, hlen⟩
      obtain rfl := hlead hd0
      obtain ⟨-, rfl⟩ := Text.Decimal.eq_zero_of_ofNat hds
      exact hlen rfl
    have hused : ((d :: ds).map digitByte).length - (d :: ds).length = 0 := by simp
    rw [← integerRest_ends negative n hrest, ← hused]
    change (if !isDigit (digitByte d) then _ else _) = _
    rw [hfirst]
    change (if digitByte d = 0x30 ∧
      (((d :: ds).map digitByte ++ rest).takeWhile isDigit).length ≠ 1 then _ else _) = _
    rw [htake, if_neg halone, habsorb, hdrop]

theorem integerOf_wholeNumeral (i : Int64) :
    integerOf (wholeNumeral (decide (i.toInt < 0)) i.toInt.natAbs) = .ok i := by
  have hlow := i.le_toInt
  have hhigh := i.toInt_lt
  have hword : twoTo 63 = 9223372036854775808 := rfl
  have hself : wholeNumeral (decide (i.toInt < 0)) i.toInt.natAbs = .integer i.toInt := by
    by_cases h : i.toInt < 0
    · have habs : -(i.toInt.natAbs : Int) = i.toInt := by omega
      have hword : 0 < i.toInt.natAbs ∧ i.toInt.natAbs ≤ twoTo 63 := by omega
      rw [decide_eq_true h, wholeNumeral, if_neg (by decide), if_pos hword, habs]
    · have habs : (i.toInt.natAbs : Int) = i.toInt := by omega
      rw [decide_eq_false h, wholeNumeral, if_pos (by decide), habs]
  have hfits : i.toInt < twoTo 63 := by omega
  rw [hself, integerOf, if_pos hfits, Int64.ofInt_toInt]

theorem encode_ofInt (i : Int) (rest : Input) :
    encode (ofInt i) ++ rest =
      if i < 0 then minusSign :: (encode (ofNat i.natAbs) ++ rest)
      else encode (ofNat i.natAbs) ++ rest := by
  unfold ofInt
  split <;> rfl

theorem exists_cons_of_encode_ofNat (n : Nat) (rest : Input) :
    ∃ b bs, encode (ofNat n) ++ rest = b :: bs ∧ isDigit b = true := by
  have hd : ∀ d ∈ ofNat n, Text.Decimal.isDigit d = true := fun d =>
    Text.Decimal.isDigit_of_mem_ofNat
  obtain ⟨d, ds, hds⟩ := List.exists_cons_of_ne_nil (Text.Decimal.ofNat_ne_nil n)
  rw [encode_digits hd, hds]
  rw [hds] at hd
  exact ⟨digitByte d, _, rfl, (digitByte_spec (hd d List.mem_cons_self)).2.1⟩

theorem digit_starts (h : isDigit b = true) : isSpace b = false ∧ b ≠ minusSign := by
  have hne (x : UInt8) (hx : isDigit x = false) : b ≠ x := by
    rintro rfl
    cases hx.symm.trans h
  have hspace : isSpace b = false := by
    simp [isSpace, hne 0x20 (by decide), hne 0x0A (by decide), hne 0x0D (by decide),
      hne 0x09 (by decide)]
  exact ⟨hspace, hne minusSign (by decide)⟩

theorem numeral_ofInt (i : Int) (hi : i.natAbs ≤ mostWord) (hrest : Ends rest) :
    numeral (encode (ofInt i) ++ rest) = .ok (wholeNumeral (decide (i < 0)) i.natAbs, rest) := by
  rw [encode_ofInt]
  split
  · rename_i h
    rw [decide_eq_true h, numeral]
    exact numeralRest_ofNat hi true hrest
  · rename_i h
    have hread := numeralRest_ofNat hi false hrest
    obtain ⟨b, bs, hbs, hb⟩ := exists_cons_of_encode_ofNat i.natAbs rest
    rw [hbs] at hread ⊢
    rw [decide_eq_false h, numeral, if_neg (digit_starts hb).2, hread]

theorem exists_cons_of_encode_ofInt (i : Int) (rest : Input) :
    ∃ b bs, encode (ofInt i) ++ rest = b :: bs ∧ isSpace b = false ∧
      (b = minusSign ∨ isDigit b = true) := by
  rw [encode_ofInt]
  split
  · exact ⟨minusSign, _, rfl, by decide, .inl rfl⟩
  · obtain ⟨b, bs, hbs, hb⟩ := exists_cons_of_encode_ofNat i.natAbs rest
    exact ⟨b, bs, hbs, (digit_starts hb).1, .inr hb⟩

theorem reads_integer (i : Int64) : Reads readInteger (writeInteger i) i := by
  intro rest hrest
  have hfits : i.toInt.natAbs ≤ mostWord := by
    have hlow := i.le_toInt
    have hhigh := i.toInt_lt
    have hmost : mostWord = 18446744073709551615 := rfl
    omega
  have hread := numeral_ofInt i.toInt hfits hrest
  obtain ⟨b, bs, hbs, hspace, hb⟩ := exists_cons_of_encode_ofInt i.toInt rest
  rw [writeInteger, hbs]
  rw [hbs] at hread
  simp only [readInteger, valueStart_cons hspace, bind, Except.bind, if_pos hb, hread,
    integerOf_wholeNumeral]
  rfl

end OrderDesk.Wire
