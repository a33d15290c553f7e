import OrderDesk.Proofs.Wire.Spelling
import OrderDesk.Proofs.Wire.Values

/-!
The grammar of JSON texts, with white space between tokens and values of any depth. A value can be
skipped wherever it stands, and there is but one place where it ends.
-/

namespace OrderDesk.Wire

open Text.Utf8 (encode encodeChar encode_append)

/-! ## Texts -/

def Blank (s : List Char) : Prop := ∀ c ∈ s, c = ' ' ∨ c = '\n' ∨ c = '\r' ∨ c = '\t'

def Digits (ds : List Char) : Prop := ds ≠ [] ∧ ∀ d ∈ ds, Text.Decimal.isDigit d = true

def IsFraction (t : List Char) : Prop := t = [] ∨ ∃ ds, Digits ds ∧ t = '.' :: ds

def IsExponent (t : List Char) : Prop :=
  t = [] ∨ ∃ mark sign ds, (mark = 'e' ∨ mark = 'E') ∧ (sign = [] ∨ sign = ['+'] ∨ sign = ['-']) ∧
    Digits ds ∧ t = mark :: (sign ++ ds)

inductive IsNumber : List Char → Prop where
  | mk {sign whole fraction exponent : List Char} (hs : sign = [] ∨ sign = ['-'])
      (hw : Digits whole) (hz : whole.head? = some '0' → whole = ['0']) (hf : IsFraction fraction)
      (he : IsExponent exponent) : IsNumber (sign ++ (whole ++ (fraction ++ exponent)))

structure Element where
  before : List Char
  value : List Char
  after : List Char

structure Member extends Element where
  lead : List Char
  name : List Char
  gap : List Char

def Element.text (e : Element) : List Char := e.before ++ (e.value ++ e.after)

def Member.text (m : Member) : List Char :=
  m.lead ++ '"' :: (m.name ++ '"' :: (m.gap ++ ':' :: m.toElement.text))

structure Element.Spaced (e : Element) : Prop where
  before : Blank e.before
  after : Blank e.after

structure Member.Spaced (m : Member) : Prop extends Element.Spaced m.toElement where
  lead : Blank m.lead
  gap : Blank m.gap

/-- Parts with commas between them, or white space in their place, in brackets of some kind. -/
inductive Encloses (l r : Char) : List (List Char) → List Char → Prop where
  | blank {b : List Char} (h : Blank b) : Encloses l r [] (l :: (b ++ [r]))
  | parts (p : List Char) (ps : List (List Char)) :
      Encloses l r (p :: ps) (l :: (separated (p :: ps) ++ [r]))

structure IsArray (es : List Element) (t : List Char) : Prop where
  encloses : Encloses '[' ']' (es.map Element.text) t
  spaced : ∀ e ∈ es, e.Spaced

structure IsObject (ms : List Member) (t : List Char) : Prop where
  encloses : Encloses (Char.ofNat 0x7B) (Char.ofNat 0x7D) (ms.map Member.text) t
  spaced : ∀ m ∈ ms, m.Spaced
  named : ∀ m ∈ ms, Quotes m.name

inductive IsValue : List Char → Prop where
  | word {w : String} (h : w = "null" ∨ w = "true" ∨ w = "false") : IsValue w.toList
  | number {t : List Char} (h : IsNumber t) : IsValue t
  | string {s : List Char} (h : Quotes s) : IsValue ('"' :: (s ++ ['"']))
  | array {es : List Element} {t : List Char} (h : IsArray es t)
      (hv : ∀ e ∈ es, IsValue e.value) : IsValue t
  | object {ms : List Member} {t : List Char} (h : IsObject ms t)
      (hv : ∀ m ∈ ms, IsValue m.value) : IsValue t

variable {s t u v r rest : Input} {b c : UInt8} {w : List Char}

/-! ## White space -/

theorem skipSpace_blank (h : Blank w) (s : Input) : skipSpace (encode w ++ s) = skipSpace s := by
  induction w with
  | nil => rfl
  | cons c w ih =>
    have hmore := ih fun d hd => h d (List.mem_cons_of_mem c hd)
    rw [encode_cons, List.append_assoc]
    rcases h c List.mem_cons_self with rfl | rfl | rfl | rfl <;> exact hmore

theorem skipSpace_idem (s : Input) : skipSpace (skipSpace s) = skipSpace s := by
  induction s with
  | nil => rfl
  | cons b s ih =>
    cases hb : isSpace b with
    | true =>
      have hstep : skipSpace (b :: s) = skipSpace s := List.dropWhile_cons_of_pos hb
      rw [hstep, ih]
    | false => rw [skipSpace_cons hb, skipSpace_cons hb]

theorem ends_blank (h : Blank w) (hs : Ends s) : Ends (encode w ++ s) := by
  cases w with
  | nil => exact hs
  | cons c w =>
    rw [encode_cons, List.append_assoc]
    rcases h c List.mem_cons_self with rfl | rfl | rfl | rfl <;> exact ends_space (by decide) _

theorem length_skipSpace_le (s : Input) : (skipSpace s).length ≤ s.length :=
  (List.dropWhile_suffix _).length_le

theorem length_lt_of_skipSpace (h : skipSpace s = b :: t) : t.length < s.length := by
  have hle := length_skipSpace_le s
  rw [h] at hle
  exact hle

/-! ## Where a value ends -/

inductive Kind where
  | value
  | elements
  | members

def NameSpans (s t : Input) : Prop :=
  ∃ u v, skipSpace s = quoteMark :: u ∧ skipString u = .ok v ∧ colonRest v = .ok t

inductive Spans : Kind → Input → Input → Prop where
  | word {b : UInt8} {bs s t r : Input}
      (hb : b = letterN ∧ bs = nullRest ∨ b = letterT ∧ bs = trueRest ∨
        b = letterF ∧ bs = falseRest)
      (hs : skipSpace s = b :: t) (h : expectBytes bs t = .ok r) : Spans .value s r
  | negative {s t r : Input} (hs : skipSpace s = minusSign :: t) (h : skipNumeral t = .ok r) :
      Spans .value s r
  | positive {b : UInt8} {s t r : Input} (hs : skipSpace s = b :: t) (hb : isDigit b = true)
      (h : skipNumeral (b :: t) = .ok r) : Spans .value s r
  | string {s t r : Input} (hs : skipSpace s = quoteMark :: t) (h : skipString t = .ok r) :
      Spans .value s r
  | emptyArray {s t r : Input} (hs : skipSpace s = openBracket :: t)
      (ht : skipSpace t = closeBracket :: r) : Spans .value s r
  | array {s t r : Input} (hs : skipSpace s = openBracket :: t) (h : Spans .elements t r) :
      Spans .value s r
  | emptyObject {s t r : Input} (hs : skipSpace s = openBrace :: t)
      (ht : skipSpace t = closeBrace :: r) : Spans .value s r
  | object {s t r : Input} (hs : skipSpace s = openBrace :: t) (h : Spans .members t r) :
      Spans .value s r
  | lastElement {s t r : Input} (h : Spans .value s t) (ht : skipSpace t = closeBracket :: r) :
      Spans .elements s r
  | nextElement {s t u r : Input} (h : Spans .value s t) (ht : skipSpace t = comma :: u)
      (hu : Spans .elements u r) : Spans .elements s r
  | lastMember {s t u r : Input} (hs : NameSpans s t) (h : Spans .value t u)
      (hu : skipSpace u = closeBrace :: r) : Spans .members s r
  | nextMember {s t u v r : Input} (hs : NameSpans s t) (h : Spans .value t u)
      (hu : skipSpace u = comma :: v) (hv : Spans .members v r) : Spans .members s r

theorem length_expectBytes_le {es : List UInt8} (h : expectBytes es s = .ok r) :
    r.length ≤ s.length := by
  induction es generalizing s with
  | nil =>
    cases h
    exact Nat.le_refl _
  | cons e es ih =>
    cases s with
    | nil => cases h
    | cons b s =>
      simp only [expectBytes] at h
      split_ifs at h
      exact (ih h).trans (Nat.le_succ _)

theorem length_scanString_lt {step : StringState → UInt8 → StringStep} {q : StringState}
    {bs : Input} (h : scanString step q s = .ok (bs, r)) : r.length < s.length := by
  induction s generalizing q bs with
  | nil => cases h
  | cons b s ih =>
    cases hstep : step q b with
    | finish =>
      simp only [scanString, hstep] at h
      cases h
      exact Nat.lt_succ_self _
    | refuse =>
      simp only [scanString, hstep] at h
      cases h
    | go out p =>
      rw [scanString_go hstep] at h
      obtain ⟨⟨more, left⟩, hmore, heq⟩ := exists_of_map h
      cases heq
      exact Nat.lt_succ_of_lt (ih hmore)

theorem length_skipString_lt (h : skipString s = .ok r) : r.length < s.length := by
  obtain ⟨⟨bs, left⟩, hscan, rfl⟩ := exists_of_map h
  exact length_scanString_lt hscan

theorem length_skipDigits_lt (h : skipDigits s = .ok r) : r.length < s.length := by
  cases s with
  | nil => cases h
  | cons b s =>
    simp only [skipDigits] at h
    split_ifs at h with hb
    cases h
    rw [List.dropWhile_cons_of_pos hb]
    exact Nat.lt_succ_of_le (List.dropWhile_suffix _).length_le

theorem length_exponentSign_le (s : Input) : (exponentSign s).2.length ≤ s.length := by
  cases s with
  | nil => exact Nat.le_refl _
  | cons b s =>
    simp only [exponentSign]
    split_ifs
    · exact Nat.le_succ _
    · exact Nat.le_succ _
    · exact Nat.le_refl _

theorem length_skipExponent_le (h : skipExponent s = .ok r) : r.length ≤ s.length := by
  cases s with
  | nil =>
    cases h
    exact Nat.le_refl _
  | cons b s =>
    simp only [skipExponent] at h
    split_ifs at h
    · have hdigits := length_skipDigits_lt h
      have hsign := length_exponentSign_le s
      rw [List.length_cons]
      omega
    · cases h
      exact Nat.le_refl _

theorem length_skipFraction_le (h : skipFraction s = .ok r) : r.length ≤ s.length := by
  cases s with
  | nil =>
    cases h
    exact Nat.le_refl _
  | cons b s =>
    simp only [skipFraction] at h
    split_ifs at h
    · obtain ⟨t, ht, h⟩ := exists_of_bind h
      have hdigits := length_skipDigits_lt ht
      have hexponent := length_skipExponent_le h
      rw [List.length_cons]
      omega
    · exact length_skipExponent_le h

theorem skipNumeral_cases (h : skipNumeral s = .ok r) :
    ∃ t, skipDigits s = .ok t ∧ ¬ (s.head? = some 0x30 ∧ s.length - t.length ≠ 1) ∧
      skipFraction t = .ok r := by
  obtain ⟨t, ht, h⟩ := exists_of_bind h
  split_ifs at h with hzero
  · cases h
  · exact ⟨t, ht, hzero, h⟩

theorem length_skipNumeral_lt (h : skipNumeral s = .ok r) : r.length < s.length := by
  obtain ⟨t, ht, -, h⟩ := skipNumeral_cases h
  exact (length_skipFraction_le h).trans_lt (length_skipDigits_lt ht)

theorem length_nameSpans_lt (h : NameSpans s t) : t.length < s.length := by
  obtain ⟨u, v, hs, hu, hv⟩ := h
  have hname := length_skipString_lt hu
  have hquote := length_lt_of_skipSpace hs
  have hcolon : t.length < v.length := by
    unfold colonRest at hv
    split at hv
    · cases hv
    · rename_i b rest hskip
      split_ifs at hv
      cases hv
      exact length_lt_of_skipSpace hskip
  omega

namespace Kind

def fuel : Kind → Input → Nat
  | value, s => 2 * s.length
  | elements, s => 2 * s.length + 1
  | members, s => 2 * s.length + 1

def skip : Kind → Nat → Input → Except Fault Input
  | value => skipValue
  | elements => skipElements
  | members => skipMembers

end Kind

theorem Spans.length_lt {k : Kind} (h : Spans k s r) : r.length < s.length := by
  induction h with
  | word _ hs h => exact (length_expectBytes_le h).trans_lt (length_lt_of_skipSpace hs)
  | negative hs h => exact (length_skipNumeral_lt h).trans (length_lt_of_skipSpace hs)
  | @positive b s t r hs _ h =>
    have hle := length_skipSpace_le s
    rw [hs] at hle
    exact (length_skipNumeral_lt h).trans_le hle
  | string hs h => exact (length_skipString_lt h).trans (length_lt_of_skipSpace hs)
  | emptyArray hs ht | emptyObject hs ht =>
    exact (length_lt_of_skipSpace ht).trans (length_lt_of_skipSpace hs)
  | array hs _ ih | object hs _ ih => exact ih.trans (length_lt_of_skipSpace hs)
  | lastElement _ ht ih => exact (length_lt_of_skipSpace ht).trans ih
  | nextElement _ ht _ ih ihu => exact (ihu.trans (length_lt_of_skipSpace ht)).trans ih
  | lastMember hs _ hu ih =>
    exact (length_lt_of_skipSpace hu).trans (ih.trans (length_nameSpans_lt hs))
  | nextMember hs _ hu _ ih ihv =>
    exact (ihv.trans (length_lt_of_skipSpace hu)).trans (ih.trans (length_nameSpans_lt hs))

theorem skipValue_skipSpace (n : Nat) (s : Input) : skipValue n (skipSpace s) = skipValue n s := by
  cases n with
  | zero => rfl
  | succ n => simp only [skipValue, skipSpace_idem]

theorem skipElements_skipSpace (n : Nat) (s : Input) :
    skipElements n (skipSpace s) = skipElements n s := by
  cases n with
  | zero => rfl
  | succ n => simp only [skipElements, skipValue_skipSpace]

theorem skipMembers_skipSpace (n : Nat) (s : Input) :
    skipMembers n (skipSpace s) = skipMembers n s := by
  cases n with
  | zero => rfl
  | succ n => simp only [skipMembers, skipSpace_idem]

def Kind.Starts : Kind → UInt8 → Prop
  | .value, b | .elements, b => b ≠ closeBracket
  | .members, b => b = quoteMark

theorem Spans.starts {k : Kind} (h : Spans k s r) : ∃ b t, skipSpace s = b :: t ∧ k.Starts b := by
  have hne {b : UInt8} (hb : b ≠ closeBracket) : Kind.Starts .value b := hb
  induction h with
  | word hb hs _ =>
    refine ⟨_, _, hs, hne ?_⟩
    rcases hb with ⟨rfl, -⟩ | ⟨rfl, -⟩ | ⟨rfl, -⟩ <;> decide
  | positive hs hb _ =>
    refine ⟨_, _, hs, hne ?_⟩
    rintro rfl
    cases hb
  | negative hs _ | string hs _ | emptyArray hs _ | array hs _ | emptyObject hs _ | object hs _ =>
    exact ⟨_, _, hs, hne (by decide)⟩
  | lastElement _ _ ih | nextElement _ _ _ ih => exact ih
  | lastMember hs _ _ | nextMember hs _ _ _ =>
    obtain ⟨u, v, hs, -, -⟩ := hs
    exact ⟨_, _, hs, rfl⟩

theorem skipElements_last {n : Nat} (h : skipValue n s = .ok t)
    (ht : skipSpace t = closeBracket :: r) : skipElements (n + 1) s = .ok r := by
  simp only [skipElements, h, bind, Except.bind, ht]
  rfl

theorem skipElements_next {n : Nat} (h : skipValue n s = .ok t) (ht : skipSpace t = comma :: u) :
    skipElements (n + 1) s = skipElements n u := by
  simp only [skipElements, h, bind, Except.bind, ht, if_true]

theorem skipMembers_last {n : Nat} (hs : NameSpans s t) (h : skipValue n t = .ok u)
    (hu : skipSpace u = closeBrace :: r) : skipMembers (n + 1) s = .ok r := by
  obtain ⟨v, w, hs, hv, hw⟩ := hs
  simp only [skipMembers, hs, ne_eq, not_true, if_false, hv, hw, h, bind, Except.bind, hu]
  rfl

theorem skipMembers_next {n : Nat} (hs : NameSpans s t) (h : skipValue n t = .ok u)
    (hu : skipSpace u = comma :: v) : skipMembers (n + 1) s = skipMembers n v := by
  obtain ⟨w, x, hs, hw, hx⟩ := hs
  simp only [skipMembers, hs, ne_eq, not_true, if_false, hw, hx, h, bind, Except.bind, hu, if_true]

theorem skipValue_array {n : Nat} (hs : skipSpace s = openBracket :: t) (h : Spans .elements t r)
    (hskip : skipElements n t = .ok r) : skipValue (n + 1) s = .ok r := by
  obtain ⟨c, after, hstart, hc⟩ := h.starts
  have hne : c ≠ closeBracket := hc
  rw [← skipElements_skipSpace, hstart] at hskip
  simp only [skipValue, hs, hstart, if_neg hne, hskip]
  rfl

theorem skipValue_object {n : Nat} (hs : skipSpace s = openBrace :: t) (h : Spans .members t r)
    (hskip : skipMembers n t = .ok r) : skipValue (n + 1) s = .ok r := by
  obtain ⟨c, after, hstart, rfl⟩ := h.starts
  rw [← skipMembers_skipSpace, hstart] at hskip
  simp only [skipValue, hs, hstart, hskip]
  rfl

theorem Kind.fuel_le {k l : Kind} {n : Nat} (hlen : t.length < s.length) (hn : k.fuel s ≤ n + 1) :
    l.fuel t ≤ n := by
  cases k <;> cases l <;> simp only [fuel] at hn ⊢ <;> omega

theorem Spans.of_succ {k : Kind} (h : Spans k s r)
    (hskip : ∀ n, k.fuel s ≤ n + 1 → k.skip (n + 1) s = .ok r) {n : Nat} (hn : k.fuel s ≤ n) :
    k.skip n s = .ok r := by
  have hlen := h.length_lt
  cases n with
  | zero => cases k <;> simp only [Kind.fuel] at hn <;> omega
  | succ n => exact hskip n hn

theorem digit_ne (h : isDigit b = true) : b ≠ letterN ∧ b ≠ letterT ∧ b ≠ letterF ∧
    b ≠ minusSign ∧ b ≠ quoteMark ∧ b ≠ openBracket ∧ b ≠ openBrace := by
  refine ⟨?_, ?_, ?_, ?_, ?_, ?_, ?_⟩ <;> rintro rfl <;> cases h

theorem Spans.skip {k : Kind} (h : Spans k s r) (n : Nat) (hn : k.fuel s ≤ n + 1) :
    k.skip (n + 1) s = .ok r := by
  induction h generalizing n with
  | @word b bs s t r hb hs h =>
    simp only [Kind.skip, skipValue, hs]
    rcases hb with ⟨rfl, rfl⟩ | ⟨rfl, rfl⟩ | ⟨rfl, rfl⟩ <;> exact h
  | negative hs h =>
    simp only [Kind.skip, skipValue, hs]
    exact h
  | positive hs hb h =>
    obtain ⟨hn, ht, hf, hminus, -⟩ := digit_ne hb
    simp only [Kind.skip, skipValue, hs, if_neg hn, if_neg ht, if_neg hf, if_neg hminus, hb, if_true]
    exact h
  | string hs h =>
    simp only [Kind.skip, skipValue, hs]
    exact h
  | emptyArray hs ht | emptyObject hs ht =>
    simp only [Kind.skip, skipValue, hs, ht]
    rfl
  -- what stands inside is further on, so its fuel is left after one call
  | array hs h ih =>
    exact skipValue_array hs h (h.of_succ ih (Kind.fuel_le (length_lt_of_skipSpace hs) hn))
  | object hs h ih =>
    exact skipValue_object hs h (h.of_succ ih (Kind.fuel_le (length_lt_of_skipSpace hs) hn))
  | lastElement h ht ih => exact skipElements_last (h.of_succ ih (Nat.le_of_succ_le_succ hn)) ht
  | nextElement h ht hu ih ihu =>
    have hvalue := h.of_succ ih (Nat.le_of_succ_le_succ hn)
    have hmore := hu.of_succ ihu (Kind.fuel_le ((length_lt_of_skipSpace ht).trans h.length_lt) hn)
    exact (skipElements_next hvalue ht).trans hmore
  | lastMember hs h hu ih =>
    exact skipMembers_last hs (h.of_succ ih (Kind.fuel_le (length_nameSpans_lt hs) hn)) hu
  | nextMember hs h hu hv ih ihv =>
    have hname := length_nameSpans_lt hs
    have hcomma := (length_lt_of_skipSpace hu).trans h.length_lt
    have hvalue := h.of_succ ih (Kind.fuel_le hname hn)
    have hmore := hv.of_succ ihv (Kind.fuel_le (hcomma.trans hname) hn)
    exact (skipMembers_next hs hvalue hu).trans hmore

theorem Spans.skip_eq (h : Spans .value s r) : Wire.skip s = .ok r :=
  h.of_succ h.skip (Nat.le_add_right _ 2)

theorem Spans.unique (h : Spans .value s r) (h' : Spans .value s t) : r = t :=
  Except.ok.inj (h.skip_eq.symm.trans h'.skip_eq)

theorem Spans.of_skipSpace {k : Kind} (h : Spans k s r) (hs : skipSpace s = skipSpace t) :
    Spans k t r := by
  have hname {u : Input} (hu : NameSpans s u) : NameSpans t u := by
    obtain ⟨v, w, hv, hw⟩ := hu
    exact ⟨v, w, hs ▸ hv, hw⟩
  induction h with
  | word hb h hw => exact .word hb (hs ▸ h) hw
  | negative h hn => exact .negative (hs ▸ h) hn
  | positive h hb hn => exact .positive (hs ▸ h) hb hn
  | string h hq => exact .string (hs ▸ h) hq
  | emptyArray h ht => exact .emptyArray (hs ▸ h) ht
  | array h he => exact .array (hs ▸ h) he
  | emptyObject h ht => exact .emptyObject (hs ▸ h) ht
  | object h hm => exact .object (hs ▸ h) hm
  | lastElement _ ht ih => exact .lastElement (ih hs hname) ht
  | nextElement _ ht hu ih => exact .nextElement (ih hs hname) ht hu
  | lastMember hn h hu => exact .lastMember (hname hn) h hu
  | nextMember hn h hu hv => exact .nextMember (hname hn) h hu hv

/-! ## Numbers -/

variable {ds : List Char}

def Stops (s : Input) : Prop := ∀ b ∈ s.head?, isDigit b = false

theorem stops_of_ends (h : Ends rest) : Stops rest := by
  cases rest with
  | nil => exact fun b hb => absurd hb (Option.not_mem_none b)
  | cons b rest =>
    intro c hc
    obtain rfl := Option.some.inj hc
    exact (not_isDigit_of_ends h).1

theorem exists_digit (h : Digits ds) (s : Input) :
    ∃ b t, encode ds ++ s = b :: t ∧ isDigit b = true ∧ (b = 0x30 → ds.head? = some '0') := by
  obtain ⟨d, ds', rfl⟩ := List.exists_cons_of_ne_nil h.1
  have hd := digitByte_spec (h.2 d List.mem_cons_self)
  rw [encode_cons, hd.1]
  exact ⟨digitByte d, _, rfl, hd.2.1, fun hzero => congrArg some (hd.2.2.2 hzero)⟩

theorem skipDigits_digits (h : Digits ds) (hs : Stops s) : skipDigits (encode ds ++ s) = .ok s := by
  obtain ⟨b, t, hbytes, hb, -⟩ := exists_digit h s
  have hall : ∀ b ∈ encode ds, isDigit b = true := by
    rw [encode_digits h.2]
    intro b hb
    obtain ⟨d, hd, rfl⟩ := List.mem_map.1 hb
    exact (digitByte_spec (h.2 d hd)).2.1
  have hdrop : (encode ds ++ s).dropWhile isDigit = s := by
    rw [List.dropWhile_append_of_pos hall]
    cases s with
    | nil => rfl
    | cons c s => exact List.dropWhile_cons_of_neg (by simp [hs c rfl])
  rw [hbytes] at hdrop ⊢
  simp only [skipDigits, hb, if_true, hdrop]

theorem skipExponent_ends (h : Ends s) : skipExponent s = .ok s := by
  cases s with
  | nil => rfl
  | cons b s =>
    obtain ⟨-, -, hmark⟩ := not_isDigit_of_ends h
    simp only [skipExponent, hmark, Bool.false_eq_true, if_false]

theorem skipExponent_exponent (h : IsExponent w) (hs : Ends s) :
    skipExponent (encode w ++ s) = .ok s := by
  rcases h with rfl | ⟨mark, sign, ds, hmark, hsign, hds, rfl⟩
  · exact skipExponent_ends hs
  have hdigits := skipDigits_digits hds (stops_of_ends hs)
  have hbytes : encode (mark :: (sign ++ ds)) ++ s =
      UInt8.ofNat mark.toNat :: (encode sign ++ (encode ds ++ s)) := by
    rw [encode_cons, encode_append, List.append_assoc, List.append_assoc]
    rcases hmark with rfl | rfl <;> rfl
  have hmark : isExponentMark (UInt8.ofNat mark.toNat) = true := by
    rcases hmark with rfl | rfl <;> rfl
  have hafter : (exponentSign (encode sign ++ (encode ds ++ s))).2 = encode ds ++ s := by
    rcases hsign with rfl | rfl | rfl
    · obtain ⟨b, t, hb, hdigit, -⟩ := exists_digit hds s
      have hplus : b ≠ plusSign := by
        rintro rfl
        cases hdigit
      change (exponentSign (encode ds ++ s)).2 = _
      rw [hb]
      simp only [exponentSign, if_neg hplus, if_neg (digit_ne hdigit).2.2.2.1]
    · rfl
    · rfl
  rw [hbytes]
  simp only [skipExponent, hmark, if_true, hafter, hdigits]

theorem exponent_head (h : IsExponent w) (hs : Ends s) :
    ∀ b ∈ (encode w ++ s).head?, isDigit b = false ∧ b ≠ point := by
  rcases h with rfl | ⟨mark, sign, ds, hmark, -, -, rfl⟩
  · cases s with
    | nil => exact fun b hb => absurd hb (Option.not_mem_none b)
    | cons b s =>
      intro c hc
      obtain rfl := Option.some.inj hc
      obtain ⟨hdigit, hpoint, -⟩ := not_isDigit_of_ends hs
      exact ⟨hdigit, hpoint⟩
  · intro b hb
    rcases hmark with rfl | rfl <;> obtain rfl := Option.some.inj hb <;> decide

theorem skipFraction_of_ne (h : ∀ b ∈ s.head?, b ≠ point) : skipFraction s = skipExponent s := by
  cases s with
  | nil => rfl
  | cons b s => simp only [skipFraction, if_neg (h b rfl)]

theorem skipFraction_tail {x : List Char} (hw : IsFraction w) (hx : IsExponent x) (hs : Ends s) :
    Stops (encode (w ++ x) ++ s) ∧ skipFraction (encode (w ++ x) ++ s) = .ok s := by
  have hhead := exponent_head hx hs
  rcases hw with rfl | ⟨ds, hds, rfl⟩
  · rw [List.nil_append, skipFraction_of_ne fun b hb => (hhead b hb).2]
    exact ⟨fun b hb => (hhead b hb).1, skipExponent_exponent hx hs⟩
  · have hbytes : encode ('.' :: ds ++ x) ++ s = point :: (encode ds ++ (encode x ++ s)) := by
      rw [List.cons_append, encode_cons, encode_append, List.append_assoc, List.append_assoc]
      rfl
    have hdigits := skipDigits_digits hds fun b hb => (hhead b hb).1
    rw [hbytes]
    refine ⟨fun b hb => ?_, ?_⟩
    · obtain rfl := Option.some.inj hb
      rfl
    · simp only [skipFraction, if_true, hdigits, bind, Except.bind, skipExponent_exponent hx hs]

theorem length_encode_digits (h : Digits ds) : (encode ds).length = ds.length := by
  rw [encode_digits h.2, List.length_map]

theorem skipNumeral_number {x : List Char} (hd : Digits ds) (hz : ds.head? = some '0' → ds = ['0'])
    (hw : IsFraction w) (hx : IsExponent x) (hs : Ends s) :
    skipNumeral (encode (ds ++ (w ++ x)) ++ s) = .ok s := by
  obtain ⟨hstops, hfraction⟩ := skipFraction_tail hw hx hs
  have hdigits := skipDigits_digits hd hstops
  obtain ⟨b, t, hbytes, -, hzero⟩ := exists_digit hd (encode (w ++ x) ++ s)
  have halone : ¬ ((encode ds ++ (encode (w ++ x) ++ s)).head? = some 0x30 ∧
      (encode ds ++ (encode (w ++ x) ++ s)).length - (encode (w ++ x) ++ s).length ≠ 1) := by
    rintro ⟨hhead, hlen⟩
    rw [hbytes] at hhead
    have hone := hz (hzero (Option.some.inj hhead))
    rw [List.length_append, Nat.add_sub_cancel, length_encode_digits hd, hone] at hlen
    exact hlen rfl
  rw [encode_append, List.append_assoc]
  simp only [skipNumeral, hdigits, bind, Except.bind, if_neg halone, hfraction]

theorem spans_number (h : IsNumber w) (hs : Ends s) : Spans .value (encode w ++ s) s := by
  cases h with
  | @mk sign ds w x hsign hd hz hw hx =>
    have hskip := skipNumeral_number hd hz hw hx hs
    rcases hsign with rfl | rfl
    · obtain ⟨b, t, hbytes, hb, -⟩ := exists_digit hd (encode (w ++ x) ++ s)
      rw [List.nil_append]
      have hstart : skipSpace (encode (ds ++ (w ++ x)) ++ s) = b :: t := by
        rw [encode_append, List.append_assoc, hbytes, skipSpace_cons (digit_starts hb).1]
      rw [encode_append, List.append_assoc, hbytes] at hskip
      exact .positive hstart hb hskip
    · refine .negative (t := encode (ds ++ (w ++ x)) ++ s) ?_ hskip
      exact skipSpace_cons (by decide) _

/-! ## Values -/

theorem encode_element (e : Element) (s : Input) :
    encode e.text ++ s = encode e.before ++ (encode e.value ++ (encode e.after ++ s)) := by
  rw [Element.text, encode_append, encode_append, List.append_assoc, List.append_assoc]

theorem encode_named (m : Member) (s : Input) :
    encode m.text ++ s = encode m.lead ++ (quoteMark :: (encode m.name ++
      (quoteMark :: (encode m.gap ++ (colon :: (encode m.toElement.text ++ s)))))) := by
  have hquote (t : List Char) : encode ('"' :: t) = quoteMark :: encode t := rfl
  have hcolon (t : List Char) : encode (':' :: t) = colon :: encode t := rfl
  simp only [Member.text, encode_append, hquote, hcolon, List.append_assoc, List.cons_append]

theorem spans_element {e : Element} (he : e.Spaced)
    (hv : ∀ s, Ends s → Spans .value (encode e.value ++ s) s) (hs : Ends s) :
    Spans .value (encode e.text ++ s) (encode e.after ++ s) := by
  refine (hv _ (ends_blank he.after hs)).of_skipSpace ?_
  rw [encode_element, skipSpace_blank he.before]

theorem nameSpans_member {m : Member} (hm : m.Spaced) (hn : Quotes m.name) (s : Input) :
    NameSpans (encode m.text ++ s) (encode m.toElement.text ++ s) := by
  refine ⟨_, encode m.gap ++ colon :: (encode m.toElement.text ++ s), ?_, skipString_quotes hn _, ?_⟩
  · rw [encode_named, skipSpace_blank hm.lead, skipSpace_cons (by decide)]
  · rw [colonRest, skipSpace_blank hm.gap, skipSpace_cons (by decide)]
    rfl

theorem encode_separated (p q : List Char) (ps : List (List Char)) (s : Input) :
    encode (separated (p :: q :: ps)) ++ s =
      encode p ++ (comma :: (encode (separated (q :: ps)) ++ s)) := by
  have hcomma (t : List Char) : encode (',' :: t) = comma :: encode t := rfl
  have hcons : separated (p :: q :: ps) = p ++ ',' :: separated (q :: ps) := rfl
  rw [hcons, encode_append, hcomma, List.append_assoc]
  rfl

def Skippable (w : List Char) : Prop := ∀ s, Ends s → Spans .value (encode w ++ s) s

theorem Skippable.ne_nil (h : Skippable w) : w ≠ [] := by
  rintro rfl
  exact Nat.lt_irrefl _ (h [] ends_nil).length_lt

theorem spans_elements (e : Element) (es : List Element)
    (h : ∀ x ∈ e :: es, x.Spaced ∧ Skippable x.value) (rest : Input) :
    Spans .elements (encode (separated ((e :: es).map Element.text)) ++ closeBracket :: rest)
      rest := by
  induction es generalizing e with
  | nil =>
    obtain ⟨he, hv⟩ := h e List.mem_cons_self
    refine .lastElement (spans_element he hv (ends_cons (.inr (.inl rfl)) rest)) ?_
    rw [skipSpace_blank he.after, skipSpace_cons (by decide)]
  | cons f es ih =>
    obtain ⟨⟨he, hv⟩, hes⟩ := List.forall_mem_cons.1 h
    rw [List.map_cons, List.map_cons, encode_separated]
    refine .nextElement (spans_element he hv (ends_cons (.inl rfl) _)) ?_ (ih f hes)
    rw [skipSpace_blank he.after, skipSpace_cons (by decide)]
    rfl

theorem spans_members (m : Member) (ms : List Member)
    (h : ∀ x ∈ m :: ms, x.Spaced ∧ Quotes x.name ∧ Skippable x.value) (rest : Input) :
    Spans .members (encode (separated ((m :: ms).map Member.text)) ++ closeBrace :: rest) rest := by
  induction ms generalizing m with
  | nil =>
    obtain ⟨hm, hn, hv⟩ := h m List.mem_cons_self
    refine .lastMember (nameSpans_member hm hn _)
      (spans_element hm.toSpaced hv (ends_cons (.inr (.inr rfl)) rest)) ?_
    rw [skipSpace_blank hm.after, skipSpace_cons (by decide)]
  | cons n ms ih =>
    obtain ⟨⟨hm, hn, hv⟩, hms⟩ := List.forall_mem_cons.1 h
    rw [List.map_cons, List.map_cons, encode_separated]
    refine .nextMember (nameSpans_member hm hn _)
      (spans_element hm.toSpaced hv (ends_cons (.inl rfl) _)) ?_ (ih n hms)
    rw [skipSpace_blank hm.after, skipSpace_cons (by decide)]
    rfl

theorem encode_bracketed {l r : Char} {x y : UInt8} (hl : encodeChar l = [x])
    (hr : encodeChar r = [y]) (t : List Char) (s : Input) :
    encode (l :: (t ++ [r])) ++ s = x :: (encode t ++ (y :: s)) := by
  have hone : encode [r] = [y] := by
    rw [encode_cons, hr]
    rfl
  rw [encode_cons, encode_append, hl, hone, List.append_assoc, List.append_assoc]
  rfl

theorem skippable_array {es : List Element} (h : IsArray es w)
    (hv : ∀ e ∈ es, Skippable e.value) : Skippable w := by
  intro s _
  obtain ⟨henc, hspaced⟩ := h
  cases es with
  | nil =>
    cases henc with
    | blank hb =>
      rw [encode_bracketed (x := openBracket) (y := closeBracket) rfl rfl]
      refine .emptyArray (skipSpace_cons (by decide) _) ?_
      rw [skipSpace_blank hb, skipSpace_cons (by decide)]
  | cons e es =>
    cases henc with
    | parts =>
      rw [encode_bracketed (x := openBracket) (y := closeBracket) rfl rfl]
      refine .array (skipSpace_cons (by decide) _) ?_
      exact spans_elements e es (fun x hx => ⟨hspaced x hx, hv x hx⟩) s

theorem skippable_object {ms : List Member} (h : IsObject ms w)
    (hv : ∀ m ∈ ms, Skippable m.value) : Skippable w := by
  intro s _
  obtain ⟨henc, hspaced, hnamed⟩ := h
  cases ms with
  | nil =>
    cases henc with
    | blank hb =>
      rw [encode_bracketed (x := openBrace) (y := closeBrace) rfl rfl]
      refine .emptyObject (skipSpace_cons (by decide) _) ?_
      rw [skipSpace_blank hb, skipSpace_cons (by decide)]
  | cons m ms =>
    cases henc with
    | parts =>
      rw [encode_bracketed (x := openBrace) (y := closeBrace) rfl rfl]
      refine .object (skipSpace_cons (by decide) _) ?_
      exact spans_members m ms (fun x hx => ⟨hspaced x hx, hnamed x hx, hv x hx⟩) s

theorem skippable_of_isValue (h : IsValue w) : Skippable w := by
  induction h with
  | word h =>
    intro s _
    rcases h with rfl | rfl | rfl
    · exact .word (.inl ⟨rfl, rfl⟩) (skipSpace_cons (by decide) _) rfl
    · exact .word (.inr (.inl ⟨rfl, rfl⟩)) (skipSpace_cons (by decide) _) rfl
    · exact .word (.inr (.inr ⟨rfl, rfl⟩)) (skipSpace_cons (by decide) _) rfl
  | number h => exact fun s hs => spans_number h hs
  | string h =>
    intro s _
    rw [encode_bracketed (x := quoteMark) (y := quoteMark) rfl rfl]
    exact .string (skipSpace_cons (by decide) _) (skipString_quotes h s)
  | array h _ ih => exact skippable_array h ih
  | object h _ ih => exact skippable_object h ih

end OrderDesk.Wire
