import OrderDesk.Proofs.Wire.Strings

/-!
Spelling. The same text may be written in many ways between its quotes: a character as itself, by a
letter, by its number, or by a pair of numbers. A number that is half of a pair and stands alone is
within the grammar of strings, but it spells nothing, and only a reader that skips lets it pass.
-/

namespace OrderDesk.Wire

open Text.Utf8 (encode encodeChar encode_append)

def Plain (c : Char) : Prop := 0x20 ≤ c.toNat ∧ c ≠ '"' ∧ c ≠ '\\'

def letters : List (Char × Char) :=
  [('"', '"'), ('\\', '\\'), ('/', '/'), ('b', Char.ofNat 0x08), ('t', Char.ofNat 0x09),
    ('n', Char.ofNat 0x0A), ('f', Char.ofNat 0x0C), ('r', Char.ofNat 0x0D)]

def hexDigits : List (Char × Nat) :=
  [('0', 0), ('1', 1), ('2', 2), ('3', 3), ('4', 4), ('5', 5), ('6', 6), ('7', 7), ('8', 8),
    ('9', 9), ('a', 10), ('b', 11), ('c', 12), ('d', 13), ('e', 14), ('f', 15), ('A', 10),
    ('B', 11), ('C', 12), ('D', 13), ('E', 14), ('F', 15)]

inductive CodeUnit : List Char → Nat → Prop where
  | mk {a b c d : Char} {i j k l : Nat} (ha : (a, i) ∈ hexDigits) (hb : (b, j) ∈ hexDigits)
      (hc : (c, k) ∈ hexDigits) (hd : (d, l) ∈ hexDigits) :
      CodeUnit [a, b, c, d] (16 * (16 * (16 * i + j) + k) + l)

inductive Quotes : List Char → Prop where
  | nil : Quotes []
  | plain {c : Char} {s : List Char} (hc : Plain c) (h : Quotes s) : Quotes (c :: s)
  | letter {l c : Char} {s : List Char} (hl : (l, c) ∈ letters) (h : Quotes s) :
      Quotes ('\\' :: l :: s)
  | unit {ds s : List Char} {n : Nat} (hn : CodeUnit ds n) (h : Quotes s) :
      Quotes ('\\' :: 'u' :: (ds ++ s))

/-- What stands between the quotes of a string, and the characters it spells. -/
inductive Spells : List Char → List Char → Prop where
  | nil : Spells [] []
  | plain {c : Char} {s cs : List Char} (hc : Plain c) (h : Spells s cs) :
      Spells (c :: s) (c :: cs)
  | letter {l c : Char} {s cs : List Char} (hl : (l, c) ∈ letters) (h : Spells s cs) :
      Spells ('\\' :: l :: s) (c :: cs)
  | unit {ds s cs : List Char} {n : Nat} (hn : CodeUnit ds n) (hlead : isLeading n = false)
      (htrail : isTrailing n = false) (h : Spells s cs) :
      Spells ('\\' :: 'u' :: (ds ++ s)) (Char.ofNat n :: cs)
  | pair {ds es s cs : List Char} {n m : Nat} (hn : CodeUnit ds n) (hlead : isLeading n = true)
      (hm : CodeUnit es m) (htrail : isTrailing m = true) (h : Spells s cs) :
      Spells ('\\' :: 'u' :: (ds ++ '\\' :: 'u' :: (es ++ s))) (pairOf n m :: cs)

variable {rest r : Input} {s cs ds es : List Char} {c l : Char} {n m : Nat}

theorem Spells.quotes (h : Spells s cs) : Quotes s := by
  induction h with
  | nil => exact .nil
  | plain hc _ ih => exact .plain hc ih
  | letter hl _ ih => exact .letter hl ih
  | unit hn _ _ _ ih => exact .unit hn ih
  | pair hn _ hm _ _ ih => exact .unit hn (.unit hm ih)

theorem digitChar_mem : ∀ i < 16, (Nat.digitChar i, i) ∈ hexDigits := by decide

theorem Spells.writeChar (h : Spells s cs) (c : Char) : Spells (writeChar c ++ s) (c :: cs) := by
  have hletter {n : Nat} {l : Char} (hc : c.toNat = n) (hl : (l, Char.ofNat n) ∈ letters) :
      Spells ('\\' :: l :: s) (c :: cs) := by
    rw [← hc, Char.ofNat_toNat] at hl
    exact .letter hl h
  unfold Wire.writeChar
  split_ifs with hquote hslash hplain
  · subst hquote
    exact .letter (by decide) h
  · subst hslash
    exact .letter (by decide) h
  · exact .plain ⟨hplain, hquote, hslash⟩ h
  iterate 5 rename_i hc; exact hletter hc (by decide)
  · have hunit := CodeUnit.mk (digitChar_mem 0 (by decide)) (digitChar_mem 0 (by decide))
      (digitChar_mem (c.toNat / 16) (by omega)) (digitChar_mem (c.toNat % 16) (by omega))
    have hvalue : 16 * (16 * (16 * 0 + 0) + c.toNat / 16) + c.toNat % 16 = c.toNat := by omega
    obtain ⟨hlead, htrail⟩ := not_surrogate (n := c.toNat) (by omega)
    rw [hvalue] at hunit
    have hspells := Spells.unit hunit hlead htrail h
    rwa [Char.ofNat_toNat] at hspells

theorem spells_writeChars (cs : List Char) : Spells (cs.flatMap Wire.writeChar) cs := by
  induction cs with
  | nil => exact .nil
  | cons c cs ih => exact ih.writeChar c

/-! ## Bytes -/

theorem encode_cons (c : Char) (s : List Char) : encode (c :: s) = encodeChar c ++ encode s := rfl

theorem encode_letter (h : (l, c) ∈ letters) : ∃ x v, encodeChar l = [x] ∧ x ≠ letterU ∧
    escaped? x = some v ∧ encodeChar c = [v] := by
  simp only [letters, List.mem_cons, Prod.mk.injEq, List.not_mem_nil, or_false] at h
  obtain ⟨rfl, rfl⟩ | ⟨rfl, rfl⟩ | ⟨rfl, rfl⟩ | ⟨rfl, rfl⟩ | ⟨rfl, rfl⟩ | ⟨rfl, rfl⟩ |
    ⟨rfl, rfl⟩ | ⟨rfl, rfl⟩ := h
  all_goals exact ⟨_, _, rfl, by decide, rfl, rfl⟩

theorem encode_hexDigit : ∀ p ∈ hexDigits,
    encodeChar p.1 = [UInt8.ofNat p.1.toNat] ∧ hexDigit? (UInt8.ofNat p.1.toNat) = some p.2 := by
  decide

theorem encode_unit (h : CodeUnit ds n) : ∃ x y z w, encode ds = [x, y, z, w] ∧
    hexValue? [x, y, z, w] = some n := by
  cases h with
  | @mk a b c d i j k l ha hb hc hd =>
    obtain ⟨hx, hi⟩ := encode_hexDigit _ ha
    obtain ⟨hy, hj⟩ := encode_hexDigit _ hb
    obtain ⟨hz, hk⟩ := encode_hexDigit _ hc
    obtain ⟨hw, hl⟩ := encode_hexDigit _ hd
    refine ⟨UInt8.ofNat a.toNat, UInt8.ofNat b.toNat, UInt8.ofNat c.toNat, UInt8.ofNat d.toNat,
      ?_, ?_⟩
    · simp only [encode, List.flatMap_cons, hx, hy, hz, hw]
      rfl
    · simp [hexValue?, List.foldlM, hi, hj, hk, hl]

/-! ## Strings that are kept -/

theorem scanString_surrogates {x y z w : UInt8} (hn : hexValue? [x, y, z, w] = some n)
    (hlead : isLeading n = true) (rest : Input) :
    scanString keepStep .plain (backslash :: letterU :: x :: y :: z :: w :: rest) =
      scanString keepStep (.lead n) rest := by
  have htrail : isTrailing n = false := by
    simp only [isLeading, isTrailing, Bool.and_eq_true, Bool.and_eq_false_iff, decide_eq_true_eq,
      decide_eq_false_iff_not] at hlead ⊢
    omega
  have hunit : keepStep (.digits none [x, y, z]) w = .go [] (.lead n) := by
    simp [keepStep, hn, codeUnit, hlead, htrail]
  rw [scanString_number, scanString_go hunit, prepend_nil]

theorem scanString_half {x y z w : UInt8} (hn : hexValue? [x, y, z, w] = some n)
    (htrail : isTrailing n = true) (rest : Input) :
    scanString keepStep .plain (backslash :: letterU :: x :: y :: z :: w :: rest) =
      .error .malformed := by
  have hunit : keepStep (.digits none [x, y, z]) w = .refuse := by
    simp [keepStep, hn, codeUnit, htrail]
  rw [scanString_number, scanString, hunit]

theorem scanString_trailing {x y z w : UInt8} (hm : hexValue? [x, y, z, w] = some m)
    (rest : Input) :
    scanString keepStep (.lead n) (backslash :: letterU :: x :: y :: z :: w :: rest) =
      if isTrailing m then prepend (encodeChar (pairOf n m)) (scanString keepStep .plain rest)
      else .error .malformed := by
  rw [scanString_go (p := .leadEscape n) rfl, scanString_go (p := .digits (some n) []) rfl,
    prepend_nil, prepend_nil, scanString_three]
  have hstep : keepStep (.digits (some n) [x, y, z]) w =
      if isTrailing m then .go (encodeChar (pairOf n m)) .plain else .refuse := by
    simp [keepStep, hm, codeUnit]
  cases htrail : isTrailing m with
  | true =>
    rw [htrail, if_pos rfl] at hstep
    rw [if_pos rfl, scanString_go hstep]
  | false =>
    rw [htrail, if_neg Bool.false_ne_true] at hstep
    rw [if_neg Bool.false_ne_true, scanString, hstep]

theorem scanString_of_plain (hc : Plain c) (rest : Input) :
    scanString keepStep .plain (encodeChar c ++ rest) =
      prepend (encodeChar c) (scanString keepStep .plain rest) :=
  scanString_plain (fun _ => keepStep_of_mem_encodeChar hc.1 hc.2.1 hc.2.2) rest

theorem scanString_of_letter (hl : (l, c) ∈ letters) (rest : Input) :
    scanString keepStep .plain (backslash :: (encodeChar l ++ rest)) =
      prepend (encodeChar c) (scanString keepStep .plain rest) := by
  obtain ⟨x, v, hx, hne, hv, hc⟩ := encode_letter hl
  rw [hx, hc]
  exact scanString_escaped hne hv rest

theorem encode_escape_unit (hn : CodeUnit ds n) (s : List Char) : ∃ x y z w,
    hexValue? [x, y, z, w] = some n ∧ ∀ rest : Input,
      encode ('\\' :: 'u' :: (ds ++ s)) ++ rest =
        backslash :: letterU :: x :: y :: z :: w :: (encode s ++ rest) := by
  obtain ⟨x, y, z, w, hds, hvalue⟩ := encode_unit hn
  refine ⟨x, y, z, w, hvalue, fun rest => ?_⟩
  rw [encode_cons, encode_cons, encode_append, hds]
  rfl

theorem encode_escape_letter (l : Char) (s : List Char) (rest : Input) :
    encode ('\\' :: l :: s) ++ rest = backslash :: (encodeChar l ++ (encode s ++ rest)) := by
  have hslash : encodeChar '\\' = [backslash] := rfl
  rw [encode_cons, encode_cons, hslash, List.append_assoc, List.append_assoc]
  rfl

theorem scanString_spells (h : Spells s cs) (rest : Input) :
    scanString keepStep .plain (encode s ++ quoteMark :: rest) = .ok (encode cs, rest) := by
  induction h with
  | nil => rfl
  | plain hc _ ih =>
    rw [encode_cons, List.append_assoc, scanString_of_plain hc, ih]
    rfl
  | letter hl _ ih =>
    rw [encode_escape_letter, scanString_of_letter hl, ih]
    rfl
  | unit hn hlead htrail _ ih =>
    obtain ⟨x, y, z, w, hvalue, hbytes⟩ := encode_escape_unit hn _
    rw [hbytes, scanString_digits hvalue hlead htrail, ih]
    rfl
  | pair hn hlead hm htrail _ ih =>
    obtain ⟨x, y, z, w, hvalue, hbytes⟩ := encode_escape_unit hn _
    obtain ⟨x', y', z', w', hvalue', hbytes'⟩ := encode_escape_unit hm _
    rw [hbytes, hbytes', scanString_surrogates hvalue hlead, scanString_trailing hvalue',
      if_pos htrail, ih]
    rfl

theorem stringRest_spells (h : Spells s cs) (rest : Input) :
    stringRest (encode s ++ quoteMark :: rest) = .ok (String.ofList cs, rest) := by
  simp only [stringRest, scanString_spells h, bind, Except.bind, Text.Utf8.decode?_encode]
  rfl

theorem Spells.unique {cs' : List Char} (h : Spells s cs) (h' : Spells s cs') : cs = cs' := by
  have hread := (stringRest_spells h []).symm.trans (stringRest_spells h' [])
  exact String.ofList_injective (Prod.mk.inj (Except.ok.inj hread)).1

theorem scanString_lead (h : Quotes s) (n : Nat) :
    (∀ rest, scanString keepStep (.lead n) (encode s ++ quoteMark :: rest) = .error .malformed) ∨
      ∃ ds t m, s = '\\' :: 'u' :: (ds ++ t) ∧ CodeUnit ds m ∧ isTrailing m = true ∧
        Quotes t := by
  cases h with
  | nil => exact .inl fun _ => rfl
  | @plain c s hc h =>
    refine .inl fun rest => ?_
    obtain ⟨b, bs, hb⟩ := List.exists_cons_of_ne_nil (Text.Utf8.encodeChar_ne_nil c)
    have hstep : keepStep .plain b = .go [b] .plain :=
      keepStep_of_mem_encodeChar hc.1 hc.2.1 hc.2.2 (hb ▸ List.mem_cons_self)
    have hslash : b ≠ backslash := by
      rintro rfl
      cases hstep
    rw [encode_cons, hb]
    simp only [List.cons_append, scanString, keepStep, if_neg hslash]
  | @letter l c s hl h =>
    refine .inl fun rest => ?_
    obtain ⟨x, v, hx, hne, -, -⟩ := encode_letter hl
    have hstep : keepStep (.leadEscape n) x = .refuse := if_neg hne
    rw [encode_escape_letter, scanString_go (p := .leadEscape n) rfl, hx]
    simp only [List.singleton_append, scanString, hstep]
    rfl
  | @unit ds s m hm h =>
    obtain ⟨x, y, z, w, hvalue, hbytes⟩ := encode_escape_unit hm s
    cases htrail : isTrailing m with
    | true => exact .inr ⟨ds, s, m, rfl, hm, htrail, h⟩
    | false =>
      refine .inl fun rest => ?_
      rw [hbytes, scanString_trailing hvalue, htrail, if_neg Bool.false_ne_true]

theorem spells_or_malformed (h : Quotes s) :
    (∃ cs, Spells s cs) ∨
      ∀ rest, scanString keepStep .plain (encode s ++ quoteMark :: rest) = .error .malformed := by
  induction hlen : s.length using Nat.strongRecOn generalizing s with
  | ind k ih =>
    subst hlen
    cases h with
    | nil => exact .inl ⟨[], .nil⟩
    | @plain c s hc h =>
      rcases ih s.length (Nat.lt_succ_self _) h rfl with ⟨cs, hs⟩ | hs
      · exact .inl ⟨c :: cs, .plain hc hs⟩
      · refine .inr fun rest => ?_
        rw [encode_cons, List.append_assoc, scanString_of_plain hc, hs]
        rfl
    | @letter l c s hl h =>
      rcases ih s.length (by simp only [List.length_cons]; omega) h rfl with ⟨cs, hs⟩ | hs
      · exact .inl ⟨c :: cs, .letter hl hs⟩
      · refine .inr fun rest => ?_
        rw [encode_escape_letter, scanString_of_letter hl, hs]
        rfl
    | @unit ds s n hn h =>
      obtain ⟨x, y, z, w, hvalue, hbytes⟩ := encode_escape_unit hn s
      -- a leading half uses up two numbers at once, so the induction is on the length
      cases hlead : isLeading n with
      | true =>
        rcases scanString_lead h n with hs | ⟨es, t, m, rfl, hm, htrail, ht⟩
        · refine .inr fun rest => ?_
          rw [hbytes, scanString_surrogates hvalue hlead, hs]
        · obtain ⟨x', y', z', w', hvalue', hbytes'⟩ := encode_escape_unit hm t
          rcases ih t.length (by simp only [List.length_cons, List.length_append]; omega) ht rfl with
            ⟨cs, hs⟩ | hs
          · exact .inl ⟨pairOf n m :: cs, .pair hn hlead hm htrail hs⟩
          · refine .inr fun rest => ?_
            rw [hbytes, hbytes', scanString_surrogates hvalue hlead, scanString_trailing hvalue',
              if_pos htrail, hs]
            rfl
      | false =>
        cases htrail : isTrailing n with
        | true =>
          refine .inr fun rest => ?_
          rw [hbytes, scanString_half hvalue htrail]
        | false =>
          rcases ih s.length (by simp only [List.length_cons, List.length_append]; omega) h rfl with
            ⟨cs, hs⟩ | hs
          · exact .inl ⟨Char.ofNat n :: cs, .unit hn hlead htrail hs⟩
          · refine .inr fun rest => ?_
            rw [hbytes, scanString_digits hvalue hlead htrail, hs]
            rfl

theorem exists_of_map {α β : Type} {x : Except Fault α} {f : α → β} {b : β}
    (h : x.map f = .ok b) : ∃ a, x = .ok a ∧ f a = b := by
  cases x with
  | error e => cases h
  | ok a => exact ⟨a, rfl, Except.ok.inj h⟩

theorem exists_of_bind {α β : Type} {x : Except Fault α} {f : α → Except Fault β} {b : β}
    (h : x >>= f = .ok b) : ∃ a, x = .ok a ∧ f a = .ok b := by
  cases x with
  | error e => cases h
  | ok a => exact ⟨a, rfl, h⟩

theorem exists_of_stringRest {text : String} (h : stringRest r = .ok (text, rest)) :
    ∃ bs, scanString keepStep .plain r = .ok (bs, rest) := by
  simp only [stringRest, bind, Except.bind] at h
  split at h
  · cases h
  · rename_i v hscan
    split at h
    · cases h
      exact ⟨v.1, hscan⟩
    · cases h

theorem Quotes.spells (h : Quotes s) {text : String} {t : Input}
    (hread : stringRest (encode s ++ quoteMark :: rest) = .ok (text, t)) :
    Spells s text.toList ∧ t = rest := by
  rcases spells_or_malformed h with ⟨cs, hs⟩ | hs
  · rw [stringRest_spells hs] at hread
    cases hread
    exact ⟨by rwa [String.toList_ofList], rfl⟩
  · obtain ⟨bs, hscan⟩ := exists_of_stringRest hread
    rw [hs] at hscan
    cases hscan

/-! ## Strings that are skipped -/

namespace StringState

def forget : StringState → StringState
  | .plain => .plain
  | .escape => .escape
  | .digits _ seen => .digits none seen
  | .lead _ => .plain
  | .leadEscape _ => .escape

end StringState

/-- A step of a reader that keeps a string, and what one that skips it does at the same byte: it goes
on or finishes with it, and whether it refuses is left open. -/
inductive Follows : StringStep → StringStep → Prop where
  | finish : Follows .finish .finish
  | go (bs cs : List UInt8) (q : StringState) : Follows (.go bs q) (.go cs q.forget)
  | refuse (step : StringStep) : Follows .refuse step

theorem follows_codeUnit (lead : Option Nat) (n : Nat) :
    Follows (codeUnit lead n) (.go [] .plain) := by
  unfold codeUnit
  cases lead with
  | none =>
    dsimp only
    split_ifs
    · exact .refuse _
    · exact .go [] [] (.lead n)
    · exact .go _ [] .plain
  | some l =>
    dsimp only
    split_ifs
    · exact .go _ [] .plain
    · exact .refuse _

theorem follows_keepStep (q : StringState) (b : UInt8) :
    Follows (keepStep q b) (skipStep q.forget b) := by
  cases q with
  | plain =>
    simp only [StringState.forget, skipStep, keepStep]
    split_ifs
    · exact .finish
    · exact .go [] [] .escape
    · exact .refuse _
    · exact .go [b] [b] .plain
  | escape =>
    simp only [StringState.forget, skipStep, keepStep]
    split_ifs
    · exact .go [] [] (.digits none [])
    · cases escaped? b with
      | some c => exact .go [c] [c] .plain
      | none => exact .refuse _
  | digits lead seen =>
    simp only [StringState.forget, skipStep, keepStep]
    split_ifs with hlen hvalue
    · exact .go [] [] (.digits lead (seen ++ [b]))
    · obtain ⟨n, hn⟩ := Option.isSome_iff_exists.1 hvalue
      rw [hn]
      exact follows_codeUnit lead n
    · rw [Option.not_isSome_iff_eq_none.1 hvalue]
      exact .refuse _
  | lead n =>
    simp only [StringState.forget, skipStep, keepStep]
    split_ifs with hb hquote
    · rw [hb] at hquote
      cases hquote
    · exact .go [] [] (.leadEscape n)
    all_goals exact .refuse _
  | leadEscape n =>
    simp only [StringState.forget, skipStep, keepStep]
    split_ifs
    · exact .go [] [] (.digits (some n) [])
    · exact .refuse _

theorem scanString_forget {q : StringState} {s bs : Input}
    (h : scanString keepStep q s = .ok (bs, rest)) :
    ∃ cs, scanString skipStep q.forget s = .ok (cs, rest) := by
  induction s generalizing q bs with
  | nil => cases h
  | cons b s ih =>
    have hfollows := follows_keepStep q b
    generalize hkeep : keepStep q b = kept at hfollows
    generalize hskip : skipStep q.forget b = skipped at hfollows
    simp only [scanString, hkeep, hskip] at h ⊢
    cases hfollows with
    | finish =>
      cases h
      exact ⟨[], rfl⟩
    | go out skippedOut p =>
      obtain ⟨⟨more, left⟩, hmore, heq⟩ := exists_of_map h
      cases heq
      obtain ⟨cs, hcs⟩ := ih hmore
      exact ⟨skippedOut ++ cs, by simp only [hcs, Except.map]⟩
    | refuse => cases h

theorem skipString_of_stringRest {text : String} (h : stringRest r = .ok (text, rest)) :
    skipString r = .ok rest := by
  obtain ⟨bs, hscan⟩ := exists_of_stringRest h
  obtain ⟨cs, hskip⟩ := scanString_forget hscan
  rw [skipString, show scanString skipStep .plain r = _ from hskip]
  rfl

theorem skipStep_number {x y z w : UInt8} (hn : hexValue? [x, y, z, w] = some n) (rest : Input) :
    scanString skipStep .plain (backslash :: letterU :: x :: y :: z :: w :: rest) =
      scanString skipStep .plain rest := by
  have hunit : skipStep (.digits none [x, y, z]) w = .go [] .plain := by
    simp [skipStep, hn]
  rw [scanString_go (p := .escape) rfl, scanString_go (p := .digits none []) rfl,
    scanString_go (p := .digits none [x]) rfl, scanString_go (p := .digits none [x, y]) rfl,
    scanString_go (p := .digits none [x, y, z]) rfl, scanString_go hunit]
  simp only [prepend_nil]

theorem exists_scanString_quotes (h : Quotes s) (rest : Input) :
    ∃ bs, scanString skipStep .plain (encode s ++ quoteMark :: rest) = .ok (bs, rest) := by
  induction h with
  | nil => exact ⟨[], rfl⟩
  | @plain c s hc _ ih =>
    obtain ⟨bs, ih⟩ := ih
    have hstep : ∀ b ∈ encodeChar c, skipStep .plain b = .go [b] .plain := fun b =>
      keepStep_of_mem_encodeChar hc.1 hc.2.1 hc.2.2
    exact ⟨encodeChar c ++ bs, by
      rw [encode_cons, List.append_assoc, scanString_plain hstep, ih]; rfl⟩
  | @letter l c s hl _ ih =>
    obtain ⟨bs, ih⟩ := ih
    obtain ⟨x, v, hx, hne, hv, -⟩ := encode_letter hl
    have hstep : skipStep .escape x = .go [v] .plain := by
      simp only [skipStep, keepStep, if_neg hne, hv]
    refine ⟨v :: bs, ?_⟩
    rw [encode_escape_letter, scanString_go (p := .escape) rfl, hx, List.singleton_append,
      scanString_go hstep, ih]
    rfl
  | @unit ds s n hn _ ih =>
    obtain ⟨bs, ih⟩ := ih
    obtain ⟨x, y, z, w, hvalue, hbytes⟩ := encode_escape_unit hn s
    exact ⟨bs, by rw [hbytes, skipStep_number hvalue, ih]⟩

theorem skipString_quotes (h : Quotes s) (rest : Input) :
    skipString (encode s ++ quoteMark :: rest) = .ok rest := by
  obtain ⟨bs, hscan⟩ := exists_scanString_quotes h rest
  rw [skipString, hscan]
  rfl

end OrderDesk.Wire
