import Mathlib.Tactic.IntervalCases
import OrderDesk.Proofs.Text.Utf8
import OrderDesk.Wire.Reader
import OrderDesk.Wire.Writer

/-!
Strings read back as they were written, whatever characters they hold.
-/

namespace OrderDesk.Wire

open Text.Utf8 (encode encodeChar encode_append)

variable {bs rest : Input} {c : Char}

def prepend (bs : List UInt8) (r : Except Fault (List UInt8 × Input)) :
    Except Fault (List UInt8 × Input) := r.map fun r => (bs ++ r.1, r.2)

theorem prepend_nil (r : Except Fault (List UInt8 × Input)) : prepend [] r = r := by
  cases r <;> rfl

theorem prepend_prepend (bs cs : List UInt8) (r : Except Fault (List UInt8 × Input)) :
    prepend bs (prepend cs r) = prepend (bs ++ cs) r := by
  cases r with
  | error e => rfl
  | ok r => simp [prepend, Except.map]

theorem scanString_go {step : StringState → UInt8 → StringStep} {q p : StringState} {b : UInt8}
    (h : step q b = .go bs p) (rest : Input) :
    scanString step q (b :: rest) = prepend bs (scanString step p rest) := by
  simp only [scanString, h, prepend]

theorem keepStep_plain {b : UInt8} (hspace : 0x20 ≤ b.toNat) (hquote : b.toNat ≠ 0x22)
    (hslash : b.toNat ≠ 0x5C) : keepStep .plain b = .go [b] .plain := by
  have hq : b ≠ quoteMark := fun h => hquote (congrArg UInt8.toNat h)
  have hs : b ≠ backslash := fun h => hslash (congrArg UInt8.toNat h)
  have hlow : ¬ b < 0x20 := fun h => Nat.not_lt.2 hspace (UInt8.lt_iff_toNat_lt.1 h)
  simp only [keepStep, if_neg hq, if_neg hs, if_neg hlow]

theorem scanString_plain {step : StringState → UInt8 → StringStep}
    (h : ∀ b ∈ bs, step .plain b = .go [b] .plain) (rest : Input) :
    scanString step .plain (bs ++ rest) = prepend bs (scanString step .plain rest) := by
  induction bs with
  | nil => exact (prepend_nil _).symm
  | cons b bs ih =>
    rw [List.cons_append, scanString_go (h b List.mem_cons_self),
      ih fun b hb => h b (List.mem_cons_of_mem _ hb), prepend_prepend]
    rfl

theorem scanString_escaped {l v : UInt8} (hl : l ≠ letterU) (h : escaped? l = some v)
    (rest : Input) :
    scanString keepStep .plain (backslash :: l :: rest) =
      prepend [v] (scanString keepStep .plain rest) := by
  have hstep : keepStep .escape l = .go [v] .plain := by
    simp only [keepStep, if_neg hl, h]
  rw [scanString_go (p := .escape) rfl, scanString_go hstep, prepend_nil]

theorem scanString_three (lead : Option Nat) (a b c : UInt8) (rest : Input) :
    scanString keepStep (.digits lead []) (a :: b :: c :: rest) =
      scanString keepStep (.digits lead [a, b, c]) rest := by
  rw [scanString_go (p := .digits lead [a]) rfl, scanString_go (p := .digits lead [a, b]) rfl,
    scanString_go (p := .digits lead [a, b, c]) rfl]
  simp only [prepend_nil]

theorem scanString_number (a b c : UInt8) (rest : Input) :
    scanString keepStep .plain (backslash :: letterU :: a :: b :: c :: rest) =
      scanString keepStep (.digits none [a, b, c]) rest := by
  rw [scanString_go (p := .escape) rfl, scanString_go (p := .digits none []) rfl, prepend_nil,
    prepend_nil, scanString_three]

theorem scanString_digits {a b c d : UInt8} {n : Nat} (h : hexValue? [a, b, c, d] = some n)
    (hlead : isLeading n = false) (htrail : isTrailing n = false) (rest : Input) :
    scanString keepStep .plain (backslash :: letterU :: a :: b :: c :: d :: rest) =
      prepend (encodeChar (Char.ofNat n)) (scanString keepStep .plain rest) := by
  have hunit : keepStep (.digits none [a, b, c]) d = .go (encodeChar (Char.ofNat n)) .plain := by
    simp [keepStep, h, codeUnit, hlead, htrail]
  rw [scanString_number, scanString_go hunit]

theorem not_surrogate {n : Nat} (h : n < 0xD800) : isLeading n = false ∧ isTrailing n = false := by
  simp only [isLeading, isTrailing, Bool.and_eq_false_iff, decide_eq_false_iff_not]
  omega

theorem encode_writeChar_control (n : Nat) (h : n < 0x20) :
    (∃ l v, encode (writeChar (Char.ofNat n)) = [backslash, l] ∧ l ≠ letterU ∧
      escaped? l = some v ∧ encodeChar (Char.ofNat n) = [v]) ∨
    ∃ a b c d, encode (writeChar (Char.ofNat n)) = [backslash, letterU, a, b, c, d] ∧
      hexValue? [a, b, c, d] = some n := by
  interval_cases n
  all_goals first
    | exact .inl ⟨_, _, rfl, by decide, rfl, rfl⟩
    | exact .inr ⟨_, _, _, _, rfl, rfl⟩

theorem keepStep_of_mem_encodeChar {b : UInt8} (hcontrol : 0x20 ≤ c.toNat) (hquote : c ≠ '"')
    (hslash : c ≠ '\\') (hb : b ∈ encodeChar c) : keepStep .plain b = .go [b] .plain := by
  by_cases hascii : c.toNat < 0x80
  · rw [Text.Utf8.encodeChar_ascii hascii] at hb
    obtain rfl := List.mem_singleton.1 hb
    have hb : (UInt8.ofNat c.toNat).toNat = c.toNat := Text.Utf8.toNat_ofNat (by omega)
    refine keepStep_plain (by omega) (fun h => hquote ?_) fun h => hslash ?_
    · rw [← Char.ofNat_toNat c, ← hb, h]
    · rw [← Char.ofNat_toNat c, ← hb, h]
  · have hle := Text.Utf8.le_of_mem_encodeChar (by omega) hb
    exact keepStep_plain (by omega) (by omega) (by omega)

theorem scanString_writeChar (c : Char) (rest : Input) :
    scanString keepStep .plain (encode (writeChar c) ++ rest) =
      prepend (encodeChar c) (scanString keepStep .plain rest) := by
  by_cases hcontrol : c.toNat < 0x20
  · have hback : Char.ofNat c.toNat = c := Char.ofNat_toNat c
    rcases encode_writeChar_control c.toNat hcontrol with
      ⟨l, v, hbytes, hl, hv, hc⟩ | ⟨x, y, z, d, hbytes, hx⟩
    · rw [hback] at hbytes hc
      rw [hbytes, hc]
      exact scanString_escaped hl hv rest
    · rw [hback] at hbytes
      rw [hbytes]
      obtain ⟨hlead, htrail⟩ := not_surrogate (n := c.toNat) (by omega)
      have hdigits := scanString_digits hx hlead htrail rest
      rwa [hback] at hdigits
  by_cases hquote : c = '"'
  · subst hquote
    exact scanString_escaped (by decide) rfl rest
  by_cases hslash : c = '\\'
  · subst hslash
    exact scanString_escaped (by decide) rfl rest
  -- any other character is written as it is
  have hself : writeChar c = [c] := by
    rw [writeChar, if_neg hquote, if_neg hslash, if_pos (by omega)]
  have hone : encode [c] = encodeChar c := List.append_nil _
  rw [hself, hone]
  exact scanString_plain
    (fun b => keepStep_of_mem_encodeChar (Nat.not_lt.1 hcontrol) hquote hslash) rest

theorem scanString_writeChars (s : List Char) (rest : Input) :
    scanString keepStep .plain (encode (s.flatMap writeChar) ++ quoteMark :: rest) =
      .ok (encode s, rest) := by
  induction s with
  | nil => rfl
  | cons c s ih =>
    rw [List.flatMap_cons, encode_append, List.append_assoc, scanString_writeChar, ih]
    rfl

theorem stringRest_writeChars (s : List Char) (rest : Input) :
    stringRest (encode (s.flatMap writeChar) ++ quoteMark :: rest) = .ok (String.ofList s, rest) := by
  simp only [stringRest, scanString_writeChars, bind, Except.bind, Text.Utf8.decode?_encode]
  rfl

end OrderDesk.Wire
