import Mathlib.Tactic.IntervalCases
import OrderDesk.Text.Utf8

/-!
Characters read back from their bytes, and bytes that can be read, which are those of their characters.
-/

namespace OrderDesk.Text.Utf8

variable {b : UInt8} {bs : Bytes} {q : State} {c : Char} {cs : List Char}
  {owed low high code k : Nat}

/-! ## One byte -/

theorem toNat_ofNat (h : k < 256) : (UInt8.ofNat k).toNat = k := UInt8.toNat_ofNat_of_lt' h

theorem first_two (hlow : 2 ≤ k) (hhigh : k < 32) :
    first (0xC0 + k) = .grow (.inside 1 0x80 0xBF k) := by
  interval_cases k <;> rfl

theorem first_three (h : k < 16) :
    first (0xE0 + k) = .grow
      (.inside 2 (if k = 0 then 0xA0 else 0x80) (if k = 13 then 0x9F else 0xBF) k) := by
  interval_cases k <;> rfl

theorem first_four (h : k ≤ 4) :
    first (0xF0 + k) = .grow
      (.inside 3 (if k = 0 then 0x90 else 0x80) (if k = 4 then 0x8F else 0xBF) k) := by
  interval_cases k <;> rfl

theorem next_last (hlow : low ≤ 0x80 + k) (hhigh : 0x80 + k ≤ high) :
    next 1 low high code (0x80 + k) = .char (Char.ofNat (code * 64 + k)) := by
  rw [next, if_pos ⟨hlow, hhigh⟩, Nat.add_sub_cancel_left]
  rfl

theorem next_more (hlow : low ≤ 0x80 + k) (hhigh : 0x80 + k ≤ high) (ho : owed ≠ 0) :
    next (owed + 1) low high code (0x80 + k) =
      .grow (.inside owed 0x80 0xBF (code * 64 + k)) := by
  have hone : ¬ owed + 1 = 1 := by omega
  rw [next, if_pos ⟨hlow, hhigh⟩, Nat.add_sub_cancel_left]
  exact if_neg hone

/-! ## Sequences -/

theorem decodeFrom_first (hk : k < 256) (h : first k = .grow q) :
    decodeFrom .start (UInt8.ofNat k :: bs) = decodeFrom q bs := by
  simp only [decodeFrom, toNat_ofNat hk, h]

theorem decodeFrom_next (hk : k < 256) (h : next owed low high code k = .grow q) :
    decodeFrom (.inside owed low high code) (UInt8.ofNat k :: bs) = decodeFrom q bs := by
  simp only [decodeFrom, toNat_ofNat hk, h]

theorem decodeFrom_last (hk : k < 256) (h : next owed low high code k = .char c) :
    decodeFrom (.inside owed low high code) (UInt8.ofNat k :: bs) =
      (decodeFrom .start bs).map (c :: ·) := by
  simp only [decodeFrom, toNat_ofNat hk, h]

theorem decodeFrom_end (code : Nat) (hlow : low ≤ 0x80 + k) (hhigh : 0x80 + k ≤ high)
    (hk : k < 64) (bs : Bytes) :
    decodeFrom (.inside 1 low high code) (UInt8.ofNat (0x80 + k) :: bs) =
      (decodeFrom .start bs).map (Char.ofNat (code * 64 + k) :: ·) :=
  decodeFrom_last (by omega) (next_last hlow hhigh)

theorem decodeFrom_more (code : Nat) (ho : owed ≠ 0) (hlow : low ≤ 0x80 + k)
    (hhigh : 0x80 + k ≤ high) (hk : k < 64) (bs : Bytes) :
    decodeFrom (.inside (owed + 1) low high code) (UInt8.ofNat (0x80 + k) :: bs) =
      decodeFrom (.inside owed 0x80 0xBF (code * 64 + k)) bs :=
  decodeFrom_next (by omega) (next_more hlow hhigh ho)

theorem decodeFrom_two {i j : Nat} (hlow : 2 ≤ i) (hhigh : i < 32) (hj : j < 64) (bs : Bytes) :
    decodeFrom .start (UInt8.ofNat (0xC0 + i) :: UInt8.ofNat (0x80 + j) :: bs) =
      (decodeFrom .start bs).map (Char.ofNat (i * 64 + j) :: ·) := by
  rw [decodeFrom_first (by omega) (first_two hlow hhigh),
    decodeFrom_end _ (by omega) (by omega) hj]

theorem decodeFrom_three {i j k : Nat} (hi : i < 16) (hj : j < 64) (hk : k < 64)
    (hlong : i = 0 → 0x20 ≤ j) (hsurrogate : i = 13 → j < 0x20) (bs : Bytes) :
    decodeFrom .start
        (UInt8.ofNat (0xE0 + i) :: UInt8.ofNat (0x80 + j) :: UInt8.ofNat (0x80 + k) :: bs) =
      (decodeFrom .start bs).map (Char.ofNat ((i * 64 + j) * 64 + k) :: ·) := by
  rw [decodeFrom_first (by omega) (first_three hi),
    decodeFrom_more _ (by omega) (by split <;> omega) (by split <;> omega) hj,
    decodeFrom_end _ (by omega) (by omega) hk]

theorem decodeFrom_four {i j k l : Nat} (hi : i ≤ 4) (hj : j < 64) (hk : k < 64) (hl : l < 64)
    (hlong : i = 0 → 0x10 ≤ j) (hmost : i = 4 → j < 0x10) (bs : Bytes) :
    decodeFrom .start (UInt8.ofNat (0xF0 + i) :: UInt8.ofNat (0x80 + j) ::
        UInt8.ofNat (0x80 + k) :: UInt8.ofNat (0x80 + l) :: bs) =
      (decodeFrom .start bs).map (Char.ofNat (((i * 64 + j) * 64 + k) * 64 + l) :: ·) := by
  rw [decodeFrom_first (by omega) (first_four hi),
    decodeFrom_more _ (by omega) (by split <;> omega) (by split <;> omega) hj,
    decodeFrom_more _ (by omega) (by omega) (by omega) hk,
    decodeFrom_end _ (by omega) (by omega) hl]

theorem decodeFrom_encodeChar (c : Char) (bs : Bytes) :
    decodeFrom .start (encodeChar c ++ bs) = (decodeFrom .start bs).map (c :: ·) := by
  have hvalid : c.toNat < 0xD800 ∨ 0xDFFF < c.toNat ∧ c.toNat < 0x110000 := c.valid
  have hback : Char.ofNat c.toNat = c := Char.ofNat_toNat c
  rw [encodeChar]
  generalize c.toNat = n at hvalid hback ⊢
  subst hback
  split
  · rename_i h
    have hb : (UInt8.ofNat n).toNat = n := toNat_ofNat (by omega)
    simp only [List.cons_append, List.nil_append, decodeFrom, hb, first, if_pos h]
  split
  · have hcode : n / 64 * 64 + n % 64 = n := by omega
    have hdecode := decodeFrom_two (i := n / 64) (j := n % 64) (by omega) (by omega) (by omega) bs
    rwa [hcode] at hdecode
  split
  · have hcode : (n / 4096 * 64 + n / 64 % 64) * 64 + n % 64 = n := by omega
    have hdecode := decodeFrom_three (i := n / 4096) (j := n / 64 % 64) (k := n % 64) (by omega)
      (by omega) (by omega) (by omega) (by omega) bs
    rwa [hcode] at hdecode
  · have hcode : ((n / 262144 * 64 + n / 4096 % 64) * 64 + n / 64 % 64) * 64 + n % 64 = n := by
      omega
    have hdecode := decodeFrom_four (i := n / 262144) (j := n / 4096 % 64) (k := n / 64 % 64)
      (l := n % 64) (by omega) (by omega) (by omega) (by omega) (by omega) (by omega) bs
    rwa [hcode] at hdecode

theorem decode?_encode (s : List Char) : decode? (encode s) = some s := by
  unfold decode?
  induction s with
  | nil => rfl
  | cons c s ih =>
    have hcons : encode (c :: s) = encodeChar c ++ encode s := rfl
    rw [hcons, decodeFrom_encodeChar, ih]
    rfl

theorem encodeChar_ne_nil (c : Char) : encodeChar c ≠ [] := by
  simp only [encodeChar]
  split
  · exact List.cons_ne_nil _ _
  split
  · exact List.cons_ne_nil _ _
  split <;> exact List.cons_ne_nil _ _

theorem length_le_encode (s : List Char) : s.length ≤ (encode s).length := by
  induction s with
  | nil => exact Nat.le_refl 0
  | cons c s ih =>
    have hcons : encode (c :: s) = encodeChar c ++ encode s := rfl
    have hone := List.length_pos_iff.2 (encodeChar_ne_nil c)
    rw [hcons, List.length_append, List.length_cons]
    omega

/-! ## Reading any bytes -/

theorem exists_of_decodeFrom_cons (h : decodeFrom q (b :: bs) = some cs) :
    ∃ rest, decodeFrom (stepLossy q b).2 bs = some rest ∧ cs = (stepLossy q b).1 ++ rest := by
  cases q <;> simp only [decodeFrom, stepLossy, startLossy] at h ⊢
  all_goals
    split at h
    · obtain ⟨rest, hrest, rfl⟩ := Option.map_eq_some_iff.1 h
      exact ⟨rest, hrest, rfl⟩
    · exact ⟨cs, h, rfl⟩
    · cases h

theorem lossyFrom_of_decodeFrom (h : decodeFrom q bs = some cs) : lossyFrom q bs = cs := by
  induction bs generalizing q cs with
  | nil =>
    cases q with
    | start => exact Option.some.inj h
    | inside => cases h
  | cons b bs ih =>
    obtain ⟨rest, hrest, rfl⟩ := exists_of_decodeFrom_cons h
    have hcons : lossyFrom q (b :: bs) =
        (stepLossy q b).1 ++ lossyFrom (stepLossy q b).2 bs := by
      cases q <;> rfl
    rw [hcons, ih hrest]

theorem toStringLossy_encode (s : List Char) : toStringLossy (encode s) = String.ofList s :=
  congrArg String.ofList (lossyFrom_of_decodeFrom (decode?_encode s))

/-! ## ASCII -/

theorem encodeChar_ascii (h : c.toNat < 0x80) : encodeChar c = [UInt8.ofNat c.toNat] := if_pos h

theorem encode_ascii {cs : List Char} (h : ∀ c ∈ cs, c.toNat < 0x80) :
    encode cs = cs.map fun c => UInt8.ofNat c.toNat := by
  induction cs with
  | nil => rfl
  | cons c cs ih =>
    have hcons : encode (c :: cs) = encodeChar c ++ encode cs := rfl
    rw [hcons, encodeChar_ascii (h c List.mem_cons_self), ih fun d hd => h d (List.mem_cons_of_mem c hd)]
    rfl

theorem le_of_mem_encodeChar (h : 0x80 ≤ c.toNat) (hb : b ∈ encodeChar c) : 0x80 ≤ b.toNat := by
  have hlt : c.toNat < 0x110000 := by
    rcases c.valid with hlow | ⟨-, hhigh⟩
    · have : c.toNat < 0xD800 := hlow
      omega
    · exact hhigh
  rw [encodeChar, if_neg (by omega)] at hb
  split at hb
  · simp only [List.mem_cons, List.not_mem_nil, or_false] at hb
    rcases hb with rfl | rfl <;> rw [toNat_ofNat (by omega)] <;> omega
  split at hb <;> simp only [List.mem_cons, List.not_mem_nil, or_false] at hb
  · rcases hb with rfl | rfl | rfl <;> rw [toNat_ofNat (by omega)] <;> omega
  · rcases hb with rfl | rfl | rfl | rfl <;> rw [toNat_ofNat (by omega)] <;> omega

theorem mem_of_mem_encode {s : List Char} (hk : k < 0x80) (h : UInt8.ofNat k ∈ encode s) :
    Char.ofNat k ∈ s := by
  obtain ⟨c, hc, hb⟩ := List.mem_flatMap.1 h
  have hbyte : (UInt8.ofNat k).toNat = k := toNat_ofNat (by omega)
  by_cases hascii : c.toNat < 0x80
  · rw [encodeChar_ascii hascii, List.mem_singleton] at hb
    have hcode := congrArg UInt8.toNat hb
    rw [hbyte, toNat_ofNat (by omega)] at hcode
    rwa [hcode, Char.ofNat_toNat]
  · have hle := le_of_mem_encodeChar (Nat.not_lt.1 hascii) hb
    omega

/-! ## Well-formed sequences

A sequence that can be read is what the characters that are read are written as. -/

theorem toNat_charOfNat (h : k < 0xD800 ∨ 0xDFFF < k ∧ k < 0x110000) :
    (Char.ofNat k).toNat = k := by
  have hvalid : k.isValidChar := h
  rw [Char.ofNat, dif_pos hvalid]
  rfl

theorem encodeChar_two {i j : Nat} (hlow : 2 ≤ i) (hhigh : i < 32) (hj : j < 64) :
    encodeChar (Char.ofNat (i * 64 + j)) = [UInt8.ofNat (0xC0 + i), UInt8.ofNat (0x80 + j)] := by
  have hdiv : (i * 64 + j) / 64 = i := by omega
  have hmod : (i * 64 + j) % 64 = j := by omega
  rw [encodeChar, toNat_charOfNat (by omega), if_neg (by omega), if_pos (by omega), hdiv, hmod]

theorem encodeChar_three {i j k : Nat} (hi : i < 16) (hj : j < 64) (hk : k < 64)
    (hlong : i = 0 → 0x20 ≤ j) (hsurrogate : i = 13 → j < 0x20) :
    encodeChar (Char.ofNat ((i * 64 + j) * 64 + k)) =
      [UInt8.ofNat (0xE0 + i), UInt8.ofNat (0x80 + j), UInt8.ofNat (0x80 + k)] := by
  have hfirst : ((i * 64 + j) * 64 + k) / 4096 = i := by omega
  have hsecond : ((i * 64 + j) * 64 + k) / 64 % 64 = j := by omega
  have hthird : ((i * 64 + j) * 64 + k) % 64 = k := by omega
  rw [encodeChar, toNat_charOfNat (by omega), if_neg (by omega), if_neg (by omega),
    if_pos (by omega), hfirst, hsecond, hthird]

theorem encodeChar_four {i j k l : Nat} (hi : i ≤ 4) (hj : j < 64) (hk : k < 64) (hl : l < 64)
    (hlong : i = 0 → 0x10 ≤ j) (hmost : i = 4 → j < 0x10) :
    encodeChar (Char.ofNat (((i * 64 + j) * 64 + k) * 64 + l)) =
      [UInt8.ofNat (0xF0 + i), UInt8.ofNat (0x80 + j), UInt8.ofNat (0x80 + k),
        UInt8.ofNat (0x80 + l)] := by
  have hfirst : (((i * 64 + j) * 64 + k) * 64 + l) / 262144 = i := by omega
  have hsecond : (((i * 64 + j) * 64 + k) * 64 + l) / 4096 % 64 = j := by omega
  have hthird : (((i * 64 + j) * 64 + k) * 64 + l) / 64 % 64 = k := by omega
  have hfourth : (((i * 64 + j) * 64 + k) * 64 + l) % 64 = l := by omega
  rw [encodeChar, toNat_charOfNat (by omega), if_neg (by omega), if_neg (by omega),
    if_neg (by omega), hfirst, hsecond, hthird, hfourth]

theorem exists_of_decodeFrom_inside (hlow : 0x80 ≤ low) (hhigh : high ≤ 0xBF)
    (h : decodeFrom (.inside owed low high code) bs = some cs) :
    ∃ k rest, bs = UInt8.ofNat (0x80 + k) :: rest ∧ low ≤ 0x80 + k ∧ 0x80 + k ≤ high ∧ k < 64 := by
  cases bs with
  | nil => cases h
  | cons b rest =>
    have hrange : low ≤ b.toNat ∧ b.toNat ≤ high := by
      by_contra hout
      have hrefuse : next owed low high code b.toNat = .refuse := if_neg hout
      simp only [decodeFrom, hrefuse, reduceCtorEq] at h
    obtain ⟨k, hk⟩ := Nat.exists_eq_add_of_le (hlow.trans hrange.1)
    rw [hk] at hrange
    refine ⟨k, rest, ?_, hrange.1, hrange.2, by omega⟩
    rw [← hk, UInt8.ofNat_toNat]

theorem exists_of_decodeFrom_last (hlow : 0x80 ≤ low) (hhigh : high ≤ 0xBF)
    (h : decodeFrom (.inside 1 low high code) bs = some cs) :
    ∃ k rest cs', bs = UInt8.ofNat (0x80 + k) :: rest ∧ low ≤ 0x80 + k ∧ 0x80 + k ≤ high ∧ k < 64 ∧
      decodeFrom .start rest = some cs' ∧ cs = Char.ofNat (code * 64 + k) :: cs' := by
  obtain ⟨k, rest, rfl, hklow, hkhigh, hk⟩ := exists_of_decodeFrom_inside hlow hhigh h
  rw [decodeFrom_end code hklow hkhigh hk] at h
  obtain ⟨cs', hcs', rfl⟩ := Option.map_eq_some_iff.1 h
  exact ⟨k, rest, cs', rfl, hklow, hkhigh, hk, hcs', rfl⟩

theorem exists_of_decodeFrom_more (ho : owed ≠ 0) (hlow : 0x80 ≤ low) (hhigh : high ≤ 0xBF)
    (h : decodeFrom (.inside (owed + 1) low high code) bs = some cs) :
    ∃ k rest, bs = UInt8.ofNat (0x80 + k) :: rest ∧ low ≤ 0x80 + k ∧ 0x80 + k ≤ high ∧ k < 64 ∧
      decodeFrom (.inside owed 0x80 0xBF (code * 64 + k)) rest = some cs := by
  obtain ⟨k, rest, rfl, hklow, hkhigh, hk⟩ := exists_of_decodeFrom_inside hlow hhigh h
  rw [decodeFrom_more code ho hklow hkhigh hk] at h
  exact ⟨k, rest, rfl, hklow, hkhigh, hk, h⟩

theorem first_cases (n : Nat) :
    (n < 0x80 ∧ first n = .char (Char.ofNat n)) ∨ (∃ i, 2 ≤ i ∧ i < 32 ∧ n = 0xC0 + i) ∨
      (∃ i < 16, n = 0xE0 + i) ∨ (∃ i ≤ 4, n = 0xF0 + i) ∨ first n = .refuse := by
  rcases Nat.lt_or_ge n 0x80 with hone | hone
  · exact .inl ⟨hone, if_pos hone⟩
  rcases Nat.lt_or_ge n 0xC2 with hlater | hlater
  · simp only [first, if_neg hone.not_gt, if_pos hlater, or_true]
  rcases Nat.lt_or_ge n 0xE0 with htwo | htwo
  · exact .inr (.inl ⟨n - 0xC0, by omega, by omega, by omega⟩)
  rcases Nat.lt_or_ge n 0xF0 with hthree | hthree
  · exact .inr (.inr (.inl ⟨n - 0xE0, by omega, by omega⟩))
  rcases Nat.lt_or_ge n 0xF5 with hfour | hfour
  · exact .inr (.inr (.inr (.inl ⟨n - 0xF0, by omega, by omega⟩)))
  · simp (disch := omega) only [first, if_neg, or_true]

theorem exists_of_decodeFrom_start (h : decodeFrom .start (b :: bs) = some cs) :
    ∃ c rest cs', b :: bs = encodeChar c ++ rest ∧ decodeFrom .start rest = some cs' ∧
      cs = c :: cs' := by
  have hb : UInt8.ofNat b.toNat = b := UInt8.ofNat_toNat
  -- a case for each number of bytes that the first one announces
  rcases first_cases b.toNat with ⟨hn, hfirst⟩ | ⟨i, hlow, hhigh, hn⟩ | ⟨i, hi, hn⟩ | ⟨i, hi, hn⟩ |
    hrefuse
  · simp only [decodeFrom, hfirst] at h
    obtain ⟨cs', hcs', rfl⟩ := Option.map_eq_some_iff.1 h
    have hcode : (Char.ofNat b.toNat).toNat = b.toNat := toNat_charOfNat (by omega)
    refine ⟨_, bs, cs', ?_, hcs', rfl⟩
    rw [encodeChar_ascii (by omega), hcode, hb]
    rfl
  · rw [← hb, hn, decodeFrom_first (by omega) (first_two hlow hhigh)] at h
    obtain ⟨j, rest, cs', rfl, -, -, hj, hrest, rfl⟩ :=
      exists_of_decodeFrom_last (by omega) (by omega) h
    refine ⟨_, rest, cs', ?_, hrest, rfl⟩
    rw [encodeChar_two hlow hhigh hj, ← hb, hn]
    rfl
  · rw [← hb, hn, decodeFrom_first (by omega) (first_three hi)] at h
    obtain ⟨j, rest, rfl, hjlow, hjhigh, hj, h⟩ :=
      exists_of_decodeFrom_more (by decide) (by split <;> omega) (by split <;> omega) h
    obtain ⟨k, rest, cs', rfl, -, -, hk, hrest, rfl⟩ :=
      exists_of_decodeFrom_last (by omega) (by omega) h
    refine ⟨_, rest, cs', ?_, hrest, rfl⟩
    rw [encodeChar_three hi hj hk (fun hzero => ?_) fun hed => ?_, ← hb, hn]
    · rfl
    · rw [if_pos hzero] at hjlow
      omega
    · rw [if_pos hed] at hjhigh
      omega
  · rw [← hb, hn, decodeFrom_first (by omega) (first_four hi)] at h
    obtain ⟨j, rest, rfl, hjlow, hjhigh, hj, h⟩ :=
      exists_of_decodeFrom_more (by decide) (by split <;> omega) (by split <;> omega) h
    obtain ⟨k, rest, rfl, -, -, hk, h⟩ :=
      exists_of_decodeFrom_more (by decide) (by omega) (by omega) h
    obtain ⟨l, rest, cs', rfl, -, -, hl, hrest, rfl⟩ :=
      exists_of_decodeFrom_last (by omega) (by omega) h
    refine ⟨_, rest, cs', ?_, hrest, rfl⟩
    rw [encodeChar_four hi hj hk hl (fun hzero => ?_) fun hfour => ?_, ← hb, hn]
    · rfl
    · rw [if_pos hzero] at hjlow
      omega
    · rw [if_pos hfour] at hjhigh
      omega
  · simp only [decodeFrom, hrefuse, reduceCtorEq] at h

theorem eq_encode_of_decode? (h : decode? bs = some cs) : bs = encode cs := by
  unfold decode? at h
  induction cs generalizing bs with
  | nil =>
    cases bs with
    | nil => rfl
    | cons b bs =>
      obtain ⟨c, rest, cs', -, -, hcs⟩ := exists_of_decodeFrom_start h
      cases hcs
  | cons c cs ih =>
    cases bs with
    | nil => cases h
    | cons b bs =>
      obtain ⟨d, rest, ds, hbytes, hrest, hcs⟩ := exists_of_decodeFrom_start h
      obtain ⟨rfl, rfl⟩ := List.cons.inj hcs
      rw [hbytes, ih hrest]
      rfl

theorem decode?_eq_some_iff : decode? bs = some cs ↔ bs = encode cs :=
  ⟨eq_encode_of_decode?, fun h => h ▸ decode?_encode cs⟩

end OrderDesk.Text.Utf8
