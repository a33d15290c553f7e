import OrderDesk.Proofs.Wire.Values

/-!
Values that are cut off. A reader that meets the end of its input within a string refuses it for its
end; within the digits of a number it may give a smaller one, and then nothing is left.
-/

namespace OrderDesk.Text.Decimal

theorem exists_ofNat_of_take (n : Nat) {k : Nat} (hk : 0 < k) :
    ∃ m ≤ n, (ofNat n).take k = ofNat m ∧ (0 < n → 0 < m) := by
  induction n using Nat.strongRecOn with
  | ind n ih =>
    by_cases hall : (ofNat n).length ≤ k
    · exact ⟨n, Nat.le_refl n, List.take_of_length_le hall, id⟩
    · have hbase : 10 ≤ n := by
        by_contra hlt
        rw [ofNat, Nat.toDigits_of_lt_base (Nat.not_le.1 hlt)] at hall
        exact hall hk
      have hsplit : ofNat n = ofNat (n / 10) ++ [Nat.digitChar (n % 10)] :=
        Nat.toDigits_of_base_le (by decide) hbase
      obtain ⟨m, hm, htake, hpos⟩ := ih (n / 10) (by omega)
      have hshort : k ≤ (ofNat (n / 10)).length := by
        rw [hsplit, List.length_append, List.length_singleton] at hall
        omega
      refine ⟨m, by omega, ?_, fun _ => hpos (by omega)⟩
      rw [hsplit, List.take_append_of_le_length hshort, htake]

theorem ofInt_take_cases (i : Int) (k : Nat) :
    (ofInt i).take k = [] ∨ (ofInt i).take k = ['-'] ∨
      ∃ j, (ofInt i).take k = ofInt j ∧ min i 0 ≤ j ∧ j ≤ max i 0 := by
  cases k with
  | zero => exact .inl rfl
  | succ k =>
    right
    by_cases hi : i < 0
    · rw [ofInt, if_pos hi, List.take_succ_cons]
      cases k with
      | zero => exact .inl rfl
      | succ k =>
        obtain ⟨m, hm, htake, hpos⟩ := exists_ofNat_of_take i.natAbs (Nat.succ_pos k)
        have hneg : -(m : Int) < 0 := by omega
        refine .inr ⟨-(m : Int), ?_, by omega, by omega⟩
        rw [htake, ofInt, if_pos hneg, Int.natAbs_neg, Int.natAbs_natCast]
    · obtain ⟨m, hm, htake, -⟩ := exists_ofNat_of_take i.natAbs (Nat.succ_pos k)
      refine .inr ⟨m, ?_, by omega, by omega⟩
      rw [ofInt, if_neg hi, htake, ofInt, if_neg (by omega), Int.natAbs_natCast]

end OrderDesk.Text.Decimal

namespace OrderDesk.Wire

open Text.Utf8 (encode encodeChar encode_append)

variable {α β : Type} {p s t : Input} {b : UInt8} {text : List Char} {a : α}

/-- The beginning of an input, cut off at any byte before its end. -/
def Cut (p s : Input) : Prop := p <+: s ∧ p ≠ s

theorem not_cut_nil : ¬ Cut p [] := fun h => h.2 (List.prefix_nil.1 h.1)

theorem Cut.cons_cases (h : Cut p (b :: s)) : p = [] ∨ ∃ q, p = b :: q ∧ Cut q s := by
  obtain ⟨hstart, hne⟩ := h
  rcases List.prefix_cons_iff.1 hstart with hnil | ⟨q, rfl, hq⟩
  · exact .inl hnil
  · exact .inr ⟨q, rfl, hq, fun he => hne (congrArg (b :: ·) he)⟩

theorem prefix_append_cases (h : p <+: s ++ t) : Cut p s ∨ ∃ q, p = s ++ q ∧ q <+: t := by
  induction s generalizing p with
  | nil => exact .inr ⟨p, rfl, h⟩
  | cons b s ih =>
    rcases List.prefix_cons_iff.1 h with rfl | ⟨q, rfl, hq⟩
    · exact .inl ⟨List.nil_prefix, (List.cons_ne_nil b s).symm⟩
    · rcases ih hq with hcut | ⟨r, rfl, hr⟩
      · exact .inl ⟨(List.prefix_cons_inj b).2 hcut.1, fun he => hcut.2 (List.cons.inj he).2⟩
      · exact .inr ⟨r, rfl, hr⟩

theorem Cut.append_cases (h : Cut p (s ++ t)) : Cut p s ∨ ∃ q, p = s ++ q ∧ Cut q t := by
  rcases prefix_append_cases h.1 with hcut | ⟨q, rfl, hq⟩
  · exact .inl hcut
  · exact .inr ⟨q, rfl, hq, fun he => h.2 (congrArg (s ++ ·) he)⟩

theorem prefix_of_cut_concat (h : Cut p (s ++ [b])) : p <+: s := by
  rcases List.prefix_concat_iff.1 h.1 with he | hstart
  · exact absurd he h.2
  · exact hstart

def Wants (read : Reader α) (text : List Char) : Prop :=
  ∀ p, Cut p (encode text) → read p = .error .eof

def Exhausts (read : Reader α) (text : List Char) : Prop :=
  ∀ p, Cut p (encode text) → read p = .error .eof ∨ ∃ a, read p = .ok (a, [])

structure Sturdy (read : Reader α) (text : List Char) (a : α) : Prop where
  reads : Reads read text a
  exhausts : Exhausts read text

theorem Wants.exhausts {read : Reader α} (h : Wants read text) : Exhausts read text :=
  fun p hp => .inl (h p hp)

theorem Sturdy.map {read : Reader α} (h : Sturdy read text a) (f : α → β) :
    Sturdy (fun s => (read s).map fun r => (f r.1, r.2)) text (f a) := by
  refine ⟨h.reads.map f, fun p hp => ?_⟩
  rcases h.exhausts p hp with he | ⟨c, hc⟩
  · exact .inl (by rw [he]; rfl)
  · exact .inr ⟨f c, by rw [hc]; rfl⟩

/-! ## Strings -/

theorem scanString_cut {step : StringState → UInt8 → StringStep} {q : StringState}
    {out : List UInt8} (h : scanString step q s = .ok (out, [])) (hp : Cut p s) :
    scanString step q p = .error .eof := by
  induction s generalizing p q out with
  | nil => exact absurd hp not_cut_nil
  | cons b s ih =>
    rcases hp.cons_cases with rfl | ⟨r, rfl, hr⟩
    · rfl
    · cases hstep : step q b with
      | finish =>
        simp only [scanString, hstep] at h
        obtain rfl : s = [] := (Prod.mk.inj (Except.ok.inj h)).2
        exact absurd hr not_cut_nil
      | refuse =>
        simp only [scanString, hstep] at h
        cases h
      | go bs q =>
        rw [scanString_go hstep] at h ⊢
        cases hs : scanString step q s with
        | error e =>
          rw [hs] at h
          cases h
        | ok r =>
          rw [hs] at h
          obtain ⟨more, rest⟩ := r
          obtain rfl : rest = [] := (Prod.mk.inj (Except.ok.inj h)).2
          rw [ih hs hr]
          rfl

theorem stringRest_cut {cs : List Char}
    (hp : Cut p (encode (cs.flatMap writeChar) ++ [quoteMark])) : stringRest p = .error .eof := by
  have hscan : scanString keepStep .plain p = .error .eof :=
    scanString_cut (scanString_writeChars cs []) hp
  rw [stringRest, hscan]
  rfl

theorem wants_string {read : Reader α} (hnil : read [] = .error .eof)
    (hquote : ∀ p, stringRest p = .error .eof → read (quoteMark :: p) = .error .eof)
    (cs : List Char) : Wants read (writeChars cs) := by
  intro p hp
  have hbytes := encode_writeChars cs []
  rw [List.append_nil] at hbytes
  rw [hbytes] at hp
  rcases hp.cons_cases with rfl | ⟨q, rfl, hq⟩
  · exact hnil
  · exact hquote q (stringRest_cut hq)

theorem sturdy_text (s : String) : Sturdy readText (writeText s) s := by
  refine ⟨reads_text s, (wants_string rfl (fun p hp => ?_) s.toList).exhausts⟩
  simp only [readText, valueStart_cons (b := quoteMark) (by decide), bind, Except.bind, if_true, hp]

theorem sturdy_moment (t : Moment) : Sturdy readMoment (writeMoment t) t := by
  refine ⟨reads_moment t, (wants_string rfl (fun p hp => ?_) _).exhausts⟩
  simp only [readMoment, valueStart_cons (b := quoteMark) (by decide), bind, Except.bind, if_true, hp]

theorem sturdy_named {all : List α} {name : α → String}
    (h : all.find? (fun b => name b = name a) = some a) :
    Sturdy (readNamed all name) (writeText (name a)) a := by
  refine ⟨reads_named h, (wants_string rfl (fun p hp => ?_) _).exhausts⟩
  simp only [readNamed, valueStart_cons (b := quoteMark) (by decide), bind, Except.bind, if_true, hp]

/-! ## Integers -/

theorem ascii_of_mem_ofInt {i : Int} {c : Char} (h : c ∈ Text.Decimal.ofInt i) :
    c.toNat < 0x80 := by
  have hdigit {n : Nat} (hc : c ∈ Text.Decimal.ofNat n) : c.toNat < 0x80 :=
    ascii_of_isDigit (Text.Decimal.isDigit_of_mem_ofNat hc)
  unfold Text.Decimal.ofInt at h
  split at h
  · rcases List.mem_cons.1 h with rfl | h
    · decide
    · exact hdigit h
  · exact hdigit h

theorem encode_ofInt_take (i : Int) (k : Nat) :
    (encode (Text.Decimal.ofInt i)).take k = encode ((Text.Decimal.ofInt i).take k) := by
  rw [Text.Utf8.encode_ascii fun c => ascii_of_mem_ofInt,
    Text.Utf8.encode_ascii fun c hc => ascii_of_mem_ofInt (List.mem_of_mem_take hc), List.map_take]

theorem sturdy_integer (i : Int64) : Sturdy readInteger (writeInteger i) i := by
  refine ⟨reads_integer i, fun p hp => ?_⟩
  have htake : p = encode ((Text.Decimal.ofInt i.toInt).take p.length) := by
    rw [← encode_ofInt_take]
    exact List.prefix_iff_eq_take.1 hp.1
  rcases Text.Decimal.ofInt_take_cases i.toInt p.length with h | h | ⟨j, h, hlow, hhigh⟩ <;>
    rw [h] at htake <;> subst htake
  · exact .inl rfl
  · exact .inl rfl
  · have hmin := i.le_toInt
    have hmax := i.toInt_lt
    have hj : (Int64.ofInt j).toInt = j := Int64.toInt_ofInt_of_le (by omega) (by omega)
    have hread := reads_integer (Int64.ofInt j) [] ends_nil
    rw [writeInteger, hj, List.append_nil] at hread
    exact .inr ⟨_, hread⟩

end OrderDesk.Wire
