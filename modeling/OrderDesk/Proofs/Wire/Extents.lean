import OrderDesk.Proofs.Wire.Grammar
import OrderDesk.Wire.Record

/-!
Extents. A reader that expects a certain value stops, when it succeeds, where any reader would: what
it leaves is what is left when the value is skipped.
-/

namespace OrderDesk.Wire

open Text.Utf8 (encode encodeChar encode_append)

variable {α β : Type} {s t u v r rest : Input} {b c : UInt8} {n : Nat} {a : α}

/-! ## What is skipped -/

theorem skipElements_cases (h : skipElements (n + 1) s = .ok r) :
    ∃ t, skipValue n s = .ok t ∧ (skipSpace t = closeBracket :: r ∨
      ∃ u, skipSpace t = comma :: u ∧ skipElements n u = .ok r) := by
  simp only [skipElements] at h
  obtain ⟨t, ht, h⟩ := exists_of_bind h
  refine ⟨t, ht, ?_⟩
  split at h
  · cases h
  · rename_i b u hu
    split_ifs at h with hcomma hbracket
    · exact .inr ⟨u, hcomma ▸ hu, h⟩
    · cases h
      exact .inl (hbracket ▸ hu)

theorem skipMembers_cases (h : skipMembers (n + 1) s = .ok r) :
    ∃ t u, NameSpans s t ∧ skipValue n t = .ok u ∧ (skipSpace u = closeBrace :: r ∨
      ∃ v, skipSpace u = comma :: v ∧ skipMembers n v = .ok r) := by
  cases hs : skipSpace s with
  | nil =>
    simp only [skipMembers, hs] at h
    cases h
  | cons q v =>
    simp only [skipMembers, hs] at h
    split_ifs at h with hquote
    obtain ⟨w, hw, h⟩ := exists_of_bind h
    obtain ⟨t, ht, h⟩ := exists_of_bind h
    obtain ⟨u, hu, h⟩ := exists_of_bind h
    refine ⟨t, u, ⟨v, w, Decidable.not_not.1 hquote ▸ hs, hw, ht⟩, hu, ?_⟩
    split at h
    · cases h
    · rename_i b rest hrest
      split_ifs at h with hcomma hbrace
      · exact .inr ⟨rest, hcomma ▸ hrest, h⟩
      · cases h
        exact .inl (hbrace ▸ hrest)

theorem spans_of_skipValue (hes : ∀ s r, skipElements n s = .ok r → Spans .elements s r)
    (hms : ∀ s r, skipMembers n s = .ok r → Spans .members s r)
    (h : skipValue (n + 1) s = .ok r) : Spans .value s r := by
  cases hs : skipSpace s with
  | nil =>
    simp only [skipValue, hs] at h
    cases h
  | cons b t =>
    simp only [skipValue, hs] at h
    split_ifs at h with hn ht hf hminus hdigit hquote hbracket hbrace
    · exact .word (.inl ⟨hn, rfl⟩) hs h
    · exact .word (.inr (.inl ⟨ht, rfl⟩)) hs h
    · exact .word (.inr (.inr ⟨hf, rfl⟩)) hs h
    · exact .negative (hminus ▸ hs) h
    · exact .positive hs hdigit h
    · exact .string (hquote ▸ hs) h
    · split at h
      · cases h
      · rename_i c after hafter
        split_ifs at h with hclose
        · cases h
          exact .emptyArray (hbracket ▸ hs) (hclose ▸ hafter)
        · rw [← hafter, skipElements_skipSpace] at h
          exact .array (hbracket ▸ hs) (hes _ _ h)
    · split at h
      · cases h
      · rename_i c after hafter
        split_ifs at h with hclose
        · cases h
          exact .emptyObject (hbrace ▸ hs) (hclose ▸ hafter)
        · rw [← hafter, skipMembers_skipSpace] at h
          exact .object (hbrace ▸ hs) (hms _ _ h)

theorem spans_of_skipped (n : Nat) :
    (∀ s r, skipValue n s = .ok r → Spans .value s r) ∧
      (∀ s r, skipElements n s = .ok r → Spans .elements s r) ∧
      ∀ s r, skipMembers n s = .ok r → Spans .members s r := by
  -- the three functions call each other with less fuel, so one induction carries them all
  induction n with
  | zero => exact ⟨nofun, nofun, nofun⟩
  | succ n ih =>
    obtain ⟨hvs, hes, hms⟩ := ih
    refine ⟨fun s r h => spans_of_skipValue hes hms h, fun s r h => ?_, fun s r h => ?_⟩
    · obtain ⟨t, ht, hlast | ⟨u, hu, h⟩⟩ := skipElements_cases h
      · exact .lastElement (hvs _ _ ht) hlast
      · exact .nextElement (hvs _ _ ht) hu (hes _ _ h)
    · obtain ⟨t, u, ht, hu, hlast | ⟨v, hv, h⟩⟩ := skipMembers_cases h
      · exact .lastMember ht (hvs _ _ hu) hlast
      · exact .nextMember ht (hvs _ _ hu) hv (hms _ _ h)

theorem spans_of_skip (h : skip s = .ok r) : Spans .value s r := (spans_of_skipped _).1 s r h

/-! ## Plain values -/

structure Regular (read : Reader α) : Prop where
  start : ∀ s, read (skipSpace s) = read s
  spans : ∀ s a r, read s = .ok (a, r) → Spans .value s r

theorem valueStart_skipSpace (s : Input) : valueStart (skipSpace s) = valueStart s := by
  rw [valueStart, skipSpace_idem, valueStart]

theorem skipSpace_of_valueStart (h : valueStart s = .ok (b, t)) : skipSpace s = b :: t := by
  unfold valueStart at h
  split at h
  · cases h
  · rename_i c u hu
    cases h
    exact hu

theorem Regular.map {read : Reader α} (h : Regular read) (f : α → β) :
    Regular fun s => (read s).map fun r => (f r.1, r.2) := by
  refine ⟨fun s => by rw [h.start], fun s a r hread => ?_⟩
  obtain ⟨⟨x, left⟩, hx, heq⟩ := exists_of_map hread
  cases heq
  exact h.spans _ _ _ hx

theorem regular_text : Regular readText := by
  refine ⟨fun s => by simp only [readText, valueStart_skipSpace], fun s a r h => ?_⟩
  obtain ⟨⟨b, t⟩, hs, h⟩ := exists_of_bind h
  dsimp only at h
  split_ifs at h with hquote
  exact .string (hquote ▸ skipSpace_of_valueStart hs) (skipString_of_stringRest h)

theorem regular_moment : Regular readMoment := by
  refine ⟨fun s => by simp only [readMoment, valueStart_skipSpace], fun s a r h => ?_⟩
  obtain ⟨⟨b, t⟩, hs, h⟩ := exists_of_bind h
  dsimp only at h
  split_ifs at h with hquote
  obtain ⟨⟨text, u⟩, htext, h⟩ := exists_of_bind h
  dsimp only at h
  split at h <;> cases h
  exact .string (hquote ▸ skipSpace_of_valueStart hs) (skipString_of_stringRest htext)

theorem regular_named (all : List α) (name : α → String) : Regular (readNamed all name) := by
  refine ⟨fun s => by simp only [readNamed, valueStart_skipSpace], fun s a r h => ?_⟩
  obtain ⟨⟨b, t⟩, hs, h⟩ := exists_of_bind h
  dsimp only at h
  split_ifs at h with hquote hbrace
  · obtain ⟨⟨text, u⟩, htext, h⟩ := exists_of_bind h
    obtain ⟨x, hx, h⟩ := exists_of_bind h
    cases h
    exact .string (hquote ▸ skipSpace_of_valueStart hs) (skipString_of_stringRest htext)
  · obtain ⟨⟨q, u⟩, hu, h⟩ := exists_of_bind h
    dsimp only at h
    split_ifs at h with hname
    obtain ⟨⟨text, v⟩, htext, h⟩ := exists_of_bind h
    obtain ⟨x, hx, h⟩ := exists_of_bind h
    obtain ⟨w, hw, h⟩ := exists_of_bind h
    obtain ⟨⟨m, y⟩, hy, h⟩ := exists_of_bind h
    dsimp only at h
    split_ifs at h with hnull
    obtain ⟨z, hz, h⟩ := exists_of_bind h
    obtain ⟨⟨e, left⟩, he, h⟩ := exists_of_bind h
    dsimp only at h
    split_ifs at h with hend
    cases h
    have hspan : NameSpans t w :=
      ⟨u, v, hname ▸ skipSpace_of_valueStart hu, skipString_of_stringRest htext, hw⟩
    have hvalue : Spans .value w z := .word (.inl ⟨hnull, rfl⟩) (skipSpace_of_valueStart hy) hz
    exact .object (hbrace ▸ skipSpace_of_valueStart hs)
      (.lastMember hspan hvalue (hend ▸ skipSpace_of_valueStart he))

/-! ## Integers -/

section
variable {negative : Bool} {k dropped : Nat} {e : Int} {x : Numeral}

theorem skipDigits_of_digit (hs : s = b :: t) (hb : ¬ (!isDigit b) = true) :
    skipDigits s = .ok (s.dropWhile isDigit) := by
  subst hs
  have hdigit : isDigit b = true := by simpa using hb
  simp only [skipDigits, hdigit, if_true]

theorem skipDigits_of_exponentRest (h : exponentRest negative k e s = .ok (x, r)) :
    skipDigits (exponentSign s).2 = .ok r := by
  simp only [exponentRest] at h
  split at h
  · cases h
  · rename_i b t hs
    split_ifs at h with hdigit hbig hzero hnegative hdown
    all_goals rw [skipDigits_of_digit hs hdigit]
    · exact congrArg Except.ok (Prod.mk.inj (Except.ok.inj h)).2
    · exact congrArg Except.ok (Prod.mk.inj (Except.ok.inj h)).2
    · obtain ⟨y, -, heq⟩ := exists_of_map h
      exact congrArg Except.ok (Prod.mk.inj heq).2
    · obtain ⟨y, -, heq⟩ := exists_of_map h
      exact congrArg Except.ok (Prod.mk.inj heq).2

theorem skipExponent_of_exponentPart (h : exponentPart negative k e s = .ok (x, r)) :
    skipExponent s = .ok r := by
  cases s with
  | nil =>
    obtain ⟨y, -, heq⟩ := exists_of_map h
    cases heq
    rfl
  | cons b s =>
    simp only [exponentPart] at h
    split_ifs at h with hmark
    · simp only [skipExponent, hmark, if_true]
      exact skipDigits_of_exponentRest h
    · obtain ⟨y, -, heq⟩ := exists_of_map h
      cases heq
      simp only [skipExponent, hmark, Bool.false_eq_true, if_false]

theorem skipExponent_of_fractionRest (h : fractionRest negative k e s = .ok (x, r)) :
    (skipDigits s >>= skipExponent) = .ok r := by
  cases s with
  | nil => cases h
  | cons b s =>
    simp only [fractionRest] at h
    split_ifs at h with hdigit
    rw [skipDigits_of_digit rfl hdigit]
    exact skipExponent_of_exponentPart h

theorem skipFraction_of_integerRest (h : integerRest negative k dropped s = .ok (x, r)) :
    skipFraction s = .ok r := by
  cases s with
  | nil =>
    simp only [integerRest] at h
    split_ifs at h
    · cases h
      rfl
    · obtain ⟨y, -, heq⟩ := exists_of_map h
      cases heq
      rfl
  | cons b s =>
    simp only [integerRest] at h
    split_ifs at h with hpoint hmark hall
    · simp only [skipFraction, if_pos hpoint]
      exact skipExponent_of_fractionRest h
    · simp only [skipFraction, if_neg hpoint, skipExponent, hmark, if_true]
      exact skipDigits_of_exponentRest h
    · cases h
      simp only [skipFraction, if_neg hpoint, skipExponent, hmark, Bool.false_eq_true, if_false]
    · obtain ⟨y, -, heq⟩ := exists_of_map h
      cases heq
      simp only [skipFraction, if_neg hpoint, skipExponent, hmark, Bool.false_eq_true, if_false]

theorem skipNumeral_of_numeralRest (h : numeralRest negative s = .ok (x, r)) :
    skipNumeral s = .ok r := by
  cases s with
  | nil => cases h
  | cons b s =>
    simp only [numeralRest] at h
    split_ifs at h with hdigit hzero
    have hlen : (b :: s).length - ((b :: s).dropWhile isDigit).length =
        ((b :: s).takeWhile isDigit).length := by
      have hsplit := congrArg List.length (List.takeWhile_append_dropWhile (p := isDigit) (l := b :: s))
      rw [List.length_append] at hsplit
      omega
    have halone : ¬ ((b :: s).head? = some 0x30 ∧
        (b :: s).length - ((b :: s).dropWhile isDigit).length ≠ 1) := by
      rw [hlen]
      exact fun hbad => hzero ⟨Option.some.inj hbad.1, hbad.2⟩
    simp only [skipNumeral, skipDigits_of_digit rfl hdigit, bind, Except.bind, if_neg halone]
    exact skipFraction_of_integerRest h

theorem regular_integer : Regular readInteger := by
  refine ⟨fun s => by simp only [readInteger, valueStart_skipSpace], fun s a r h => ?_⟩
  obtain ⟨⟨b, t⟩, hs, h⟩ := exists_of_bind h
  have hstart := skipSpace_of_valueStart hs
  dsimp only at h
  split_ifs at h with hb
  obtain ⟨⟨y, u⟩, hy, h⟩ := exists_of_bind h
  obtain ⟨i, hi, h⟩ := exists_of_bind h
  cases h
  simp only [numeral] at hy
  split_ifs at hy with hminus
  · exact .negative (hminus ▸ hstart) (skipNumeral_of_numeralRest hy)
  · exact .positive hstart (hb.resolve_left hminus) (skipNumeral_of_numeralRest hy)

end

/-! ## Arrays and objects -/

def ArrayRest (first : Bool) (s r : Input) : Prop :=
  skipSpace s = closeBracket :: r ∨
    if first then Spans .elements s r else ∃ t, skipSpace s = comma :: t ∧ Spans .elements t r

theorem arrayRest_of_arrayEnd {first : Bool} (h : arrayEnd s = .ok r) : ArrayRest first s r := by
  unfold arrayEnd at h
  split at h
  · cases h
  · rename_i b t hs
    split_ifs at h with hb
    cases h
    exact .inl (hb ▸ hs)

theorem nextElement_some {first : Bool} (h : nextElement first s = .ok (some t)) :
    if first then skipSpace t = skipSpace s
    else ∃ u, skipSpace s = comma :: u ∧ skipSpace t = skipSpace u := by
  unfold nextElement at h
  split at h
  · cases h
  · rename_i b u hs
    split_ifs at h with hclose hcomma hfirst
    · cases h
    · split at h
      · cases h
      · rename_i c after hu
        split_ifs at h with hlast
        cases h
        have hnot : first = false := by simpa using hcomma.2
        rw [hnot, if_neg Bool.false_ne_true]
        refine ⟨u, hcomma.1 ▸ hs, ?_⟩
        rw [← hu, skipSpace_idem]
    · cases h
      rw [if_pos hfirst, ← hs, skipSpace_idem]

theorem arrayRest_next {first : Bool} (hs : nextElement first s = .ok (some t))
    (h : Spans .value t u) (hu : ArrayRest false u r) : ArrayRest first s r := by
  have helements : Spans .elements t r := by
    rcases hu with hlast | ⟨v, hv, hmore⟩
    · exact .lastElement h hlast
    · exact .nextElement h hv hmore
  have hnext := nextElement_some hs
  cases first with
  | true => exact .inr (helements.of_skipSpace hnext)
  | false =>
    obtain ⟨v, hv, heq⟩ := hnext
    exact .inr ⟨v, hv, helements.of_skipSpace heq⟩

theorem spans_of_arrayRest (hs : skipSpace s = openBracket :: t) (h : ArrayRest true t r) :
    Spans .value s r := by
  rcases h with hend | helements
  · exact .emptyArray hs hend
  · exact .array hs helements

theorem arrayRest_of_readElements {read : Reader α} (hread : Regular read) {first : Bool}
    {xs : List α} (h : readElements read n first s = .ok (xs, r)) : ArrayRest first s r := by
  induction n generalizing s first xs with
  | zero => cases h
  | succ n ih =>
    simp only [readElements] at h
    obtain ⟨next, hnext, h⟩ := exists_of_bind h
    cases next with
    | none =>
      obtain ⟨left, hend, heq⟩ := exists_of_map h
      cases heq
      exact arrayRest_of_arrayEnd hend
    | some t =>
      obtain ⟨⟨x, u⟩, hx, h⟩ := exists_of_bind h
      obtain ⟨⟨ys, v⟩, hys, h⟩ := exists_of_bind h
      cases h
      exact arrayRest_next hnext (hread.spans _ _ _ hx) (ih hys)

theorem regular_list {read : Reader α} (hread : Regular read) : Regular (readList read) := by
  refine ⟨fun s => by simp only [readList, valueStart_skipSpace], fun s xs r h => ?_⟩
  obtain ⟨⟨b, t⟩, hs, h⟩ := exists_of_bind h
  dsimp only at h
  split_ifs at h with hb
  exact spans_of_arrayRest (hb ▸ skipSpace_of_valueStart hs) (arrayRest_of_readElements hread h)

theorem arrayRest_of_readFields {wrong : Nat → Fault} {fs : List Field}
    (hfs : ∀ f ∈ fs, Regular f.read) {i : Nat} {first : Bool} {cs : List Content}
    (h : readFields wrong fs i first s = .ok (cs, t)) (hend : arrayEnd t = .ok r) :
    ArrayRest first s r := by
  induction fs generalizing s i first cs with
  | nil =>
    cases h
    exact arrayRest_of_arrayEnd hend
  | cons f fs ih =>
    obtain ⟨hf, hfs⟩ := List.forall_mem_cons.1 hfs
    simp only [readFields] at h
    obtain ⟨next, hnext, h⟩ := exists_of_bind h
    cases next with
    | none =>
      dsimp only at h
      split at h
      · cases h
      · obtain ⟨⟨ds, u⟩, hds, h⟩ := exists_of_bind h
        cases h
        exact ih hfs hds
    | some u =>
      obtain ⟨⟨c, v⟩, hc, h⟩ := exists_of_bind h
      obtain ⟨⟨ds, w⟩, hds, h⟩ := exists_of_bind h
      cases h
      exact arrayRest_next hnext (hf.spans _ _ _ hc) (ih hfs hds)

def ObjectRest (first : Bool) (s r : Input) : Prop :=
  skipSpace s = closeBrace :: r ∨
    if first then Spans .members s r else ∃ t, skipSpace s = comma :: t ∧ Spans .members t r

theorem keyStart_ok {first : Bool} (h : keyStart first b s = .ok t) :
    if first then b = quoteMark ∧ s = t else b = comma ∧ skipSpace s = quoteMark :: t := by
  unfold keyStart at h
  split_ifs at h with hcomma hquote
  · have hnot : first = false := by simpa using hcomma.2
    rw [hnot, if_neg Bool.false_ne_true]
    split at h
    · cases h
    · rename_i q u hu
      split_ifs at h with hq
      cases h
      exact ⟨hcomma.1, hq ▸ hu⟩
  · cases h
    rw [if_pos hquote.2]
    exact ⟨hquote.1, rfl⟩

theorem objectRest_next {first : Bool} {name : Input} (hs : skipSpace s = b :: t)
    (hkey : keyStart first b t = .ok u) (hname : skipString u = .ok name)
    (hcolon : colonRest name = .ok v) (h : Spans .value v r) (hr : ObjectRest false r rest) :
    ObjectRest first s rest := by
  have hmembers {x : Input} (hx : skipSpace x = quoteMark :: u) : Spans .members x rest := by
    have hspan : NameSpans x v := ⟨u, name, hx, hname, hcolon⟩
    rcases hr with hlast | ⟨w, hw, hmore⟩
    · exact .lastMember hspan h hlast
    · exact .nextMember hspan h hw hmore
  have hstart := keyStart_ok hkey
  cases first with
  | true =>
    obtain ⟨rfl, rfl⟩ := hstart
    exact .inr (hmembers hs)
  | false =>
    obtain ⟨rfl, hquote⟩ := hstart
    exact .inr ⟨t, hs, hmembers hquote⟩

theorem readMembers_cases {fs : List Field} {first : Bool} {slots slots' : List (Option Content)}
    (h : readMembers fs (n + 1) first slots s = .ok (slots', r)) :
    (skipSpace s = closeBrace :: r ∧ slots' = slots) ∨
      ∃ b t u key v, skipSpace s = b :: t ∧ keyStart first b t = .ok u ∧
        stringRest u = .ok (key, v) ∧
        ((∃ i w more, fieldIndex? fs key = some i ∧ readSlot fs slots i v = .ok (more, w) ∧
          readMembers fs n false more w = .ok (slots', r)) ∨
        ∃ w x, fieldIndex? fs key = none ∧ colonRest v = .ok w ∧ skip w = .ok x ∧
          readMembers fs n false slots x = .ok (slots', r)) := by
  simp only [readMembers] at h
  split at h
  · cases h
  · rename_i b t hs
    split_ifs at h with hbrace
    · cases h
      exact .inl ⟨hbrace ▸ hs, rfl⟩
    · right
      obtain ⟨u, hu, h⟩ := exists_of_bind h
      obtain ⟨⟨key, v⟩, hkey, h⟩ := exists_of_bind h
      refine ⟨b, t, u, key, v, hs, hu, hkey, ?_⟩
      dsimp only at h
      split at h
      · rename_i i hi
        obtain ⟨⟨more, w⟩, hmore, h⟩ := exists_of_bind h
        exact .inl ⟨i, w, more, hi, hmore, h⟩
      · rename_i hi
        obtain ⟨w, hw, h⟩ := exists_of_bind h
        obtain ⟨x, hx, h⟩ := exists_of_bind h
        exact .inr ⟨w, x, hi, hw, hx, h⟩

theorem readSlot_cases {fs : List Field} {slots slots' : List (Option Content)} {i : Nat}
    (h : readSlot fs slots i s = .ok (slots', r)) :
    ∃ f c t, fs[i]? = some f ∧ slots[i]?.join = none ∧ colonRest s = .ok t ∧
      f.read t = .ok (c, r) ∧ slots' = slots.set i (some c) := by
  unfold readSlot at h
  split at h
  · cases h
  · rename_i f hf
    split_ifs at h with hfull
    obtain ⟨t, ht, h⟩ := exists_of_bind h
    obtain ⟨⟨c, left⟩, hc, h⟩ := exists_of_bind h
    cases h
    exact ⟨f, c, t, hf, by simpa using hfull, ht, hc, rfl⟩

theorem objectRest_of_readMembers {fs : List Field} (hfs : ∀ f ∈ fs, Regular f.read)
    {first : Bool} {slots slots' : List (Option Content)}
    (h : readMembers fs n first slots s = .ok (slots', r)) : ObjectRest first s r := by
  induction n generalizing s first slots with
  | zero => cases h
  | succ n ih =>
    obtain ⟨hend, -⟩ | ⟨b, t, u, key, v, hs, hu, hkey, hvalue⟩ := readMembers_cases h
    · exact .inl hend
    have hname := skipString_of_stringRest hkey
    obtain ⟨i, w, more, -, hslot, hmore⟩ | ⟨w, x, -, hcolon, hskip, hmore⟩ := hvalue
    · obtain ⟨f, c, x, hf, -, hcolon, hread, -⟩ := readSlot_cases hslot
      have hspans := (hfs f (List.mem_of_getElem? hf)).spans _ _ _ hread
      exact objectRest_next hs hu hname hcolon hspans (ih hmore)
    · exact objectRest_next hs hu hname hcolon (spans_of_skip hskip) (ih hmore)

theorem regular_record {ρ : Record α} (hfs : ∀ f ∈ ρ.fields, Regular f.read) : Regular ρ.read := by
  refine ⟨fun s => by simp only [Record.read, valueStart_skipSpace], fun s x r h => ?_⟩
  obtain ⟨⟨b, t⟩, hs, h⟩ := exists_of_bind h
  have hstart := skipSpace_of_valueStart hs
  dsimp only at h
  split_ifs at h with hbracket hbrace
  · obtain ⟨⟨cs, u⟩, hcs, h⟩ := exists_of_bind h
    obtain ⟨v, hv, h⟩ := exists_of_bind h
    obtain ⟨y, hy, h⟩ := exists_of_bind h
    cases h
    exact spans_of_arrayRest (hbracket ▸ hstart) (arrayRest_of_readFields hfs hcs hv)
  · obtain ⟨⟨slots, u⟩, hslots, h⟩ := exists_of_bind h
    obtain ⟨cs, hcs, h⟩ := exists_of_bind h
    obtain ⟨y, hy, h⟩ := exists_of_bind h
    cases h
    rcases objectRest_of_readMembers hfs hslots with hend | hmembers
    · exact .emptyObject (hbrace ▸ hstart) hend
    · exact .object (hbrace ▸ hstart) hmembers

end OrderDesk.Wire
