import OrderDesk.Proofs.Wire.Objects

/-!
Arrays with white space between their elements. A list is read from an array whose elements are read
as the members of the list, and from no array with an element that is refused.
-/

namespace OrderDesk.Wire

open Text.Utf8 (encode encodeChar encode_append)

variable {α : Type} {s t rest : Input} {b : UInt8} {e : Element} {es : List Element} {fuel : Nat}
  {w : List Char} {x : α} {xs : List α} {read : Reader α}

theorem nextElement_spaced (first : Bool) (hs : skipSpace s = b :: t) (hb : b ≠ closeBracket) :
    nextElement first (lead first ++ s) = .ok (some (b :: t)) := by
  cases first with
  | true =>
    change nextElement true s = _
    simp [nextElement, hs, hb]
  | false =>
    have hcomma : skipSpace (comma :: s) = comma :: s := skipSpace_cons (by decide) s
    change nextElement false (comma :: s) = _
    simp only [nextElement, hcomma, hs, if_neg hb]
    rfl

theorem nextElement_blank (hw : Blank w) (first : Bool) (s : Input) :
    nextElement first (encode w ++ s) = nextElement first s := by
  unfold nextElement
  rw [skipSpace_blank hw]

theorem readElements_blank (hw : Blank w) (first : Bool) (s : Input) :
    readElements read fuel first (encode w ++ s) = readElements read fuel first s := by
  have hend : arrayEnd (encode w ++ s) = arrayEnd s := by
    unfold arrayEnd
    rw [skipSpace_blank hw]
  cases fuel with
  | zero => rfl
  | succ fuel => simp only [readElements, nextElement_blank hw, hend]

theorem nextElement_element (hread : Regular read) (he : e.Spaced) (hv : Skippable e.value)
    (hs : Ends s) (first : Bool) :
    ∃ t, nextElement first (lead first ++ (encode e.text ++ s)) = .ok (some t) ∧
      read t = read (encode e.text ++ s) := by
  obtain ⟨b, t, hstart, hb⟩ := (spans_element he hv hs).starts
  refine ⟨b :: t, nextElement_spaced first hstart hb, ?_⟩
  rw [← hstart, hread.start]

theorem Reads.skippable (hread : Regular read) (h : Reads read w x) : Skippable w :=
  fun s hs => hread.spans _ _ _ (h s hs)

theorem readElements_spaced (hread : Regular read) (he : e.Spaced) (h : Reads read e.value x)
    (hs : Ends s) (first : Bool)
    (hmore : readElements read fuel false s = .ok (xs, rest)) :
    readElements read (fuel + 1) first (lead first ++ (encode e.text ++ s)) =
      .ok (x :: xs, rest) := by
  obtain ⟨t, hnext, hsame⟩ := nextElement_element hread he (h.skippable hread) hs first
  have hx : read t = .ok (x, encode e.after ++ s) := hsame.trans (reads_element hread he h hs)
  have hxs : readElements read fuel false (encode e.after ++ s) = .ok (xs, rest) := by
    rw [readElements_blank he.after, hmore]
  simp only [readElements, hnext, hx, hxs, bind, Except.bind]
  rfl

theorem readElements_all (hread : Regular read) (hspaced : ∀ f ∈ e :: es, f.Spaced)
    (h : List.Forall₂ (fun e x => Reads read e.value x) (e :: es) xs) (first : Bool)
    (hfuel : es.length + 1 < fuel) (rest : Input) :
    readElements read fuel first
        (lead first ++ (encode (separated ((e :: es).map Element.text)) ++ closeBracket :: rest)) =
      .ok (xs, rest) := by
  obtain ⟨fuel, rfl⟩ := Nat.exists_eq_succ_of_ne_zero (Nat.ne_zero_of_lt hfuel)
  obtain ⟨fuel, rfl⟩ := Nat.exists_eq_succ_of_ne_zero
    (Nat.ne_zero_of_lt (Nat.lt_of_succ_lt_succ hfuel))
  induction es generalizing e xs first fuel with
  | nil =>
    cases h with
    | cons he hnone =>
      cases hnone
      exact readElements_spaced hread (hspaced e List.mem_cons_self) he
        (ends_cons (.inr (.inl rfl)) rest) first (readElements_bracket read fuel false rest)
  | cons f es ih =>
    cases h with
    | cons he hes =>
      obtain ⟨hsp, hsps⟩ := List.forall_mem_cons.1 hspaced
      obtain ⟨fuel, rfl⟩ := Nat.exists_eq_succ_of_ne_zero
        (Nat.ne_zero_of_lt (Nat.lt_of_succ_lt_succ (Nat.lt_of_succ_lt_succ hfuel)))
      rw [List.map_cons, List.map_cons, encode_separated]
      exact readElements_spaced hread hsp he (ends_cons (.inl rfl) _) first
        (ih hsps hes false fuel (Nat.lt_of_succ_lt_succ hfuel))

theorem readList_bracket (read : Reader α) (s : Input) :
    readList read (openBracket :: s) = readElements read (s.length + 1) true s := by
  simp only [readList, valueStart_cons (b := openBracket) (by decide), bind, Except.bind, if_true]

theorem reads_array (hread : Regular read) (hw : IsArray es w)
    (h : List.Forall₂ (fun e x => Reads read e.value x) es xs) : Reads (readList read) w xs := by
  intro rest _
  obtain ⟨henc, hspaced⟩ := hw
  cases es with
  | nil =>
    cases h
    cases henc with
    | blank hb =>
      rw [encode_bracketed (x := openBracket) (y := closeBracket) rfl rfl, readList_bracket,
        readElements_blank hb, readElements_bracket]
  | cons e es =>
    cases henc with
    | parts =>
      rw [encode_bracketed (x := openBracket) (y := closeBracket) rfl rfl, readList_bracket]
      refine readElements_all hread hspaced h true ?_ rest
      have hparts := length_le_encode_separated ((e :: es).map Element.text) fun p hp => by
        obtain ⟨f, hf, rfl⟩ := List.mem_map.1 hp
        obtain ⟨y, -, hy⟩ := exists_of_forall₂ h hf
        have hvalue := (hy.skippable hread).ne_nil
        exact List.append_ne_nil_of_right_ne_nil _ (List.append_ne_nil_of_left_ne_nil hvalue _)
      rw [List.map_cons, List.length_cons, List.length_map] at hparts
      rw [List.length_append]
      omega

theorem readElements_cases (hread : Regular read) (he : e.Spaced) (hv : Skippable e.value)
    (hs : Ends s) (first : Bool)
    (h : readElements read (fuel + 1) first (lead first ++ (encode e.text ++ s)) = .ok (xs, t)) :
    Accepts read e.value ∧ ∃ ys, readElements read fuel false s = .ok (ys, t) := by
  obtain ⟨u, hnext, hsame⟩ := nextElement_element hread he hv hs first
  simp only [readElements] at h
  obtain ⟨next, hnext', h⟩ := exists_of_bind h
  obtain rfl := Except.ok.inj (hnext.symm.trans hnext')
  obtain ⟨⟨x, v⟩, hx, h⟩ := exists_of_bind h
  obtain ⟨⟨ys, r⟩, hys, h⟩ := exists_of_bind h
  obtain ⟨haccepts, rfl⟩ := accepts_element hread he hv hs (hsame.symm.trans hx)
  dsimp only at hys
  rw [readElements_blank he.after] at hys
  cases h
  exact ⟨haccepts, ys, hys⟩

theorem accepts_of_readElements (hread : Regular read)
    (hes : ∀ f ∈ e :: es, f.Spaced ∧ Skippable f.value) (first : Bool)
    (h : readElements read fuel first
      (lead first ++ (encode (separated ((e :: es).map Element.text)) ++ closeBracket :: rest)) =
        .ok (xs, t)) : ∀ f ∈ e :: es, Accepts read f.value := by
  induction es generalizing e xs first fuel with
  | nil =>
    cases fuel with
    | zero => cases h
    | succ fuel =>
      obtain ⟨he, hv⟩ := hes e List.mem_cons_self
      obtain ⟨haccepts, -⟩ :=
        readElements_cases hread he hv (ends_cons (.inr (.inl rfl)) rest) first h
      exact List.forall_mem_cons.2 ⟨haccepts, fun f hf => absurd hf List.not_mem_nil⟩
  | cons f es ih =>
    cases fuel with
    | zero => cases h
    | succ fuel =>
      obtain ⟨⟨he, hv⟩, hes⟩ := List.forall_mem_cons.1 hes
      rw [List.map_cons, List.map_cons, encode_separated] at h
      obtain ⟨haccepts, ys, hys⟩ :=
        readElements_cases hread he hv (ends_cons (.inl rfl) _) first h
      exact List.forall_mem_cons.2 ⟨haccepts, ih hes false hys⟩

theorem accepts_of_array (hread : Regular read) (hw : IsArray es w)
    (hes : ∀ e ∈ es, Skippable e.value) (h : Accepts (readList read) w) :
    ∀ e ∈ es, Accepts read e.value := by
  obtain ⟨s, ⟨xs, t⟩, -, h⟩ := h
  obtain ⟨henc, hspaced⟩ := hw
  cases es with
  | nil => exact fun f hf => absurd hf List.not_mem_nil
  | cons e es =>
    cases henc with
    | parts =>
      rw [encode_bracketed (x := openBracket) (y := closeBracket) rfl rfl, readList_bracket] at h
      exact accepts_of_readElements hread (fun f hf => ⟨hspaced f hf, hes f hf⟩) true h

end OrderDesk.Wire
