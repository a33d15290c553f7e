import OrderDesk.Proofs.Wire.Records

/-!
Objects and arrays that are cut off. They end with a mark of their own, so their readers want all of
it: wherever they are cut, what is read up to there is right and then the input ends.
-/

namespace OrderDesk.Wire

open Text.Utf8 (encode encode_append)

variable {α : Type} {p : Input} {fs todo : List Field} {f : Field} {c : Content}
  {cs : List Content} {ms : List (String × List Char)} {text : List Char} {i : Nat}

theorem ends_of_parts {ps : List (List Char)} (hp : p <+: encode (ps.flatMap (',' :: ·))) :
    Ends p := by
  cases ps with
  | nil =>
    obtain rfl := List.prefix_nil.1 hp
    exact ends_nil
  | cons q ps =>
    rcases List.prefix_cons_iff.1 hp with rfl | ⟨r, rfl, -⟩
    · exact ends_nil
    · exact ends_cons (.inl rfl) r

/-! ## Objects -/

theorem encode_member_split (m : String × List Char) :
    encode (member m) = quoteMark ::
      ((encode (m.1.toList.flatMap writeChar) ++ [quoteMark]) ++ colon :: encode m.2) := by
  have h := encode_member m []
  rw [List.append_nil, List.append_nil] at h
  rw [h, List.append_assoc]
  rfl

theorem readMembers_nil (fs : List Field) (fuel : Nat) (first : Bool)
    (slots : List (Option Content)) : readMembers fs fuel first slots [] = .error .eof := by
  cases fuel <;> rfl

theorem readSlot_cut (slots : List (Option Content)) (hi : fs[i]? = some f)
    (hslot : slots[i]?.join = none) (h : Exhausts f.read text)
    (hp : Cut p (colon :: encode text)) :
    readSlot fs slots i p = .error .eof ∨
      ∃ c, readSlot fs slots i p = .ok (slots.set i (some c), []) := by
  simp only [readSlot, hi, hslot, Option.isSome_none, Bool.false_eq_true, if_false]
  rcases hp.cons_cases with rfl | ⟨q, rfl, hq⟩
  · exact .inl rfl
  · simp only [colonRest_colon, bind, Except.bind]
    rcases h q hq with he | ⟨c, hc⟩
    · exact .inl (by rw [he])
    · exact .inr ⟨c, by rw [hc]; rfl⟩

theorem readMembers_cut (slots : List (Option Content)) (fuel : Nat)
    (hkey : fieldIndex? fs f.key = some i) (hi : fs[i]? = some f) (hslot : slots[i]?.join = none)
    (h : Exhausts f.read text) (first : Bool) (hp : Cut p (encode (member (f.key, text)))) :
    readMembers fs (fuel + 1) first slots (lead first ++ p) = .error .eof := by
  rw [encode_member_split] at hp
  rcases hp.cons_cases with rfl | ⟨q, rfl, hq⟩
  · cases first <;> rfl
  rw [readMembers_open]
  rcases hq.append_cases with hcut | ⟨r, rfl, hr⟩
  · simp only [stringRest_cut hcut, bind, Except.bind]
  · have hstring : stringRest ((encode (f.key.toList.flatMap writeChar) ++ [quoteMark]) ++ r) =
        .ok (f.key, r) := by
      rw [List.append_assoc, List.singleton_append, stringRest_writeChars, String.ofList_toList]
    simp only [hstring, bind, Except.bind, hkey]
    rcases readSlot_cut slots hi hslot h hr with he | ⟨c, hc⟩
    · rw [he]
    · rw [hc]
      exact readMembers_nil ..

theorem readMembers_start (hfits : Fits todo ms cs) (before : List Field) (done : List Content)
    (fuel : Nat) (hdone : done.length = before.length)
    (hnodup : ((before ++ todo).map Field.key).Nodup)
    (hp : p <+: encode ((ms.map member).flatMap (',' :: ·))) :
    readMembers (before ++ todo) fuel false (slotsAfter done todo) p = .error .eof := by
  induction hfits generalizing before done fuel p with
  | nil =>
    obtain rfl := List.prefix_nil.1 hp
    exact readMembers_nil ..
  | @cons f text c fs ms cs h hs ih =>
    cases fuel with
    | zero => rfl
    | succ fuel =>
      have hfield : (before ++ f :: fs)[before.length]? = some f := by simp
      have hempty : (slotsAfter done (f :: fs))[before.length]?.join = none :=
        hdone ▸ slotsAfter_next f done fs
      rw [encode_members_cons] at hp
      change p <+: comma :: (encode (member (f.key, text)) ++ _) at hp
      rcases List.prefix_cons_iff.1 hp with rfl | ⟨q, rfl, hq⟩
      · exact readMembers_nil ..
      rcases prefix_append_cases hq with hcut | ⟨r, rfl, hr⟩
      · exact readMembers_cut _ fuel (fieldIndex?_append hnodup) hfield hempty h.exhausts false hcut
      · have hmember := readMembers_member _ fuel (fieldIndex?_append hnodup) hfield hempty h.reads
          false (ends_of_parts hr)
        refine hmember.trans ?_
        rw [← hdone, slotsAfter_set]
        have hmore := ih (before ++ [f]) (done ++ [c]) fuel (by simp [hdone])
          (by simpa using hnodup) hr
        simpa using hmore

theorem readMembers_object_start (hfits : Fits fs ms cs) (hnodup : (fs.map Field.key).Nodup)
    (fuel : Nat) (hp : p <+: encode (separated (ms.map member))) :
    readMembers fs fuel true (fs.map fun _ => none) p = .error .eof := by
  cases hfits with
  | nil =>
    obtain rfl := List.prefix_nil.1 hp
    exact readMembers_nil ..
  | @cons f text c fs ms cs h hs =>
    cases fuel with
    | zero => rfl
    | succ fuel =>
      have hkey : fieldIndex? (f :: fs) f.key = some 0 := by simp [fieldIndex?, List.findIdx?_cons]
      have hcons : ((f.key, text) :: ms).map member = member (f.key, text) :: ms.map member := rfl
      rw [hcons, separated_cons, encode_append] at hp
      rcases prefix_append_cases hp with hcut | ⟨q, rfl, hq⟩
      · exact readMembers_cut (none :: fs.map fun _ => none) fuel hkey rfl rfl h.exhausts true hcut
      · have hmember := readMembers_member (none :: fs.map fun _ => none) fuel hkey rfl rfl h.reads
          true (ends_of_parts hq)
        exact hmember.trans (readMembers_start hs [f] [c] fuel rfl hnodup hq)

theorem wants_record {r : Record α} (hfits : Fits r.fields ms cs)
    (hnodup : (r.fields.map Field.key).Nodup) : Wants r.read (writeObject ms) := by
  intro p hp
  have hbytes := encode_writeObject ms []
  rw [List.append_nil] at hbytes
  rw [hbytes] at hp
  rcases hp.cons_cases with rfl | ⟨q, rfl, hq⟩
  · rfl
  have hmembers := readMembers_object_start hfits hnodup (q.length + 1) (prefix_of_cut_concat hq)
  simp only [Record.read, valueStart_cons (b := openBrace) (by decide), bind, Except.bind,
    if_neg (show openBrace ≠ openBracket by decide), if_true, hmembers]

theorem sturdy_record {r : Record α} {a : α} (hfits : Fits r.fields ms cs)
    (hnodup : (r.fields.map Field.key).Nodup) (hbuild : r.build cs = some a) :
    Sturdy r.read (writeObject ms) a :=
  ⟨reads_record hfits hnodup hbuild, (wants_record hfits hnodup).exhausts⟩

/-! ## Arrays -/

section
variable {read : Reader α} {write : α → List Char}

theorem readElements_nil (read : Reader α) (fuel : Nat) (first : Bool) :
    readElements read fuel first [] = .error .eof := by
  cases fuel <;> rfl

theorem readElements_cut (h : Exhausts read text) (hstart : text.head? = some (Char.ofNat 0x7B))
    (fuel : Nat) (first : Bool) (hp : Cut p (encode text)) :
    readElements read (fuel + 1) first (lead first ++ p) = .error .eof := by
  obtain ⟨s, rfl⟩ := List.head?_eq_some_iff.1 hstart
  have hp : Cut p (openBrace :: encode s) := hp
  rcases hp.cons_cases with rfl | ⟨q, rfl, -⟩
  · cases first <;> rfl
  · have hnext : nextElement first (lead first ++ openBrace :: q) = .ok (some (openBrace :: q)) := by
      cases first <;> rfl
    rcases h _ hp with he | ⟨x, hx⟩
    · simp only [readElements, hnext, bind, Except.bind, he]
    · simp only [readElements, hnext, bind, Except.bind, hx, readElements_nil]

theorem readElements_pass {x : α} (h : Reads read text x)
    (hstart : text.head? = some (Char.ofNat 0x7B)) (fuel : Nat) (first : Bool) (hp : Ends p)
    (hmore : readElements read fuel false p = .error .eof) :
    readElements read (fuel + 1) first (lead first ++ (encode text ++ p)) = .error .eof := by
  simp only [readElements, nextElement_lead hstart, h p hp, hmore, bind, Except.bind]

theorem readElements_start (h : ∀ x, Sturdy read (write x) x)
    (hstart : ∀ x, (write x).head? = some (Char.ofNat 0x7B)) (xs : List α) (fuel : Nat)
    (hp : p <+: encode ((xs.map write).flatMap (',' :: ·))) :
    readElements read fuel false p = .error .eof := by
  induction xs generalizing fuel p with
  | nil =>
    obtain rfl := List.prefix_nil.1 hp
    exact readElements_nil ..
  | cons x xs ih =>
    cases fuel with
    | zero => rfl
    | succ fuel =>
      rw [List.map_cons, List.flatMap_cons, encode_append] at hp
      rcases List.prefix_cons_iff.1 hp with rfl | ⟨q, rfl, hq⟩
      · exact readElements_nil ..
      rcases prefix_append_cases hq with hcut | ⟨r, rfl, hr⟩
      · exact readElements_cut (h x).exhausts (hstart x) fuel false hcut
      · exact readElements_pass (h x).reads (hstart x) fuel false (ends_of_parts hr) (ih fuel hr)

theorem readElements_array_start (h : ∀ x, Sturdy read (write x) x)
    (hstart : ∀ x, (write x).head? = some (Char.ofNat 0x7B)) (xs : List α) (fuel : Nat)
    (hp : p <+: encode (separated (xs.map write))) :
    readElements read fuel true p = .error .eof := by
  cases xs with
  | nil =>
    obtain rfl := List.prefix_nil.1 hp
    exact readElements_nil ..
  | cons x xs =>
    cases fuel with
    | zero => rfl
    | succ fuel =>
      rw [List.map_cons, separated_cons, encode_append] at hp
      rcases prefix_append_cases hp with hcut | ⟨q, rfl, hq⟩
      · exact readElements_cut (h x).exhausts (hstart x) fuel true hcut
      · have hmore := readElements_start h hstart xs fuel hq
        exact readElements_pass (h x).reads (hstart x) fuel true (ends_of_parts hq) hmore

theorem sturdy_list (h : ∀ x, Sturdy read (write x) x)
    (hstart : ∀ x, (write x).head? = some (Char.ofNat 0x7B)) (xs : List α) :
    Sturdy (readList read) (writeArray (xs.map write)) xs := by
  refine ⟨reads_list (fun x => (h x).reads) hstart xs, Wants.exhausts fun p hp => ?_⟩
  have hbytes := encode_writeArray (xs.map write) []
  rw [List.append_nil] at hbytes
  rw [hbytes] at hp
  rcases hp.cons_cases with rfl | ⟨q, rfl, hq⟩
  · rfl
  have helements := readElements_array_start h hstart xs (q.length + 1) (prefix_of_cut_concat hq)
  simp only [readList, valueStart_cons (b := openBracket) (by decide), bind, Except.bind, if_true,
    helements]

end

end OrderDesk.Wire
