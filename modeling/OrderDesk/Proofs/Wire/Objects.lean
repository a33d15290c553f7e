import Mathlib.Data.List.Forall2
import OrderDesk.Proofs.Wire.Extents
import OrderDesk.Proofs.Wire.Records

/-!
Objects with their members in any order. A record is read from an object that holds each of its keys
once, or has none where the key has a fallback, among any other keys; and from no object that holds
one of its keys twice or lacks one without a fallback.
-/

namespace OrderDesk.Wire

open Text.Utf8 (encode encodeChar encode_append)

variable {α : Type} {s t rest : Input} {fs : List Field} {f : Field} {c : Content} {m : Member}
  {ms : List Member} {key : String} {ps : List (Field × Content)} {seen keys : List String}
  {fuel i : Nat} {w : List Char} {a : α}

/-! ## One member -/

theorem readMembers_skipSpace (fs : List Field) (fuel : Nat) (first : Bool)
    (slots : List (Option Content)) (s : Input) :
    readMembers fs fuel first slots (skipSpace s) = readMembers fs fuel first slots s := by
  cases fuel with
  | zero => rfl
  | succ fuel => simp only [readMembers, skipSpace_idem]

theorem readMembers_blank (hw : Blank w) (first : Bool) (slots : List (Option Content)) (s : Input) :
    readMembers fs fuel first slots (encode w ++ s) = readMembers fs fuel first slots s := by
  rw [← readMembers_skipSpace, skipSpace_blank hw, readMembers_skipSpace]

theorem readMembers_spaced (hw : Blank w) (fuel : Nat) (first : Bool)
    (slots : List (Option Content)) (s : Input) :
    readMembers fs (fuel + 1) first slots (lead first ++ (encode w ++ quoteMark :: s)) =
      readMembers fs (fuel + 1) first slots (lead first ++ quoteMark :: s) := by
  cases first with
  | true => exact readMembers_blank hw true slots _
  | false =>
    have hspace : skipSpace (encode w ++ quoteMark :: s) = skipSpace (quoteMark :: s) :=
      skipSpace_blank hw _
    have hcomma (t : Input) : skipSpace (comma :: t) = comma :: t := skipSpace_cons (by decide) t
    simp only [readMembers, lead, Bool.false_eq_true, if_false, List.singleton_append, hcomma,
      keyStart, hspace]
    rfl

theorem colonRest_blank (hw : Blank w) (s : Input) : colonRest (encode w ++ colon :: s) = .ok s := by
  have hcolon := colonRest_colon s
  unfold colonRest at hcolon ⊢
  rw [skipSpace_blank hw, hcolon]

theorem reads_element {e : Element} {read : Reader α} (hread : Regular read) (he : e.Spaced)
    (h : Reads read e.value a) (hs : Ends s) :
    read (encode e.text ++ s) = .ok (a, encode e.after ++ s) := by
  rw [encode_element, ← hread.start, skipSpace_blank he.before, hread.start]
  exact h _ (ends_blank he.after hs)

structure Fitting (ps : List (Field × Content)) (m : Member) (key : String) : Prop where
  spaced : m.Spaced
  spells : Spells m.name key.toList
  declared : ∀ p ∈ ps, p.1.key = key → Reads p.1.read m.value p.2
  added : (∀ p ∈ ps, p.1.key ≠ key) → Skippable m.value

def slotsOf (ps : List (Field × Content)) (seen : List String) : List (Option Content) :=
  ps.map fun p => if p.1.key ∈ seen then some p.2 else none

theorem slotsOf_getElem? (hi : ps[i]? = some (f, c)) (seen : List String) :
    (slotsOf ps seen)[i]? = some (if f.key ∈ seen then some c else none) := by
  rw [slotsOf, List.getElem?_map, hi]
  rfl

theorem slotsOf_set (hnodup : (ps.map fun p => p.1.key).Nodup) (hi : ps[i]? = some (f, c)) :
    (slotsOf ps seen).set i (some c) = slotsOf ps (seen ++ [f.key]) := by
  refine List.ext_getElem? fun j => ?_
  by_cases hij : i = j
  · subst hij
    have hlen : i < (slotsOf ps seen).length := by
      rw [slotsOf, List.length_map]
      exact (List.getElem?_eq_some_iff.1 hi).1
    rw [List.getElem?_set_self hlen, slotsOf_getElem? hi]
    simp
  · rw [List.getElem?_set_ne hij]
    cases hj : ps[j]? with
    | none => simp only [slotsOf, List.getElem?_map, hj, Option.map_none]
    | some q =>
      -- keys are told apart, so the slots of the others stay
      have hne : q.1.key ≠ f.key := by
        intro he
        have hkeys : (ps.map fun p => p.1.key)[j]? = (ps.map fun p => p.1.key)[i]? := by
          rw [List.getElem?_map, List.getElem?_map, hi, hj]
          exact congrArg some he
        have hlen : j < (ps.map fun p => p.1.key).length := by
          rw [List.length_map]
          exact (List.getElem?_eq_some_iff.1 hj).1
        exact hij ((List.getElem?_inj hlen hnodup).1 hkeys).symm
      rw [slotsOf_getElem? hj, slotsOf_getElem? hj]
      simp [hne]

theorem slotsOf_append_of_ne (h : ∀ p ∈ ps, p.1.key ≠ key) :
    slotsOf ps (seen ++ [key]) = slotsOf ps seen := by
  refine List.map_congr_left fun p hp => ?_
  simp [h p hp]

theorem exists_of_fieldIndex? (h : fieldIndex? fs key = some i) :
    ∃ f, fs[i]? = some f ∧ f.key = key := by
  obtain ⟨hlt, hkey, -⟩ := List.findIdx?_eq_some_iff_getElem.1 h
  exact ⟨fs[i], List.getElem?_eq_getElem hlt, by simpa using hkey⟩

theorem key_ne_of_fieldIndex? (h : fieldIndex? fs key = none) : ∀ f ∈ fs, f.key ≠ key := by
  intro f hf
  simpa using List.findIdx?_eq_none_iff.1 h f hf

theorem readMembers_fitting (hnodup : (ps.map fun p => p.1.key).Nodup)
    (hps : ∀ p ∈ ps, Regular p.1.read) (h : Fitting ps m key)
    (hnew : (∃ p ∈ ps, p.1.key = key) → key ∉ seen) (first : Bool) (hs : Ends s) :
    readMembers (ps.map Prod.fst) (fuel + 1) first (slotsOf ps seen)
        (lead first ++ (encode m.text ++ s)) =
      readMembers (ps.map Prod.fst) fuel false (slotsOf ps (seen ++ [key])) s := by
  rw [encode_named, readMembers_spaced h.spaced.lead, readMembers_open, stringRest_spells h.spells,
    String.ofList_toList]
  simp only [bind, Except.bind]
  -- the key decides whether the value is read or skipped
  cases hkey : fieldIndex? (ps.map Prod.fst) key with
  | some i =>
    obtain ⟨f, hf, rfl⟩ := exists_of_fieldIndex? hkey
    rw [List.getElem?_map] at hf
    obtain ⟨⟨f, c⟩, hi, rfl⟩ := Option.map_eq_some_iff.1 hf
    have hmem : (f, c) ∈ ps := List.mem_of_getElem? hi
    have hempty : (slotsOf ps seen)[i]?.join = none := by
      rw [slotsOf_getElem? hi, if_neg (hnew ⟨_, hmem, rfl⟩)]
      rfl
    have hfield : (ps.map Prod.fst)[i]? = some f := by
      rw [List.getElem?_map, hi]
      rfl
    have hread : f.read (encode m.toElement.text ++ s) = .ok (c, encode m.after ++ s) :=
      reads_element (hps _ hmem) h.spaced.toSpaced (h.declared _ hmem rfl) hs
    simp only [readSlot, hfield, hempty, Option.isSome_none, Bool.false_eq_true, if_false,
      colonRest_blank h.spaced.gap, bind, Except.bind, hread, pure, Except.pure]
    rw [← slotsOf_set hnodup hi]
    exact readMembers_blank h.spaced.after false _ s
  | none =>
    have hne : ∀ p ∈ ps, p.1.key ≠ key := fun p hp =>
      key_ne_of_fieldIndex? hkey p.1 (List.mem_map_of_mem hp)
    have hskip := (spans_element h.spaced.toSpaced (h.added hne) hs).skip_eq
    simp only [colonRest_blank h.spaced.gap, hskip, slotsOf_append_of_ne hne]
    exact readMembers_blank h.spaced.after false _ s

/-! ## All members -/

theorem exists_of_forall₂ {β γ : Type} {R : β → γ → Prop} {xs : List β} {ys : List γ} {x : β}
    (h : List.Forall₂ R xs ys) (hx : x ∈ xs) : ∃ y ∈ ys, R x y := by
  induction h with
  | nil => cases hx
  | @cons z y xs ys hr _ ih =>
    rcases List.mem_cons.1 hx with rfl | hx
    · exact ⟨y, List.mem_cons_self, hr⟩
    · obtain ⟨v, hv, hrv⟩ := ih hx
      exact ⟨v, List.mem_cons_of_mem y hv, hrv⟩

def Once (ps : List (Field × Content)) (keys : List String) : Prop :=
  keys.Pairwise fun k l => (∃ p ∈ ps, p.1.key = k) → k ≠ l

theorem Once.not_mem (h : Once ps (seen ++ key :: keys)) :
    (∃ p ∈ ps, p.1.key = key) → key ∉ seen := by
  intro hkey hmem
  have hne := (List.pairwise_append.1 h).2.2 key hmem key List.mem_cons_self
  exact hne hkey rfl

theorem readMembers_all (hnodup : (ps.map fun p => p.1.key).Nodup)
    (hps : ∀ p ∈ ps, Regular p.1.read) (h : List.Forall₂ (Fitting ps) (m :: ms) keys)
    (honce : Once ps (seen ++ keys)) (first : Bool) (hfuel : ms.length + 1 < fuel) (rest : Input) :
    readMembers (ps.map Prod.fst) fuel first (slotsOf ps seen)
        (lead first ++ (encode (separated ((m :: ms).map Member.text)) ++ closeBrace :: rest)) =
      .ok (slotsOf ps (seen ++ keys), rest) := by
  obtain ⟨fuel, rfl⟩ := Nat.exists_eq_succ_of_ne_zero (Nat.ne_zero_of_lt hfuel)
  induction ms generalizing m seen keys first fuel with
  | nil =>
    cases h with
    | cons hm hnone =>
      cases hnone
      refine (readMembers_fitting hnodup hps hm honce.not_mem first
        (ends_cons (.inr (.inr rfl)) rest)).trans ?_
      obtain ⟨fuel, rfl⟩ := Nat.exists_eq_succ_of_ne_zero
        (Nat.ne_zero_of_lt (Nat.lt_of_succ_lt_succ hfuel))
      rw [readMembers, skipSpace_cons (by decide)]
      exact if_pos rfl
  | cons n ms ih =>
    cases h with
    | @cons _ key _ keys hm hms =>
      rw [List.map_cons, List.map_cons, encode_separated]
      refine (readMembers_fitting hnodup hps hm honce.not_mem first
        (ends_cons (.inl rfl) _)).trans ?_
      obtain ⟨fuel, rfl⟩ := Nat.exists_eq_succ_of_ne_zero
        (Nat.ne_zero_of_lt (Nat.lt_of_succ_lt_succ hfuel))
      have hassoc : seen ++ key :: keys = seen ++ [key] ++ keys := List.append_cons ..
      rw [hassoc] at honce ⊢
      exact ih hms honce false fuel (Nat.lt_of_succ_lt_succ hfuel)

theorem fillSlots_slotsOf (h : ∀ p ∈ ps, p.1.key ∈ seen ∨ p.1.fallback = some p.2) :
    fillSlots (ps.map Prod.fst) (slotsOf ps seen) = .ok (ps.map Prod.snd) := by
  induction ps with
  | nil => rfl
  | cons p ps ih =>
    obtain ⟨hp, hps⟩ := List.forall_mem_cons.1 h
    have hslot : (((slotsOf (p :: ps) seen).head?.join).or p.1.fallback) = some p.2 := by
      by_cases hkey : p.1.key ∈ seen
      · simp [slotsOf, hkey]
      · simp [slotsOf, hkey, hp.resolve_left hkey]
    have hmore : fillSlots (ps.map Prod.fst) (slotsOf (p :: ps) seen).tail = _ := ih hps
    simp only [List.map_cons, fillSlots, hslot, hmore, Except.map]

theorem Record.read_openBrace {ρ : Record α} :
    ρ.read (openBrace :: s) = .ok (a, t) ↔ ∃ slots cs,
      readMembers ρ.fields (s.length + 1) true (ρ.fields.map fun _ => none) s = .ok (slots, t) ∧
        fillSlots ρ.fields slots = .ok cs ∧ ρ.make cs = .ok a := by
  have hne : openBrace ≠ openBracket := by decide
  simp only [Record.read, valueStart_cons (b := openBrace) (by decide), bind, Except.bind,
    if_neg hne, if_true]
  constructor
  · intro h
    obtain ⟨⟨slots, u⟩, hslots, h⟩ := exists_of_bind h
    obtain ⟨cs, hcs, h⟩ := exists_of_bind h
    obtain ⟨b, hb, h⟩ := exists_of_bind h
    cases h
    exact ⟨slots, cs, hslots, hcs, hb⟩
  · rintro ⟨slots, cs, hslots, hcs, hb⟩
    simp only [hslots, hcs, hb]
    rfl

theorem reads_object {ρ : Record α} (hfields : ρ.fields = ps.map Prod.fst)
    (hnodup : (ps.map fun p => p.1.key).Nodup) (hps : ∀ p ∈ ps, Regular p.1.read)
    (hbuild : ρ.build (ps.map Prod.snd) = some a) (hw : IsObject ms w)
    (h : List.Forall₂ (Fitting ps) ms keys) (honce : Once ps keys)
    (hall : ∀ p ∈ ps, p.1.key ∈ keys ∨ p.1.fallback = some p.2) : Reads ρ.read w a := by
  intro rest _
  have hnone : ρ.fields.map (fun _ => none) = slotsOf ps [] := by
    rw [hfields, List.map_map, slotsOf]
    exact List.map_congr_left fun p _ => (if_neg List.not_mem_nil).symm
  have hfill : fillSlots ρ.fields (slotsOf ps keys) = .ok (ps.map Prod.snd) := by
    rw [hfields, fillSlots_slotsOf hall]
  have hmake : ρ.make (ps.map Prod.snd) = .ok a := by simp only [Record.make, hbuild]
  obtain ⟨henc, -, -⟩ := hw
  cases ms with
  | nil =>
    cases h
    cases henc with
    | blank hb =>
      rw [encode_bracketed (x := openBrace) (y := closeBrace) rfl rfl]
      refine Record.read_openBrace.2 ⟨_, _, ?_, hfill, hmake⟩
      rw [readMembers_blank hb, hnone, readMembers, skipSpace_cons (by decide)]
      exact if_pos rfl
  | cons m ms =>
    cases henc with
    | parts =>
      rw [encode_bracketed (x := openBrace) (y := closeBrace) rfl rfl]
      refine Record.read_openBrace.2 ⟨_, _, ?_, hfill, hmake⟩
      rw [hnone, hfields]
      have honce : Once ps ([] ++ keys) := honce
      refine readMembers_all hnodup hps h honce true ?_ rest
      -- each member takes a byte at least, so the length of the text is fuel enough
      have hparts := length_le_encode_separated ((m :: ms).map Member.text) fun p hp => by
        obtain ⟨n, -, rfl⟩ := List.mem_map.1 hp
        exact List.append_ne_nil_of_right_ne_nil _ (List.cons_ne_nil _ _)
      rw [List.map_cons, List.length_cons, List.length_map] at hparts
      rw [List.length_append]
      omega

/-! ## Objects that are refused -/

def Accepts (read : Reader α) (w : List Char) : Prop :=
  ∃ s x, Ends s ∧ read (encode w ++ s) = .ok x

theorem accepts_element {e : Element} {read : Reader α} (hread : Regular read) (he : e.Spaced)
    (hv : Skippable e.value) (hs : Ends s) (h : read (encode e.text ++ s) = .ok (a, t)) :
    Accepts read e.value ∧ t = encode e.after ++ s := by
  have hspans := hread.spans _ _ _ h
  refine ⟨⟨_, (a, t), ends_blank he.after hs, ?_⟩, hspans.unique (spans_element he hv hs)⟩
  rw [encode_element, ← hread.start, skipSpace_blank he.before, hread.start] at h
  exact h

structure Taken (fs : List Field) (slots slots' : List (Option Content)) (ms : List Member) :
    Prop where
  empty : ∀ m ∈ ms, ∀ key i, fieldIndex? fs key = some i → Spells m.name key.toList →
    slots[i]?.join = none
  once : ms.Pairwise fun m n => ∀ key i, fieldIndex? fs key = some i → Spells m.name key.toList →
    ¬ Spells n.name key.toList
  accepted : ∀ m ∈ ms, ∀ key i f, fieldIndex? fs key = some i → fs[i]? = some f →
    Spells m.name key.toList → Accepts f.read m.value
  filled : ∀ key i, fieldIndex? fs key = some i → slots'[i]?.join.isSome →
    slots[i]?.join.isSome ∨ ∃ m ∈ ms, Spells m.name key.toList

theorem Taken.nil (fs : List Field) (slots : List (Option Content)) : Taken fs slots slots [] :=
  ⟨fun _ h => absurd h List.not_mem_nil, .nil, fun _ h => absurd h List.not_mem_nil,
    fun _ _ _ h => .inl h⟩

theorem Taken.added {slots slots' : List (Option Content)} (h : Taken fs slots slots' ms)
    (hm : Spells m.name key.toList) (hkey : fieldIndex? fs key = none) :
    Taken fs slots slots' (m :: ms) := by
  have hnot {k : String} {i : Nat} (hk : fieldIndex? fs k = some i) :
      ¬ Spells m.name k.toList := by
    intro hspells
    obtain rfl := String.toList_inj.1 (hm.unique hspells)
    cases hkey.symm.trans hk
  constructor
  case empty =>
    exact List.forall_mem_cons.2 ⟨fun k i hk hspells => absurd hspells (hnot hk), h.empty⟩
  case once =>
    exact List.pairwise_cons.2 ⟨fun n _ k i hk hspells => absurd hspells (hnot hk), h.once⟩
  case accepted =>
    exact List.forall_mem_cons.2 ⟨fun k i f hk _ hspells => absurd hspells (hnot hk), h.accepted⟩
  case filled =>
    intro k i hk hfull
    rcases h.filled k i hk hfull with hbefore | ⟨n, hn, hspells⟩
    · exact .inl hbefore
    · exact .inr ⟨n, List.mem_cons_of_mem m hn, hspells⟩

theorem Taken.declared {slots slots' : List (Option Content)}
    (h : Taken fs (slots.set i (some c)) slots' ms) (hm : Spells m.name key.toList)
    (hkey : fieldIndex? fs key = some i) (hf : fs[i]? = some f) (hempty : slots[i]?.join = none)
    (hlen : i < slots.length) (haccepts : Accepts f.read m.value) :
    Taken fs slots slots' (m :: ms) := by
  have hself {k : String} (hspells : Spells m.name k.toList) : k = key :=
    String.toList_inj.1 (hspells.unique hm)
  -- its slot is full from here on, and no later member could go there
  have hlater : ∀ n ∈ ms, ¬ Spells n.name key.toList := by
    intro n hn hspells
    have hfull := h.empty n hn key i hkey hspells
    rw [List.getElem?_set_self hlen] at hfull
    cases hfull
  constructor
  case empty =>
    refine List.forall_mem_cons.2 ⟨fun k j hk hspells => ?_, fun n hn k j hk hspells => ?_⟩
    · obtain rfl := hself hspells
      obtain rfl := Option.some.inj (hkey.symm.trans hk)
      exact hempty
    · have hnone := h.empty n hn k j hk hspells
      by_cases hij : i = j
      · rw [← hij, List.getElem?_set_self hlen] at hnone
        cases hnone
      · rwa [List.getElem?_set_ne hij] at hnone
  case once =>
    refine List.pairwise_cons.2 ⟨fun n hn k j hk hspells => ?_, h.once⟩
    rw [hself hspells]
    exact hlater n hn
  case accepted =>
    refine List.forall_mem_cons.2 ⟨fun k j g hk hg hspells => ?_, h.accepted⟩
    obtain rfl := hself hspells
    obtain rfl := Option.some.inj (hkey.symm.trans hk)
    obtain rfl := Option.some.inj (hf.symm.trans hg)
    exact haccepts
  case filled =>
    intro k j hk hfull
    rcases h.filled k j hk hfull with hbefore | ⟨n, hn, hspells⟩
    · by_cases hij : i = j
      · subst hij
        obtain ⟨g, hg, hgk⟩ := exists_of_fieldIndex? hk
        obtain ⟨g', hg', hgkey⟩ := exists_of_fieldIndex? hkey
        obtain rfl := Option.some.inj (hg.symm.trans hg')
        exact .inr ⟨m, List.mem_cons_self, (hgkey.symm.trans hgk) ▸ hm⟩
      · rw [List.getElem?_set_ne hij] at hbefore
        exact .inl hbefore
    · exact .inr ⟨n, List.mem_cons_of_mem m hn, hspells⟩

theorem readMembers_member_cases {slots slots' : List (Option Content)} {first : Bool}
    (hfs : ∀ f ∈ fs, Regular f.read) (hm : m.Spaced) (hn : Quotes m.name)
    (hv : Skippable m.value) (hs : Ends s)
    (h : readMembers fs (fuel + 1) first slots (lead first ++ (encode m.text ++ s)) =
      .ok (slots', t)) :
    ∃ key : String, Spells m.name key.toList ∧
      ((∃ i f c, fieldIndex? fs key = some i ∧ fs[i]? = some f ∧ slots[i]?.join = none ∧
        Accepts f.read m.value ∧ readMembers fs fuel false (slots.set i (some c)) s = .ok (slots', t)) ∨
      fieldIndex? fs key = none ∧ readMembers fs fuel false slots s = .ok (slots', t)) := by
  rw [encode_named, readMembers_spaced hm.lead, readMembers_open] at h
  obtain ⟨⟨key, u⟩, hkey, h⟩ := exists_of_bind h
  obtain ⟨hspells, rfl⟩ := hn.spells hkey
  refine ⟨key, hspells, ?_⟩
  dsimp only at h
  split at h
  · rename_i i hi
    obtain ⟨⟨more, v⟩, hslot, h⟩ := exists_of_bind h
    obtain ⟨f, c, w, hf, hempty, hcolon, hread, rfl⟩ := readSlot_cases hslot
    rw [colonRest_blank hm.gap] at hcolon
    cases hcolon
    obtain ⟨haccepts, rfl⟩ :=
      accepts_element (hfs f (List.mem_of_getElem? hf)) hm.toSpaced hv hs hread
    dsimp only at h
    rw [readMembers_blank hm.after] at h
    exact .inl ⟨i, f, c, hi, hf, hempty, haccepts, h⟩
  · rename_i hi
    obtain ⟨v, hcolon, h⟩ := exists_of_bind h
    obtain ⟨w, hskip, h⟩ := exists_of_bind h
    rw [colonRest_blank hm.gap] at hcolon
    cases hcolon
    obtain rfl := (spans_of_skip hskip).unique (spans_element hm.toSpaced hv hs)
    rw [readMembers_blank hm.after] at h
    exact .inr ⟨hi, h⟩

theorem slots_of_close {slots slots' : List (Option Content)} {first : Bool}
    (h : readMembers fs fuel first slots (closeBrace :: s) = .ok (slots', t)) : slots' = slots := by
  cases fuel with
  | zero => cases h
  | succ fuel =>
    rw [readMembers, skipSpace_cons (by decide)] at h
    dsimp only at h
    rw [if_pos rfl] at h
    exact (Prod.mk.inj (Except.ok.inj h)).1.symm

theorem lt_of_fieldIndex? {slots : List (Option Content)} (hlen : slots.length = fs.length)
    (h : fieldIndex? fs key = some i) : i < slots.length := by
  obtain ⟨f, hf, -⟩ := exists_of_fieldIndex? h
  rw [hlen]
  exact (List.getElem?_eq_some_iff.1 hf).1

theorem taken_of_readMembers {slots slots' : List (Option Content)} (first : Bool)
    (hfs : ∀ f ∈ fs, Regular f.read) (hlen : slots.length = fs.length)
    (hms : ∀ n ∈ m :: ms, n.Spaced ∧ Quotes n.name ∧ Skippable n.value)
    (h : readMembers fs fuel first slots
      (lead first ++ (encode (separated ((m :: ms).map Member.text)) ++ closeBrace :: rest)) =
        .ok (slots', t)) : Taken fs slots slots' (m :: ms) := by
  induction ms generalizing m slots first fuel with
  | nil =>
    cases fuel with
    | zero => cases h
    | succ fuel =>
      obtain ⟨hm, hn, hv⟩ := hms m List.mem_cons_self
      obtain ⟨key, hspells, ⟨i, f, c, hi, hf, hempty, haccepts, h⟩ | ⟨hi, h⟩⟩ :=
        readMembers_member_cases hfs hm hn hv (ends_cons (.inr (.inr rfl)) rest) h
      · rw [slots_of_close h]
        exact Taken.declared (.nil fs _) hspells hi hf hempty (lt_of_fieldIndex? hlen hi) haccepts
      · rw [slots_of_close h]
        exact Taken.added (.nil fs _) hspells hi
  | cons n ms ih =>
    cases fuel with
    | zero => cases h
    | succ fuel =>
      obtain ⟨⟨hm, hn, hv⟩, hms⟩ := List.forall_mem_cons.1 hms
      rw [List.map_cons, List.map_cons, encode_separated] at h
      obtain ⟨key, hspells, ⟨i, f, c, hi, hf, hempty, haccepts, h⟩ | ⟨hi, h⟩⟩ :=
        readMembers_member_cases hfs hm hn hv (ends_cons (.inl rfl) _) h
      · have hslots : (slots.set i (some c)).length = fs.length := by rw [List.length_set, hlen]
        have htaken := ih false hslots hms h
        exact htaken.declared hspells hi hf hempty (lt_of_fieldIndex? hlen hi) haccepts
      · exact (ih false hlen hms h).added hspells hi

theorem isSome_of_fillSlots {slots : List (Option Content)} {cs : List Content}
    (h : fillSlots fs slots = .ok cs) (hi : fs[i]? = some f) :
    slots[i]?.join.isSome ∨ f.fallback.isSome := by
  induction fs generalizing slots cs i with
  | nil => cases hi
  | cons g fs ih =>
    simp only [fillSlots] at h
    split at h
    · rename_i c hc
      obtain ⟨ds, hds, -⟩ := exists_of_map h
      cases i with
      | zero =>
        obtain rfl := Option.some.inj hi
        rw [← List.head?_eq_getElem?]
        rcases Option.or_eq_some_iff.1 hc with hslot | ⟨-, hfallback⟩
        · exact .inl (Option.isSome_of_eq_some hslot)
        · exact .inr (Option.isSome_of_eq_some hfallback)
      | succ i =>
        rw [← List.getElem?_tail]
        exact ih hds hi
    · cases h

theorem exists_fieldIndex? (hnodup : (fs.map Field.key).Nodup) (hf : f ∈ fs) :
    ∃ i, fieldIndex? fs f.key = some i ∧ fs[i]? = some f := by
  obtain ⟨before, after, rfl⟩ := List.append_of_mem hf
  exact ⟨before.length, fieldIndex?_append hnodup, by simp⟩

structure Whole (fs : List Field) (ms : List Member) : Prop where
  complete : ∀ f ∈ fs, f.fallback = none → ∃ m ∈ ms, Spells m.name f.key.toList
  once : ∀ f ∈ fs, ms.Pairwise fun m n => Spells m.name f.key.toList →
    ¬ Spells n.name f.key.toList
  accepted : ∀ f ∈ fs, ∀ m ∈ ms, Spells m.name f.key.toList → Accepts f.read m.value

theorem Taken.whole {slots : List (Option Content)} {cs : List Content}
    (hnodup : (fs.map Field.key).Nodup) (h : Taken fs (fs.map fun _ => none) slots ms)
    (hfill : fillSlots fs slots = .ok cs) : Whole fs ms := by
  refine ⟨fun f hf hnone => ?_, fun f hf => ?_, fun f hf m hm hspells => ?_⟩
  · obtain ⟨i, hi, hfi⟩ := exists_fieldIndex? hnodup hf
    have hfull := (isSome_of_fillSlots hfill hfi).resolve_right (by rw [hnone]; exact nofun)
    refine (h.filled f.key i hi hfull).resolve_left ?_
    rw [List.getElem?_map, hfi]
    exact nofun
  · obtain ⟨i, hi, -⟩ := exists_fieldIndex? hnodup hf
    exact h.once.imp fun hpair => hpair f.key i hi
  · obtain ⟨i, hi, hfi⟩ := exists_fieldIndex? hnodup hf
    exact h.accepted m hm f.key i f hi hfi hspells

theorem whole_of_accepts {ρ : Record α} (hfs : ∀ f ∈ ρ.fields, Regular f.read)
    (hnodup : (ρ.fields.map Field.key).Nodup) (hw : IsObject ms w)
    (hms : ∀ m ∈ ms, Skippable m.value) (h : Accepts ρ.read w) : Whole ρ.fields ms := by
  obtain ⟨s, ⟨a, t⟩, -, h⟩ := h
  obtain ⟨henc, hspaced, hnamed⟩ := hw
  cases ms with
  | nil =>
    cases henc with
    | blank hb =>
      rw [encode_bracketed (x := openBrace) (y := closeBrace) rfl rfl] at h
      obtain ⟨slots, cs, hslots, hcs, -⟩ := Record.read_openBrace.1 h
      rw [readMembers_blank hb] at hslots
      rw [slots_of_close hslots] at hcs
      exact (Taken.nil ρ.fields _).whole hnodup hcs
  | cons m ms =>
    cases henc with
    | parts =>
      rw [encode_bracketed (x := openBrace) (y := closeBrace) rfl rfl] at h
      obtain ⟨slots, cs, hslots, hcs, -⟩ := Record.read_openBrace.1 h
      have htaken := taken_of_readMembers true hfs (List.length_map _)
        (fun n hn => ⟨hspaced n hn, hnamed n hn, hms n hn⟩) hslots
      exact htaken.whole hnodup hcs

end OrderDesk.Wire
