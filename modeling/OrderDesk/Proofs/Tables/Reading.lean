import Mathlib.Data.List.Forall2
import Mathlib.Data.List.TakeWhile
import OrderDesk.Proofs.Text.Decimal
import OrderDesk.Tables.Query
import OrderDesk.Tables.Reading

/-!
A statement is read from its text and its values as it was meant: each value is assigned to the
column that the text names for it.
-/

namespace OrderDesk.Tables

/-! ## Words -/

def StartsApart (s : String) : Prop := s.toList.head?.any isGap = true

def EndsApart (s : String) : Prop := s.toList.getLast?.any isGap = true

def IsWord (s : String) : Prop := s.toList ≠ [] ∧ ∀ c ∈ s.toList, isGap c = false

variable {a b s : String}

theorem StartsApart.exists_cons (h : StartsApart s) :
    ∃ c r, s.toList = c :: r ∧ isGap c = true := by
  obtain ⟨c, hhead, hc⟩ := (Option.any_eq_true ..).1 h
  obtain ⟨r, hr⟩ := List.head?_eq_some_iff.1 hhead
  exact ⟨c, r, hr, hc⟩

theorem EndsApart.exists_concat (h : EndsApart s) :
    ∃ c r, s.toList = r ++ [c] ∧ isGap c = true := by
  obtain ⟨c, hlast, hc⟩ := (Option.any_eq_true ..).1 h
  obtain ⟨r, hr⟩ := List.getLast?_eq_some_iff.1 hlast
  exact ⟨c, r, hr, hc⟩

theorem wordsAfter_append_gap {c : Char} (hc : isGap c = true) (taken s r : List Char) :
    wordsAfter taken (s ++ c :: r) = wordsAfter taken s ++ wordsAfter [] r := by
  induction s generalizing taken with
  | nil => simp [wordsAfter, hc]
  | cons d s ih =>
    simp only [List.cons_append, wordsAfter]
    split
    · rw [ih, List.append_assoc]
    · exact ih _

theorem words_append_of_starts (h : StartsApart b) (a : String) :
    words (a ++ b) = words a ++ words b := by
  obtain ⟨c, r, hb, hc⟩ := h.exists_cons
  have hgap := wordsAfter_append_gap hc []
  rw [words, String.toList_append, words, words, hb, hgap, show c :: r = [] ++ c :: r from rfl, hgap]
  rfl

theorem words_append_of_ends (h : EndsApart a) (b : String) :
    words (a ++ b) = words a ++ words b := by
  obtain ⟨c, r, ha, hc⟩ := h.exists_concat
  have hgap := wordsAfter_append_gap hc []
  rw [words, String.toList_append, words, words, ha, List.append_assoc, List.singleton_append, hgap,
    hgap, show wordsAfter [] [] = [] from rfl, List.append_nil]

theorem StartsApart.append (h : StartsApart a) (b : String) : StartsApart (a ++ b) := by
  obtain ⟨c, r, ha, hc⟩ := h.exists_cons
  rw [StartsApart, String.toList_append, ha]
  simpa using hc

theorem EndsApart.append (h : EndsApart b) (a : String) : EndsApart (a ++ b) := by
  obtain ⟨c, r, hb, hc⟩ := h.exists_concat
  rw [EndsApart, String.toList_append, hb, ← List.append_assoc]
  simpa using hc

theorem words_before (g : String) (h : EndsApart g) (b : String) :
    words (g ++ b) = words g ++ words b := words_append_of_ends h b

theorem words_between (g : String) (hs : StartsApart g) (he : EndsApart g) (a b : String) :
    words (a ++ g ++ b) = words a ++ words g ++ words b := by
  rw [words_append_of_ends (he.append a), words_append_of_starts hs]

theorem IsWord.words_eq (h : IsWord s) : words s = [s] := by
  have htaken (taken r : List Char) (hr : ∀ c ∈ r, isGap c = false) (hne : taken ++ r ≠ []) :
      wordsAfter taken r = [String.ofList (taken ++ r)] := by
    induction r generalizing taken with
    | nil => simp [wordsAfter, show taken ≠ [] by simpa using hne]
    | cons c r ih =>
      have hc : isGap c = false := hr c List.mem_cons_self
      rw [wordsAfter, hc, if_neg Bool.false_ne_true, ih _ (fun d hd => hr d (List.mem_cons_of_mem c hd))
        (by simp), List.append_assoc, List.singleton_append]
  rw [words, htaken [] s.toList h.2 h.1, List.nil_append, String.ofList_toList]

theorem words_list (texts : List String) : words (list texts) = texts.flatMap words := by
  unfold list
  induction texts with
  | nil => rfl
  | cons a texts ih =>
    cases texts with
    | nil => simp
    | cons b texts =>
      have hsplit : String.intercalate ", " (a :: b :: texts) =
          a ++ ", " ++ String.intercalate ", " (b :: texts) := by simp
      rw [hsplit, words_between ", " rfl rfl, ih, List.flatMap_cons]
      simp [show words ", " = [] from rfl]

theorem words_list_words {texts : List String} (h : ∀ s ∈ texts, IsWord s) :
    words (list texts) = texts := by
  have hwords : texts.flatMap words = texts.flatMap fun s => [s] :=
    List.flatMap_congr fun s hs => (h s hs).words_eq
  rw [words_list, hwords, List.flatMap_singleton']

/-! ## Names and marks -/

theorem isWord_of_isName (h : isName s = true) : IsWord s := by
  simp only [isName, Bool.and_eq_true, Bool.not_eq_true', List.isEmpty_eq_false_iff,
    List.all_eq_true] at h
  refine ⟨h.1, fun c hc => Bool.eq_false_iff.2 fun hgap => ?_⟩
  have hletter := h.2 c hc
  simp only [isGap, Bool.or_eq_true, decide_eq_true_eq] at hgap
  rcases hgap with ((rfl | rfl) | rfl) | rfl <;> cases hletter

theorem parameter_injective : Function.Injective parameter := by
  intro m n h
  have hdigits := congrArg String.toList h
  simp only [parameter, Text.Decimal.natText, String.toList_append, String.toList_ofList] at hdigits
  exact Text.Decimal.ofNat_injective (List.append_cancel_left hdigits)

theorem isWord_parameter (n : Nat) : IsWord (parameter n) := by
  have hchars : (parameter n).toList = '$' :: Text.Decimal.ofNat n := by
    simp [parameter, Text.Decimal.natText]
  rw [IsWord, hchars]
  refine ⟨nofun, fun c hc => ?_⟩
  rcases List.mem_cons.1 hc with rfl | hc
  · rfl
  · have hdigit := Text.Decimal.isDigit_of_mem_ofNat hc
    refine Bool.eq_false_iff.2 fun hgap => ?_
    simp only [isGap, Bool.or_eq_true, decide_eq_true_eq] at hgap
    rcases hgap with ((rfl | rfl) | rfl) | rfl <;> cases hdigit

theorem isWord_of_mem_parameters {n : Nat} (h : s ∈ parameters n) : IsWord s := by
  obtain ⟨i, -, rfl⟩ := List.mem_map.1 h
  exact isWord_parameter _

theorem lookup_zip_range' {f : Nat → String} (hf : Function.Injective f) (vs : List Value)
    (k i : Nat) : (((List.range' k vs.length).map f).zip vs).lookup (f (k + i)) = vs[i]? := by
  induction vs generalizing k i with
  | nil => rfl
  | cons v vs ih =>
    rw [List.length_cons, List.range'_succ, List.map_cons, List.zip_cons_cons]
    cases i with
    | zero => simp
    | succ i =>
      have hne : (f (k + (i + 1)) == f k) = false := by
        simpa using fun h => Nat.succ_ne_zero i (Nat.add_eq_left.1 (hf h))
      rw [List.lookup_cons, hne, show k + (i + 1) = k + 1 + i by omega]
      exact ih (k + 1) i

theorem valueOf?_parameter (vs : List Value) (i : Nat) : valueOf? vs (parameter (i + 1)) = vs[i]? := by
  have hfound := lookup_zip_range' (f := fun i => parameter (i + 1))
    (fun i j h => Nat.succ.inj (parameter_injective h)) vs 0 i
  rwa [Nat.zero_add, ← List.range_eq_range'] at hfound

def Mark (vs : List Value) : List String → List Value → Prop :=
  List.Forall₂ fun mark value => valueOf? vs mark = some value

theorem mark_parameters (vs ws : List Value) : Mark (vs ++ ws) (parameters vs.length) vs := by
  have hlength : (parameters vs.length).length = vs.length := by simp [parameters]
  refine List.forall₂_iff_get.2 ⟨hlength, fun i _ hi => ?_⟩
  have hmark : (parameters vs.length).get ⟨i, by omega⟩ = parameter (i + 1) := by simp [parameters]
  rw [hmark, valueOf?_parameter, List.getElem?_append_left hi]
  simp

/-! ## Statements -/

theorem isWord_name (t : Table) : IsWord t.name := by cases t <;> exact isWord_of_isName rfl

theorem ofName?_name (t : Table) : Table.ofName? t.name = some t := by cases t <;> rfl

theorem words_name (t : Table) : words t.name = [t.name] := (isWord_name t).words_eq

namespace Statement

variable {names : List String} {keyword : String}

theorem takeWhile_names (h : ∀ s ∈ names, s ≠ keyword) (rest : List String) :
    (names ++ keyword :: rest).takeWhile (· ≠ keyword) = names := by
  rw [List.takeWhile_append_of_pos (by simpa using h), List.takeWhile_cons_of_neg (by simp),
    List.append_nil]

theorem dropWhile_names (h : ∀ s ∈ names, s ≠ keyword) (rest : List String) :
    (names ++ keyword :: rest).dropWhile (· ≠ keyword) = keyword :: rest := by
  rw [List.dropWhile_append_of_pos (by simpa using h), List.dropWhile_cons_of_neg (by simp)]

theorem ne_of_isName (hk : isName keyword = false) (h : isName s = true) : s ≠ keyword := by
  rintro rfl
  cases h.symm.trans hk

theorem starts_selection (sel : Selection) : StartsApart sel.text := by
  have hwhere : StartsApart " WHERE " := rfl
  have horder : StartsApart " ORDER BY " := rfl
  cases sel with
  | matching | locking => exact (hwhere.append _).append _
  | first => exact (horder.append _).append _
  | after => exact (((((hwhere.append _).append _).append _).append _).append _).append _

theorem words_selection {sel : Selection} (h : sel.isPlain = true) :
    words sel.text = match sel with
      | .matching key => ["WHERE", key.column, "=", "$1"]
      | .locking key => ["WHERE", key.column, "=", "$1", "FOR", "UPDATE"]
      | .first column _ => ["ORDER", "BY", column, "LIMIT", "$1"]
      | .after key column _ _ =>
        ["WHERE", key.column, "=", "$1", "AND", column, ">", "$2", "ORDER", "BY", column, "LIMIT",
          "$3"] := by
  have hword {s : String} (hs : isName s = true) : words s = [s] := (isWord_of_isName hs).words_eq
  have hwhere (b : String) : words (" WHERE " ++ b) = "WHERE" :: words b :=
    words_before " WHERE " rfl b
  cases sel with
  | matching key =>
    have hkey : StartsApart " = $1" := rfl
    rw [Selection.text, words_append_of_starts hkey, hwhere, hword h]
    rfl
  | locking key =>
    have hkey : StartsApart " = $1 FOR UPDATE" := rfl
    rw [Selection.text, words_append_of_starts hkey, hwhere, hword h]
    rfl
  | first column =>
    have horder : EndsApart " ORDER BY " := rfl
    have hlimit : StartsApart " LIMIT $1" := rfl
    rw [Selection.text, words_append_of_starts hlimit, words_append_of_ends horder, hword h]
    rfl
  | after key column cursor limit =>
    obtain ⟨hkey, hcolumn⟩ := Bool.and_eq_true_iff.1 h
    have hlimit : StartsApart " LIMIT $3" := rfl
    have hand (a b : String) : words (a ++ " = $1 AND " ++ b) = words a ++ ["=", "$1", "AND"] ++ words b :=
      words_between " = $1 AND " rfl rfl a b
    have horder (a b : String) : words (a ++ " > $2 ORDER BY " ++ b) =
        words a ++ [">", "$2", "ORDER", "BY"] ++ words b := words_between " > $2 ORDER BY " rfl rfl a b
    rw [Selection.text, words_append_of_starts hlimit, horder, hand, hwhere, hword hkey, hword hcolumn]
    rfl

theorem readSelection?_text {sel : Selection} (h : sel.isPlain = true) :
    readSelection? sel.values (words sel.text) = some sel := by
  rw [words_selection h]
  cases sel with
  | matching | locking | first => rfl
  | after key column cursor limit =>
    have hmark (i : Nat) := valueOf?_parameter [key.value, .integer cursor, .integer limit] i
    have hkey : valueOf? _ "$1" = some key.value := hmark 0
    have hcursor : valueOf? _ "$2" = some (.integer cursor) := hmark 1
    have hlimit : valueOf? _ "$3" = some (.integer limit) := hmark 2
    simp [readSelection?, Selection.values, integerOf?, hkey, hcursor, hlimit]

theorem readBindings?_marks {vs : List Value} {bs : List Binding} {marks : List String}
    (h : Mark vs marks (bs.map Binding.value)) :
    readBindings? vs (bs.map Binding.column) marks = some bs := by
  induction bs generalizing marks with
  | nil =>
    cases h
    rfl
  | cons b bs ih =>
    cases h with
    | cons hb hbs => simp [readBindings?, hb, ih hbs]

theorem ne_of_mem_parameters {n : Nat} (h : s ∈ parameters n) : s ≠ "RETURNING" := by
  obtain ⟨i, -, rfl⟩ := List.mem_map.1 h
  intro he
  have hhead := congrArg (fun s => s.toList.head?) he
  simp [parameter] at hhead

theorem readInsert?_marks {vs : List Value} {t : Table} {bs : List Binding} {marks : List String}
    (hb : (bs.all fun b => isName b.column) = true) (hm : ∀ s ∈ marks, s ≠ "RETURNING")
    (h : Mark vs marks (bs.map Binding.value)) :
    readInsert? vs t (bs.map Binding.column ++ "VALUES" :: (marks ++ [])) =
        some (.insert t bs none) ∧
      ∀ column, readInsert? vs t (bs.map Binding.column ++ "VALUES" :: (marks ++ ["RETURNING", column])) =
        some (.insert t bs (some column)) := by
  have hvalues : ∀ s ∈ bs.map Binding.column, s ≠ "VALUES" := by
    intro s hs
    obtain ⟨b, hmem, rfl⟩ := List.mem_map.1 hs
    exact ne_of_isName rfl (List.all_eq_true.1 hb b hmem)
  have hnone : marks.takeWhile (· ≠ "RETURNING") = marks ∧ marks.dropWhile (· ≠ "RETURNING") = [] :=
    ⟨List.takeWhile_eq_self_iff.2 (by simpa using hm), List.dropWhile_eq_nil_iff.2 (by simpa using hm)⟩
  refine ⟨?_, fun column => ?_⟩
  · simp only [readInsert?, takeWhile_names hvalues, dropWhile_names hvalues, List.tail_cons,
      List.append_nil, hnone.1, hnone.2, readBindings?_marks h]
    rfl
  · simp only [readInsert?, takeWhile_names hvalues, dropWhile_names hvalues, List.tail_cons,
      takeWhile_names hm, dropWhile_names hm, readBindings?_marks h]
    rfl

theorem isWord_of_mem_columns {bs : List Binding} (h : (bs.all fun b => isName b.column) = true) :
    ∀ s ∈ bs.map Binding.column, IsWord s := by
  intro s hs
  obtain ⟨b, hb, rfl⟩ := List.mem_map.1 hs
  exact isWord_of_isName (List.all_eq_true.1 h b hb)

theorem readAssignments?_marks {vs : List Value} {bs : List Binding} {marks : List String}
    {key : Binding} {last : String} (hb : (bs.all fun b => isName b.column) = true)
    (h : Mark vs marks (bs.map Binding.value)) (hk : valueOf? vs last = some key.value) :
    readAssignments? vs (((bs.zip marks).flatMap fun v => [v.1.column, "=", v.2]) ++
      ["WHERE", key.column, "=", last]) = some (bs, key) := by
  induction bs generalizing marks with
  | nil => simp [readAssignments?, hk]
  | cons b bs ih =>
    cases h with
    | cons hv hvs =>
      obtain ⟨hname, hnames⟩ := Bool.and_eq_true_iff.1 hb
      have hwhere : b.column ≠ "WHERE" := ne_of_isName rfl hname
      simp [readAssignments?, hv, ih hnames hvs, hwhere]

/-! The words of texts, whatever their names and marks are. -/

theorem words_select (columns name : String) {rest : String} (h : StartsApart rest) :
    words ("SELECT " ++ columns ++ " FROM " ++ name ++ rest) =
      "SELECT" :: (words columns ++ "FROM" :: (words name ++ words rest)) := by
  rw [words_append_of_starts h, words_between " FROM " rfl rfl, words_before "SELECT " rfl]
  simp [show words "SELECT " = ["SELECT"] from rfl, show words " FROM " = ["FROM"] from rfl]

theorem words_insert (name columns marks rest : String) :
    words ("INSERT INTO " ++ name ++ " (" ++ columns ++ ") VALUES (" ++ marks ++ ")" ++ rest) =
      "INSERT" :: "INTO" :: (words name ++ (words columns ++ "VALUES" :: (words marks ++ words rest))) := by
  rw [words_between ")" rfl rfl, words_between ") VALUES (" rfl rfl, words_between " (" rfl rfl,
    words_before "INSERT INTO " rfl]
  simp [show words "INSERT INTO " = ["INSERT", "INTO"] from rfl, show words " (" = [] from rfl,
    show words ") VALUES (" = ["VALUES"] from rfl, show words ")" = [] from rfl]

theorem words_equation (a b : String) : words (a ++ " = " ++ b) = words a ++ "=" :: words b := by
  rw [words_between " = " rfl rfl]
  simp [show words " = " = ["="] from rfl]

theorem words_update (name assigned key mark : String) :
    words ("UPDATE " ++ name ++ " SET " ++ assigned ++ " WHERE " ++ key ++ " = " ++ mark) =
      "UPDATE" :: (words name ++ "SET" ::
        (words assigned ++ "WHERE" :: (words key ++ "=" :: words mark))) := by
  rw [words_equation, words_between " WHERE " rfl rfl, words_between " SET " rfl rfl,
    words_before "UPDATE " rfl]
  simp [show words "UPDATE " = ["UPDATE"] from rfl, show words " SET " = ["SET"] from rfl,
    show words " WHERE " = ["WHERE"] from rfl]

theorem words_delete (name key : String) :
    words ("DELETE FROM " ++ name ++ " WHERE " ++ key ++ " = $1") =
      "DELETE" :: "FROM" :: (words name ++ "WHERE" :: (words key ++ ["=", "$1"])) := by
  rw [words_append_of_starts (show StartsApart " = $1" from rfl), words_between " WHERE " rfl rfl,
    words_before "DELETE FROM " rfl]
  simp [show words "DELETE FROM " = ["DELETE", "FROM"] from rfl,
    show words " WHERE " = ["WHERE"] from rfl, show words " = $1" = ["=", "$1"] from rfl]

theorem words_assignments {bs : List Binding} (h : (bs.all fun b => isName b.column) = true) :
    words (assignments bs) =
      (bs.zip (parameters bs.length)).flatMap fun v => [v.1.column, "=", v.2] := by
  rw [assignments, words_list, List.flatMap_map]
  refine List.flatMap_congr fun v hv => ?_
  obtain ⟨hb, hmark⟩ := List.of_mem_zip hv
  rw [words_equation, (isWord_of_isName (List.all_eq_true.1 h _ hb)).words_eq,
    (isWord_of_mem_parameters hmark).words_eq]
  rfl

theorem readWords?_select (vs : List Value) (ws : List String) :
    readWords? vs ("SELECT" :: ws) = readSelect? vs ws := rfl

theorem readWords?_insert (vs : List Value) (t : Table) (ws : List String) :
    readWords? vs ("INSERT" :: "INTO" :: t.name :: ws) = readInsert? vs t ws := by
  cases t <;> rfl

theorem readWords?_update (vs : List Value) (t : Table) (ws : List String) :
    readWords? vs ("UPDATE" :: t.name :: "SET" :: ws) =
      (readAssignments? vs ws).map fun r => .update t r.1 r.2 := by
  cases t <;> (simp only [readWords?]; cases readAssignments? vs ws <;> rfl)

theorem readWords?_delete (vs : List Value) (t : Table) (key mark : String) :
    readWords? vs ["DELETE", "FROM", t.name, "WHERE", key, "=", mark] =
      (valueOf? vs mark).map fun value => .delete t ⟨key, value⟩ := by
  cases t <;> (simp only [readWords?]; cases valueOf? vs mark <;> rfl)

/-- A statement with names for its columns is read as it was meant. -/
theorem read?_text {s : Statement} (h : s.isPlain = true) : read? s.values s.text = some s := by
  -- the words of a text are those of its parts, each of which is read by a lemma of its own
  cases s with
  | begin | commit | rollback => rfl
  | readOnly =>
    have hwords : words "SET TRANSACTION READ ONLY" = ["SET", "TRANSACTION", "READ", "ONLY"] := rfl
    exact congrArg (readWords? []) hwords
  | select t columns sel =>
    obtain ⟨hcolumns, hsel⟩ := Bool.and_eq_true_iff.1 h
    have hnames : ∀ s ∈ columns, isName s = true := List.all_eq_true.1 hcolumns
    have hfrom : ∀ s ∈ columns, s ≠ "FROM" := fun s hs => ne_of_isName rfl (hnames s hs)
    have hwords := words_select (list columns) t.name (starts_selection sel)
    rw [words_list_words fun s hs => isWord_of_isName (hnames s hs), words_name] at hwords
    refine (congrArg (readWords? sel.values) hwords).trans ?_
    rw [readWords?_select, readSelect?, dropWhile_names hfrom, takeWhile_names hfrom]
    simp only [List.singleton_append, ofName?_name, readSelection?_text hsel]
    rfl
  | insert t values returning =>
    obtain ⟨hcolumns, hreturning⟩ := Bool.and_eq_true_iff.1 h
    have hmarks := mark_parameters (values.map Binding.value) []
    rw [List.append_nil, List.length_map] at hmarks
    have hwords := words_insert t.name (list (values.map Binding.column))
      (list (parameters values.length))
    simp only [words_list_words (isWord_of_mem_columns hcolumns), words_name,
      words_list_words fun s => isWord_of_mem_parameters] at hwords
    have hinsert := readInsert?_marks (t := t) hcolumns (fun s => ne_of_mem_parameters) hmarks
    cases returning with
    | none =>
      refine (congrArg (readWords? (values.map Binding.value)) (hwords "")).trans ?_
      exact (readWords?_insert ..).trans hinsert.1
    | some column =>
      have hrest : words (" RETURNING " ++ column) = ["RETURNING", column] := by
        rw [words_before " RETURNING " rfl, (isWord_of_isName hreturning).words_eq]
        rfl
      refine (congrArg (readWords? (values.map Binding.value)) (hwords _)).trans ?_
      rw [hrest]
      exact (readWords?_insert ..).trans (hinsert.2 column)
  | update t values key =>
    obtain ⟨hcolumns, hkey⟩ := Bool.and_eq_true_iff.1 h
    have hmarks := mark_parameters (values.map Binding.value) [key.value]
    rw [List.length_map] at hmarks
    have hlast : valueOf? (values.map Binding.value ++ [key.value]) (parameter (values.length + 1)) =
        some key.value := by simp [valueOf?_parameter]
    have hwords := words_update t.name (assignments values) key.column (parameter (values.length + 1))
    rw [words_name, words_assignments hcolumns, (isWord_of_isName hkey).words_eq,
      (isWord_parameter _).words_eq] at hwords
    refine (congrArg (readWords? (values.map Binding.value ++ [key.value])) hwords).trans ?_
    refine (readWords?_update ..).trans ?_
    exact congrArg (Option.map _) (readAssignments?_marks hcolumns hmarks hlast)
  | delete t key =>
    have hwords := words_delete t.name key.column
    rw [words_name, (isWord_of_isName h).words_eq] at hwords
    exact (congrArg (readWords? [key.value]) hwords).trans (readWords?_delete ..)
  | script sql => cases h

end Statement

end OrderDesk.Tables
