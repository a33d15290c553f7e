import Mathlib.Data.List.TakeWhile
import OrderDesk.Api.Router
import OrderDesk.Proofs.Text.Decimal
import OrderDesk.Proofs.Text.Patterns
import OrderDesk.Proofs.Text.Utf8

/-!
Targets that are made for an order. An id of letters and digits stands for itself in a path, and so
does a number in a query: what is sent for them is what is read.
-/

namespace OrderDesk.Api

open Text (Utf8.Bytes Utf8.encode)

variable {bs : Utf8.Bytes} {s t path tail : List Char} {uid : String} {c : Char} {n : Nat}

/-! ## Texts without escapes -/

theorem percentDecode_eq_self (h : 0x25 ∉ bs) : percentDecode bs = bs := by
  unfold percentDecode
  induction bs with
  | nil => rfl
  | cons b bs ih =>
    obtain ⟨hb, h⟩ := not_or.1 (mt List.mem_cons.2 h)
    rw [percentDecodeAfter, if_neg (Ne.symm hb), ih h]

theorem percentDecode_encode (h : '%' ∉ s) : percentDecode (Utf8.encode s) = Utf8.encode s :=
  percentDecode_eq_self fun hb => h (Text.Utf8.mem_of_mem_encode (k := 0x25) (by decide) hb)

theorem segmentText?_eq_self (h : '%' ∉ s) : segmentText? s = some (String.ofList s) := by
  rw [segmentText?, percentDecode_encode h, Text.Utf8.decode?_encode]
  rfl

theorem formText_eq_self (h : '%' ∉ s) (hplus : '+' ∉ s) : formText s = String.ofList s := by
  have hsame : (s.map fun c => if c = '+' then ' ' else c) = s := by
    have hkeep : ∀ c ∈ s, (if c = '+' then ' ' else c) = c := fun c hc =>
      if_neg fun he => hplus (by rwa [← he])
    rw [List.map_congr_left hkeep, List.map_id']
  rw [formText, hsame, percentDecode_encode h, Text.Utf8.toStringLossy_encode]

theorem splitOn_eq_singleton (h : c ∉ s) : splitOn c s = [s] := by
  induction s with
  | nil => rfl
  | cons d s ih =>
    obtain ⟨hd, h⟩ := not_or.1 (mt List.mem_cons.2 h)
    rw [splitOn, if_neg (Ne.symm hd), ih h]

/-! ## Texts cut at a character -/

theorem takeWhile_ne_self {d : Char} (h : ∀ c ∈ s, c ≠ d) :
    s.takeWhile (fun c => decide (c ≠ d)) = s :=
  List.takeWhile_eq_self_iff.2 fun c hc => decide_eq_true (h c hc)

theorem takeWhile_ne_append {d : Char} (h : ∀ c ∈ s, c ≠ d) (t : List Char) :
    (s ++ d :: t).takeWhile (fun c => decide (c ≠ d)) = s := by
  rw [List.takeWhile_append_of_pos fun c hc => decide_eq_true (h c hc),
    List.takeWhile_cons_of_neg (by simp), List.append_nil]

theorem dropWhile_ne_append {d : Char} (h : ∀ c ∈ s, c ≠ d) (t : List Char) :
    (s ++ d :: t).dropWhile (fun c => decide (c ≠ d)) = d :: t := by
  rw [List.dropWhile_append_of_pos fun c hc => decide_eq_true (h c hc),
    List.dropWhile_cons_of_neg (by simp)]

theorem dropWhile_ne_self {d : Char} (h : ∀ c ∈ s, c ≠ d) :
    s.dropWhile (fun c => decide (c ≠ d)) = [] :=
  List.dropWhile_eq_nil_iff.2 fun c hc => decide_eq_true (h c hc)

/-! ## Letters and digits -/

def isPlain (c : Char) : Bool := Text.isAsciiLetter c || Text.Decimal.isDigit c

theorem toNat_lt_of_plain (h : isPlain c = true) : c.toNat < 0x80 := by
  have hle {d : Char} (hd : c ≤ d) : c.toNat ≤ d.toNat := UInt32.le_iff_toNat_le.1 hd
  simp only [isPlain, Text.isAsciiLetter, Text.Decimal.isDigit, Bool.or_eq_true, Bool.and_eq_true,
    decide_eq_true_eq] at h
  rcases h with (⟨-, h⟩ | ⟨-, h⟩) | ⟨-, h⟩ <;> exact (hle h).trans_lt (by decide)

theorem meaningless_of_plain (h : isPlain c = true) :
    Target.isPathChar c = true ∧ Target.isQueryChar c = true ∧ c ∉ "#?/%+&=".toList := by
  have hall : ∀ n < 0x80, isPlain (Char.ofNat n) = true →
      Target.isPathChar (Char.ofNat n) = true ∧ Target.isQueryChar (Char.ofNat n) = true ∧
        Char.ofNat n ∉ "#?/%+&=".toList := by decide +kernel
  have hc := hall c.toNat (toNat_lt_of_plain h)
  rw [Char.ofNat_toNat] at hc
  exact hc h

theorem plain_of_alphanumeric {s : String} (h : Text.alphanumeric.accepts s = true) :
    ∀ c ∈ s.toList, isPlain c = true := by
  intro c hc
  obtain ⟨p, hp, hallows⟩ := Text.Pattern.exists_of_acceptsChars h c hc
  obtain rfl := List.mem_singleton.1 hp
  exact hallows

theorem plain_of_digit (h : Text.Decimal.isDigit c = true) : isPlain c = true := by
  rw [isPlain, h, Bool.or_true]

theorem not_mem_of_plain (h : ∀ d ∈ s, isPlain d = true) (hc : isPlain c = false) : c ∉ s := by
  intro hmem
  rw [h c hmem] at hc
  cases hc

/-! ## Targets -/

namespace Target

def IsPath (s : List Char) : Prop := ∀ c ∈ s, isPathChar c = true ∧ c ≠ '#' ∧ c ≠ '?'

def IsQuery (s : List Char) : Prop := ∀ c ∈ s, isQueryChar c = true ∧ c ≠ '#'

instance (s : List Char) : Decidable (IsPath s) := List.decidableBAll _ s

instance (s : List Char) : Decidable (IsQuery s) := List.decidableBAll _ s

theorem IsPath.append (hs : IsPath s) (ht : IsPath t) : IsPath (s ++ t) :=
  List.forall_mem_append.2 ⟨hs, ht⟩

theorem IsQuery.append (hs : IsQuery s) (ht : IsQuery t) : IsQuery (s ++ t) :=
  List.forall_mem_append.2 ⟨hs, ht⟩

theorem ofPath?_path (hpath : IsPath path) (hne : path ≠ []) :
    ofPath? path = some ⟨path, []⟩ := by
  have hall : path.all isPathChar = true := List.all_eq_true.2 fun c hc => (hpath c hc).1
  simp only [ofPath?, takeWhile_ne_self fun c hc => (hpath c hc).2.1,
    takeWhile_ne_self fun c hc => (hpath c hc).2.2, dropWhile_ne_self fun c hc => (hpath c hc).2.2,
    hall, if_neg hne]
  rfl

theorem ofPath?_query {query : List Char} (hpath : IsPath path) (hne : path ≠ [])
    (hquery : IsQuery query) : ofPath? (path ++ '?' :: query) = some ⟨path, query⟩ := by
  have hall : path.all isPathChar = true := List.all_eq_true.2 fun c hc => (hpath c hc).1
  have hallquery : query.all isQueryChar = true :=
    List.all_eq_true.2 fun c hc => (hquery c hc).1
  have hfragment : ∀ c ∈ path ++ '?' :: query, c ≠ '#' := by
    refine List.forall_mem_append.2 ⟨fun c hc => (hpath c hc).2.1, ?_⟩
    exact List.forall_mem_cons.2 ⟨by decide, fun c hc => (hquery c hc).2⟩
  simp only [ofPath?, takeWhile_ne_self hfragment,
    takeWhile_ne_append fun c hc => (hpath c hc).2.2,
    dropWhile_ne_append fun c hc => (hpath c hc).2.2, hall, List.drop_succ_cons, List.drop_zero,
    hallquery, if_neg hne]
  rfl

theorem ofString?_slash {rest : List Char}
    (hlen : (Utf8.encode ('/' :: rest)).length ≤ mostBytes) :
    ofString? (String.ofList ('/' :: rest)) = ofPath? ('/' :: rest) := by
  have hfits : ¬ ('/' :: rest = [] ∨ mostBytes < (Utf8.encode ('/' :: rest)).length) := by
    rintro (h | h)
    · cases h
    · omega
  have hstar : ¬ '/' :: rest = ['*'] := by
    intro h
    exact absurd (List.cons.inj h).1 (by decide)
  simp only [ofString?, String.toList_ofList, if_neg hfits, if_neg hstar]
  rfl

end Target

/-! ## Routes -/

theorem stripStart?_append (p s : List Char) : stripStart? p (p ++ s) = some s := by
  induction p with
  | nil => cases s <;> rfl
  | cons c p ih => rw [List.cons_append, stripStart?, if_pos rfl, ih]

theorem orderRoute_id (h : '/' ∉ s) (hne : s ≠ []) : orderRoute s = some (.order s) := by
  have hcut : ∀ c ∈ s, c ≠ '/' := fun c hc he => h (he ▸ hc)
  simp only [orderRoute, takeWhile_ne_self hcut, dropWhile_ne_self hcut, if_neg hne, if_true]

theorem orderRoute_items (h : '/' ∉ s) : orderRoute (s ++ "/items".toList) = some (.items s) := by
  have hcut : ∀ c ∈ s, c ≠ '/' := fun c hc he => h (he ▸ hc)
  have htake := takeWhile_ne_append hcut "items".toList
  have hdrop := dropWhile_ne_append hcut "items".toList
  change orderRoute (s ++ '/' :: "items".toList) = _
  simp only [orderRoute, htake, hdrop]
  rfl

theorem ofPath?_orders (rest : List Char) :
    Route.ofPath? ("/api/orders/".toList ++ rest) = orderRoute rest := by
  have hne {other : List Char} (h : other[1]? ≠ some 'a') :
      "/api/orders/".toList ++ rest ≠ other := by
    rintro rfl
    exact h rfl
  rw [Route.ofPath?, if_neg (hne (by decide)), if_neg (hne (by decide)), stripStart?_append]
  rfl

/-! ## Requests for an order -/

def orderUri (uid : String) : String := "/api/orders/" ++ uid

def pageUri (uid : String) (limit : Nat) : String :=
  orderUri uid ++ "/items?limit=" ++ Text.Decimal.natText limit

theorem isPath_of_plain (h : ∀ c ∈ s, isPlain c = true) : Target.IsPath s := by
  intro c hc
  obtain ⟨hpath, -, hnot⟩ := meaningless_of_plain (h c hc)
  refine ⟨hpath, ?_, ?_⟩ <;> rintro rfl <;> exact hnot (by decide)

theorem plain_ofNat (n : Nat) : ∀ c ∈ Text.Decimal.ofNat n, isPlain c = true :=
  fun _ hc => plain_of_digit (Text.Decimal.isDigit_of_mem_ofNat hc)

theorem isQuery_limit (n : Nat) : Target.IsQuery ("limit=".toList ++ Text.Decimal.ofNat n) := by
  refine .append (by decide) fun c hc => ?_
  obtain ⟨-, hquery, hnot⟩ := meaningless_of_plain (plain_ofNat n c hc)
  refine ⟨hquery, ?_⟩
  rintro rfl
  exact hnot (by decide)

theorem ofStrings?_orderUri (hplain : ∀ c ∈ uid.toList, isPlain c = true)
    (hlen : (Text.Utf8.ofString (orderUri uid)).length ≤ Target.mostBytes) :
    Request.ofStrings? "GET" (orderUri uid) =
      some ⟨"GET", "/api/orders/".toList ++ uid.toList, []⟩ := by
  have hpath : Target.IsPath ("/api/orders/".toList ++ uid.toList) :=
    .append (by decide) (isPath_of_plain hplain)
  have huri : (orderUri uid).toList = "/api/orders/".toList ++ uid.toList := String.toList_append
  have htarget : Target.ofString? (orderUri uid) =
      some ⟨"/api/orders/".toList ++ uid.toList, []⟩ := by
    rw [Text.Utf8.ofString, huri] at hlen
    rw [← String.ofList_toList (s := orderUri uid), huri]
    exact (Target.ofString?_slash hlen).trans (Target.ofPath?_path hpath (by simp))
  rw [Request.ofStrings?, if_pos (by decide), htarget]
  rfl

theorem ofStrings?_pageUri (hplain : ∀ c ∈ uid.toList, isPlain c = true) (limit : Nat)
    (hlen : (Text.Utf8.ofString (pageUri uid limit)).length ≤ Target.mostBytes) :
    Request.ofStrings? "GET" (pageUri uid limit) =
      some ⟨"GET", "/api/orders/".toList ++ (uid.toList ++ "/items".toList),
        "limit=".toList ++ Text.Decimal.ofNat limit⟩ := by
  have hpath : Target.IsPath ("/api/orders/".toList ++ (uid.toList ++ "/items".toList)) :=
    .append (by decide) (.append (isPath_of_plain hplain) (by decide))
  have huri : (pageUri uid limit).toList =
      "/api/orders/".toList ++ (uid.toList ++ "/items".toList) ++
        '?' :: ("limit=".toList ++ Text.Decimal.ofNat limit) := by
    simp only [pageUri, orderUri, String.toList_append, Text.Decimal.natText, String.toList_ofList,
      List.append_assoc]
    rfl
  have htarget : Target.ofString? (pageUri uid limit) =
      some ⟨"/api/orders/".toList ++ (uid.toList ++ "/items".toList),
        "limit=".toList ++ Text.Decimal.ofNat limit⟩ := by
    rw [Text.Utf8.ofString, huri] at hlen
    rw [← String.ofList_toList (s := pageUri uid limit), huri]
    exact (Target.ofString?_slash hlen).trans
      (Target.ofPath?_query hpath (by simp) (isQuery_limit limit))
  rw [Request.ofStrings?, if_pos (by decide), htarget]
  rfl

/-! ## Limits -/

theorem formPairs_limit (n : Nat) :
    formPairs ("limit=".toList ++ Text.Decimal.ofNat n) =
      [("limit", Text.Decimal.natText n)] := by
  have hplain := plain_ofNat n
  have hwhole : '&' ∉ "limit=".toList ++ Text.Decimal.ofNat n := by
    rw [List.mem_append, not_or]
    exact ⟨by decide, not_mem_of_plain hplain (by decide)⟩
  have hvalue : formText (Text.Decimal.ofNat n) = Text.Decimal.natText n :=
    formText_eq_self (not_mem_of_plain hplain (by decide)) (not_mem_of_plain hplain (by decide))
  have hname : formText "limit".toList = "limit" := formText_eq_self (by decide) (by decide)
  have hnot : '=' ∉ "limit".toList := by decide
  have hcut : ∀ c ∈ "limit".toList, c ≠ '=' := fun c hc he => hnot (he ▸ hc)
  have htake := takeWhile_ne_append hcut (Text.Decimal.ofNat n)
  have hdrop := dropWhile_ne_append hcut (Text.Decimal.ofNat n)
  have hsplit : "limit=".toList ++ Text.Decimal.ofNat n =
      "limit".toList ++ '=' :: Text.Decimal.ofNat n := rfl
  rw [formPairs, splitOn_eq_singleton hwhole, List.filter_cons_of_pos (by simp), List.filter_nil,
    List.map_singleton, hsplit, htake, hdrop, hname, List.drop_succ_cons, List.drop_zero, hvalue]

theorem page_limit (hpos : 1 ≤ n) (hmost : n ≤ 100) :
    PageQuery.page ⟨some (Text.Decimal.natText n), none⟩ = .ok (0, .ofNat n) := by
  have hsigned : (Int64.ofNat n).toInt = n := Int64.toInt_ofNat_of_lt (by omega)
  have hleast : 1 ≤ Int64.ofNat n := by
    have hone : (1 : Int64).toInt = 1 := rfl
    rw [Int64.le_iff_toInt_le, hsigned, hone]
    exact_mod_cast hpos
  have hlargest : min (Int64.ofNat n) PageQuery.mostLimit = .ofNat n := by
    have hbound : PageQuery.mostLimit.toInt = 100 := rfl
    refine if_pos ?_
    rw [Int64.le_iff_toInt_le, hsigned, hbound]
    exact_mod_cast hmost
  have htext : Text.Decimal.natText n ≠ "" := by
    intro h
    have hchars : Text.Decimal.ofNat n = [] := by
      rw [← String.toList_ofList (l := Text.Decimal.ofNat n), ← Text.Decimal.natText, h]
      rfl
    exact Text.Decimal.ofNat_ne_nil n hchars
  have hread : Text.Decimal.int64? (Text.Decimal.natText n).toList = some (.ofNat n) := by
    rw [Text.Decimal.natText, String.toList_ofList]
    exact Text.Decimal.int64?_ofNat (hmost.trans_lt (by decide))
  have hnumber : PageQuery.number 1 PageQuery.defaultLimit (some (Text.Decimal.natText n)) =
      .ok (.ofNat n) := by
    simp only [PageQuery.number, if_neg htext, hread, if_pos hleast]
  have hpage : PageQuery.page ⟨some (Text.Decimal.natText n), none⟩ =
      .ok (0, min (Int64.ofNat n) PageQuery.mostLimit) := by
    rw [PageQuery.page, hnumber]
    rfl
  rw [hpage, hlargest]

end OrderDesk.Api
