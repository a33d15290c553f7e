import Mathlib.Data.List.Nodup
import Mathlib.Data.List.TakeWhile
import OrderDesk.Proofs.Log.Keys
import OrderDesk.Proofs.Order.Validity

/-!
Violations. What a field must be like is settled by its name alone, and the violations of an order
are the fields whose values break what is demanded of them: each of these once, in one order, and
under a path that no other field has.
-/

namespace OrderDesk

/-! ## Paths -/

theorem Text.Decimal.toList_natText (n : Nat) : (natText n).toList = ofNat n :=
  String.toList_ofList

namespace Part

def heading : Part → List Char
  | .order => []
  | .delivery => "delivery".toList
  | .payment => "payment".toList
  | .item i => "items[".toList ++ (Text.Decimal.ofNat i ++ [']'])

theorem heading_injective : Function.Injective heading := by
  have hhead (a : Part) : a.heading.head? = match a with
      | .order => none
      | .delivery => some 'd'
      | .payment => some 'p'
      | .item _ => some 'i' := by
    cases a <;> rfl
  intro a b h
  have hfirst := congrArg List.head? h
  rw [hhead, hhead] at hfirst
  cases a with
  | item i =>
    cases b with
    | item j =>
      have hdigits := List.append_cancel_right (List.append_cancel_left h)
      rw [Text.Decimal.ofNat_injective hdigits]
    | _ => cases hfirst
  | _ => cases b <;> first | rfl | cases hfirst

end Part

namespace Path

variable {part : Part} {p q : Path}

theorem toList_text (name : String) (h : part ≠ .order) :
    (Path.mk part name).text.toList = part.heading ++ '.' :: name.toList := by
  cases part with
  | order => exact absurd rfl h
  | delivery =>
    have hdot : "delivery.".toList = "delivery".toList ++ ['.'] := by decide
    rw [text, String.toList_append, hdot, List.append_assoc]
    rfl
  | payment =>
    have hdot : "payment.".toList = "payment".toList ++ ['.'] := by decide
    rw [text, String.toList_append, hdot, List.append_assoc]
    rfl
  | item i =>
    have hdot : "].".toList = [']', '.'] := by decide
    have hheading :
        (Part.item i).heading = "items[".toList ++ (Text.Decimal.ofNat i ++ [']']) := rfl
    rw [text, String.toList_append, String.toList_append, String.toList_append,
      Text.Decimal.toList_natText, hdot, hheading]
    simp only [List.append_assoc, List.cons_append, List.nil_append]

theorem dot_mem_text (name : String) (h : part ≠ .order) :
    '.' ∈ (Path.mk part name).text.toList := by
  rw [toList_text name h]
  simp

theorem text_inj (hp : '.' ∉ p.name.toList) (hq : '.' ∉ q.name.toList) (h : p.text = q.text) :
    p = q := by
  obtain ⟨a, name⟩ := p
  obtain ⟨b, other⟩ := q
  have hchars := congrArg String.toList h
  by_cases ha : a = .order <;> by_cases hb : b = .order
  · subst ha hb
    exact congrArg (Path.mk .order) (String.toList_inj.1 hchars)
  -- the dot after the heading would stand in a name
  · subst ha
    have hdot := dot_mem_text other hb
    rw [← hchars] at hdot
    exact absurd hdot hp
  · subst hb
    have hdot := dot_mem_text name ha
    rw [hchars] at hdot
    exact absurd hdot hq
  · rw [toList_text name ha, toList_text other hb] at hchars
    have hname := eq_of_append_separator hp hq hchars
    dsimp only at hname
    rw [hname] at hchars
    have hpart := Part.heading_injective (List.append_cancel_right hchars)
    rw [hpart, String.toList_inj.1 hname]

end Path

/-! ## Demands -/

inductive FieldValue where
  | text (s : String)
  | number (i : Int64)
  | length (n : Nat)

inductive Demand where
  | notBlank
  | form (p : Text.Pattern) (r : Rule)
  | same (uid : String)
  | notZero
  | amount
  | percentage
  | notEmpty

def Blank (s : String) : Prop := Text.trim s.toList = []

inductive Demand.Broken : Demand → FieldValue → Rule → Prop where
  | blank {s} (h : Blank s) : Broken .notBlank (.text s) .required
  | blankForm {p r s} (h : Blank s) : Broken (.form p r) (.text s) .required
  | malformed {p r s} (h : ¬ Blank s) (hp : p.accepts s = false) : Broken (.form p r) (.text s) r
  | blankName {uid s} (h : Blank s) : Broken (.same uid) (.text s) .required
  | otherName {uid s} (h : ¬ Blank s) (hs : s ≠ uid) : Broken (.same uid) (.text s) .sameAsUid
  | zero : Broken .notZero (.number 0) .required
  | negative {i} (h : i < 0) : Broken .amount (.number i) .notNegative
  | outside {i} (h : i < 0 ∨ 100 < i) : Broken .percentage (.number i) .percentage
  | empty : Broken .notEmpty (.length 0) .notEmpty

namespace Order

def headerDemands : List (String × Demand) :=
  [("order_uid", .form Text.alphanumeric .alphanumeric), ("track_number", .notBlank),
    ("entry", .notBlank), ("customer_id", .notBlank), ("delivery_service", .notBlank),
    ("shardkey", .notBlank), ("sm_id", .notZero), ("oof_shard", .notBlank)]

def deliveryDemands : List (String × Demand) :=
  [("name", .notBlank), ("phone", .form Text.e164 .e164), ("zip", .form Text.numeric .numeric),
    ("city", .notBlank), ("address", .notBlank), ("region", .notBlank),
    ("email", .form Text.email .email)]

def paymentDemands (uid : String) : List (String × Demand) :=
  [("transaction", .same uid), ("provider", .notBlank), ("amount", .amount),
    ("payment_dt", .notZero), ("bank", .notBlank), ("delivery_cost", .amount),
    ("goods_total", .amount), ("custom_fee", .amount)]

def itemDemands : List (String × Demand) :=
  [("chrt_id", .notZero), ("track_number", .notBlank), ("price", .amount), ("rid", .notBlank),
    ("name", .notBlank), ("sale", .percentage), ("size", .notBlank), ("total_price", .amount),
    ("nm_id", .notZero), ("brand", .notBlank), ("status", .notZero)]

def demands (o : Order) : Part → List (String × Demand)
  | .order => headerDemands ++ [("items", .notEmpty)]
  | .delivery => deliveryDemands
  | .payment => paymentDemands o.uid
  | .item _ => itemDemands

end Order

/-! ## Values -/

def Delivery.values (d : Delivery) : List (String × FieldValue) :=
  [("name", .text d.name), ("phone", .text d.phone), ("zip", .text d.zip), ("city", .text d.city),
    ("address", .text d.address), ("region", .text d.region), ("email", .text d.email)]

def Payment.values (p : Payment) : List (String × FieldValue) :=
  [("transaction", .text p.transaction), ("provider", .text p.provider),
    ("amount", .number p.amount), ("payment_dt", .number p.paidAt), ("bank", .text p.bank),
    ("delivery_cost", .number p.deliveryCost), ("goods_total", .number p.goodsTotal),
    ("custom_fee", .number p.customFee)]

def Item.values (x : Item) : List (String × FieldValue) :=
  [("chrt_id", .number x.chrtId), ("track_number", .text x.trackNumber), ("price", .number x.price),
    ("rid", .text x.rid), ("name", .text x.name), ("sale", .number x.sale), ("size", .text x.size),
    ("total_price", .number x.totalPrice), ("nm_id", .number x.nmId), ("brand", .text x.brand),
    ("status", .number x.status)]

namespace Order

def values (o : Order) : List (String × FieldValue) :=
  [("order_uid", .text o.uid), ("track_number", .text o.trackNumber), ("entry", .text o.entry),
    ("customer_id", .text o.customerId), ("delivery_service", .text o.deliveryService),
    ("shardkey", .text o.shardKey), ("sm_id", .number o.smId), ("oof_shard", .text o.oofShard),
    ("items", .length o.items.length)]

def value? (o : Order) (p : Path) : Option FieldValue :=
  match p.part with
  | .order => o.values.lookup p.name
  | .delivery => o.delivery.values.lookup p.name
  | .payment => o.payment.values.lookup p.name
  | .item i => o.items[i]?.bind fun x => x.values.lookup p.name

def Breaks (o : Order) (p : Path) (r : Rule) : Prop :=
  ∃ d v, (p.name, d) ∈ o.demands p.part ∧ o.value? p = some v ∧ d.Broken v r

def pathsOf (part : Part) (ds : List (String × Demand)) : List Path :=
  (ds.map Prod.fst).map (Path.mk part)

def paths (o : Order) : List Path :=
  pathsOf .order headerDemands ++ pathsOf .delivery deliveryDemands ++
    pathsOf .payment (paymentDemands o.uid) ++ pathsOf .order [("items", .notEmpty)] ++
    (List.range o.items.length).flatMap fun i => pathsOf (.item i) itemDemands

end Order

/-! ## Rules -/

theorem Text.blank_iff {s : String} : Text.blank s = true ↔ Blank s := by
  have hskip (cs : List Char) : skipBlank cs = [] ↔ ∀ c ∈ cs, isBlank c = true :=
    List.dropWhile_eq_nil_iff
  simp only [Blank, trim, List.reverse_eq_nil_iff, hskip, blank, List.all_eq_true, List.mem_reverse]
  constructor
  · intro h c hc
    exact h c ((List.dropWhile_sublist _).mem hc)
  · intro h c hc
    -- a character is in front of what is kept, and skipped for being white space, or it is kept
    rw [← List.takeWhile_append_dropWhile (p := isBlank) (l := s.toList)] at hc
    rcases List.mem_append.1 hc with hc | hc
    · exact List.mem_takeWhile_imp hc
    · exact h c hc

namespace Check

variable {s uid : String} {i : Int64} {r : Rule} {p : Text.Pattern} {q : Rule} {xs : List Item}

theorem required_iff : required s = some r ↔ Demand.notBlank.Broken (.text s) r := by
  rw [required, Option.ite_none_right_eq_some, Text.blank_iff]
  constructor
  · rintro ⟨hs, ⟨⟩⟩
    exact .blank hs
  · rintro ⟨hs⟩
    exact ⟨hs, rfl⟩

theorem unlessBlank_iff {rest : Option Rule} :
    (if Text.blank s then some .required else rest) = some r ↔
      Blank s ∧ r = .required ∨ ¬ Blank s ∧ rest = some r := by
  rw [ite_eq_iff, Text.blank_iff, Option.some.injEq, eq_comm]

theorem matching_iff : matching p q s = some r ↔ (Demand.form p q).Broken (.text s) r := by
  rw [matching, unlessBlank_iff, Option.ite_none_left_eq_some]
  constructor
  · rintro (⟨hs, rfl⟩ | ⟨hs, hp, ⟨⟩⟩)
    · exact .blankForm hs
    · exact .malformed hs (Bool.eq_false_iff.2 hp)
  · intro h
    cases h with
    | blankForm hs => exact .inl ⟨hs, rfl⟩
    | malformed hs hp => exact .inr ⟨hs, Bool.eq_false_iff.1 hp, rfl⟩

theorem transaction_iff : transaction uid s = some r ↔ (Demand.same uid).Broken (.text s) r := by
  rw [transaction, unlessBlank_iff, Option.ite_none_left_eq_some]
  constructor
  · rintro (⟨hs, rfl⟩ | ⟨hs, hne, ⟨⟩⟩)
    · exact .blankName hs
    · exact .otherName hs hne
  · intro h
    cases h with
    | blankName hs => exact .inl ⟨hs, rfl⟩
    | otherName hs hne => exact .inr ⟨hs, hne, rfl⟩

theorem nonzero_iff : nonzero i = some r ↔ Demand.notZero.Broken (.number i) r := by
  rw [nonzero, Option.ite_none_right_eq_some]
  constructor
  · rintro ⟨rfl, ⟨⟩⟩
    exact .zero
  · rintro ⟨⟩
    exact ⟨rfl, rfl⟩

theorem notNegative_iff : notNegative i = some r ↔ Demand.amount.Broken (.number i) r := by
  rw [notNegative, Option.ite_none_right_eq_some]
  constructor
  · rintro ⟨hi, ⟨⟩⟩
    exact .negative hi
  · intro h
    cases h with
    | negative hi => exact ⟨hi, rfl⟩

theorem percentage_iff : percentage i = some r ↔ Demand.percentage.Broken (.number i) r := by
  rw [percentage, Option.ite_none_left_eq_some, not_and_or, Int64.not_le, Int64.not_le]
  constructor
  · rintro ⟨hi, ⟨⟩⟩
    exact .outside hi
  · intro h
    cases h with
    | outside hi => exact ⟨hi, rfl⟩

theorem notEmpty_iff : notEmpty xs = some r ↔ Demand.notEmpty.Broken (.length xs.length) r := by
  cases xs with
  | nil =>
    constructor
    · intro h
      obtain rfl := Option.some.inj h
      exact .empty
    · rintro ⟨⟩
      rfl
  | cons x xs => exact iff_of_false nofun nofun

/-! ## Lists of checks -/

def Reports (cs : List Check) (p : Path) (r : Rule) : Prop :=
  ∃ c ∈ cs, c.path = p ∧ c.broken = some r

theorem reports_append {cs ds : List Check} {p : Path} :
    Reports (cs ++ ds) p r ↔ Reports cs p r ∨ Reports ds p r := by
  simp only [Reports, List.mem_append, or_and_right, exists_or]

def Follows (part : Part) (values : List (String × FieldValue)) (d : String × Demand) (c : Check) :
    Prop :=
  c.path = ⟨part, d.1⟩ ∧ ∃ v, values.lookup d.1 = some v ∧ ∀ r, c.broken = some r ↔ d.2.Broken v r

variable {part : Part} {values : List (String × FieldValue)} {ds : List (String × Demand)}
  {cs : List Check} {path : Path}

theorem reports_iff (h : List.Forall₂ (Follows part values) ds cs) :
    Reports cs path r ↔ path.part = part ∧
      ∃ d v, (path.name, d) ∈ ds ∧ values.lookup path.name = some v ∧ d.Broken v r := by
  induction h with
  | nil => simp [Reports]
  | @cons d c ds cs hd _ ih =>
    obtain ⟨hpath, v, hv, hbroken⟩ := hd
    constructor
    · rintro ⟨b, hb, rfl, hr⟩
      rcases List.mem_cons.1 hb with rfl | hb
      · rw [hpath]
        exact ⟨rfl, d.2, v, List.mem_cons_self, hv, (hbroken r).1 hr⟩
      · obtain ⟨hpart, e, w, he, hw⟩ := ih.1 ⟨b, hb, rfl, hr⟩
        exact ⟨hpart, e, w, List.mem_cons_of_mem _ he, hw⟩
    · rintro ⟨rfl, e, w, he, hw, hr⟩
      rcases List.mem_cons.1 he with rfl | he
      · obtain rfl : v = w := Option.some.inj (hv.symm.trans hw)
        exact ⟨c, List.mem_cons_self, hpath, (hbroken r).2 hr⟩
      · obtain ⟨b, hb, hrest⟩ := ih.2 ⟨rfl, e, w, he, hw, hr⟩
        exact ⟨b, List.mem_cons_of_mem _ hb, hrest⟩

theorem map_path (h : List.Forall₂ (Follows part values) ds cs) :
    cs.map Check.path = Order.pathsOf part ds := by
  induction h with
  | nil => rfl
  | cons hd _ ih =>
    rw [List.map_cons, hd.1, ih]
    rfl

theorem follows_header (o : Order) :
    List.Forall₂ (Follows .order o.values) Order.headerDemands (header o) := by
  simp [header, Order.headerDemands, Follows, Order.values, List.lookup_cons, matching_iff,
    required_iff, nonzero_iff]

theorem follows_delivery (d : Delivery) :
    List.Forall₂ (Follows .delivery d.values) Order.deliveryDemands (delivery d) := by
  simp [delivery, Order.deliveryDemands, Follows, Delivery.values, List.lookup_cons, matching_iff,
    required_iff]

theorem follows_payment (uid : String) (p : Payment) :
    List.Forall₂ (Follows .payment p.values) (Order.paymentDemands uid) (payment uid p) := by
  simp [payment, Order.paymentDemands, Follows, Payment.values, List.lookup_cons, transaction_iff,
    required_iff, notNegative_iff, nonzero_iff]

theorem follows_item (i : Nat) (x : Item) :
    List.Forall₂ (Follows (.item i) x.values) Order.itemDemands (item i x) := by
  simp [item, Order.itemDemands, Follows, Item.values, List.lookup_cons, required_iff,
    notNegative_iff, nonzero_iff, percentage_iff]

theorem follows_items (o : Order) :
    List.Forall₂ (Follows .order o.values) [("items", .notEmpty)]
      [⟨⟨.order, "items"⟩, notEmpty o.items⟩] := by
  simp [Follows, Order.values, List.lookup_cons, notEmpty_iff]

theorem reports_itemsFrom (k : Nat) (xs : List Item) :
    Reports (itemsFrom k xs) path r ↔
      ∃ i x, xs[i]? = some x ∧ Reports (item (k + i) x) path r := by
  induction xs generalizing k with
  | nil => simp [itemsFrom, Reports]
  | cons x xs ih =>
    rw [itemsFrom, reports_append, ih]
    constructor
    · rintro (h | ⟨i, y, hy, h⟩)
      · exact ⟨0, x, rfl, h⟩
      · refine ⟨i + 1, y, hy, ?_⟩
        rwa [← Nat.add_assoc, Nat.add_right_comm]
    · rintro ⟨i, y, hy, h⟩
      cases i with
      | zero =>
        obtain rfl := Option.some.inj hy
        exact .inl h
      | succ i =>
        refine .inr ⟨i, y, hy, ?_⟩
        rwa [Nat.add_right_comm, Nat.add_assoc]

theorem map_path_itemsFrom (k : Nat) (xs : List Item) :
    (itemsFrom k xs).map Check.path = (List.range xs.length).flatMap fun i =>
      Order.pathsOf (.item (k + i)) Order.itemDemands := by
  induction xs generalizing k with
  | nil => rfl
  | cons x xs ih =>
    have hrest (i : Nat) : k + 1 + i = k + (i + 1) := by omega
    rw [itemsFrom, List.map_append, map_path (follows_item k x), ih, List.length_cons,
      List.range_succ_eq_map, List.flatMap_cons, List.flatMap_map]
    simp only [hrest, Nat.add_zero]

theorem map_path_all (o : Order) : (all o).map Check.path = o.paths := by
  simp only [all, List.map_append, map_path (follows_header o), map_path (follows_items o),
    map_path (follows_delivery o.delivery), map_path (follows_payment o.uid o.payment),
    map_path_itemsFrom, Nat.zero_add, Order.paths]

end Check

namespace Order

variable {o : Order} {p : Path} {r : Rule}

theorem mem_violations : ⟨p, r⟩ ∈ o.violations ↔ Check.Reports (Check.all o) p r := by
  simp only [violations, List.mem_filterMap, Check.violation?, Option.map_eq_some_iff,
    Violation.mk.injEq, Check.Reports]
  constructor
  · rintro ⟨c, hc, q, hq, hpath, rfl⟩
    exact ⟨c, hc, hpath, hq⟩
  · rintro ⟨c, hc, hpath, hq⟩
    exact ⟨c, hc, r, hq, hpath, rfl⟩

theorem mem_violations_iff : ⟨p, r⟩ ∈ o.violations ↔ o.Breaks p r := by
  rw [mem_violations, Check.all]
  simp only [Check.reports_append, Check.reports_itemsFrom,
    Check.reports_iff (Check.follows_item _ _), Check.reports_iff (Check.follows_header o),
    Check.reports_iff (Check.follows_items o),
    Check.reports_iff (Check.follows_delivery o.delivery),
    Check.reports_iff (Check.follows_payment o.uid o.payment), Nat.zero_add]
  obtain ⟨part, name⟩ := p
  cases part with
  | order =>
    simp [Breaks, demands, value?, or_and_right, exists_or]
  | delivery => simp [Breaks, demands, value?]
  | payment => simp [Breaks, demands, value?]
  | item i => cases hx : o.items[i]? <;> simp [Breaks, demands, value?, hx]

theorem sublist_violations (o : Order) : (o.violations.map Violation.path).Sublist o.paths := by
  have hsub (cs : List Check) : ((cs.filterMap Check.violation?).map Violation.path).Sublist
      (cs.map Check.path) := by
    induction cs with
    | nil => exact .slnil
    | cons c cs ih =>
      cases hc : c.broken with
      | none =>
        have hnone : c.violation? = none := by rw [Check.violation?, hc, Option.map_none]
        rw [List.filterMap_cons_none hnone]
        exact ih.cons _
      | some r =>
        have hsome : c.violation? = some ⟨c.path, r⟩ := by
          rw [Check.violation?, hc, Option.map_some]
        rw [List.filterMap_cons_some hsome]
        exact ih.cons_cons c.path
  rw [← Check.map_path_all]
  exact hsub (Check.all o)

/-! ## The places of the violations -/

theorem map_fst_paymentDemands (uid : String) :
    (paymentDemands uid).map Prod.fst = (paymentDemands "").map Prod.fst :=
  rfl

theorem dot_not_mem_of_breaks (h : o.Breaks p r) : '.' ∉ p.name.toList := by
  have hnames (part : Part) : ∀ n ∈ (o.demands part).map Prod.fst, '.' ∉ n.toList := by
    cases part <;> simp only [demands, map_fst_paymentDemands] <;> decide
  obtain ⟨d, v, hd, -⟩ := h
  exact hnames p.part p.name (List.mem_map_of_mem hd)

theorem part_of_mem_pathsOf {part : Part} {ds : List (String × Demand)} (h : p ∈ pathsOf part ds) :
    p.part = part := by
  obtain ⟨n, _, rfl⟩ := List.mem_map.1 h
  rfl

theorem nodup_paths (o : Order) : o.paths.Nodup := by
  have hfixed : (pathsOf .order headerDemands ++ pathsOf .delivery deliveryDemands ++
      pathsOf .payment (paymentDemands o.uid) ++ pathsOf .order [("items", .notEmpty)]).Nodup := by
    simp only [pathsOf, map_fst_paymentDemands]
    decide
  have hitem (i : Nat) : (pathsOf (.item i) itemDemands).Nodup := by
    have hnames : (itemDemands.map Prod.fst).Nodup := by decide
    apply hnames.map
    intro a b h
    exact (Path.mk.inj h).2
  refine List.nodup_append.2 ⟨hfixed, List.nodup_flatMap.2 ⟨fun i _ => hitem i, ?_⟩, ?_⟩
  · apply List.nodup_range.imp
    intro i j hij p hi hj
    exact hij (Part.item.inj ((part_of_mem_pathsOf hi).symm.trans (part_of_mem_pathsOf hj)))
  · rintro p hp q hq rfl
    obtain ⟨i, _, hi⟩ := List.mem_flatMap.1 hq
    have hpart := part_of_mem_pathsOf hi
    simp only [List.mem_append] at hp
    rcases hp with ((hp | hp) | hp) | hp <;> rw [part_of_mem_pathsOf hp] at hpart <;> cases hpart

theorem nodup_violation_paths (o : Order) : (o.violations.map Violation.path).Nodup :=
  (nodup_paths o).sublist (sublist_violations o)

theorem exists_rule (o : Order) : ∃ f : Path → Option Rule, ∀ p r, f p = some r ↔ o.Breaks p r := by
  refine ⟨fun p => (o.violations.find? fun v => v.path = p).map Violation.rule, ?_⟩
  intro p r
  have hpath {v : Violation} (hv : (o.violations.find? fun v => v.path = p) = some v) :
      v.path = p := by
    simpa using List.find?_some hv
  rw [← mem_violations_iff, Option.map_eq_some_iff]
  constructor
  · rintro ⟨v, hv, rfl⟩
    rw [← hpath hv]
    exact List.mem_of_find?_eq_some hv
  · intro hr
    have hfound : (o.violations.find? fun v => v.path = p).isSome := by
      rw [List.find?_isSome]
      exact ⟨⟨p, r⟩, hr, decide_eq_true rfl⟩
    obtain ⟨v, hv⟩ := Option.isSome_iff_exists.1 hfound
    have hsame : v = ⟨p, r⟩ := List.inj_on_of_nodup_map (nodup_violation_paths o)
      (List.mem_of_find?_eq_some hv) hr (hpath hv)
    exact ⟨v, hv, congrArg Violation.rule hsame⟩

theorem nodup_texts (o : Order) : (o.violations.map fun v => v.path.text).Nodup := by
  have hdot {p : Path} (hp : p ∈ o.violations.map Violation.path) : '.' ∉ p.name.toList := by
    obtain ⟨⟨q, r⟩, hv, rfl⟩ := List.mem_map.1 hp
    exact dot_not_mem_of_breaks (mem_violations_iff.1 hv)
  have htext : (o.violations.map fun v => v.path.text) =
      (o.violations.map Violation.path).map Path.text := by
    rw [List.map_map]
    rfl
  rw [htext]
  apply (nodup_violation_paths o).map_on
  intro p hp q hq h
  exact Path.text_inj (hdot hp) (hdot hq) h

theorem violations_eq {f : Path → Option Rule} (h : ∀ p r, f p = some r ↔ o.Breaks p r) :
    o.violations = o.paths.filterMap fun p => (f p).map (Violation.mk p) := by
  rw [violations, ← Check.map_path_all, List.filterMap_map]
  apply List.filterMap_congr
  intro c hc
  -- there is no other check at the same path
  have honly {d : Check} (hd : d ∈ Check.all o) (hpath : d.path = c.path) : d = c :=
    List.inj_on_of_nodup_map (by rw [Check.map_path_all]; exact nodup_paths o) hd hc hpath
  have hbroken : c.broken = f c.path := by
    ext r
    rw [h, ← mem_violations_iff, mem_violations]
    constructor
    · intro hr
      exact ⟨c, hc, rfl, hr⟩
    · rintro ⟨d, hd, hsame, hr⟩
      rwa [← honly hd hsame]
  rw [Check.violation?, hbroken]
  rfl

theorem hasField_iff (hp : '.' ∉ p.name.toList) :
    hasField o.violations p.text = true ↔ ∃ r, o.Breaks p r := by
  rw [hasField, List.any_eq_true]
  constructor
  · rintro ⟨⟨q, r⟩, hv, htext⟩
    have hq := mem_violations_iff.1 hv
    obtain rfl := Path.text_inj (dot_not_mem_of_breaks hq) hp (of_decide_eq_true htext)
    exact ⟨r, hq⟩
  · rintro ⟨r, hr⟩
    exact ⟨⟨p, r⟩, mem_violations_iff.2 hr, decide_eq_true rfl⟩

theorem breaks_item_iff {o' : Order} {i j : Nat} {x y : Item} {name : String}
    (hx : o.items[i]? = some x) (hy : o'.items[j]? = some y)
    (hname : x.values.lookup name = y.values.lookup name) :
    o.Breaks ⟨.item i, name⟩ r ↔ o'.Breaks ⟨.item j, name⟩ r := by
  have hvalue : o.value? ⟨.item i, name⟩ = o'.value? ⟨.item j, name⟩ := by
    simp only [value?, hx, hy, Option.bind_some]
    exact hname
  rw [Breaks, Breaks, hvalue]
  rfl

/-- The validation of an order reports the broken fields, and nothing else. -/
structure Judged (o : Order) : Prop where
  exact : ∀ p r, ⟨p, r⟩ ∈ o.violations ↔ o.Breaks p r
  listed : ∃ f : Path → Option Rule, (∀ p r, f p = some r ↔ o.Breaks p r) ∧
    o.violations = o.paths.filterMap fun p => (f p).map (Violation.mk p)
  accepted : o.validate = .ok () ↔ ∀ p r, ¬ o.Breaks p r
  refused : ∀ vs, o.validate = .error vs ↔ vs = o.violations ∧ ∃ p r, o.Breaks p r
  once : (o.violations.map fun v => v.path.text).Nodup
  separate : ∀ (o' : Order) i j x y name, o.items[i]? = some x → o'.items[j]? = some y →
    x.values.lookup name = y.values.lookup name →
    (∀ r, ⟨⟨.item i, name⟩, r⟩ ∈ o.violations ↔ ⟨⟨.item j, name⟩, r⟩ ∈ o'.violations) ∧
    ('.' ∉ name.toList → hasField o.violations (Path.mk (.item i) name).text =
      hasField o'.violations (Path.mk (.item j) name).text)

theorem judged (o : Order) : Judged o := by
  have hnone : o.violations = [] ↔ ∀ p r, ¬ o.Breaks p r := by
    simp only [List.eq_nil_iff_forall_not_mem, ← mem_violations_iff]
    exact ⟨fun h p r => h ⟨p, r⟩, fun h v => h v.path v.rule⟩
  constructor
  case exact =>
    intro p r
    exact mem_violations_iff
  case listed =>
    obtain ⟨f, hf⟩ := exists_rule o
    exact ⟨f, hf, violations_eq hf⟩
  case accepted =>
    rw [← hnone, validate, isValid]
    cases o.violations <;> simp
  case refused =>
    intro vs
    have hsome : (∃ p r, o.Breaks p r) ↔ o.violations ≠ [] := by
      rw [ne_eq, hnone]
      push Not
      rfl
    rw [hsome, validate, isValid]
    cases o.violations <;> simp [eq_comm]
  case once => exact nodup_texts o
  case separate =>
    intro o' i j x y name hx hy hname
    have hbreaks (r : Rule) := breaks_item_iff (r := r) hx hy hname
    constructor
    · intro r
      rw [mem_violations_iff, mem_violations_iff]
      exact hbreaks r
    · intro hdot
      rw [Bool.eq_iff_iff, hasField_iff hdot, hasField_iff hdot]
      exact exists_congr hbreaks

end Order

end OrderDesk
