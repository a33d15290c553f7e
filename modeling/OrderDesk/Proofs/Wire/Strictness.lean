import Mathlib.Data.List.Perm.Basic
import OrderDesk.Order.Sample
import OrderDesk.Proofs.Wire.Evolution

/-!
Strictness. Among all the liberties that producers may take, two are refused wherever they are taken:
to leave out a key that has nothing to stand in for it, and to write a declared key twice.
-/

namespace OrderDesk.Wire

open Text.Utf8 (encode)

/-! ## Faults -/

def Lacks (ms : List Member) (key : String) : Prop := ∀ m ∈ ms, ¬ Spells m.name key.toList

def Repeats (ms : List Member) (key : String) : Prop :=
  ∃ m n, List.Sublist [m, n] ms ∧ Spells m.name key.toList ∧ Spells n.name key.toList

structure Shape where
  mandatory : List String
  spare : List String
  nested : List (String × (List Char → Prop))

/-- An object with any members that lacks a mandatory key, repeats a declared one, or has a faulty
value for one of its keys. -/
inductive Faulty (shape : Shape) (ms : List Member) : Prop where
  | lacks {key : String} (hkey : key ∈ shape.mandatory) (h : Lacks ms key)
  | repeats {key : String} (hkey : key ∈ shape.mandatory ++ shape.spare) (h : Repeats ms key)
  | within {n : String × (List Char → Prop)} {m : Member} (hn : n ∈ shape.nested) (hm : m ∈ ms)
      (hspells : Spells m.name n.1.toList) (h : n.2 m.value)

def FaultyObject (shape : Shape) (w : List Char) : Prop :=
  ∃ ms, IsObject ms w ∧ (∀ m ∈ ms, IsValue m.value) ∧ Faulty shape ms

def deliveryShape : Shape where
  mandatory := ["name", "phone", "zip", "city", "address", "region", "email"]
  spare := []
  nested := []

def paymentShape : Shape where
  mandatory :=
    ["transaction", "currency", "provider", "amount", "payment_dt", "bank", "delivery_cost",
      "goods_total", "custom_fee"]
  spare := ["request_id"]
  nested := []

def itemShape : Shape where
  mandatory :=
    ["chrt_id", "track_number", "price", "rid", "name", "sale", "size", "total_price", "nm_id",
      "brand", "status"]
  spare := ["id"]
  nested := []

def FaultyItems (w : List Char) : Prop :=
  ∃ es, IsArray es w ∧ (∀ e ∈ es, IsValue e.value) ∧ ∃ e ∈ es, FaultyObject itemShape e.value

def orderShape : Shape where
  mandatory :=
    ["order_uid", "track_number", "entry", "delivery", "payment", "locale", "customer_id",
      "delivery_service", "shardkey", "sm_id", "date_created", "oof_shard"]
  spare := ["items", "internal_signature"]
  nested :=
    [("delivery", FaultyObject deliveryShape), ("payment", FaultyObject paymentShape),
      ("items", FaultyItems)]

def FaultyOrder (t : List Char) : Prop :=
  ∃ e : Element, e.Spaced ∧ t = e.text ∧ FaultyObject orderShape e.value

variable {α β : Type} {admits : List Char → Prop} {parts : List Part} {p : Part} {m n : Member}
  {ms : List Member} {w t : List Char} {shape : Shape} {o : Order}

theorem Evolves.lacks (h : Evolves admits parts (m :: ms)) (hp : p ∈ parts)
    (hm : Spells m.name p.key.toList) : Lacks ms p.key := fun n hn =>
  (List.pairwise_cons.1 (h.once p hp)).1 n hn hm

theorem faultyOrder_plain (h : FaultyObject orderShape w) : FaultyOrder w :=
  ⟨Element.plain w, Element.spaced_plain w, (Element.text_plain w).symm, h⟩

theorem repeats_cons {key : String} (hm : Spells m.name key.toList) (hn : n ∈ ms)
    (hspells : Spells n.name key.toList) : Repeats (m :: ms) key :=
  ⟨m, n, List.cons_sublist_cons.2 (List.singleton_sublist.2 hn), hm, hspells⟩

/-! ## Refusal -/

theorem FaultyObject.isValue (h : FaultyObject shape w) : IsValue w := by
  obtain ⟨ms, hw, hms, -⟩ := h
  exact .object hw hms

theorem Accepts.of_map {read : Reader α} {f : α → β}
    (h : Accepts (fun s => (read s).map fun r => (f r.1, r.2)) w) : Accepts read w := by
  obtain ⟨s, x, hs, hx⟩ := h
  obtain ⟨y, hy, -⟩ := exists_of_map hx
  exact ⟨s, y, hs, hy⟩

structure Guards (ρ : Record α) (shape : Shape) : Prop where
  regular : ∀ f ∈ ρ.fields, Regular f.read
  nodup : (ρ.fields.map Field.key).Nodup
  mandatory : ∀ key ∈ shape.mandatory, ∃ f ∈ ρ.fields, f.key = key ∧ f.fallback = none
  spare : ∀ key ∈ shape.spare, ∃ f ∈ ρ.fields, f.key = key
  nested : ∀ n ∈ shape.nested, ∃ f ∈ ρ.fields, f.key = n.1 ∧ ∀ w, n.2 w → ¬ Accepts f.read w

theorem Guards.refuses {ρ : Record α} (hρ : Guards ρ shape) (h : FaultyObject shape w) :
    ¬ Accepts ρ.read w := by
  intro haccepts
  obtain ⟨ms, hw, hms, hfaulty⟩ := h
  have hwhole : Whole ρ.fields ms := whole_of_accepts hρ.regular hρ.nodup hw
    (fun m hm => skippable_of_isValue (hms m hm)) haccepts
  cases hfaulty with
  | lacks hkey h =>
    obtain ⟨f, hf, rfl, hnone⟩ := hρ.mandatory _ hkey
    obtain ⟨m, hm, hspells⟩ := hwhole.complete f hf hnone
    exact h m hm hspells
  | repeats hkey h =>
    have hfield : ∃ f ∈ ρ.fields, f.key = _ := (List.mem_append.1 hkey).elim
      (fun hkey => (hρ.mandatory _ hkey).imp fun _ hf => ⟨hf.1, hf.2.1⟩) (hρ.spare _)
    obtain ⟨f, hf, rfl⟩ := hfield
    obtain ⟨m, n, hsub, hm, hn⟩ := h
    exact List.pairwise_iff_forall_sublist.1 (hwhole.once f hf) hsub hm hn
  | within hn hm hspells h =>
    obtain ⟨f, hf, hkey, hrefused⟩ := hρ.nested _ hn
    rw [← hkey] at hspells
    exact hrefused _ h (hwhole.accepted f hf _ hm hspells)

theorem guards_delivery : Guards deliveryRecord deliveryShape where
  regular := regular_deliveryFields
  nodup := keys_nodup.1
  mandatory := by decide
  spare := by decide
  nested := fun _ hn => absurd hn List.not_mem_nil

theorem guards_payment : Guards paymentRecord paymentShape where
  regular := regular_paymentFields
  nodup := keys_nodup.2.1
  mandatory := by decide
  spare := by decide
  nested := fun _ hn => absurd hn List.not_mem_nil

theorem guards_item : Guards itemRecord itemShape where
  regular := regular_itemFields
  nodup := keys_nodup.2.2.1
  mandatory := by decide
  spare := by decide
  nested := fun _ hn => absurd hn List.not_mem_nil

theorem refuses_items (h : FaultyItems w) : ¬ Accepts readItems w := by
  intro haccepts
  obtain ⟨es, hw, hes, e, he, hfaulty⟩ := h
  have haccepted := accepts_of_array (regular_record regular_itemFields) hw
    (fun e he => skippable_of_isValue (hes e he)) haccepts
  exact guards_item.refuses hfaulty (haccepted e he)

theorem guards_order : Guards orderRecord orderShape where
  regular := regular_orderFields
  nodup := keys_nodup.2.2.2
  mandatory := by decide
  spare := by decide
  nested := by
    simp only [orderShape, List.forall_mem_cons]
    refine ⟨⟨orderRecord.fields[3], List.getElem_mem _, rfl, ?_⟩,
      ⟨orderRecord.fields[4], List.getElem_mem _, rfl, ?_⟩,
      ⟨orderRecord.fields[5], List.getElem_mem _, rfl, ?_⟩, fun _ hn => absurd hn List.not_mem_nil⟩
    · exact fun w hw h => guards_delivery.refuses hw h.of_map
    · exact fun w hw h => guards_payment.refuses hw h.of_map
    · exact fun w hw h => refuses_items hw h.of_map

theorem decodeOrder_faulty (h : FaultyOrder t) : ∃ f, decodeOrder (encode t) = .error f := by
  obtain ⟨e, he, rfl, hfaulty⟩ := h
  cases hread : decodeOrder (encode e.text) with
  | error f => exact ⟨f, rfl⟩
  | ok o =>
    obtain ⟨⟨o', rest⟩, hread, -⟩ := exists_of_bind hread
    rw [← List.append_nil (encode e.text)] at hread
    have haccepts := accepts_element (regular_record regular_orderFields) he
      (skippable_of_isValue hfaulty.isValue) ends_nil hread
    exact absurd haccepts.1 (guards_order.refuses hfaulty)

/-- An order is read from all that its text may grow into, where the names of other keys are texts,
and no order is read from an object with a fault. -/
theorem orders_evolve :
    (∀ o, EvolvedOrder Legible o (writeOrder o)) ∧
      (∀ o t, EvolvedOrder Legible o t → decodeOrder (encode t) = .ok o) ∧
        ∀ t, FaultyOrder t → ∃ f, decodeOrder (encode t) = .error f :=
  ⟨evolvedOrder_plain Legible, fun _ _ => decodeOrder_evolved, fun _ => decodeOrder_faulty⟩

theorem sample_evolves :
    let o := Order.sample "abc" 0
    let old := Order.sample "old" 1
    let previous := { Member.plain ("previous", writeOrder old) with lead := ['\n', ' '] }
    let kept := (orderMembers o).eraseIdx 5
    let t := objectText (previous :: kept.reverse.map Member.plain)
    let missing := writeObject (orderMembers o).tail
    let twice := writeObject (("order_uid", writeText "abc") :: orderMembers o)
    (EvolvedOrder Legible o t ∧ decodeOrder (encode t) = .ok o) ∧
      (FaultyOrder missing ∧ ∃ f, decodeOrder (encode missing) = .error f) ∧
        FaultyOrder twice ∧ ∃ f, decodeOrder (encode twice) = .error f := by
  intro o old previous kept t missing twice
  have hall : Evolves Legible (orderParts Legible o) ((orderMembers o).map Member.plain) :=
    evolves_orderMembers Legible o
  have hvalues := hall.isValue isValue_orderParts
  have hevolved : EvolvedOrder Legible o t := by
    -- the items go to the front to be left out, then the rest is turned round and added to
    have hitems : Evolves Legible (orderParts Legible o) (kept.map Member.plain) := by
      have hfront : ((orderMembers o).map Member.plain).Perm
          (Member.plain ("items", writeItems []) :: kept.map Member.plain) :=
        (List.getElem_cons_eraseIdx_perm (show 5 < (orderMembers o).length by decide)).symm.map
          Member.plain
      have hnone : o.items = [] := rfl
      have hspare : ∀ p ∈ orderParts Legible o, "items" = p.key → p.spare := by
        simp [orderParts, Part.fixed, Part.spared, hnone]
      exact (hall.perm hfront).omit fun p hp hspells => hspare p hp (spells_plain hspells)
    have hback := hitems.perm ((List.reverse_perm kept).symm.map Member.plain)
    have hplain := isObject_plain kept.reverse
    have hblank : Blank ['\n', ' '] := by simp [Blank]
    have hspaced : previous.Spaced :=
      { Member.spaced_plain ("previous", writeOrder old) with lead := hblank }
    have hvalue : IsValue previous.value :=
      EvolvedObject.isValue ⟨_, isObject_plain _, evolves_orderMembers Legible old⟩ isValue_orderParts
    have hnew : ∀ p ∈ orderParts Legible o, "previous" ≠ p.key := by
      simp [orderParts, Part.fixed, Part.spared]
    have hspells : Spells previous.name "previous".toList := spells_writeChars _
    refine EvolvedObject.order ⟨_, isObject_text (List.forall_mem_cons.2 ⟨hspaced, hplain.spaced⟩)
      (List.forall_mem_cons.2 ⟨hspells.quotes, hplain.named⟩), hback.add ?_ ⟨_, hspells⟩ hvalue⟩
    exact fun p hp hname => hnew p hp (spells_plain hname)
  have hmissing : FaultyOrder missing := by
    have hlacks : Lacks ((orderMembers o).tail.map Member.plain) "order_uid" :=
      hall.lacks (p := .fixed "order_uid" (writeText o.uid)) List.mem_cons_self
        (spells_writeChars _)
    refine faultyOrder_plain ⟨_, isObject_plain _, ?_, .lacks (by decide) hlacks⟩
    exact fun m hm => hvalues m (List.mem_cons_of_mem _ hm)
  have htwice : FaultyOrder twice := by
    have hrepeats : Repeats (Member.plain ("order_uid", writeText "abc") ::
        (orderMembers o).map Member.plain) "order_uid" :=
      repeats_cons (spells_writeChars _) List.mem_cons_self (spells_writeChars _)
    refine faultyOrder_plain ⟨_, isObject_plain _, ?_, .repeats (by decide) hrepeats⟩
    exact List.forall_mem_cons.2 ⟨isValue_text "abc", hvalues⟩
  obtain ⟨-, hread, hrefused⟩ := orders_evolve
  exact ⟨⟨hevolved, hread o t hevolved⟩, ⟨hmissing, hrefused missing hmissing⟩,
    htwice, hrefused twice htwice⟩

/-- Half of a pair is no text. A key whose name is one is within the grammar, but it is not skipped
as others are, for every key is read as a text. -/
theorem surrogate_key_refused :
    let o := Order.sample "abc" 1
    let half : Member := { Member.plain ("", "null".toList) with name := "\\ud800".toList }
    let t := objectText (half :: (orderMembers o).map Member.plain)
    EvolvedOrder Quotes o t ∧ decodeOrder (encode t) = .error .malformed := by
  intro o half t
  have hall := evolves_orderMembers Quotes o
  have hplain := isObject_plain (orderMembers o)
  have hunit : CodeUnit "d800".toList 0xD800 :=
    .mk (i := 13) (j := 8) (k := 0) (l := 0) (by decide) (by decide) (by decide) (by decide)
  have hquotes : Quotes half.name := .unit hunit .nil
  have hspaced : half.Spaced := { Member.spaced_plain ("", "null".toList) with }
  have hvalue : IsValue half.value := .word (.inl rfl)
  have hrefused : stringRest (encode half.name ++ [quoteMark]) = .error .malformed := by decide
  have hnew : ∀ p ∈ orderParts Quotes o, ¬ Spells half.name p.key.toList := fun p _ hspells => by
    rw [stringRest_spells hspells] at hrefused
    cases hrefused
  refine ⟨EvolvedObject.order ⟨_, isObject_text (List.forall_mem_cons.2 ⟨hspaced, hplain.spaced⟩)
    (List.forall_mem_cons.2 ⟨hquotes, hplain.named⟩), hall.add hnew hquotes hvalue⟩, ?_⟩
  rfl

end OrderDesk.Wire
