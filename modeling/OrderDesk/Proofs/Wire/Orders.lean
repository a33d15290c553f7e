import OrderDesk.Proofs.Wire.Truncation
import OrderDesk.Wire.Order

/-!
Orders read back from their payloads.
-/

namespace OrderDesk.Wire

theorem sturdy_textField (key : String) (fallback : Option String) (s : String) :
    Sturdy (textField key fallback).read (writeText s) (.text s) :=
  (sturdy_text s).map Content.text

theorem sturdy_integerField (key : String) (fallback : Option Int64) (i : Int64) :
    Sturdy (integerField key fallback).read (writeInteger i) (.integer i) :=
  (sturdy_integer i).map Content.integer

theorem sturdy_delivery (d : Delivery) : Sturdy deliveryRecord.read (writeDelivery d) d := by
  have hfits : Fits deliveryRecord.fields _ _ :=
    .cons (sturdy_textField _ _ d.name) <| .cons (sturdy_textField _ _ d.phone) <|
      .cons (sturdy_textField _ _ d.zip) <| .cons (sturdy_textField _ _ d.city) <|
      .cons (sturdy_textField _ _ d.address) <| .cons (sturdy_textField _ _ d.region) <|
      .cons (sturdy_textField _ _ d.email) .nil
  exact sturdy_record hfits (by decide) rfl

theorem sturdy_payment (p : Payment) : Sturdy paymentRecord.read (writePayment p) p := by
  have hcurrency : Sturdy readCurrency (writeText p.currency.name) p.currency :=
    sturdy_named (Currency.ofName?_name p.currency)
  have hfits : Fits paymentRecord.fields _ _ :=
    .cons (sturdy_textField _ _ p.transaction) <| .cons (sturdy_textField _ _ p.requestId) <|
      .cons (hcurrency.map Content.currency) <| .cons (sturdy_textField _ _ p.provider) <|
      .cons (sturdy_integerField _ _ p.amount) <| .cons (sturdy_integerField _ _ p.paidAt) <|
      .cons (sturdy_textField _ _ p.bank) <| .cons (sturdy_integerField _ _ p.deliveryCost) <|
      .cons (sturdy_integerField _ _ p.goodsTotal) <|
      .cons (sturdy_integerField _ _ p.customFee) .nil
  exact sturdy_record hfits (by decide) rfl

theorem sturdy_item (x : Item) : Sturdy itemRecord.read (writeItem x) x := by
  have hfits : Fits itemRecord.fields _ _ :=
    .cons (sturdy_integerField _ _ x.id) <| .cons (sturdy_integerField _ _ x.chrtId) <|
      .cons (sturdy_textField _ _ x.trackNumber) <| .cons (sturdy_integerField _ _ x.price) <|
      .cons (sturdy_textField _ _ x.rid) <| .cons (sturdy_textField _ _ x.name) <|
      .cons (sturdy_integerField _ _ x.sale) <| .cons (sturdy_textField _ _ x.size) <|
      .cons (sturdy_integerField _ _ x.totalPrice) <| .cons (sturdy_integerField _ _ x.nmId) <|
      .cons (sturdy_textField _ _ x.brand) <| .cons (sturdy_integerField _ _ x.status) .nil
  exact sturdy_record hfits (by decide) rfl

theorem sturdy_items (xs : List Item) : Sturdy readItems (writeItems xs) xs :=
  sturdy_list sturdy_item (fun _ => rfl) xs

theorem exists_fits_order (o : Order) :
    ∃ ms cs, Fits orderRecord.fields ms cs ∧ writeOrder o = writeObject ms ∧
      orderRecord.build cs = some o := by
  have hlocale : Sturdy readLocale (writeText o.locale.name) o.locale :=
    sturdy_named (Locale.ofName?_name o.locale)
  have hfits : Fits orderRecord.fields _ _ :=
    .cons (sturdy_textField _ _ o.uid) <| .cons (sturdy_textField _ _ o.trackNumber) <|
      .cons (sturdy_textField _ _ o.entry) <|
      .cons ((sturdy_delivery o.delivery).map Content.delivery) <|
      .cons ((sturdy_payment o.payment).map Content.payment) <|
      .cons ((sturdy_items o.items).map Content.items) <| .cons (hlocale.map Content.locale) <|
      .cons (sturdy_textField _ _ o.internalSignature) <| .cons (sturdy_textField _ _ o.customerId) <|
      .cons (sturdy_textField _ _ o.deliveryService) <| .cons (sturdy_textField _ _ o.shardKey) <|
      .cons (sturdy_integerField _ _ o.smId) <|
      .cons ((sturdy_moment o.dateCreated).map Content.moment) <|
      .cons (sturdy_textField _ _ o.oofShard) .nil
  exact ⟨_, _, hfits, rfl, rfl⟩

theorem reads_order (o : Order) : Reads orderRecord.read (writeOrder o) o := by
  obtain ⟨ms, cs, hfits, hwrite, hbuild⟩ := exists_fits_order o
  rw [hwrite]
  exact reads_record hfits (by decide) hbuild

theorem wants_order (o : Order) : Wants orderRecord.read (writeOrder o) := by
  obtain ⟨ms, cs, hfits, hwrite, -⟩ := exists_fits_order o
  rw [hwrite]
  exact wants_record hfits (by decide)

theorem decodeWith_of_reads {α : Type} {read : Reader α} {text : List Char} {a : α}
    (h : Reads read text a) : decodeWith read (Text.Utf8.encode text) = .ok a := by
  have hread := h [] ends_nil
  rw [List.append_nil] at hread
  simp only [decodeWith, hread, bind, Except.bind]
  rfl

theorem decodeOrder_encodeOrder (o : Order) : decodeOrder (encodeOrder o) = .ok o :=
  decodeWith_of_reads (reads_order o)

theorem decodeOrder_cut {o : Order} {p : Input} (h : Cut p (encodeOrder o)) :
    decodeOrder p = .error .eof := by
  simp only [decodeOrder, decodeWith, wants_order o p h, bind, Except.bind]

theorem ofString_orderText (o : Order) : Text.Utf8.ofString (orderText o) = encodeOrder o := by
  rw [Text.Utf8.ofString, orderText, String.toList_ofList, encodeOrder]

theorem decodeWith_itemsText (xs : List Item) :
    decodeWith readItems (Text.Utf8.ofString (itemsText xs)) = .ok xs := by
  rw [Text.Utf8.ofString, itemsText, String.toList_ofList]
  exact decodeWith_of_reads (sturdy_items xs).reads

/-- Every order is read back from its payload, and every payload that is read may be replaced by the
one that is written for what was read. -/
theorem orders_round_trip :
    (∀ o, decodeOrder (encodeOrder o) = .ok o) ∧
      ∀ bs, (decodeOrder bs >>= fun o => decodeOrder (encodeOrder o)) = decodeOrder bs := by
  refine ⟨decodeOrder_encodeOrder, fun bs => ?_⟩
  cases h : decodeOrder bs with
  | error e => rfl
  | ok o => simp only [bind, Except.bind, decodeOrder_encodeOrder]

end OrderDesk.Wire
