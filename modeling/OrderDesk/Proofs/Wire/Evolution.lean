import OrderDesk.Proofs.Wire.Arrays
import OrderDesk.Proofs.Wire.Orders

/-!
Evolution. Producers may write the keys of an object in any order, put white space anywhere, add keys
of their own with any values, and leave out what is empty; an order is read from all that as it was.
-/

namespace OrderDesk.Wire

open Text.Utf8 (encode encodeChar encode_append)

/-! ## Evolved texts -/

structure Part where
  key : String
  texts : List Char → Prop
  spare : Prop

namespace Part

def fixed (key : String) (text : List Char) : Part := ⟨key, (· = text), False⟩

def spared (key : String) (text : List Char) (spare : Prop) : Part := ⟨key, (· = text), spare⟩

end Part

/-- The members of an object that declares some keys: each of them once, or not at all if it may be
left out, in any order and among any members with other names that are admitted. -/
structure Evolves (admits : List Char → Prop) (parts : List Part) (ms : List Member) : Prop where
  declared : ∀ m ∈ ms, ∀ p ∈ parts, Spells m.name p.key.toList → p.texts m.value
  added : ∀ m ∈ ms, (∀ p ∈ parts, ¬ Spells m.name p.key.toList) → admits m.name ∧ IsValue m.value
  once : ∀ p ∈ parts, ms.Pairwise fun m n => Spells m.name p.key.toList →
    ¬ Spells n.name p.key.toList
  complete : ∀ p ∈ parts, p.spare ∨ ∃ m ∈ ms, Spells m.name p.key.toList

def EvolvedObject (admits : List Char → Prop) (parts : List Part) (w : List Char) : Prop :=
  ∃ ms, IsObject ms w ∧ Evolves admits parts ms

def deliveryParts (d : Delivery) : List Part :=
  [.fixed "name" (writeText d.name), .fixed "phone" (writeText d.phone),
    .fixed "zip" (writeText d.zip), .fixed "city" (writeText d.city),
    .fixed "address" (writeText d.address), .fixed "region" (writeText d.region),
    .fixed "email" (writeText d.email)]

def paymentParts (p : Payment) : List Part :=
  [.fixed "transaction" (writeText p.transaction),
    .spared "request_id" (writeText p.requestId) (p.requestId = ""),
    .fixed "currency" (writeText p.currency.name), .fixed "provider" (writeText p.provider),
    .fixed "amount" (writeInteger p.amount), .fixed "payment_dt" (writeInteger p.paidAt),
    .fixed "bank" (writeText p.bank), .fixed "delivery_cost" (writeInteger p.deliveryCost),
    .fixed "goods_total" (writeInteger p.goodsTotal),
    .fixed "custom_fee" (writeInteger p.customFee)]

def itemParts (x : Item) : List Part :=
  [.spared "id" (writeInteger x.id) (x.id = 0), .fixed "chrt_id" (writeInteger x.chrtId),
    .fixed "track_number" (writeText x.trackNumber), .fixed "price" (writeInteger x.price),
    .fixed "rid" (writeText x.rid), .fixed "name" (writeText x.name),
    .fixed "sale" (writeInteger x.sale), .fixed "size" (writeText x.size),
    .fixed "total_price" (writeInteger x.totalPrice), .fixed "nm_id" (writeInteger x.nmId),
    .fixed "brand" (writeText x.brand), .fixed "status" (writeInteger x.status)]

def EvolvedItems (admits : List Char → Prop) (xs : List Item) (w : List Char) : Prop :=
  ∃ es, IsArray es w ∧ List.Forall₂ (fun e x => EvolvedObject admits (itemParts x) e.value) es xs

def orderParts (admits : List Char → Prop) (o : Order) : List Part :=
  [.fixed "order_uid" (writeText o.uid), .fixed "track_number" (writeText o.trackNumber),
    .fixed "entry" (writeText o.entry),
    ⟨"delivery", EvolvedObject admits (deliveryParts o.delivery), False⟩,
    ⟨"payment", EvolvedObject admits (paymentParts o.payment), False⟩,
    ⟨"items", EvolvedItems admits o.items, o.items = []⟩,
    .fixed "locale" (writeText o.locale.name),
    .spared "internal_signature" (writeText o.internalSignature) (o.internalSignature = ""),
    .fixed "customer_id" (writeText o.customerId),
    .fixed "delivery_service" (writeText o.deliveryService),
    .fixed "shardkey" (writeText o.shardKey), .fixed "sm_id" (writeInteger o.smId),
    .fixed "date_created" (writeMoment o.dateCreated), .fixed "oof_shard" (writeText o.oofShard)]

def EvolvedOrder (admits : List Char → Prop) (o : Order) (t : List Char) : Prop :=
  ∃ e : Element, e.Spaced ∧ t = e.text ∧ EvolvedObject admits (orderParts admits o) e.value

/-- A name that is a text: its numbers of surrogates come in pairs. -/
def Legible (name : List Char) : Prop := ∃ cs, Spells name cs

variable {α : Type} {admits : List Char → Prop} {parts : List Part} {m : Member}
  {ms ns : List Member} {w t : List Char} {a : α} {ps : List (Field × Content)} {o : Order}

/-! ## Steps of evolution -/

theorem Evolves.perm (h : Evolves admits parts ms) (hperm : ms.Perm ns) :
    Evolves admits parts ns := by
  refine ⟨fun m hm => h.declared m (hperm.mem_iff.2 hm), fun m hm => h.added m (hperm.mem_iff.2 hm),
    fun p hp => ?_, fun p hp => ?_⟩
  · refine (List.Perm.pairwise_iff (fun hmn hn hm => hmn hm hn) hperm).1 (h.once p hp)
  · exact (h.complete p hp).imp_right fun ⟨m, hm, hspells⟩ => ⟨m, hperm.mem_iff.1 hm, hspells⟩

theorem Evolves.add (h : Evolves admits parts ms)
    (hnew : ∀ p ∈ parts, ¬ Spells m.name p.key.toList) (hname : admits m.name)
    (hvalue : IsValue m.value) : Evolves admits parts (m :: ms) := by
  refine ⟨?_, ?_, fun p hp => ?_, fun p hp => ?_⟩
  · exact List.forall_mem_cons.2 ⟨fun p hp hspells => absurd hspells (hnew p hp), h.declared⟩
  · exact List.forall_mem_cons.2 ⟨fun _ => ⟨hname, hvalue⟩, h.added⟩
  · exact List.pairwise_cons.2 ⟨fun _ _ hspells => absurd hspells (hnew p hp), h.once p hp⟩
  · exact (h.complete p hp).imp_right fun ⟨n, hn, hspells⟩ => ⟨n, List.mem_cons_of_mem m hn, hspells⟩

theorem Evolves.omit (h : Evolves admits parts (m :: ms))
    (hspare : ∀ p ∈ parts, Spells m.name p.key.toList → p.spare) : Evolves admits parts ms := by
  refine ⟨fun n hn => h.declared n (List.mem_cons_of_mem m hn),
    fun n hn => h.added n (List.mem_cons_of_mem m hn),
    fun p hp => (List.pairwise_cons.1 (h.once p hp)).2, fun p hp => ?_⟩
  rcases h.complete p hp with hsp | ⟨n, hn, hspells⟩
  · exact .inl hsp
  · rcases List.mem_cons.1 hn with rfl | hn
    · exact .inl (hspare p hp hspells)
    · exact .inr ⟨n, hn, hspells⟩

/-! ## Texts as they are written -/

def Member.plain (m : String × List Char) : Member where
  lead := []
  name := m.1.toList.flatMap writeChar
  gap := []
  before := []
  value := m.2
  after := []

theorem Member.text_plain (m : String × List Char) : (Member.plain m).text = member m := by
  simp [Member.text, Element.text, Member.plain, member, writeText, writeChars]

theorem Member.spaced_plain (m : String × List Char) : (Member.plain m).Spaced := by
  have hnil : Blank [] := fun c hc => absurd hc List.not_mem_nil
  exact ⟨⟨hnil, hnil⟩, hnil, hnil⟩

theorem spells_plain {m : String × List Char} {key : String}
    (h : Spells (Member.plain m).name key.toList) : m.1 = key :=
  String.toList_inj.1 ((spells_writeChars m.1.toList).unique h)

def objectText (ms : List Member) : List Char :=
  Char.ofNat 0x7B :: (separated (ms.map Member.text) ++ [Char.ofNat 0x7D])

theorem isObject_text (hspaced : ∀ m ∈ ms, m.Spaced) (hnamed : ∀ m ∈ ms, Quotes m.name) :
    IsObject ms (objectText ms) := by
  refine ⟨?_, hspaced, hnamed⟩
  cases ms with
  | nil => exact .blank (b := []) fun c hc => absurd hc List.not_mem_nil
  | cons m ms => exact .parts _ _

theorem objectText_plain (l : List (String × List Char)) :
    objectText (l.map Member.plain) = writeObject l := by
  have htexts : (l.map Member.plain).map Member.text = l.map member := by
    rw [List.map_map]
    exact List.map_congr_left fun m _ => Member.text_plain m
  rw [objectText, htexts]
  rfl

theorem isObject_plain (l : List (String × List Char)) :
    IsObject (l.map Member.plain) (writeObject l) := by
  rw [← objectText_plain]
  refine isObject_text (fun m hm => ?_) fun m hm => ?_
  · obtain ⟨n, -, rfl⟩ := List.mem_map.1 hm
    exact Member.spaced_plain n
  · obtain ⟨n, -, rfl⟩ := List.mem_map.1 hm
    exact (spells_writeChars n.1.toList).quotes

theorem evolves_plain {l : List (String × List Char)}
    (h : List.Forall₂ (fun m p => m.1 = p.key ∧ p.texts m.2) l parts)
    (hnodup : (parts.map Part.key).Nodup) : Evolves admits parts (l.map Member.plain) := by
  have hkeys : l.map Prod.fst = parts.map Part.key := by
    induction h with
    | nil => rfl
    | cons hm _ ih =>
      rw [List.map_cons, List.map_cons, hm.1, ih (List.nodup_cons.1 hnodup).2]
  refine ⟨fun m hm p hp hspells => ?_, fun m hm hnone => ?_, fun p hp => ?_, fun p hp => ?_⟩
  · obtain ⟨n, hn, rfl⟩ := List.mem_map.1 hm
    obtain ⟨q, hq, hkey, htexts⟩ := exists_of_forall₂ h hn
    have hsame : q.key = p.key := hkey.symm.trans (spells_plain hspells)
    rw [← List.inj_on_of_nodup_map hnodup hq hp hsame]
    exact htexts
  · obtain ⟨n, hn, rfl⟩ := List.mem_map.1 hm
    obtain ⟨q, hq, hkey, -⟩ := exists_of_forall₂ h hn
    refine absurd ?_ (hnone q hq)
    rw [← hkey]
    exact spells_writeChars n.1.toList
  · refine List.pairwise_map.2 ?_
    have hdistinct : l.Pairwise fun m n => m.1 ≠ n.1 := by
      rw [← hkeys] at hnodup
      exact List.pairwise_map.1 hnodup
    exact hdistinct.imp fun hne hm hn => hne ((spells_plain hm).trans (spells_plain hn).symm)
  · have hmem : p.key ∈ l.map Prod.fst := hkeys ▸ List.mem_map_of_mem hp
    obtain ⟨n, hn, hkey⟩ := List.mem_map.1 hmem
    refine .inr ⟨Member.plain n, List.mem_map_of_mem hn, ?_⟩
    rw [← hkey]
    exact spells_writeChars n.1.toList

theorem evolvedObject_plain {l : List (String × List Char)}
    (h : List.Forall₂ (fun m p => m.1 = p.key ∧ p.texts m.2) l parts)
    (hnodup : (parts.map Part.key).Nodup) : EvolvedObject admits parts (writeObject l) :=
  ⟨_, isObject_plain l, evolves_plain h hnodup⟩

theorem keys_nodup : (deliveryRecord.fields.map Field.key).Nodup ∧
    (paymentRecord.fields.map Field.key).Nodup ∧ (itemRecord.fields.map Field.key).Nodup ∧
      (orderRecord.fields.map Field.key).Nodup := by decide

theorem evolvedObject_delivery (d : Delivery) :
    EvolvedObject admits (deliveryParts d) (writeDelivery d) :=
  evolvedObject_plain (by simp [deliveryParts, Part.fixed]) keys_nodup.1

theorem evolvedObject_payment (p : Payment) :
    EvolvedObject admits (paymentParts p) (writePayment p) :=
  evolvedObject_plain (by simp [paymentParts, Part.fixed, Part.spared]) keys_nodup.2.1

theorem evolvedObject_item (x : Item) : EvolvedObject admits (itemParts x) (writeItem x) :=
  evolvedObject_plain (by simp [itemParts, Part.fixed, Part.spared]) keys_nodup.2.2.1

def Element.plain (w : List Char) : Element := ⟨[], w, []⟩

theorem Element.spaced_plain (w : List Char) : (Element.plain w).Spaced :=
  ⟨fun _ hc => absurd hc List.not_mem_nil, fun _ hc => absurd hc List.not_mem_nil⟩

theorem Element.text_plain (w : List Char) : (Element.plain w).text = w := List.append_nil w

theorem isArray_plain (l : List (List Char)) : IsArray (l.map Element.plain) (writeArray l) := by
  refine ⟨?_, fun e he => ?_⟩
  · have htexts : (l.map Element.plain).map Element.text = l := by
      rw [List.map_map]
      exact (List.map_congr_left fun w _ => Element.text_plain w).trans (List.map_id l)
    rw [htexts]
    cases l with
    | nil => exact .blank (b := []) fun c hc => absurd hc List.not_mem_nil
    | cons w l => exact .parts w l
  · obtain ⟨w, -, rfl⟩ := List.mem_map.1 he
    exact Element.spaced_plain w

theorem evolvedItems_plain (xs : List Item) : EvolvedItems admits xs (writeItems xs) := by
  refine ⟨_, isArray_plain (xs.map writeItem), ?_⟩
  induction xs with
  | nil => exact .nil
  | cons x xs ih => exact .cons (evolvedObject_item x) ih

def orderMembers (o : Order) : List (String × List Char) :=
  [("order_uid", writeText o.uid), ("track_number", writeText o.trackNumber),
    ("entry", writeText o.entry), ("delivery", writeDelivery o.delivery),
    ("payment", writePayment o.payment), ("items", writeItems o.items),
    ("locale", writeText o.locale.name), ("internal_signature", writeText o.internalSignature),
    ("customer_id", writeText o.customerId), ("delivery_service", writeText o.deliveryService),
    ("shardkey", writeText o.shardKey), ("sm_id", writeInteger o.smId),
    ("date_created", writeMoment o.dateCreated), ("oof_shard", writeText o.oofShard)]

theorem writeOrder_eq (o : Order) : writeOrder o = writeObject (orderMembers o) := rfl

theorem evolves_orderMembers (admits : List Char → Prop) (o : Order) :
    Evolves admits (orderParts admits o) ((orderMembers o).map Member.plain) := by
  refine evolves_plain ?_ keys_nodup.2.2.2
  simp [orderMembers, orderParts, Part.fixed, Part.spared, evolvedObject_delivery,
    evolvedObject_payment, evolvedItems_plain]

theorem EvolvedObject.order (h : EvolvedObject admits (orderParts admits o) w) :
    EvolvedOrder admits o w :=
  ⟨Element.plain w, Element.spaced_plain w, (Element.text_plain w).symm, h⟩

theorem evolvedOrder_plain (admits : List Char → Prop) (o : Order) :
    EvolvedOrder admits o (writeOrder o) := by
  rw [writeOrder_eq]
  exact EvolvedObject.order ⟨_, isObject_plain _, evolves_orderMembers admits o⟩

theorem isValue_text (s : String) : IsValue (writeText s) :=
  .string (spells_writeChars s.toList).quotes

theorem isValue_moment (d : Moment) : IsValue (writeMoment d) :=
  .string (spells_writeChars _).quotes

theorem isValue_integer (i : Int64) : IsValue (writeInteger i) := by
  refine .number ?_
  have hdigits (n : Nat) : Digits (Text.Decimal.ofNat n) :=
    ⟨Text.Decimal.ofNat_ne_nil n, fun d => Text.Decimal.isDigit_of_mem_ofNat⟩
  have hzero (n : Nat) (h : (Text.Decimal.ofNat n).head? = some '0') :
      Text.Decimal.ofNat n = ['0'] := by
    obtain ⟨ds, hds⟩ := List.head?_eq_some_iff.1 h
    obtain ⟨-, rfl⟩ := Text.Decimal.eq_zero_of_ofNat hds
    exact hds
  have hnumber {sign : List Char} (hs : sign = [] ∨ sign = ['-']) (n : Nat) :
      IsNumber (sign ++ Text.Decimal.ofNat n) := by
    have h := IsNumber.mk hs (hdigits n) (hzero n) (.inl rfl) (.inl rfl)
    rwa [List.append_nil, List.append_nil] at h
  unfold writeInteger Text.Decimal.ofInt
  split
  · exact hnumber (.inr rfl) _
  · exact hnumber (.inl rfl) _

theorem Evolves.isValue (h : Evolves admits parts ms)
    (hparts : ∀ p ∈ parts, ∀ v, p.texts v → IsValue v) : ∀ m ∈ ms, IsValue m.value := by
  intro m hm
  by_cases hpart : ∃ p ∈ parts, Spells m.name p.key.toList
  · obtain ⟨p, hp, hspells⟩ := hpart
    exact hparts p hp _ (h.declared m hm p hp hspells)
  · exact (h.added m hm fun p hp hspells => hpart ⟨p, hp, hspells⟩).2

theorem EvolvedObject.isValue (h : EvolvedObject admits parts w)
    (hparts : ∀ p ∈ parts, ∀ v, p.texts v → IsValue v) : IsValue w := by
  obtain ⟨ms, hw, h⟩ := h
  exact .object hw (h.isValue hparts)

theorem EvolvedItems.isValue {xs : List Item} (h : EvolvedItems admits xs w) : IsValue w := by
  obtain ⟨es, hw, hes⟩ := h
  refine .array hw fun e he => ?_
  obtain ⟨x, -, hx⟩ := exists_of_forall₂ hes he
  refine EvolvedObject.isValue hx ?_
  simp [itemParts, Part.fixed, Part.spared, isValue_text, isValue_integer]

theorem isValue_orderParts : ∀ p ∈ orderParts admits o, ∀ v, p.texts v → IsValue v := by
  have hdelivery (v : List Char) (hv : EvolvedObject admits (deliveryParts o.delivery) v) :
      IsValue v := hv.isValue (by simp [deliveryParts, Part.fixed, isValue_text])
  have hpayment (v : List Char) (hv : EvolvedObject admits (paymentParts o.payment) v) :
      IsValue v := hv.isValue (by
    simp [paymentParts, Part.fixed, Part.spared, isValue_text, isValue_integer])
  have hitems (v : List Char) (hv : EvolvedItems admits o.items v) : IsValue v := hv.isValue
  simpa [orderParts, Part.fixed, Part.spared, isValue_text, isValue_integer, isValue_moment]
    using ⟨hdelivery, hpayment, hitems⟩

/-! ## Reading -/

structure Suits (f : Field × Content) (p : Part) : Prop where
  key : f.1.key = p.key
  reads : ∀ w, p.texts w → Reads f.1.read w f.2
  spare : p.spare → f.1.fallback = some f.2

theorem suits_fixed {f : Field} {c : Content} (h : Reads f.read w c) :
    Suits (f, c) (.fixed f.key w) := by
  refine ⟨rfl, fun v hv => ?_, False.elim⟩
  obtain rfl : v = w := hv
  exact h

theorem suits_spared {f : Field} {c : Content} {spare : Prop} (h : Reads f.read w c)
    (hspare : spare → f.fallback = some c) : Suits (f, c) (.spared f.key w spare) := by
  refine ⟨rfl, fun v hv => ?_, hspare⟩
  obtain rfl : v = w := hv
  exact h

theorem Evolves.exists_fitting (h : Evolves Legible parts ms) (hw : IsObject ms w)
    (hps : List.Forall₂ Suits ps parts) (hm : m ∈ ms) : ∃ key, Fitting ps m key := by
  have hdeclared {key : String} (hspells : Spells m.name key.toList) :
      ∀ p ∈ ps, p.1.key = key → Reads p.1.read m.value p.2 := by
    intro p hp hkey
    obtain ⟨q, hq, hsuits⟩ := exists_of_forall₂ hps hp
    refine hsuits.reads _ (h.declared m hm q hq ?_)
    rwa [← hsuits.key, hkey]
  by_cases hpart : ∃ q ∈ parts, Spells m.name q.key.toList
  · obtain ⟨q, hq, hspells⟩ := hpart
    obtain ⟨p, hp, hsuits⟩ := exists_of_forall₂ hps.flip hq
    exact ⟨q.key, hw.spaced m hm, hspells, hdeclared hspells,
      fun hnone => absurd hsuits.key (hnone p hp)⟩
  · have hnone : ∀ q ∈ parts, ¬ Spells m.name q.key.toList := fun q hq hspells =>
      hpart ⟨q, hq, hspells⟩
    obtain ⟨⟨cs, hcs⟩, hvalue⟩ := h.added m hm hnone
    have hspells : Spells m.name (String.ofList cs).toList := by rwa [String.toList_ofList]
    exact ⟨String.ofList cs, hw.spaced m hm, hspells, hdeclared hspells,
      fun _ => skippable_of_isValue hvalue⟩

theorem exists_forall₂ {β γ : Type} {R : β → γ → Prop} {xs : List β} (h : ∀ x ∈ xs, ∃ y, R x y) :
    ∃ ys, List.Forall₂ R xs ys := by
  induction xs with
  | nil => exact ⟨[], .nil⟩
  | cons x xs ih =>
    obtain ⟨⟨y, hy⟩, hxs⟩ := List.forall_mem_cons.1 h
    obtain ⟨ys, hys⟩ := ih hxs
    exact ⟨y :: ys, .cons hy hys⟩

theorem once_of_pairwise {keys : List String} (h : List.Forall₂ (Fitting ps) ms keys)
    (hms : ∀ p ∈ ps, ms.Pairwise fun m n => Spells m.name p.1.key.toList →
      ¬ Spells n.name p.1.key.toList) : Once ps keys := by
  induction h with
  | nil => exact .nil
  | @cons m key ms keys hm hrest ih =>
    refine List.pairwise_cons.2 ⟨fun k hk ⟨p, hp, hkey⟩ hsame => ?_, ih fun p hp =>
      (List.pairwise_cons.1 (hms p hp)).2⟩
    obtain ⟨n, hn, hfits⟩ := exists_of_forall₂ hrest.flip hk
    have hspells := hm.spells
    have hspells' : Spells n.name k.toList := Fitting.spells hfits
    rw [← hsame, ← hkey] at hspells'
    rw [← hkey] at hspells
    exact (List.pairwise_cons.1 (hms p hp)).1 n hn hspells hspells'

theorem reads_evolved {ρ : Record α} (hps : List.Forall₂ Suits ps parts)
    (hfields : ρ.fields = ps.map Prod.fst) (hnodup : (ρ.fields.map Field.key).Nodup)
    (hregular : ∀ f ∈ ρ.fields, Regular f.read) (hbuild : ρ.build (ps.map Prod.snd) = some a)
    (h : EvolvedObject Legible parts w) : Reads ρ.read w a := by
  obtain ⟨ms, hw, h⟩ := h
  -- every name is legible, so each member has one key that its name spells
  obtain ⟨keys, hkeys⟩ := exists_forall₂ fun m hm => h.exists_fitting hw hps hm
  have hread : ∀ p ∈ ps, Regular p.1.read := fun p hp =>
    hregular p.1 (hfields ▸ List.mem_map_of_mem hp)
  have hdistinct : (ps.map fun p => p.1.key).Nodup := by
    rw [hfields, List.map_map] at hnodup
    exact hnodup
  have honce : Once ps keys := by
    refine once_of_pairwise hkeys fun p hp => ?_
    obtain ⟨q, hq, hsuits⟩ := exists_of_forall₂ hps hp
    rw [hsuits.key]
    exact h.once q hq
  refine reads_object hfields hdistinct hread hbuild hw hkeys honce fun p hp => ?_
  obtain ⟨q, hq, hsuits⟩ := exists_of_forall₂ hps hp
  rcases h.complete q hq with hspare | ⟨m, hm, hspells⟩
  · exact .inr (hsuits.spare hspare)
  · obtain ⟨key, hkey, hfits⟩ := exists_of_forall₂ hkeys hm
    have hsame : key = q.key := String.toList_inj.1 (hfits.spells.unique hspells)
    rw [hsame] at hkey
    exact .inl (hsuits.key ▸ hkey)

/-! ## Orders -/

theorem regular_textField (key : String) (fallback : Option String) :
    Regular (textField key fallback).read := regular_text.map Content.text

theorem regular_integerField (key : String) (fallback : Option Int64) :
    Regular (integerField key fallback).read := regular_integer.map Content.integer

theorem regular_cons {f : Field} {fs : List Field} (hf : Regular f.read)
    (hfs : ∀ g ∈ fs, Regular g.read) : ∀ g ∈ f :: fs, Regular g.read :=
  List.forall_mem_cons.2 ⟨hf, hfs⟩

theorem regular_nil : ∀ f ∈ ([] : List Field), Regular f.read :=
  fun _ hf => absurd hf List.not_mem_nil

theorem regular_deliveryFields : ∀ f ∈ deliveryRecord.fields, Regular f.read :=
  regular_cons (regular_textField ..) <| regular_cons (regular_textField ..) <|
    regular_cons (regular_textField ..) <| regular_cons (regular_textField ..) <|
    regular_cons (regular_textField ..) <| regular_cons (regular_textField ..) <|
    regular_cons (regular_textField ..) regular_nil

theorem regular_paymentFields : ∀ f ∈ paymentRecord.fields, Regular f.read :=
  regular_cons (regular_textField ..) <| regular_cons (regular_textField ..) <|
    regular_cons ((regular_named ..).map Content.currency) <|
    regular_cons (regular_textField ..) <| regular_cons (regular_integerField ..) <|
    regular_cons (regular_integerField ..) <| regular_cons (regular_textField ..) <|
    regular_cons (regular_integerField ..) <| regular_cons (regular_integerField ..) <|
    regular_cons (regular_integerField ..) regular_nil

theorem regular_itemFields : ∀ f ∈ itemRecord.fields, Regular f.read :=
  regular_cons (regular_integerField ..) <| regular_cons (regular_integerField ..) <|
    regular_cons (regular_textField ..) <| regular_cons (regular_integerField ..) <|
    regular_cons (regular_textField ..) <| regular_cons (regular_textField ..) <|
    regular_cons (regular_integerField ..) <| regular_cons (regular_textField ..) <|
    regular_cons (regular_integerField ..) <| regular_cons (regular_integerField ..) <|
    regular_cons (regular_textField ..) <| regular_cons (regular_integerField ..) regular_nil

theorem regular_items : Regular readItems := regular_list (regular_record regular_itemFields)

theorem regular_orderFields : ∀ f ∈ orderRecord.fields, Regular f.read :=
  regular_cons (regular_textField ..) <| regular_cons (regular_textField ..) <|
    regular_cons (regular_textField ..) <|
    regular_cons ((regular_record regular_deliveryFields).map Content.delivery) <|
    regular_cons ((regular_record regular_paymentFields).map Content.payment) <|
    regular_cons (regular_items.map Content.items) <|
    regular_cons ((regular_named ..).map Content.locale) <|
    regular_cons (regular_textField ..) <| regular_cons (regular_textField ..) <|
    regular_cons (regular_textField ..) <| regular_cons (regular_textField ..) <|
    regular_cons (regular_integerField ..) <| regular_cons (regular_moment.map Content.moment) <|
    regular_cons (regular_textField ..) regular_nil

theorem suits_text (key s : String) :
    Suits (textField key none, .text s) (.fixed key (writeText s)) :=
  suits_fixed (sturdy_textField key none s).reads

theorem suits_integer (key : String) (i : Int64) :
    Suits (integerField key none, .integer i) (.fixed key (writeInteger i)) :=
  suits_fixed (sturdy_integerField key none i).reads

theorem suits_emptyText (key s : String) :
    Suits (textField key (some ""), .text s) (.spared key (writeText s) (s = "")) :=
  suits_spared (sturdy_textField key (some "") s).reads fun h => congrArg (some ∘ Content.text) h.symm

theorem suits_zero (key : String) (i : Int64) :
    Suits (integerField key (some 0), .integer i) (.spared key (writeInteger i) (i = 0)) :=
  suits_spared (sturdy_integerField key (some 0) i).reads fun h =>
    congrArg (some ∘ Content.integer) h.symm

theorem suits_nested {β : Type} {read : Reader β} {b : β} {texts : List Char → Prop} (key : String)
    (make : β → Content) (h : ∀ w, texts w → Reads read w b) :
    Suits (⟨key, fun s => (read s).map fun r => (make r.1, r.2), none⟩, make b)
      ⟨key, texts, False⟩ :=
  ⟨rfl, fun w hw => (h w hw).map make, False.elim⟩

theorem reads_evolvedDelivery {d : Delivery} (h : EvolvedObject Legible (deliveryParts d) w) :
    Reads deliveryRecord.read w d := by
  have hps : List.Forall₂ Suits _ (deliveryParts d) :=
    .cons (suits_text "name" d.name) <| .cons (suits_text "phone" d.phone) <|
      .cons (suits_text "zip" d.zip) <| .cons (suits_text "city" d.city) <|
      .cons (suits_text "address" d.address) <| .cons (suits_text "region" d.region) <|
      .cons (suits_text "email" d.email) .nil
  exact reads_evolved hps rfl keys_nodup.1 regular_deliveryFields rfl h

theorem reads_evolvedPayment {p : Payment} (h : EvolvedObject Legible (paymentParts p) w) :
    Reads paymentRecord.read w p := by
  have hcurrency : Reads readCurrency (writeText p.currency.name) p.currency :=
    reads_named (Currency.ofName?_name p.currency)
  have hps : List.Forall₂ Suits _ (paymentParts p) :=
    .cons (suits_text "transaction" p.transaction) <|
      .cons (suits_emptyText "request_id" p.requestId) <|
      .cons (suits_fixed (f := ⟨"currency", _, none⟩) (hcurrency.map Content.currency)) <|
      .cons (suits_text "provider" p.provider) <| .cons (suits_integer "amount" p.amount) <|
      .cons (suits_integer "payment_dt" p.paidAt) <| .cons (suits_text "bank" p.bank) <|
      .cons (suits_integer "delivery_cost" p.deliveryCost) <|
      .cons (suits_integer "goods_total" p.goodsTotal) <|
      .cons (suits_integer "custom_fee" p.customFee) .nil
  exact reads_evolved hps rfl keys_nodup.2.1 regular_paymentFields rfl h

theorem reads_evolvedItem {x : Item} (h : EvolvedObject Legible (itemParts x) w) :
    Reads itemRecord.read w x := by
  have hps : List.Forall₂ Suits _ (itemParts x) :=
    .cons (suits_zero "id" x.id) <| .cons (suits_integer "chrt_id" x.chrtId) <|
      .cons (suits_text "track_number" x.trackNumber) <| .cons (suits_integer "price" x.price) <|
      .cons (suits_text "rid" x.rid) <| .cons (suits_text "name" x.name) <|
      .cons (suits_integer "sale" x.sale) <| .cons (suits_text "size" x.size) <|
      .cons (suits_integer "total_price" x.totalPrice) <| .cons (suits_integer "nm_id" x.nmId) <|
      .cons (suits_text "brand" x.brand) <| .cons (suits_integer "status" x.status) .nil
  exact reads_evolved hps rfl keys_nodup.2.2.1 regular_itemFields rfl h

theorem reads_evolvedItems {xs : List Item} (h : EvolvedItems Legible xs w) :
    Reads readItems w xs := by
  obtain ⟨es, hw, hes⟩ := h
  exact reads_array (regular_record regular_itemFields) hw (hes.imp fun _ _ => reads_evolvedItem)

theorem reads_evolvedOrder (h : EvolvedObject Legible (orderParts Legible o) w) :
    Reads orderRecord.read w o := by
  have hlocale : Reads readLocale (writeText o.locale.name) o.locale :=
    reads_named (Locale.ofName?_name o.locale)
  have hitems : Suits (⟨"items", _, some (.items [])⟩, .items o.items)
      ⟨"items", EvolvedItems Legible o.items, o.items = []⟩ :=
    ⟨rfl, fun w hw => (reads_evolvedItems hw).map Content.items,
      fun hnone => congrArg (some ∘ Content.items) hnone.symm⟩
  have hps : List.Forall₂ Suits _ (orderParts Legible o) :=
    .cons (suits_text "order_uid" o.uid) <| .cons (suits_text "track_number" o.trackNumber) <|
      .cons (suits_text "entry" o.entry) <|
      .cons (suits_nested "delivery" Content.delivery fun _ => reads_evolvedDelivery) <|
      .cons (suits_nested "payment" Content.payment fun _ => reads_evolvedPayment) <|
      .cons hitems <|
      .cons (suits_fixed (f := ⟨"locale", _, none⟩) (hlocale.map Content.locale)) <|
      .cons (suits_emptyText "internal_signature" o.internalSignature) <|
      .cons (suits_text "customer_id" o.customerId) <|
      .cons (suits_text "delivery_service" o.deliveryService) <|
      .cons (suits_text "shardkey" o.shardKey) <| .cons (suits_integer "sm_id" o.smId) <|
      .cons (suits_fixed (f := ⟨"date_created", _, none⟩)
        ((reads_moment o.dateCreated).map Content.moment)) <|
      .cons (suits_text "oof_shard" o.oofShard) .nil
  exact reads_evolved hps rfl keys_nodup.2.2.2 regular_orderFields rfl h

theorem decodeOrder_evolved (h : EvolvedOrder Legible o t) : decodeOrder (encode t) = .ok o := by
  obtain ⟨e, he, rfl, h⟩ := h
  have hread := reads_element (regular_record regular_orderFields) he (reads_evolvedOrder h) ends_nil
  have hblank : skipSpace (encode e.after) = [] := by
    have hafter := skipSpace_blank he.after []
    rwa [List.append_nil] at hafter
  rw [List.append_nil, List.append_nil] at hread
  simp only [decodeOrder, decodeWith, hread, bind, Except.bind, hblank, if_true]
  rfl

end OrderDesk.Wire
