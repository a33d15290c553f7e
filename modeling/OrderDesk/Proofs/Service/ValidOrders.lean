import OrderDesk.Proofs.Ingest.Admission
import OrderDesk.Proofs.Service.Deeds

/-!
What the service lets in. Whatever messages come and whatever fails, only valid orders reach the
handler, and a store that is written by the pipeline alone holds nothing else.
-/

namespace OrderDesk

def Command.WritesDirectly : Command → Prop
  | .upsert _ | .persist _ => True
  | _ => False

structure Order.Admitted (o : Order) : Prop where
  valid : o.validate = .ok ()
  transaction : o.payment.transaction = o.uid
  items : o.items ≠ []

theorem Order.Valid.admitted_stored {o : Order} (h : o.Valid) (given : Nat) :
    (Store.stored given o).Admitted where
  valid := Order.validate_eq_ok_iff.2 (Store.valid_stored h given)
  transaction := rfl
  items := (Store.valid_stored h given).items

namespace Service

open Act (Admits)
open Desk (Stores)

/-! ## Calls -/

theorem admits_perform (s : Service) (c : Command) :
    ∃ as, (s.perform c).2.pipeline.history = s.pipeline.history ++ as ∧ Admits as := by
  have hsame {t : Service} (h : t.pipeline.history = s.pipeline.history) :
      ∃ as, t.pipeline.history = s.pipeline.history ++ as ∧ Admits as :=
    ⟨[], by rw [h, List.append_nil], Act.admits_of_not_handling (by simp)⟩
  have haccess {α : Type} (p : Access (Except OrderError α)) (write : α → Answer) :
      ∃ as, (s.access p write).2.pipeline.history = s.pipeline.history ++ as ∧ Admits as :=
    hsame (by rw [access_eq]; rfl)
  cases c with
  | upsert | storedOrder | storedItems | storedOrders | cachedOrder | cachedItems | warmUp
  | readOrder | readItems | persist => exact haccess ..
  | request | inspect | advanceClock | commit =>
    refine hsame ?_
    unfold perform
    dsimp only
    split <;> rfl
  | process m closeAfter =>
    cases closeAfter with
    | none => exact (s.pipeline.steps_processMessage m).admits
    | some after => exact (s.pipeline.steps_processAndClose m after).admits
  | run forMillis cancelled => exact (s.pipeline.steps_run forMillis cancelled).admits
  | close => exact s.pipeline.steps_close.admits
  | mark key => exact (s.pipeline.steps_mark key).admits
  | purge age => exact (s.pipeline.steps_purge age).admits
  | poll timeout => exact (Pipeline.Steps.quiet (s.pipeline.quiet_poll timeout)).admits
  | _ => exact hsame rfl

theorem admits_performAll {s : Service} (h : Admits s.pipeline.history) (cs : List Command) :
    Admits (s.performAll cs).2.pipeline.history := by
  induction cs generalizing s with
  | nil => exact h
  | cons c cs ih =>
    obtain ⟨as, hh, ha⟩ := s.admits_perform c
    refine ih (s := (s.perform c).2) ?_
    rw [hh]
    exact h.append ha

/-! ## The store -/

theorem stores_perform (s : Service) {c : Command} (hc : ¬ c.WritesDirectly) :
    Stores s.desk (s.written c) (s.perform c).2.desk := by
  cases c with
  | upsert | persist => exact absurd trivial hc
  | cacheOrder => exact .of_same rfl rfl
  | _ => exact (s.deeds_perform id).stores

theorem stores_performAll (s : Service) {cs : List Command} (h : ∀ c ∈ cs, ¬ c.WritesDirectly) :
    Stores s.desk (s.writtenAll cs) (s.performAll cs).2.desk := by
  induction cs generalizing s with
  | nil => exact .of_same rfl rfl
  | cons c cs ih =>
    have hfirst := s.stores_perform (h c List.mem_cons_self)
    exact hfirst.trans (ih (s.perform c).2 fun b hb => h b (List.mem_cons_of_mem c hb))

theorem valid_of_mem_written (s : Service) {c : Command} (hc : ¬ c.WritesDirectly) {o : Order}
    (ho : o ∈ s.written c) : o.Valid := by
  obtain ⟨as, hh, ha⟩ := s.admits_perform c
  have hacts : s.actsOf c = as := by rw [actsOf, hh, List.drop_left]
  have hwritten : o ∈ Act.written none as := by
    rw [← hacts]
    cases c with
    | upsert | persist => exact absurd trivial hc
    | process | run => exact ho
    | _ => cases ho
  obtain ⟨m, hm⟩ := ha.order?_of_mem_written hwritten
  exact (Message.order?_eq_some_iff.1 hm).2

theorem valid_of_mem_writtenAll (s : Service) {cs : List Command}
    (h : ∀ c ∈ cs, ¬ c.WritesDirectly) {o : Order} (ho : o ∈ s.writtenAll cs) : o.Valid := by
  induction cs generalizing s with
  | nil => cases ho
  | cons c cs ih =>
    rcases List.mem_append.1 ho with ho | ho
    · exact s.valid_of_mem_written (h c List.mem_cons_self) ho
    · exact ih (s.perform c).2 (fun b hb => h b (List.mem_cons_of_mem c hb)) ho

/-- The handler is called for valid orders of messages at hand, other messages leave store and cache
alone, and what was stored is valid if only the pipeline writes. -/
theorem only_valid_orders (settings : IngestSettings) (running exposed : Bool) (cs : List Command) :
    let first := start settings running exposed
    let s := (first.performAll cs).2
    (∀ before t o after, s.pipeline.history = before ++ .called t o :: after →
      ∃ m, Act.AtHand before m ∧ Wire.decodeOrder m.bytes = .ok o ∧ o.validate = .ok ()) ∧
    (∀ (w : Pipeline) (m : Message) (stop : Stop),
      (∀ o, Wire.decodeOrder m.bytes = .ok o → o.validate ≠ .ok ()) →
        (w.process m stop).2.desk.store = w.desk.store ∧
          (w.process m stop).2.desk.cache = w.desk.cache) ∧
    ((∀ c ∈ cs, ¬ c.WritesDirectly) →
      (∀ v ∈ Store.versions 0 (first.writtenAll cs), v.Admitted) ∧
      ∀ o ∈ s.desk.store.shelf.orders, s.desk.store.shelf.find? o.uid = some o ∧ o.Admitted) := by
  intro first s
  refine ⟨?calls, ?refused, ?stored⟩
  case calls =>
    intro before t o after hsplit
    have hadmits : Admits s.pipeline.history :=
      admits_performAll (Act.admits_of_not_handling (by simp [first, start, Pipeline.start,
        Pipeline.history])) cs
    obtain ⟨m, hm, ho⟩ := hadmits before t o after hsplit
    obtain ⟨hread, hvalid⟩ := Message.order?_eq_some_iff.1 ho
    exact ⟨m, hm, hread, Order.validate_eq_ok_iff.2 hvalid⟩
  case refused =>
    intro w m stop hno
    refine w.process_same (Option.eq_none_iff_forall_ne_some.2 fun o ho => ?_) stop
    obtain ⟨hread, hvalid⟩ := Message.order?_eq_some_iff.1 ho
    exact hno o hread (Order.validate_eq_ok_iff.2 hvalid)
  case stored =>
    intro hcs
    have hversions : ∀ v ∈ Store.versions 0 (first.writtenAll cs), v.Admitted := by
      intro v hv
      obtain ⟨o, ho, k, rfl⟩ := Store.exists_of_mem_versions hv
      exact (first.valid_of_mem_writtenAll hcs ho).admitted_stored k
    have hstores : Stores .empty (first.writtenAll cs) s.desk := first.stores_performAll hcs
    refine ⟨hversions, fun o ho => ?_⟩
    have hfound := Shelf.find?_of_mem ho
    have hlatest := (hstores.find?_eq_latest o.uid).symm.trans hfound
    obtain ⟨-, before, after, hsplit, -⟩ := Order.exists_eq_append_of_latest hlatest
    exact ⟨hfound, hversions o (by simp [hsplit])⟩

end Service

end OrderDesk
