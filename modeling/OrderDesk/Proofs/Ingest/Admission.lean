import OrderDesk.Proofs.Ingest.Deeds
import OrderDesk.Proofs.Order.Validity

/-!
Admission: whom the handler is called for. A call is one for the order of the message at hand, the
one that began last and has not ended, and a message whose order cannot be read or breaks a rule ends
without a call or a write.
-/

namespace OrderDesk

theorem Message.order?_eq_some_iff {m : Message} {o : Order} :
    m.order? = some o ↔ Wire.decodeOrder m.bytes = .ok o ∧ o.Valid := by
  rw [order?, ← Order.validate_eq_ok_iff]
  cases Wire.decodeOrder m.bytes with
  | error e => simp
  | ok b =>
    by_cases hb : b = o
    · subst hb
      cases hv : b.validate <;> simp [hv]
    · cases hv : b.validate <;> simp [hb, hv]

namespace Act

variable {as bs : List Act} {m : Message} {o : Order}

def isInside : Act → Bool
  | .began _ | .ended .. => false
  | _ => true

theorem isInside_of_handling {a : Act} (h : a.isHandling = true) : a.isInside = true := by
  cases a <;> first | rfl | cases h

theorem Passes.isInside {a : Act} (h : a.Passes) : a.isInside = true := by
  cases a <;> first | rfl | exact h.elim

def AtHand (as : List Act) (m : Message) : Prop :=
  ∃ before during, as = before ++ .began m :: during ∧ ∀ a ∈ during, a.isInside = true

/-- Every call of the handler is one for the order of the message at hand. -/
def Admits (as : List Act) : Prop :=
  ∀ before t o after, as = before ++ .called t o :: after →
    ∃ m, AtHand before m ∧ m.order? = some o

theorem AtHand.append_left (h : AtHand bs m) (as : List Act) : AtHand (as ++ bs) m := by
  obtain ⟨before, during, rfl, hin⟩ := h
  exact ⟨as ++ before, during, (List.append_assoc ..).symm, hin⟩

theorem admits_of_not_handling (h : ∀ a ∈ as, a.isHandling = false) : Admits as := by
  rintro before t o after rfl
  have hcall := h (.called t o) (by simp)
  cases hcall

theorem Admits.append (ha : Admits as) (hb : Admits bs) : Admits (as ++ bs) := by
  intro before t o after h
  rcases List.append_eq_append_iff.1 h with ⟨mid, rfl, hmid⟩ | ⟨mid, rfl, hmid⟩
  · obtain ⟨m, hm, ho⟩ := hb mid t o after hmid
    exact ⟨m, hm.append_left as, ho⟩
  · cases mid with
    | nil =>
      obtain ⟨m, hm, ho⟩ := hb [] t o after hmid.symm
      exact ⟨m, by simpa using hm.append_left before, ho⟩
    | cons a mid =>
      obtain ⟨rfl, -⟩ := List.cons.inj hmid
      exact ha before t o mid rfl

theorem admits_began (hin : ∀ a ∈ as, a.isInside = true)
    (hcalls : ∀ t o, .called t o ∈ as → m.order? = some o) : Admits (.began m :: as) := by
  intro before t o after h
  cases before with
  | nil => cases h
  | cons a before =>
    obtain ⟨rfl, rfl⟩ := List.cons.inj h
    refine ⟨m, ⟨[], before, rfl, fun b hb => hin b ?_⟩, hcalls t o (by simp)⟩
    exact List.mem_append_left _ hb

theorem Admits.exists_message (h : Admits as) {t : Nat} (ho : .called t o ∈ as) :
    ∃ m : Message, m.order? = some o := by
  obtain ⟨before, after, hsplit⟩ := List.append_of_mem ho
  obtain ⟨m, -, hm⟩ := h before t o after hsplit
  exact ⟨m, hm⟩

theorem exists_called_of_mem_written {pending : Option Order} (h : o ∈ written pending as) :
    pending = some o ∨ ∃ t, .called t o ∈ as := by
  induction as generalizing pending with
  | nil => cases h
  | cons a as ih =>
    have hlater {p : Option Order} (h : o ∈ written p as) :
        p = some o ∨ ∃ t, .called t o ∈ a :: as :=
      (ih h).imp_right fun ⟨t, ht⟩ => ⟨t, List.mem_cons_of_mem a ht⟩
    cases ha : a.isHandling with
    | false =>
      rw [written_cons_of_not_handling ha] at h
      exact hlater h
    | true =>
      cases a with
      | called t b =>
        rcases hlater (p := some b) h with hb | hcalled
        · obtain rfl := Option.some.inj hb
          exact .inr ⟨t, List.mem_cons_self⟩
        · exact .inr hcalled
      | answered t r =>
        cases r with
        | ok =>
          rcases List.mem_append.1 h with hp | hlast
          · exact .inl (Option.mem_toList.1 hp)
          · exact .inr ((hlater hlast).resolve_left nofun)
        | error e => exact .inr ((hlater (p := none) h).resolve_left nofun)
      | _ => cases ha

theorem Admits.order?_of_mem_written (h : Admits as) (ho : o ∈ written none as) :
    ∃ m : Message, m.order? = some o := by
  obtain ⟨t, ht⟩ := (exists_called_of_mem_written ho).resolve_left nofun
  exact h.exists_message ht

end Act

theorem Tried.called {o b : Order} {left t : Nat} {last : Option OrderError} {acts : List Act}
    {cause : Option Cause} (h : Tried o left last acts cause) (hb : .called t b ∈ acts) : b = o := by
  induction h with
  | exhausted | notCalled => cases hb
  | notAnswered | processed | rejected => simpa using And.right (by simpa using hb)
  | again left last t u e acts cause he h ih =>
    rcases List.mem_cons.1 hb with hb | hb
    · cases hb
      rfl
    · rcases List.mem_cons.1 hb with hb | hb
      · cases hb
      · exact ih hb

theorem Handled.called {most t : Nat} {m : Message} {o : Order} {acts : List Act}
    {cause : Option Cause} (h : Handled most m acts cause) (ho : .called t o ∈ acts) :
    m.order? = some o := by
  cases h with
  | tried b acts cause hb h =>
    rw [h.called ho]
    exact hb
  | _ => cases ho

theorem Handled.acts_eq_nil {most : Nat} {m : Message} {acts : List Act} {cause : Option Cause}
    (h : Handled most m acts cause) (hm : m.order? = none) : acts = [] := by
  cases h with
  | tried o acts cause ho h => exact absurd (ho.symm.trans hm) nofun
  | _ => rfl

namespace Pipeline

variable {w u v : Pipeline} {m : Message} {stop : Stop}

open Act (Admits)

theorem admits_process (w : Pipeline) (m : Message) (stop : Stop) :
    ∃ as, (w.process m stop).2.history = w.history ++ as ∧ Admits as := by
  obtain ⟨acts, cause, u, hh, hmoves, -, -, hend⟩ := (w.record (.began m)).carry_ends m stop
  obtain ⟨during, hduring, rfl, hpass⟩ := hmoves.handling
  have hbegan : Admits (.began m :: during) := by
    refine Act.admits_began (fun a ha => ?_) fun t o ho => ?_
    · exact (hpass a ha).elim Act.isInside_of_handling Act.Passes.isInside
    · exact hh.called (List.mem_filter.2 ⟨ho, rfl⟩)
  have hquiet : Admits ((u.log.ending cause).acts m) :=
    Act.admits_of_not_handling fun _ => Ending.not_handling_of_mem_acts
  obtain ⟨t, r, hprocess⟩ : ∃ t r, (w.process m stop).2 =
      ((w.record (.began m)).carry m stop).2.record (.ended t m r) := ⟨_, _, rfl⟩
  have hended : Admits [.ended t m r] := Act.admits_of_not_handling (by simp [Act.isHandling])
  refine ⟨_, ?_, (hbegan.append hquiet).append hended⟩
  rw [hprocess, history_record, hend.history, hduring, history_record]
  simp only [List.append_assoc, List.cons_append, List.nil_append]

theorem Steps.admits (h : w.Steps v) : ∃ as, v.history = w.history ++ as ∧ Admits as := by
  induction h with
  | quiet h =>
    obtain ⟨as, hh, ha⟩ := h.acts
    exact ⟨as, hh, Act.admits_of_not_handling fun a has => (ha a has).not_handling⟩
  | process w m stop => exact w.admits_process m stop
  | trans _ _ ih ihs =>
    obtain ⟨as, ha, hfirst⟩ := ih
    obtain ⟨bs, hb, hlast⟩ := ihs
    exact ⟨as ++ bs, by rw [hb, ha, List.append_assoc], hfirst.append hlast⟩

theorem Move.same {as : List Act} (h : Move m stop w as u) (hn : as = []) :
    u.desk.store = w.desk.store ∧ u.desk.cache = w.desk.cache := by
  have hpass (t : Nat) : (w.passTo t).desk.store = w.desk.store ∧
      (w.passTo t).desk.cache = w.desk.cache := ⟨w.store_passTo t, w.cache_passTo t⟩
  cases h with
  | note | count => exact ⟨rfl, rfl⟩
  | pass t => exact hpass t
  | interrupt =>
    cases stop with
    | never => exact ⟨rfl, rfl⟩
    | cancel d => exact hpass d
    | close d => exact hpass d
  | call | fail | persist => cases hn

theorem Moves.same {as : List Act} (h : Moves m stop w as u) (hn : as = []) :
    u.desk.store = w.desk.store ∧ u.desk.cache = w.desk.cache := by
  induction h with
  | refl w => exact ⟨rfl, rfl⟩
  | step h _ ih =>
    obtain ⟨hfirst, hrest⟩ := List.append_eq_nil_iff.1 hn
    obtain ⟨hstore, hcache⟩ := h.same hfirst
    exact ⟨(ih hrest).1.trans hstore, (ih hrest).2.trans hcache⟩

theorem process_same (w : Pipeline) (hm : m.order? = none) (stop : Stop) :
    (w.process m stop).2.desk.store = w.desk.store ∧
      (w.process m stop).2.desk.cache = w.desk.cache := by
  obtain ⟨acts, cause, u, hh, hmoves, -, -, hend⟩ := (w.record (.began m)).carry_ends m stop
  obtain ⟨hstore, hcache⟩ := hmoves.same (hh.acts_eq_nil hm)
  exact ⟨hend.store.trans hstore, hend.cache.trans hcache⟩

end Pipeline

end OrderDesk
