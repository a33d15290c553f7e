import OrderDesk.Proofs.Ingest.Admission

/-!
Arrivals. A message that was processed has left its order in the store and in the cache, in one and
the same form, however often its handler had failed before.
-/

namespace OrderDesk

namespace Desk

variable {d e : Desk} {o : Order}

def Retains (d : Desk) (o : Order) : Prop :=
  ∃ k, k + o.items.length ≤ d.store.given ∧
    d.store.shelf.find? o.uid = some (Store.stored k o) ∧
    d.cache.shelf.find? o.uid = some (Store.stored k o)

theorem Retains.of_eq (h : d.Retains o) (hs : e.store = d.store) (hc : e.cache = d.cache) :
    e.Retains o := by
  rw [Retains, hs, hc]
  exact h

theorem retains_persist (d : Desk) (o : Order) (h : ((persist o).run d).1 = .ok ()) :
    ((persist o).run d).2.Retains o := by
  simp only [persist, Access.run_bind, Access.run_perform, Step.run, Store.upsert] at h ⊢
  cases hf : d.store.upsertFailures with
  | cons e rest =>
    rw [hf] at h
    cases h
  | nil =>
    have hfind (s : Shelf) : (s.insert (Store.stored d.store.given o)).find? o.uid =
        some (Store.stored d.store.given o) := by
      rw [Shelf.find?_insert]
      exact if_pos rfl
    exact ⟨d.store.given, le_rfl, hfind d.store.shelf, hfind d.cache.shelf⟩

end Desk

theorem Tried.exists_answered {o : Order} {left : Nat} {last : Option OrderError} {acts : List Act}
    {cause : Option Cause} (h : Tried o left last acts cause) (hc : cause = some .processed) :
    ∃ t, acts.getLast? = some (.answered t (.ok ())) := by
  induction h with
  | exhausted | notCalled | notAnswered | rejected => cases hc
  | processed left last t u => exact ⟨u, rfl⟩
  | again left last t u e acts cause he h ih =>
    obtain ⟨v, hv⟩ := ih hc
    refine ⟨v, ?_⟩
    rw [List.getLast?_cons, List.getLast?_cons, hv]
    rfl

namespace Pipeline

variable {w u v : Pipeline} {m : Message} {o : Order} {stop : Stop} {as : List Act} {t : Nat}

theorem Move.retains (h : Move m stop w as u) (ho : m.order? = some o)
    (ha : as.getLast? = some (.answered t (.ok ()))) : u.desk.Retains o := by
  cases h with
  | note | count | pass | interrupt | call | fail => cases ha
  | persist b hb =>
    obtain rfl : b = o := Option.some.inj (hb.symm.trans ho)
    have hanswer : ((Desk.persist b).run w.desk).1 = .ok () := by
      have hact := Option.some.inj ha
      injection hact
    exact Desk.retains_persist w.desk b hanswer

theorem Moves.retains (h : Moves m stop w as u) (ho : m.order? = some o)
    (ha : as.getLast? = some (.answered t (.ok ()))) : u.desk.Retains o := by
  induction h with
  | refl w => cases ha
  | step h hs ih =>
    rename_i bs
    by_cases hb : bs = []
    -- the order was written by this move, and the moves after it show nothing
    · rw [hb, List.append_nil] at ha
      obtain ⟨hstore, hcache⟩ := hs.same hb
      exact (h.retains ho ha).of_eq hstore hcache
    · rw [List.getLast?_append_of_ne_nil _ hb] at ha
      exact ih ha

theorem processed_of_answer {cause : Option Cause} {l : ScriptedLog}
    (h : (l.ending cause).answer m = .ok .processed) : cause = some .processed := by
  rcases cause with _ | (_ | _ | _ | _ | _ | _) <;>
    cases hl : l.accepts <;> simp [ScriptedLog.ending, Ending.answer, Cause.answer, hl] at h ⊢

theorem process_of_order (hk : w.keys.contains m.processedKey = false) (ho : m.order? = some o)
    (stop : Stop) :
    w.process m stop =
      let r := (w.record (.began m)).handle m o stop
      (r.1, r.2.record (.ended r.2.now m r.1)) := by
  obtain ⟨hread, hvalid⟩ := Message.order?_eq_some_iff.1 ho
  have hcarry : (w.record (.began m)).carry m stop = (w.record (.began m)).handle m o stop := by
    have hnew : ¬ (w.record (.began m)).keys.contains m.processedKey = true := by
      rw [Bool.not_eq_true]
      exact hk
    rw [carry, if_neg hnew, hread]
    simp only [Order.validate_eq_ok_iff.2 hvalid]
  simp only [process, hcarry]

theorem retains_process (w : Pipeline) (m : Message) (stop : Stop)
    (h : (w.process m stop).1 = .ok .processed) :
    ∃ o, m.order? = some o ∧ (w.process m stop).2.desk.Retains o := by
  obtain ⟨acts, cause, u, hh, hmoves, -, -, hend⟩ := (w.record (.began m)).carry_ends m stop
  have hanswer : (u.log.ending cause).answer m = .ok .processed := hend.answer.symm.trans h
  obtain rfl := processed_of_answer hanswer
  cases hh with
  | tried o acts cause ho htried =>
    obtain ⟨t, ht⟩ := htried.exists_answered rfl
    exact ⟨o, ho, (hmoves.retains ho ht).of_eq hend.store hend.cache⟩

theorem retains_processAndClose (w : Pipeline) (m : Message) (after : Nat)
    (h : (w.processAndClose m after).1 = .ok .processed) :
    ∃ o, m.order? = some o ∧ (w.processAndClose m after).2.desk.Retains o := by
  have hlast {u : Pipeline} (hu : ∃ o, m.order? = some o ∧ u.desk.Retains o) :
      ∃ o, m.order? = some o ∧ ((u.passTo (w.wakeAfter after)).close).desk.Retains o := by
    obtain ⟨o, ho, hretains⟩ := hu
    exact ⟨o, ho, hretains.of_eq (u.store_passTo _) (u.cache_passTo _)⟩
  revert h
  simp only [processAndClose]
  split
  · exact retains_process _ m _
  · split
    · exact fun h => hlast (retains_process _ m _ h)
    · intro h
      have hprocess := retains_process _ m _ h
      dsimp only
      split
      · exact hprocess
      · exact hlast hprocess

end Pipeline

end OrderDesk
