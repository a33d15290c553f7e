import OrderDesk.Proofs.Ingest.Deeds
import OrderDesk.Service.Basic

/-!
Deeds of the service. Commands that go through clients and messages do nothing else to the desk, and
what they write can be told from their answers and from the acts of the pipeline.
-/

namespace OrderDesk

open Desk (Deeds Persists)

/-! ## Requests -/

namespace Api

variable {α : Type}

theorem deeds_fail (f : Failure) (d : Desk) : Deeds d [] ((fail f).run d).2 := Desk.deeds_note d _

theorem deeds_answer (write : α → String) {operation : Access (Except OrderError α)}
    (h : ∀ d, Deeds d [] (operation.run d).2) (d : Desk) :
    Deeds d [] ((answer write operation).run d).2 := by
  simp only [answer, Access.run_bind]
  split
  · exact h d
  · exact (h d).trans (deeds_fail ..)

theorem deeds_getOrder (id : List Char) (d : Desk) : Deeds d [] ((getOrder id).run d).2 := by
  unfold getOrder
  split
  · exact .refl d
  · split
    · exact deeds_fail ..
    · exact deeds_answer _ (fun d => (Desk.Deed.readOrder d _).deeds) d

theorem deeds_getItems (id query : List Char) (d : Desk) :
    Deeds d [] ((getItems id query).run d).2 := by
  unfold getItems
  split
  · exact .refl d
  · split
    · exact .refl d
    · split
      · exact deeds_fail ..
      · split
        · exact deeds_fail ..
        · exact deeds_answer _ (fun d => (Desk.Deed.readItems d _ _ _).deeds) d

theorem deeds_get (exposure : Exposure) (d : Desk) (query : List Char) (route : Route) :
    Deeds d [] (get exposure d query route).2 := by
  cases route with
  | order id => exact deeds_getOrder id d
  | items id => exact deeds_getItems id query d
  | health | metrics => exact .refl d

theorem deeds_respond (exposure : Exposure) (q : Request) (d : Desk) :
    Deeds d [] (respond exposure q d).2 := by
  unfold respond
  split
  · exact .refl d
  · split
    · exact deeds_get ..
    · split
      · exact deeds_get ..
      · exact .refl d

end Api

/-! ## Commands -/

/-- Whether a command writes to the store past the cache, or to the cache past the store. -/
def Command.Bypasses : Command → Prop
  | .upsert _ | .cacheOrder _ => True
  | _ => False

namespace Service

variable {α : Type}

def desk (s : Service) : Desk := s.pipeline.desk

def actsOf (s : Service) (c : Command) : List Act :=
  (s.perform c).2.pipeline.history.drop s.pipeline.history.length

def written (s : Service) (c : Command) : List Order :=
  match c, (s.perform c).1 with
  | .persist o, .done => [o]
  | .process .., _ | .run .., _ => Act.written none (s.actsOf c)
  | _, _ => []

def writtenAll (s : Service) : List Command → List Order
  | [] => []
  | c :: cs => s.written c ++ (s.perform c).2.writtenAll cs

theorem access_eq (s : Service) (p : Access (Except OrderError α)) (write : α → Answer) :
    s.access p write =
      (match (p.run s.desk).1 with
        | .ok a => write a
        | .error e => .failed e,
      { s with pipeline := { s.pipeline with desk := (p.run s.desk).2 } }) := by
  unfold access Pipeline.access desk
  dsimp only
  rcases p.run s.pipeline.desk with ⟨_ | _, d⟩ <;> rfl

theorem deeds_access (s : Service) {p : Access (Except OrderError α)} (write : α → Answer)
    {os : List Order} (h : Deeds s.desk os (p.run s.desk).2) :
    Deeds s.desk os (s.access p write).2.desk := by
  rw [access_eq]
  exact h

theorem persists_of_works (s : Service) (c : Command) {w : Pipeline}
    (hw : s.pipeline.Works w) (hc : (s.perform c).2.pipeline.history = w.history) :
    Persists s.desk (Act.written none (s.actsOf c)) w.desk := by
  obtain ⟨during, hh, hd⟩ := hw
  have hacts : s.actsOf c = during := by
    rw [actsOf, hc, hh, List.drop_left]
  rw [hacts]
  exact hd none

theorem persists_process (s : Service) (m : Message) (closeAfter : Option Nat) :
    Persists s.desk (s.written (.process m closeAfter)) (s.perform (.process m closeAfter)).2.desk := by
  cases closeAfter with
  | none => exact s.persists_of_works _ (s.pipeline.steps_processMessage m).works rfl
  | some after => exact s.persists_of_works _ (s.pipeline.steps_processAndClose m after).works rfl

theorem persists_run (s : Service) (forMillis : Nat) (cancelled : Bool) :
    Persists s.desk (s.written (.run forMillis cancelled))
      (s.perform (.run forMillis cancelled)).2.desk :=
  s.persists_of_works _ (s.pipeline.steps_run forMillis cancelled).works rfl

theorem written_persist (s : Service) (o : Order) :
    s.written (.persist o) = Desk.written o ((Desk.persist o).run s.desk).1 := by
  simp only [written, perform, access_eq]
  cases ((Desk.persist o).run s.desk).1 <;> rfl

theorem deeds_perform (s : Service) {c : Command} (hc : ¬ c.Bypasses) :
    Deeds s.desk (s.written c) (s.perform c).2.desk := by
  cases c with
  | upsert | cacheOrder => exact absurd trivial hc
  | storedOrder | storedItems | storedOrders | cachedOrder | cachedItems =>
    exact s.deeds_access _ (.of_eq rfl rfl rfl)
  | warmUp limit => exact s.deeds_access _ (Desk.Deed.warmUp ..).deeds
  | readOrder uid => exact s.deeds_access _ (Desk.Deed.readOrder ..).deeds
  | readItems uid last limit => exact s.deeds_access _ (Desk.Deed.readItems ..).deeds
  | persist o =>
    rw [written_persist]
    exact s.deeds_access _ (Desk.Deed.persist ..).deeds
  | failUpserts | failReads | describeMetrics => exact .of_eq rfl rfl rfl
  | clearCache => exact (Desk.Deed.clear s.desk).deeds
  | request method uri =>
    unfold perform
    dsimp only
    split
    · exact Api.deeds_respond ..
    · exact .refl s.desk
  | process m closeAfter => exact (s.persists_process m closeAfter).deeds
  | run forMillis cancelled => exact (s.persists_run forMillis cancelled).deeds
  | close => exact Desk.deeds_note _ _
  | poll timeout => exact (s.pipeline.quiet_poll timeout).persists.deeds
  | inspect | advanceClock | commit =>
    unfold perform
    dsimp only
    split <;> exact .refl s.desk
  | _ => exact .refl s.desk

theorem deeds_performAll (s : Service) {cs : List Command} (h : ∀ c ∈ cs, ¬ c.Bypasses) :
    Deeds s.desk (s.writtenAll cs) (s.performAll cs).2.desk := by
  induction cs generalizing s with
  | nil => exact .refl s.desk
  | cons c cs ih =>
    have hfirst := s.deeds_perform (h c List.mem_cons_self)
    exact hfirst.trans (ih (s.perform c).2 fun b hb => h b (List.mem_cons_of_mem c hb))

theorem deeds_of_start (settings : IngestSettings) (running exposed : Bool) {cs : List Command}
    (h : ∀ c ∈ cs, ¬ c.Bypasses) {s : Service}
    (hs : ((start settings running exposed).performAll cs).2 = s) :
    Deeds .empty ((start settings running exposed).writtenAll cs) s.desk := by
  have hrun := (start settings running exposed).deeds_performAll h
  rw [hs] at hrun
  exact hrun

theorem coherent_performAll (settings : IngestSettings) (running exposed : Bool) {cs : List Command}
    (h : ∀ c ∈ cs, ¬ c.Bypasses) {s : Service}
    (hs : ((start settings running exposed).performAll cs).2 = s)
    (hn : s.desk.store.given < 2 ^ 63) : s.desk.Coherent :=
  (deeds_of_start settings running exposed h hs).evolves.2 hn Desk.coherent_empty

theorem exists_stores (s : Service) (c : Command) :
    ∃ os, Desk.Stores s.desk os (s.perform c).2.desk := by
  cases c with
  | upsert o =>
    have hwrite : ∃ os, Desk.Stores s.desk os
        { s.desk with store := (s.desk.store.upsert o).2 } := by
      unfold Store.upsert
      cases s.desk.store.upsertFailures with
      | cons e rest => exact ⟨[], .of_same rfl rfl⟩
      | nil => exact ⟨[o], by simp [Store.givenAfter], rfl⟩
    rw [perform, access_eq]
    exact hwrite
  | cacheOrder o => exact ⟨[], .of_same rfl rfl⟩
  | _ => exact ⟨_, (s.deeds_perform id).stores⟩

theorem numbers_performAll {s : Service} (hs : s.desk.Numbers) (cs : List Command) :
    (s.performAll cs).2.desk.Numbers := by
  induction cs generalizing s with
  | nil => exact hs
  | cons c cs ih =>
    obtain ⟨os, hstores⟩ := s.exists_stores c
    exact ih (s := (s.perform c).2) (hstores.numbers hs)

theorem numbers_start (settings : IngestSettings) (running exposed : Bool) :
    (start settings running exposed).desk.Numbers := by
  intro uid o ho
  cases ho

end Service

end OrderDesk
