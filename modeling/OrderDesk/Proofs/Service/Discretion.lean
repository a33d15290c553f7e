import OrderDesk.Order.Sample
import OrderDesk.Proofs.Api.Discretion
import OrderDesk.Proofs.Ingest.Discretion
import OrderDesk.Service.Basic

/-!
Discretion of the service. What is known about failures reaches no client: where two runs differ in it
alone, requests are answered alike, and what is stored, cached, committed and marked is the same.
-/

namespace OrderDesk

inductive Command.Alike : Command → Command → Prop where
  | same (c : Command) : Alike c c
  | failUpserts {e f : OrderError} (h : e.Alike f) (times : Nat) :
      Alike (.failUpserts e times) (.failUpserts f times)
  | failReads {e f : Option OrderError} (h : Option.Rel OrderError.Alike e f) :
      Alike (.failReads e) (.failReads f)
  | script {t u : Turn} (h : t.Alike u) (times : Nat) : Alike (.script t times) (.script u times)

inductive Answer.Alike : Answer → Answer → Prop where
  | same (a : Answer) : Alike a a
  | failed {e f : OrderError} (h : e.Alike f) : Alike (.failed e) (.failed f)
  | processed {r q : Except OrderError Outcome} (h : AlikeAnswers r q) (now : Nat)
      (calls : List Call) : Alike (.processed r now calls) (.processed q now calls)
  | store {s t : Store} (h : s.Alike t) : Alike (.store s) (.store t)

def Answer.response? : Answer → Option Api.Response
  | .response r => some r
  | _ => none

theorem Answer.Alike.response?_eq {a b : Answer} (h : a.Alike b) : a.response? = b.response? := by
  cases h <;> rfl

inductive Service.Alike : Service → Service → Prop where
  | intro (s : Service) {w : Pipeline} (h : s.pipeline.Alike w) : s.Alike { s with pipeline := w }

namespace Service

variable {α : Type} {s t : Service}

namespace Alike

theorem refl (s : Service) : s.Alike s := .intro s (.refl s.pipeline)

theorem pipeline (h : s.Alike t) : s.pipeline.Alike t.pipeline := by
  cases h with
  | intro h => exact h

theorem exposure_eq (h : s.Alike t) : t.exposure = s.exposure := by cases h; rfl

theorem withPipeline (s : Service) (write : α → Answer) {x y : α × Pipeline}
    (h : Prod.RProd Eq Pipeline.Alike x y) :
    Prod.RProd Answer.Alike Alike (write x.1, { s with pipeline := x.2 })
      (write y.1, { s with pipeline := y.2 }) := by
  obtain ⟨rfl, hpipeline⟩ := h
  exact ⟨.same _, .intro _ hpipeline⟩

theorem access (h : s.Alike t) {p : Access (Except OrderError α)} (hp : p.Agree AlikeAnswers p)
    (write : α → Answer) :
    Prod.RProd Answer.Alike Alike (s.access p write) (t.access p write) := by
  cases h with
  | @intro w hpipeline =>
    have haccess := hpipeline.access hp
    unfold Service.access
    dsimp only
    generalize s.pipeline.access p = x, w.access p = y at haccess ⊢
    obtain ⟨_ | he, hpipeline⟩ := haccess
    · exact ⟨.same _, .intro _ hpipeline⟩
    · exact ⟨.failed he, .intro _ hpipeline⟩

theorem withDesk (h : s.Alike t) {f g : Desk → Desk}
    (hdesk : ∀ ⦃d e : Desk⦄, d.Alike e → (f d).Alike (g e)) :
    (s.withDesk f).Alike (t.withDesk g) := by
  cases h with
  | intro hpipeline => exact .intro _ (hpipeline.withDesk hdesk)

theorem withCache (h : s.Alike t) (f : Cache → Cache) :
    (s.withDesk fun d => { d with cache := f d.cache }).Alike
      (t.withDesk fun d => { d with cache := f d.cache }) := by
  refine h.withDesk fun d e hdesk => ?_
  cases hdesk with
  | intro hstore => exact .intro _ hstore

theorem withStore (h : s.Alike t) {f g : Store → Store}
    (hstore : ∀ ⦃a b : Store⦄, a.Alike b → (f a).Alike (g b)) :
    (s.withDesk fun d => { d with store := f d.store }).Alike
      (t.withDesk fun d => { d with store := g d.store }) := by
  refine h.withDesk fun d e hdesk => ?_
  cases hdesk with
  | intro hbefore => exact .intro _ (hstore hbefore)

theorem script (h : s.Alike t) {a b : Turn} (hturn : a.Alike b) (times : Nat) :
    (s.perform (.script a times)).2.Alike (t.perform (.script b times)).2 := by
  have hnew : List.Forall₂ Turn.Alike (.replicate times a) (.replicate times b) := by
    induction times with
    | zero => exact .nil
    | succ n ih => exact .cons hturn ih
  obtain ⟨hdesk, hturns, htrace⟩ := h
  exact .intro _ (.intro _ hdesk (List.rel_append hturns hnew) htrace)

theorem withLog (h : s.Alike t) (f : ScriptedLog → ScriptedLog) :
    (s.withLog f).Alike (t.withLog f) := by
  obtain ⟨hdesk, hturns, htrace⟩ := h
  exact .intro _ (.intro _ hdesk hturns htrace)

theorem processMessage (h : s.Alike t) (m : Message) (closeAfter : Option Nat) :
    Prod.RProd Answer.Alike Alike (s.processMessage m closeAfter)
      (t.processMessage m closeAfter) := by
  have onward {x y : Except OrderError Outcome × Pipeline}
      (hprocessed : Prod.RProd AlikeAnswers Pipeline.Alike x y) :
      Prod.RProd Answer.Alike Alike
        (.processed x.1 x.2.now x.2.calls, { s with pipeline := x.2 }.forgetCalls)
        (.processed y.1 y.2.now y.2.calls, { s with pipeline := y.2 }.forgetCalls) := by
    obtain ⟨hanswer, hdesk, hturns, htrace⟩ := hprocessed
    exact ⟨.processed hanswer _ _, .intro _ (.intro _ hdesk hturns htrace)⟩
  obtain ⟨hpipeline⟩ := h
  cases closeAfter with
  | none => exact onward (hpipeline.processMessage m)
  | some after => exact onward (hpipeline.processAndClose m after)

theorem run (h : s.Alike t) (forMillis : Nat) (cancelled : Bool) :
    Prod.RProd Answer.Alike Alike (s.perform (.run forMillis cancelled))
      (t.perform (.run forMillis cancelled)) := by
  obtain @⟨w, hpipeline⟩ := h
  have hrun := hpipeline.run forMillis cancelled
  unfold Service.perform
  dsimp only
  generalize s.pipeline.run forMillis cancelled = u, w.run forMillis cancelled = v at hrun ⊢
  obtain ⟨hdesk, hturns, htrace⟩ := hrun
  exact ⟨.same _, .intro _ (.intro _ hdesk hturns htrace)⟩

theorem describeMetrics (h : s.Alike t) :
    (s.perform .describeMetrics).2.Alike (t.perform .describeMetrics).2 := by
  obtain ⟨⟨hstore⟩, hturns, htrace⟩ := h
  exact .intro _ (.intro _ (.intro _ hstore) hturns htrace)

theorem request (h : s.Alike t) (method uri : String) :
    Prod.RProd Answer.Alike Alike (s.perform (.request method uri))
      (t.perform (.request method uri)) := by
  unfold Service.perform
  dsimp only
  split
  · rename_i q _
    have hresponse := Api.alike_respond s.exposure q h.pipeline.desk
    rw [h.exposure_eq]
    generalize Api.respond _ q s.pipeline.desk = x, Api.respond _ q t.pipeline.desk = y
      at hresponse ⊢
    obtain ⟨rfl, hdesk⟩ := hresponse
    exact ⟨.same _, h.withDesk fun _ _ _ => hdesk⟩
  · exact ⟨.same _, h⟩

theorem perform (h : s.Alike t) {c d : Command} (hc : c.Alike d) :
    Prod.RProd Answer.Alike Alike (s.perform c) (t.perform d) := by
  cases hc with
  | failUpserts he times =>
    exact ⟨.same _, h.withStore fun _ _ hstore => hstore.failUpserts he times⟩
  | failReads he => exact ⟨.same _, h.withStore fun _ _ hstore => hstore.failReads he⟩
  | script hturn times => exact ⟨.same _, h.script hturn times⟩
  | same c =>
    cases c with
    | upsert o => exact h.access (Access.agree_perform (.storeOrder o)) _
    | storedOrder uid => exact h.access (Access.agree_perform (.storedOrder uid)) _
    | storedItems uid last limit =>
      exact h.access (Access.agree_perform (.storedItems uid last limit)) _
    | storedOrders limit => exact h.access (Access.agree_perform (.storedOrders limit)) _
    | cachedOrder uid => exact h.access (Access.agree_perform (.cachedOrder uid)) _
    | cachedItems uid last limit =>
      exact h.access (Access.agree_perform (.cachedItems uid last limit)) _
    | warmUp limit => exact h.access (Desk.agree_warmUp limit) _
    | readOrder uid => exact h.access (Desk.agree_readOrder uid) _
    | readItems uid last limit => exact h.access (Desk.agree_readItems uid last limit) _
    | persist o => exact h.access (Desk.agree_persist o) _
    | failUpserts e times =>
      exact ⟨.same _, h.withStore fun _ _ hstore => hstore.failUpserts (.refl e) times⟩
    | failReads e =>
      exact ⟨.same _, h.withStore fun _ _ hstore =>
        hstore.failReads (OrderError.alike_option_refl e)⟩
    | script turn times => exact ⟨.same _, h.script (.refl turn) times⟩
    | storeState => exact ⟨.store h.pipeline.desk.store, h⟩
    | cacheOrder o => exact ⟨.same _, h.withCache (·.set o)⟩
    | clearCache => exact ⟨.same _, h.withCache fun _ => .empty⟩
    | request method uri => exact h.request method uri
    | process m closeAfter => exact h.processMessage m closeAfter
    | push | refuseCommits | answerCommits => exact ⟨.same _, h.withLog _⟩
    | run forMillis cancelled => exact h.run forMillis cancelled
    | close =>
      obtain ⟨hpipeline⟩ := h
      exact ⟨.same _, .intro _ hpipeline.close⟩
    | mark key =>
      obtain ⟨hpipeline⟩ := h
      exact ⟨.same _, .intro _ (hpipeline.mark key)⟩
    | purge age =>
      obtain ⟨hpipeline⟩ := h
      exact withPipeline s .number (hpipeline.purge age)
    | poll timeout =>
      obtain ⟨hpipeline⟩ := h
      exact withPipeline s .polled (hpipeline.poll timeout)
    | describeMetrics => exact ⟨.same _, h.describeMetrics⟩
    | inspect uid =>
      have halike := h
      obtain ⟨⟨⟨-, -⟩⟩, -, -⟩ := h
      unfold Service.perform
      dsimp only
      split <;> exact ⟨.same _, halike⟩
    | cacheSize | isProcessed | processedCount | logState | metrics =>
      -- what is looked at is part of what alike services share
      have halike := h
      obtain ⟨⟨-⟩, -, -⟩ := h
      exact ⟨.same _, halike⟩
    | advanceClock nanos =>
      have halike := h
      obtain ⟨hdesk, hturns, htrace⟩ := h
      unfold Service.perform
      dsimp only
      split
      · exact ⟨.same _, .intro _ (.intro _ hdesk hturns htrace)⟩
      · exact ⟨.same _, halike⟩
    | commit m =>
      have hlog := h.pipeline.log_eq
      unfold Service.perform
      dsimp only
      rw [hlog]
      split <;> exact ⟨.same _, h.withLog _⟩

theorem performAll (h : s.Alike t) {cs ds : List Command} (hcs : List.Forall₂ Command.Alike cs ds) :
    Prod.RProd (List.Forall₂ Answer.Alike) Alike (s.performAll cs) (t.performAll ds) := by
  induction hcs generalizing s t with
  | nil => exact ⟨.nil, h⟩
  | @cons c d cs ds hc _ ih =>
    have hperform := h.perform hc
    unfold Service.performAll
    generalize s.perform c = x, t.perform d = y at hperform ⊢
    obtain @⟨_, s, _, t, hanswer, h⟩ := hperform
    have hrest := ih h
    dsimp only
    generalize s.performAll cs = x, t.performAll ds = y at hrest ⊢
    obtain ⟨hanswers, h⟩ := hrest
    exact ⟨.cons hanswer hanswers, h⟩

end Alike

structure SameState (s t : Service) : Prop where
  store : s.pipeline.desk.store.Alike t.pipeline.desk.store
  cache : t.pipeline.desk.cache = s.pipeline.desk.cache
  log : t.pipeline.log = s.pipeline.log
  keys : t.pipeline.keys = s.pipeline.keys

theorem Alike.sameState (h : s.Alike t) : s.SameState t :=
  ⟨h.pipeline.desk.store, h.pipeline.desk.cache_eq, h.pipeline.log_eq, h.pipeline.keys_eq⟩

/-- What is known about failures makes no difference to what a client is answered, nor at any time to
what is stored, cached, committed and marked. -/
theorem details_stay_inside (s : Service) (cs ds : List Command)
    (h : List.Forall₂ Command.Alike cs ds) :
    (s.performAll cs).1.map Answer.response? = (s.performAll ds).1.map Answer.response? ∧
      ∀ n, (s.performAll (cs.take n)).2.SameState (s.performAll (ds.take n)).2 := by
  refine ⟨?_, fun n => ?_⟩
  · have hruns := (Alike.refl s).performAll h
    generalize s.performAll cs = x, s.performAll ds = y at hruns ⊢
    obtain ⟨hanswers, -⟩ := hruns
    have hresponses := hanswers.imp fun _ _ => Answer.Alike.response?_eq
    rw [← List.forall₂_eq_eq_eq, List.forall₂_map_left_iff, List.forall₂_map_right_iff]
    exact hresponses
  · have hruns := (Alike.refl s).performAll (List.forall₂_take n h)
    generalize s.performAll (cs.take n) = x, s.performAll (ds.take n) = y at hruns ⊢
    obtain ⟨-, halike⟩ := hruns
    exact halike.sameState

theorem details_stay_inside_sample :
    let s := start .standard false true
    let run (text : String) : List Command :=
      [.failUpserts (.storage text) 1, .persist (.sample "abc" 1), .failReads (some (.storage text)),
        .request "GET" "/api/orders/abc/items?limit=5", .script ⟨0, some (.invalidInput text)⟩ 1,
        .process (.sample (.sample "abc" 1) 0) none, .request "GET" "/metrics"]
    (s.performAll (run "disk full")).1.map Answer.response? =
        (s.performAll (run "password rejected")).1.map Answer.response? ∧
      ((s.performAll (run "disk full")).1.map Answer.response?)[3]? =
        some (some (.json 500 "\x7b\"status\":500,\"message\":\"Database error\"\x7d")) := by
  intro s run
  have hruns : List.Forall₂ Command.Alike (run "disk full") (run "password rejected") :=
    .cons (.failUpserts (.storage _ _) 1) <| .cons (.same _) <|
      .cons (.failReads (.some (.storage _ _))) <| .cons (.same _) <|
      .cons (.script (.intro 0 (.some (.invalidInput _ _))) 1) <| .cons (.same _) <|
      .cons (.same _) .nil
  obtain ⟨hresponses, -⟩ := s.details_stay_inside _ _ hruns
  exact ⟨hresponses, by decide +kernel⟩

end Service

end OrderDesk
