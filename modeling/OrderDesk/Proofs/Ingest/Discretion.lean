import OrderDesk.Ingest.Run
import OrderDesk.Proofs.Desk.Discretion

/-!
Discretion of the pipeline. Whether a message is tried again, committed, marked and counted depends on
the kinds of failures only, so two pipelines that differ in what is known about them go alike.
-/

namespace OrderDesk

inductive Turn.Alike : Turn → Turn → Prop where
  | intro (stall : Nat) {e f : Option OrderError} (h : Option.Rel OrderError.Alike e f) :
      Alike ⟨stall, e⟩ ⟨stall, f⟩

theorem Turn.Alike.refl (t : Turn) : t.Alike t :=
  .intro t.stall (OrderError.alike_option_refl t.error)

inductive Act.Alike : Act → Act → Prop where
  | same (a : Act) : Alike a a
  | answered (time : Nat) {r q : Except OrderError Unit} (h : AlikeAnswers r q) :
      Alike (.answered time r) (.answered time q)
  | ended (time : Nat) (m : Message) {r q : Except OrderError Outcome} (h : AlikeAnswers r q) :
      Alike (.ended time m r) (.ended time m q)

inductive Pipeline.Alike : Pipeline → Pipeline → Prop where
  | intro (w : Pipeline) {desk : Desk} {turns : List Turn} {trace : List Act}
      (hdesk : w.desk.Alike desk) (hturns : List.Forall₂ Turn.Alike w.turns turns)
      (htrace : List.Forall₂ Act.Alike w.trace trace) :
      w.Alike { w with desk, turns, trace }

namespace Pipeline

variable {α : Type} {w v : Pipeline} {m : Message} {o : Order} {a b : Act}

namespace Alike

theorem refl (w : Pipeline) : w.Alike w :=
  .intro w (.refl w.desk) (List.forall₂_same.2 fun t _ => .refl t)
    (List.forall₂_same.2 fun a _ => .same a)

theorem desk (h : w.Alike v) : w.desk.Alike v.desk := by
  cases h with
  | intro hdesk => exact hdesk

theorem settings_eq (h : w.Alike v) : v.settings = w.settings := by cases h; rfl

theorem log_eq (h : w.Alike v) : v.log = w.log := by cases h; rfl

theorem keys_eq (h : w.Alike v) : v.keys = w.keys := by cases h; rfl

theorem now_eq (h : w.Alike v) : v.now = w.now := by cases h; rfl

theorem nextPurge_eq (h : w.Alike v) : v.nextPurge = w.nextPurge := by cases h; rfl

theorem stopped_eq (h : w.Alike v) : v.stopped = w.stopped := by cases h; rfl

theorem wakeAfter_eq (h : w.Alike v) (millis : Nat) : v.wakeAfter millis = w.wakeAfter millis := by
  rw [wakeAfter, wakeAfter, h.now_eq]

theorem record (h : w.Alike v) (hact : a.Alike b) : (w.record a).Alike (v.record b) := by
  cases h with
  | intro hdesk hturns htrace => exact .intro _ hdesk hturns (.cons hact htrace)

theorem note (h : w.Alike v) (level : Level) (text : String) :
    (w.note level text).Alike (v.note level text) := by
  cases h with
  | intro hdesk hturns htrace =>
    cases hdesk with
    | intro hstore => exact .intro _ (.intro _ hstore) hturns htrace

theorem count (h : w.Alike v) (c : Counter) : (w.count c).Alike (v.count c) := by
  cases h with
  | intro hdesk hturns htrace =>
    cases hdesk with
    | intro hstore => exact .intro _ (.intro _ hstore) hturns htrace

theorem access (h : w.Alike v) {R : α → α → Prop} {p q : Access α} (hp : p.Agree R q) :
    Prod.RProd R Alike (w.access p) (v.access q) := by
  cases h with
  | @intro desk turns trace hdesk hturns htrace =>
    unfold Pipeline.access
    dsimp only
    match p.run w.desk, q.run desk, hp hdesk with
    | _, _, .intro hanswer hdesk => exact ⟨hanswer, .intro _ hdesk hturns htrace⟩

theorem withDesk (h : w.Alike v) {f g : Desk → Desk}
    (hdesk : ∀ ⦃d e : Desk⦄, d.Alike e → (f d).Alike (g e)) :
    { w with desk := f w.desk }.Alike { v with desk := g v.desk } := by
  cases h with
  | intro hbefore hturns htrace => exact .intro _ (hdesk hbefore) hturns htrace

theorem withLog (h : w.Alike v) (l : ScriptedLog) : { w with log := l }.Alike { v with log := l } := by
  cases h with
  | intro hdesk hturns htrace => exact .intro _ hdesk hturns htrace

/-! ## Time and processed keys -/

theorem mark (h : w.Alike v) (key : String) : (w.mark key).Alike (v.mark key) := by
  cases h with
  | intro hdesk hturns htrace => exact .intro _ hdesk hturns (.cons (.same _) htrace)

theorem purge (h : w.Alike v) (age : Span) :
    Prod.RProd Eq Alike (w.purge age) (v.purge age) := by
  cases h with
  | intro hdesk hturns htrace => exact ⟨rfl, .intro _ hdesk hturns (.cons (.same _) htrace)⟩

theorem cleanUp (h : w.Alike v) : w.cleanUp.Alike v.cleanUp := by
  unfold Pipeline.cleanUp
  rw [h.settings_eq]
  match w.purge w.settings.maxAge, v.purge w.settings.maxAge, h.purge w.settings.maxAge with
  | _, _, .intro rfl h =>
    dsimp only
    split
    · exact h.note _ _
    · exact h

theorem withNextPurge (h : w.Alike v) (next : Option Nat) :
    { w with nextPurge := next }.Alike { v with nextPurge := next } := by
  cases h with
  | intro hdesk hturns htrace => exact .intro _ hdesk hturns htrace

theorem withNow (h : w.Alike v) (t : Nat) :
    { w with now := max w.now t }.Alike { v with now := max v.now t } := by
  cases h with
  | intro hdesk hturns htrace => exact .intro _ hdesk hturns htrace

theorem passTo (h : w.Alike v) (t : Nat) : (w.passTo t).Alike (v.passTo t) := by
  unfold Pipeline.passTo
  rw [h.nextPurge_eq, h.settings_eq]
  dsimp only
  split
  · exact h.withNow t
  · split
    · exact (h.cleanUp.withNextPurge _).withNow t
    · exact h.withNow t

theorem close (h : w.Alike v) : w.close.Alike v.close := by
  cases h with
  | intro hdesk hturns htrace =>
    cases hdesk with
    | intro hstore => exact .intro _ (.intro _ hstore) hturns (.cons (.same _) htrace)

theorem interrupt (h : w.Alike v) (stop : Stop) : (w.interrupt stop).Alike (v.interrupt stop) := by
  cases stop with
  | never => exact h
  | cancel d => exact h.passTo d
  | close d => exact (h.passTo d).close

theorem waitUntil (h : w.Alike v) (t : Nat) (stop : Stop) :
    Prod.RProd Eq Alike (w.waitUntil t stop) (v.waitUntil t stop) := by
  unfold Pipeline.waitUntil
  split
  · exact ⟨rfl, h.interrupt stop⟩
  · exact ⟨rfl, h.passTo t⟩

/-! ## Endings -/

theorem askCommit (h : w.Alike v) (m : Message) :
    Prod.RProd Eq Alike (w.askCommit m) (v.askCommit m) := by
  unfold Pipeline.askCommit
  rw [h.log_eq]
  exact ⟨rfl, (h.record (.same _)).withLog _⟩

theorem commit (h : w.Alike v) (m : Message) (context : String) :
    Prod.RProd AlikeAnswers Alike (w.commit m context) (v.commit m context) := by
  have hasked := h.askCommit m
  unfold Pipeline.commit
  generalize w.askCommit m = x, v.askCommit m = y at hasked ⊢
  obtain @⟨_ | _, _, _, _, rfl, h⟩ := hasked
  · exact ⟨.refl _, h.note _ _⟩
  · exact ⟨.ok (), h⟩

theorem conclude (h : w.Alike v) (m : Message) (context : String) (outcome : Outcome)
    {r q : Except OrderError Outcome} (hanswer : AlikeAnswers r q) :
    Prod.RProd AlikeAnswers Alike (w.conclude m context outcome r)
      (v.conclude m context outcome q) := by
  have hcommit := h.commit m context
  unfold Pipeline.conclude
  generalize w.commit m context = x, v.commit m context = y at hcommit ⊢
  obtain ⟨_ | he, h⟩ := hcommit
  · exact ⟨hanswer, (h.mark _).count _⟩
  · exact ⟨.error he, h⟩

theorem drop (h : w.Alike v) (m : Message) (outcome : Outcome) :
    Prod.RProd AlikeAnswers Alike (w.drop m outcome) (v.drop m outcome) := by
  have hcommit := h.commit m "after dropping message"
  unfold Pipeline.drop
  generalize w.commit m _ = x, v.commit m _ = y at hcommit ⊢
  obtain ⟨_ | he, h⟩ := hcommit
  · exact ⟨.ok outcome, (h.count _).note _ _⟩
  · exact ⟨.error he, h⟩

theorem abandon (h : w.Alike v) : Prod.RProd AlikeAnswers Alike w.abandon v.abandon :=
  ⟨.ok Outcome.cancelled, (h.note _ _).count _⟩

theorem skip (h : w.Alike v) (m : Message) :
    Prod.RProd AlikeAnswers Alike (w.skip m) (v.skip m) := by
  have hasked := (h.note .debug "Skipping already processed message").askCommit m
  unfold Pipeline.skip
  dsimp only
  generalize (w.note _ _).askCommit m = x, (v.note _ _).askCommit m = y at hasked ⊢
  obtain @⟨_ | _, _, _, _, rfl, h⟩ := hasked
  · exact ⟨.ok Outcome.duplicate, ((h.note _ _).count _).count _⟩
  · exact ⟨.ok Outcome.duplicate, (h.count _).count _⟩

/-! ## Attempts -/

theorem nextTurn (h : w.Alike v) : w.nextTurn.Alike v.nextTurn := by
  cases h with
  | intro _ hturns =>
    unfold Pipeline.nextTurn
    generalize w.turns = turns at hturns ⊢
    cases hturns with
    | nil => exact .intro 0 .none
    | cons hturn => exact hturn

theorem call (h : w.Alike v) (o : Order) : (w.call o).Alike (v.call o) := by
  cases h with
  | intro hdesk hturns htrace =>
    have hrest := List.forall₂_drop 1 hturns
    rw [List.drop_one, List.drop_one] at hrest
    exact .intro _ hdesk hrest (.cons (.same _) htrace)

theorem finishTurn (h : w.Alike v) (o : Order) {turn other : Turn} (hturn : turn.Alike other) :
    Prod.RProd AlikeAnswers Alike (w.finishTurn o turn) (v.finishTurn o other) := by
  obtain ⟨stall, hfailure⟩ := hturn
  unfold Pipeline.finishTurn
  rw [h.settings_eq]
  dsimp only
  split
  · exact ⟨.refl _, h⟩
  · cases hfailure with
    | none => exact h.access (Desk.agree_persist o)
    | some he => exact ⟨.error he, h⟩

theorem answer (h : w.Alike v) (o : Order) {turn other : Turn} (hturn : turn.Alike other) :
    Prod.RProd AlikeAnswers Alike (w.answer o turn) (v.answer o other) := by
  have hfinished := h.finishTurn o hturn
  unfold Pipeline.answer
  generalize w.finishTurn o turn = x, v.finishTurn o other = y at hfinished ⊢
  obtain ⟨hanswer, h⟩ := hfinished
  dsimp only
  rw [h.now_eq]
  exact ⟨hanswer, h.record (.answered _ hanswer)⟩

theorem takeTurn (h : w.Alike v) (o : Order) {turn other : Turn} (hturn : turn.Alike other)
    (stop : Stop) :
    Prod.RProd (Option.Rel AlikeAnswers) Alike (w.takeTurn o turn stop)
      (v.takeTurn o other stop) := by
  have hstall : other.stall = turn.stall := by cases hturn; rfl
  unfold Pipeline.takeTurn
  rw [h.settings_eq, hstall, h.wakeAfter_eq]
  have hwait := h.waitUntil
    (w.wakeAfter (min turn.stall w.settings.handlerTimeout.millisUp)) stop
  generalize w.waitUntil _ stop = x, v.waitUntil _ stop = y at hwait ⊢
  obtain @⟨_ | _, _, _, _, rfl, h⟩ := hwait
  · exact ⟨.none, h⟩
  · have hanswer := h.answer o hturn
    dsimp only
    generalize Pipeline.answer _ o turn = x, Pipeline.answer _ o other = y at hanswer ⊢
    obtain ⟨hanswer, h⟩ := hanswer
    exact ⟨.some hanswer, h⟩

theorem attempt (h : w.Alike v) (o : Order) (stop : Stop) :
    Prod.RProd (Option.Rel AlikeAnswers) Alike (w.attempt o stop) (v.attempt o stop) := by
  have hwait := h.waitUntil w.now stop
  unfold Pipeline.attempt
  rw [h.now_eq]
  generalize w.waitUntil _ stop = x, v.waitUntil _ stop = y at hwait ⊢
  obtain @⟨_ | _, _, _, _, rfl, h⟩ := hwait
  · exact ⟨.none, h⟩
  · exact (h.call o).takeTurn o h.nextTurn stop

theorem backOff (h : w.Alike v) (n : Nat) (stop : Stop) :
    Prod.RProd Eq Alike (w.backOff n stop) (v.backOff n stop) := by
  unfold Pipeline.backOff
  split
  · exact ⟨rfl, h⟩
  · have hretry := (h.note .debug "Retrying message after error").count .retry
    dsimp only
    rw [hretry.wakeAfter_eq, hretry.settings_eq]
    exact hretry.waitUntil _ stop

theorem attempts (h : w.Alike v) (m : Message) (o : Order) (stop : Stop) (left n : Nat)
    {last other : Option OrderError} (hlast : Option.Rel OrderError.Alike last other) :
    Prod.RProd AlikeAnswers Alike (attempts m o stop left n last w)
      (Pipeline.attempts m o stop left n other v) := by
  induction left generalizing n last other w v with
  | zero =>
    have hfailure : (last.getD neverTried).Alike (other.getD neverTried) := by
      cases hlast with
      | none => exact .refl neverTried
      | some he => exact he
    exact (h.note _ _).conclude m _ _ (.error hfailure)
  | succ left ih =>
    have hbackOff := h.backOff n stop
    unfold Pipeline.attempts
    generalize w.backOff n stop = x, v.backOff n stop = y at hbackOff ⊢
    obtain @⟨_ | _, w, _, v, rfl, h⟩ := hbackOff
    · exact h.abandon
    have hattempt := h.attempt o stop
    dsimp only
    generalize w.attempt o stop = x, v.attempt o stop = y at hattempt ⊢
    obtain @⟨_, w, _, v, (_ | he) | _, h⟩ := hattempt
    · have hend := h.conclude m "after handling" .processed (.ok .processed)
      dsimp only
      generalize w.conclude m _ _ _ = x, v.conclude m _ _ _ = y at hend ⊢
      obtain ⟨_ | he, h⟩ := hend
      · exact ⟨.ok _, h.note _ _⟩
      · exact ⟨.error he, h⟩
    · -- errors of one kind are tried again in both runs or end the message in both
      dsimp only
      rw [he.isTemporary]
      split
      · exact ih (h.note _ _) (n + 1) (.some he)
      · exact (h.note _ _).conclude m _ _ (.error he)
    · exact h.abandon

/-! ## Messages -/

theorem carry (h : w.Alike v) (m : Message) (stop : Stop) :
    Prod.RProd AlikeAnswers Alike (w.carry m stop) (v.carry m stop) := by
  unfold Pipeline.carry
  rw [h.keys_eq]
  split
  · exact h.skip m
  · split
    · exact (h.note _ _).drop m _
    · split
      · exact (h.note _ _).drop m _
      · unfold Pipeline.handle
        rw [h.settings_eq]
        exact h.attempts m _ stop _ 0 .none

theorem process (h : w.Alike v) (m : Message) (stop : Stop) :
    Prod.RProd AlikeAnswers Alike (w.process m stop) (v.process m stop) := by
  have hcarried := (h.record (.same (.began m))).carry m stop
  unfold Pipeline.process
  generalize (w.record _).carry m stop = x, (v.record _).carry m stop = y at hcarried ⊢
  obtain ⟨hanswer, h⟩ := hcarried
  dsimp only
  rw [h.now_eq]
  exact ⟨hanswer, h.record (.ended _ m hanswer)⟩

theorem processMessage (h : w.Alike v) (m : Message) :
    Prod.RProd AlikeAnswers Alike (w.processMessage m) (v.processMessage m) := by
  unfold Pipeline.processMessage
  rw [h.stopped_eq]
  exact h.process m _

theorem processAndClose (h : w.Alike v) (m : Message) (after : Nat) :
    Prod.RProd AlikeAnswers Alike (w.processAndClose m after) (v.processAndClose m after) := by
  unfold Pipeline.processAndClose
  rw [h.wakeAfter_eq, h.stopped_eq]
  dsimp only
  split
  · exact h.close.processMessage m
  · split
    · have hprocessed := h.processMessage m
      generalize w.processMessage m = x, v.processMessage m = y at hprocessed ⊢
      obtain ⟨hanswer, h⟩ := hprocessed
      exact ⟨hanswer, (h.passTo _).close⟩
    · have hprocessed := h.process m (.close (w.wakeAfter after))
      generalize w.process m _ = x, v.process m _ = y at hprocessed ⊢
      obtain ⟨hanswer, h⟩ := hprocessed
      dsimp only
      rw [h.stopped_eq]
      refine ⟨hanswer, ?_⟩
      split
      · exact h
      · exact (h.passTo _).close

/-! ## Runs -/

theorem startCleaning (h : w.Alike v) : w.startCleaning.Alike v.startCleaning := by
  have hnote := h.note .warn "Cleanup interval is zero, processed keys are never purged"
  cases h with
  | intro hdesk hturns htrace =>
    unfold Pipeline.startCleaning
    dsimp only
    split
    · exact hnote
    · split
      · exact .intro w hdesk hturns htrace
      · exact .intro _ hdesk hturns htrace

theorem react (h : w.Alike v) (stop : Stop) (p : Polled) : (w.react stop p).Alike (v.react stop p) := by
  cases p with
  | idle => exact h
  | failed => exact h.note _ _
  | message m =>
    have hprocessed := h.process m stop
    unfold Pipeline.react
    dsimp only
    generalize w.process m stop = x, v.process m stop = y at hprocessed ⊢
    obtain ⟨_ | _, h⟩ := hprocessed
    · exact h
    · exact h.note _ _

theorem idleUntil (h : w.Alike v) (time : Nat) : (w.idleUntil time).Alike (v.idleUntil time) := by
  unfold Pipeline.idleUntil
  rw [h.now_eq, h.settings_eq, h.log_eq]
  split
  · exact ((h.passTo time).record (.same _)).withLog _
  · exact h

theorem take (h : w.Alike v) (p : Polled) (script : List Polled) :
    (w.take p script).Alike (v.take p script) := by
  unfold Pipeline.take
  rw [h.log_eq]
  exact (h.record (.same _)).withLog _

theorem consume (h : w.Alike v) (time : Nat) (script : List Polled) :
    (consume time script w).Alike (Pipeline.consume time script v) := by
  induction script generalizing w v with
  | nil => exact h.idleUntil time
  | cons p script ih =>
    unfold Pipeline.consume
    rw [h.now_eq]
    split
    · exact h
    · exact ih ((h.take p script).react _ p)

theorem pollUntil (h : w.Alike v) (time : Nat) : (w.pollUntil time).Alike (v.pollUntil time) := by
  unfold Pipeline.pollUntil
  rw [h.log_eq, h.now_eq]
  split
  · split
    · exact (((h.record (.same _)).withLog _).react _ _).passTo time
    · exact h
  · exact h.consume time _

theorem run (h : w.Alike v) (forMillis : Nat) (cancelled : Bool) :
    (w.run forMillis cancelled).Alike (v.run forMillis cancelled) := by
  unfold Pipeline.run Pipeline.runUntil
  rw [h.wakeAfter_eq, h.now_eq]
  exact (((h.startCleaning.note _ _).pollUntil _).note _ _).passTo _

theorem poll (h : w.Alike v) (timeout : Nat) :
    Prod.RProd Eq Alike (w.poll timeout) (v.poll timeout) := by
  unfold Pipeline.poll
  rw [h.wakeAfter_eq, h.log_eq]
  split
  · exact ⟨rfl, h.withLog _⟩
  · split
    · exact ⟨rfl, (h.passTo _).withLog _⟩
    · exact ⟨rfl, h.withLog _⟩

end Alike

end Pipeline

end OrderDesk
