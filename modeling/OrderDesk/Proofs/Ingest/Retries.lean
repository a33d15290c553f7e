import OrderDesk.Order.Sample
import OrderDesk.Proofs.Ingest.Progress

/-!
Retries. For a valid order that is not told from an earlier one the handler is called until the
first reply that is no temporary failure, or as often as the policy allows. Then the message is
committed, once, and answered with the last reply.
-/

namespace OrderDesk

theorem Span.millisUp_of_dvd {d : Span} (h : 1000000 ∣ d.nanos) :
    d.millisUp * 1000000 = d.nanos := by
  have hrest : d.nanos % 1000000 = 0 := Nat.mod_eq_zero_of_dvd h
  rw [millisUp, hrest, Nat.min_zero, Nat.add_zero]
  exact Nat.div_mul_cancel h

namespace Pipeline

variable {w u v : Pipeline} {m : Message} {o : Order} {k : Nat}

structure Retried (w : Pipeline) (m : Message) (o : Order) (k : Nat)
    (x : Except OrderError Outcome × Pipeline) : Prop where
  calls : x.2.calls = w.calls ++ (List.range (k + 1)).map fun i => ⟨w.callTime o i, o.uid⟩
  /-- The calls and replies, then one commit, and the mark if it is accepted. -/
  shown : w.Adds (.began m :: w.exchanges o (k + 1) ++ .committed m w.log.accepts ::
    (if w.log.accepts then [.marked m.processedKey] else []) ++
      [.ended (w.answerTime o k) m x.1]) x.2
  log : x.2.log = (w.log.commit m).2
  answer : x.1 = if w.log.accepts then (w.reply o k).answer.map fun _ => .processed
    else .error (ScriptedLog.refusal m).toOrderError
  /-- Only the handler itself can fail as if it had not been called. -/
  called : x.1 = .error neverTried → (w.reply o k).answer = .error neverTried

theorem Concludes.retried {x : Except OrderError Outcome × Pipeline}
    (h : Concludes v m (w.reply o k).cause x)
    (hv : Stands m w o (k + 1) (k + 1) (w.answerTime o k) k v) :
    Retried w m o k (x.1, x.2.record (.ended x.2.now m x.1)) := by
  have hlog : v.log = w.log := hv.kept.log
  have hmarks := (w.reply o k).marks_cause
  have hanswer : x.1 = if w.log.accepts then (w.reply o k).outcome
      else .error (ScriptedLog.refusal m).toOrderError := by
    have hcause : (w.reply o k).cause ≠ .duplicate := by
      intro hdup
      rw [hdup] at hmarks
      cases hmarks
    rw [h.ends.answer, hlog, answer_ending hcause, Reply.answer_cause]
  constructor
  case calls => exact h.calls.trans hv.calls
  case log =>
    rw [← hlog]
    exact h.ends.log
  case answer => exact hanswer
  case shown =>
    have hbefore : w.Adds (.began m :: w.exchanges o (k + 1)) v := by
      obtain ⟨during, hduring, hshown, -⟩ := hv.tells
      rw [dialogue, if_neg (Nat.lt_irrefl _), List.append_nil] at hshown
      exact ⟨during, hduring, hshown⟩
    have hending : v.Adds (.committed m w.log.accepts ::
        if w.log.accepts then [.marked m.processedKey] else []) x.2 := by
      refine ⟨_, h.ends.history, ?_⟩
      rw [hlog, ScriptedLog.ending, Ending.acts, hmarks, Bool.true_and]
      cases w.log.accepts <;> rfl
    have hended := adds_record x.2 (a := .ended x.2.now m x.1) rfl
    have hnow : x.2.now = w.answerTime o k := h.ends.now.trans hv.now
    have hshown := (hbefore.trans hending).trans hended
    rw [hnow] at hshown ⊢
    exact hshown
  case called =>
    intro hnever
    -- a refusal is no such failure, and an accepted commit leaves the answer of the reply
    rw [hanswer] at hnever
    cases hlog : w.log.accepts with
    | true =>
      rw [hlog, if_pos rfl, Reply.outcome] at hnever
      cases hreply : (w.reply o k).answer with
      | ok =>
        rw [hreply] at hnever
        cases hnever
      | error e =>
        rw [hreply] at hnever
        injection hnever with he
        rw [he]
    | false =>
      rw [hlog] at hnever
      cases hnever

/-- How an order is handled. As long as its replies are failures that may pass, the handler is called
again, each time after the delay of the policy; but no delay is longer than thirty years. -/
structure Retries (w : Pipeline) (m : Message) (o : Order) : Prop where
  spaced : ∀ i, 1000000 ∣ (w.settings.retry.delay (i + 1)).nanos →
    w.callTime o (i + 1) * 1000000 = w.answerTime o i * 1000000 +
      min (w.settings.retry.delay (i + 1)).nanos (longestWait * 1000000)
  /-- A turn that takes longer than the timeout is a temporary failure, and ends there. -/
  late : ∀ i, w.settings.handlerTimeout.millisUp < (w.turnAt i).millis →
    (w.reply o i).Temporary ∧ w.answerTime o i = w.callTime o i + w.settings.handlerTimeout.millisUp
  ended : ∃ k, w.LastAttempt o k ∧ ∀ stop : Stop, stop.due (w.answerTime o k) = false →
    Retried w m o k (w.process m stop)

theorem retries (hk : w.keys.contains m.processedKey = false) (ho : m.order? = some o) :
    Retries w m o := by
  constructor
  case spaced =>
    intro i hi
    have hcall : w.callTime o (i + 1) = w.answerTime o i + w.pause (i + 1) := rfl
    have hpause : w.pause (i + 1) * 1000000 =
        min (w.settings.retry.delay (i + 1)).nanos (longestWait * 1000000) := by
      rw [pause, ← Nat.mul_min_mul_right, Span.millisUp_of_dvd hi]
    rw [hcall, Nat.add_mul, hpause]
  case late =>
    intro i hi
    have hreply : w.reply o i = ⟨w.settings.handlerTimeout.millisUp,
        .error (Turn.timedOut w.settings.handlerTimeout)⟩ := by
      rw [reply, Turn.reply, if_pos hi]
    rw [answerTime, hreply]
    exact ⟨⟨_, rfl, rfl⟩, rfl⟩
  case ended =>
    obtain ⟨k, hlast⟩ := w.exists_lastAttempt o
    obtain ⟨v, x, hv, hend, hrun⟩ := process_last hk ho hlast
    refine ⟨k, hlast, fun stop hdue => ?_⟩
    rw [hrun stop hdue]
    exact hend.retried hv

theorem retries_sample :
    let o := Order.sample "abc" 1
    let m := Message.sample o 1
    let w := { start .standard false with
      turns := [⟨5, some (.storage "busy")⟩, ⟨40000, none⟩, ⟨7, none⟩] }
    w.keys.contains m.processedKey = false ∧ m.order? = some o ∧ w.LastAttempt o 2 ∧
      Retried w m o 2 (w.process m .never) ∧ (w.process m .never).1 = .ok .processed ∧
      (w.process m .never).2.calls.map Call.time = [0, 2005, 36005] := by
  intro o m w
  have hk : w.keys.contains m.processedKey = false := by decide +kernel
  have ho : m.order? = some o := by decide +kernel
  obtain ⟨k, hlast, hended⟩ := (retries (w := w) hk ho).ended
  have hrun : (w.process m .never).1 = .ok .processed ∧
      (w.process m .never).2.calls.map Call.time = [0, 2005, 36005] := by
    decide +kernel
  have htwo : k = 2 := by
    have hcalls := congrArg List.length (hended .never rfl).calls
    have hlength := congrArg List.length hrun.2
    rw [List.length_map, hcalls] at hlength
    simpa [w, start] using hlength
  subst htwo
  exact ⟨hk, ho, hlast, hended .never rfl, hrun⟩

/-- A delay of more than thirty years is cut: the second call comes earlier after the first, which
failed at once. -/
theorem long_delay_cut :
    let o := Order.sample "abc" 1
    let m := Message.sample o 1
    let retry := { RetryPolicy.standard with
      maxRetries := 1
      initialDelay := .ofMillis 500000000000
      maxDelay := .ofMillis 10000000000000 }
    let w := { start { IngestSettings.standard with retry } false with
      turns := [⟨0, some (.storage "x")⟩] }
    w.keys.contains m.processedKey = false ∧ m.order? = some o ∧ w.answerTime o 0 = 0 ∧
      retry.delay 1 = .ofMillis 1000000000000 ∧
      (w.process m .never).2.calls.map Call.time = [0, 946080000000] := by
  decide +kernel

end Pipeline

end OrderDesk
