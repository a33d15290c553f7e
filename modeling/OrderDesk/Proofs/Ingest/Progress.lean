import OrderDesk.Proofs.Ingest.Schedule

/-!
Progress. After each reply a pipeline stands where the schedule has it, whatever is to stop it
later. The last reply ends the message, and so does a stop that comes before it.
-/

namespace OrderDesk.Pipeline

variable {w u v x : Pipeline} {m : Message} {o : Order} {stop : Stop} {j n k t r : Nat}

/-! ## Replies -/

theorem finishTurn_reply (w : Pipeline) (o : Order) (turn : Turn) :
    let r := turn.reply w.settings.handlerTimeout o w.desk.store
    ∃ desk : Desk, w.finishTurn o turn = (r.1.answer, { w with desk }) ∧ desk.store = r.2 ∧
      desk.counted = w.desk.counted ∧ (r.1.answer ≠ .ok () → desk.cache = w.desk.cache) := by
  unfold finishTurn Turn.reply Turn.millis
  by_cases hlate : w.settings.handlerTimeout.millisUp < min turn.stall longestWait
  · simp only [if_pos hlate]
    exact ⟨w.desk, rfl, rfl, rfl, fun _ => rfl⟩
  · simp only [if_neg hlate]
    cases turn.error with
    | some e => exact ⟨w.desk, rfl, rfl, rfl, fun _ => rfl⟩
    | none =>
      simp only [access, Desk.persist, Access.run_bind, Access.run_perform, Step.run]
      rcases (w.desk.store.upsert o).1 with e | stored
      · exact ⟨_, rfl, rfl, rfl, fun _ => rfl⟩
      · exact ⟨_, rfl, rfl, rfl, fun hnot => absurd rfl hnot⟩

def idleSince (w : Pipeline) (o : Order) : Nat → Nat
  | 0 => w.now
  | n + 1 => w.answerTime o n

def dialogue (w : Pipeline) (o : Order) (j n : Nat) : List Act :=
  w.exchanges o n ++ if n < j then [.called (w.callTime o n) o] else []

structure Stands (m : Message) (w : Pipeline) (o : Order) (j n time retries : Nat) (u : Pipeline) :
    Prop where
  kept : w.Kept u
  turns : u.turns = w.turns.drop j
  calls : u.calls = w.calls ++ w.schedule o j
  store : u.desk.store = w.storeAt o n
  cache : (∀ i < n, (w.reply o i).answer ≠ .ok ()) → u.desk.cache = w.desk.cache
  counted : u.desk.counted = List.replicate retries .retry ++ w.desk.counted
  now : u.now = time
  tells : w.Tells (.began m :: w.dialogue o j n) u
  undisturbed : w.Undisturbed u

theorem stands_began (w : Pipeline) (m : Message) (o : Order) :
    Stands m w o 0 0 w.now 0 (w.record (.began m)) where
  kept := ⟨rfl, rfl, rfl⟩
  turns := rfl
  calls := (List.append_nil _).symm
  store := rfl
  cache _ := rfl
  counted := rfl
  now := rfl
  tells := w.tells_record rfl fun _ => id
  undisturbed := .of_eq rfl rfl rfl

namespace Stands

theorem rest (h : Stands m w o j n t r u) (hr : u.Rests v) : Stands m w o j n v.now r v where
  kept := h.kept.trans hr.kept
  turns := hr.turns.trans h.turns
  calls := hr.calls.trans h.calls
  store := hr.store.trans h.store
  cache hnot := hr.cache.trans (h.cache hnot)
  counted := hr.counted.trans h.counted
  now := rfl
  tells := by
    have htells := h.tells.trans hr.tells
    rwa [List.append_nil] at htells
  undisturbed := h.undisturbed.trans hr.undisturbed

theorem note (h : Stands m w o j n t r u) (level : Level) (text : String) :
    Stands m w o j n t r (u.note level text) :=
  h.now ▸ h.rest (u.rests_note level text)

theorem pass (h : Stands m w o j n t r u) (ht : t ≤ k) : Stands m w o j n k r (u.passTo k) := by
  have hrest := h.rest (u.rests_passTo k)
  have hnow : (u.passTo k).now = k := by
    rw [now_passTo, h.now]
    exact max_eq_right ht
  rwa [hnow] at hrest

theorem retry (h : Stands m w o j n t r u) : Stands m w o j n t (r + 1) (u.count .retry) :=
  { h with
    kept := h.kept.trans ⟨rfl, rfl, rfl⟩
    counted := congrArg (Counter.retry :: ·) h.counted
    undisturbed := h.undisturbed.trans (.of_eq rfl rfl rfl)
    tells := by
      have htells := h.tells.trans (.of_eq (u := u.count .retry) rfl rfl)
      rwa [List.append_nil] at htells }

theorem nextTurn (h : Stands m w o n n t r u) : u.nextTurn = w.turnAt n := by
  rw [Pipeline.nextTurn, h.turns, turnAt, List.headD_eq_head?_getD, List.head?_drop,
    List.getD_eq_getElem?_getD]

theorem call (h : Stands m w o n n (w.callTime o n) r u) :
    Stands m w o (n + 1) n (w.callTime o n) r (u.call o) where
  kept := h.kept.trans ⟨rfl, rfl, rfl⟩
  turns := by
    have hturns : (u.call o).turns = u.turns.tail := rfl
    rw [hturns, h.turns, List.tail_drop]
  calls := by
    have hcalls : (u.call o).calls = u.calls ++ [⟨u.now, o.uid⟩] := rfl
    rw [hcalls, h.calls, h.now, schedule_succ, List.append_assoc]
  store := h.store
  cache := h.cache
  counted := h.counted
  now := h.now
  tells := by
    have hcalled : u.Tells [.called u.now o] (u.record (.called u.now o)) :=
      u.tells_record rfl fun _ => id
    have htells := h.tells.trans (hcalled.trans (.of_eq (u := u.call o) rfl rfl))
    rw [h.now] at htells
    simpa [dialogue] using htells
  undisturbed := h.undisturbed.trans (.of_eq rfl rfl rfl)

theorem wakeAfter (h : Stands m w o j n (w.callTime o n) r u) :
    u.wakeAfter (min (w.turnAt n).stall u.settings.handlerTimeout.millisUp) =
      w.answerTime o n := by
  rw [Pipeline.wakeAfter, h.now, h.kept.settings, answerTime, reply, Turn.millis_reply]

theorem answer (h : Stands m w o (n + 1) n (w.answerTime o n) r u) :
    (u.answer o (w.turnAt n)).1 = (w.reply o n).answer ∧
      Stands m w o (n + 1) (n + 1) (w.answerTime o n) r (u.answer o (w.turnAt n)).2 := by
  have hreply : (w.turnAt n).reply u.settings.handlerTimeout o u.desk.store =
      (w.reply o n, w.storeAt o (n + 1)) := by
    rw [h.store, h.kept.settings]
    rfl
  obtain ⟨desk, hf, hstore, hcounted, hcache⟩ := u.finishTurn_reply o (w.turnAt n)
  rw [hreply] at hf hstore hcache
  have ha : u.answer o (w.turnAt n) =
      ((w.reply o n).answer, { u with desk }.record (.answered u.now (w.reply o n).answer)) := by
    rw [Pipeline.answer, hf]
  rw [ha]
  refine ⟨rfl, ?_⟩
  exact
    { kept := h.kept.trans ⟨rfl, rfl, rfl⟩
      turns := h.turns
      calls := h.calls
      store := hstore
      cache := by
        intro hnot
        exact (hcache (hnot n (Nat.lt_succ_self n))).trans
          (h.cache fun i hi => hnot i (Nat.lt_succ_of_lt hi))
      counted := hcounted.trans h.counted
      now := h.now
      tells := by
        have hanswered : { u with desk }.Tells [.answered u.now (w.reply o n).answer] _ :=
          tells_record _ rfl fun _ => id
        have htells := h.tells.trans ((Tells.of_eq rfl rfl).trans hanswered)
        rw [h.now] at htells ⊢
        simpa [dialogue, exchanges_succ] using htells
      undisturbed := h.undisturbed.trans (.of_eq rfl rfl rfl) }

end Stands

/-! ## Attempts -/

theorem waitUntil_eq (h : stop.due t = false) : u.waitUntil t stop = (true, u.passTo t) := by
  rw [waitUntil, h, if_neg Bool.false_ne_true]

theorem waitUntil_stopped (h : stop.due t = true) :
    u.waitUntil t stop = (false, u.interrupt stop) := by
  rw [waitUntil, h, if_pos rfl]

theorem attempts_error {e : OrderError} (hback : u.backOff n stop = (true, x))
    (hreply : x.attempt o stop = (some (.error e), v)) (left : Nat) (last : Option OrderError) :
    attempts m o stop (left + 1) n last u =
      if e.isTemporary then attempts m o stop left (n + 1) (some e) (v.note .warn "Handler error")
      else (v.note .error
        "Permanent handler error, committing offset and skipping message").conclude m
        "after permanent handler error" .rejected (.error e) := by
  rw [attempts, hback]
  dsimp only
  rw [hreply]

structure Concludes (w : Pipeline) (m : Message) (cause : Cause)
    (x : Except OrderError Outcome × Pipeline) : Prop where
  ends : Ends w m (some cause) x.1 x.2
  calls : x.2.calls = w.calls

theorem Concludes.of_note {cause : Cause} {x : Except OrderError Outcome × Pipeline} (level : Level)
    (text : String) (h : Concludes (w.note level text) m cause x) : Concludes w m cause x :=
  ⟨h.ends.of_note level text, h.calls⟩

theorem Concludes.note {cause : Cause} {a : Except OrderError Outcome}
    (h : Concludes w m cause (a, v)) (level : Level) (text : String) :
    Concludes w m cause (a, v.note level text) :=
  ⟨h.ends.note level text, h.calls⟩

theorem concludes_conclude (w : Pipeline) (m : Message) (context : String) (outcome : Outcome)
    (cause : Cause) (hm : cause.marks = true) :
    Concludes w m cause (w.conclude m context outcome cause.answer) := by
  refine ⟨w.ends_conclude m context outcome cause hm, ?_⟩
  unfold conclude
  rcases w.commit_cases m context with ⟨-, he⟩ | ⟨-, he⟩ <;> rw [he] <;> rfl

namespace Stands

theorem exists_retry (h : Stands m w o (n + 1) (n + 1) (w.idleSince o (n + 1)) r u) :
    ∃ v, Stands m w o (n + 1) (n + 1) (w.idleSince o (n + 1)) (r + 1) v ∧
      ∀ stop, u.backOff (n + 1) stop = v.waitUntil (w.callTime o (n + 1)) stop := by
  have hretry := (h.note .debug "Retrying message after error").retry
  refine ⟨_, hretry, fun stop => ?_⟩
  unfold Pipeline.backOff
  rw [if_neg (Nat.succ_ne_zero n)]
  dsimp only
  rw [Pipeline.wakeAfter, hretry.now, hretry.kept.settings]
  rfl

theorem exists_backOff (h : Stands m w o n n (w.idleSince o n) (n - 1) u) :
    ∃ v, Stands m w o n n (w.callTime o n) n v ∧
      ∀ stop : Stop, stop.due (w.callTime o n) = false → u.backOff n stop = (true, v) := by
  cases n with
  | zero => exact ⟨u, h, fun stop _ => rfl⟩
  | succ n =>
    obtain ⟨v, hv, hback⟩ := h.exists_retry
    refine ⟨_, hv.pass (Nat.le_add_right _ _), fun stop hdue => ?_⟩
    rw [hback, waitUntil_eq hdue]

theorem exists_call (h : Stands m w o n n (w.callTime o n) r u) :
    ∃ v, Stands m w o (n + 1) n (w.callTime o n) r v ∧
      ∀ stop : Stop, stop.due (w.callTime o n) = false →
        u.attempt o stop = v.takeTurn o (w.turnAt n) stop := by
  have hready := h.pass le_rfl
  refine ⟨(u.passTo (w.callTime o n)).call o, hready.call, fun stop hdue => ?_⟩
  rw [attempt, h.now, waitUntil_eq hdue]
  dsimp only
  rw [hready.nextTurn]

theorem exists_reply (h : Stands m w o (n + 1) n (w.callTime o n) r u) :
    ∃ v, Stands m w o (n + 1) (n + 1) (w.answerTime o n) r v ∧
      ∀ stop : Stop, stop.due (w.answerTime o n) = false →
        u.takeTurn o (w.turnAt n) stop = (some (w.reply o n).answer, v) := by
  obtain ⟨hanswer, hv⟩ := (h.pass (w.callTime_le_answerTime o n)).answer
  refine ⟨_, hv, fun stop hdue => ?_⟩
  rw [takeTurn, h.wakeAfter, waitUntil_eq hdue]
  dsimp only
  rw [hanswer]

theorem takeTurn_stopped (h : Stands m w o (n + 1) n (w.callTime o n) r u)
    (hdue : stop.due (w.answerTime o n) = true) :
    u.takeTurn o (w.turnAt n) stop = (none, u.interrupt stop) := by
  rw [takeTurn, h.wakeAfter, waitUntil_stopped hdue]

theorem exists_attempt (h : Stands m w o n n (w.idleSince o n) (n - 1) u) :
    ∃ v, Stands m w o (n + 1) (n + 1) (w.answerTime o n) n v ∧
      ∀ stop : Stop, stop.due (w.answerTime o n) = false →
        ∃ x, u.backOff n stop = (true, x) ∧ x.attempt o stop = (some (w.reply o n).answer, v) := by
  obtain ⟨x, hx, hback⟩ := h.exists_backOff
  obtain ⟨y, hy, hcall⟩ := hx.exists_call
  obtain ⟨v, hv, hreply⟩ := hy.exists_reply
  refine ⟨v, hv, fun stop hdue => ?_⟩
  have hcalled := Stop.not_due_of_le (w.callTime_le_answerTime o n) hdue
  exact ⟨x, hback stop hcalled, (hcall stop hcalled).trans (hreply stop hdue)⟩

theorem exists_again (h : Stands m w o n n (w.idleSince o n) (n - 1) u)
    (ht : (w.reply o n).Temporary) :
    ∃ v e, Stands m w o (n + 1) (n + 1) (w.idleSince o (n + 1)) n v ∧
      ∀ (stop : Stop) left last, stop.due (w.answerTime o n) = false →
        attempts m o stop (left + 1) n last u = attempts m o stop left (n + 1) (some e) v := by
  obtain ⟨e, he, htemporary⟩ := ht
  obtain ⟨v, hv, hattempt⟩ := h.exists_attempt
  refine ⟨v.note .warn "Handler error", e, hv.note _ _, fun stop left last hdue => ?_⟩
  obtain ⟨x, hback, hreply⟩ := hattempt stop hdue
  rw [he] at hreply
  rw [attempts_error hback hreply, if_pos htemporary]

theorem exists_before (hk : ∀ i < k, (w.reply o i).Temporary) :
    ∃ u last, Stands m w o k k (w.idleSince o k) (k - 1) u ∧
      ∀ (stop : Stop) left, (∀ i < k, stop.due (w.answerTime o i) = false) →
        attempts m o stop (left + k) 0 none (w.record (.began m)) =
          attempts m o stop left k last u := by
  induction k with
  | zero => exact ⟨_, none, w.stands_began m o, fun stop left _ => rfl⟩
  | succ k ih =>
    obtain ⟨u, last, hu, hrun⟩ := ih fun i hi => hk i (Nat.lt_succ_of_lt hi)
    obtain ⟨v, e, hv, hstep⟩ := hu.exists_again (hk k (Nat.lt_succ_self k))
    refine ⟨v, some e, hv, fun stop left hdue => ?_⟩
    have hbefore := hrun stop (left + 1) fun i hi => hdue i (Nat.lt_succ_of_lt hi)
    rw [← Nat.add_assoc, Nat.add_right_comm, hbefore]
    exact hstep stop left last (hdue k (Nat.lt_succ_self k))

theorem exists_last (h : Stands m w o n n (w.idleSince o n) (n - 1) u) {left : Nat}
    (hleft : (w.reply o n).Temporary → left = 0) :
    ∃ v x, Stands m w o (n + 1) (n + 1) (w.answerTime o n) n v ∧
      Concludes v m (w.reply o n).cause x ∧
      ∀ (stop : Stop) last, stop.due (w.answerTime o n) = false →
        attempts m o stop (left + 1) n last u = x := by
  obtain ⟨v, hv, hattempt⟩ := h.exists_attempt
  -- a success, a failure that may pass and one that may not end the message in their own ways
  cases ha : (w.reply o n).answer with
  | ok =>
    have hcause : (w.reply o n).cause = .processed := by rw [Reply.cause, ha]
    have hend := v.concludes_conclude m "after handling" .processed .processed rfl
    rw [hcause]
    rw [ha] at hattempt
    dsimp only [Cause.answer] at hend
    rcases hc : v.conclude m "after handling" .processed (.ok .processed) with ⟨e | outcome, x⟩ <;>
      rw [hc] at hend
    · refine ⟨v, _, hv, hend, fun stop last hdue => ?_⟩
      obtain ⟨y, hback, hreply⟩ := hattempt stop hdue
      rw [attempts, hback]
      dsimp only
      rw [hreply]
      dsimp only
      rw [hc]
    · refine ⟨v, _, hv, hend.note .info "Message successfully processed", fun stop last hdue => ?_⟩
      obtain ⟨y, hback, hreply⟩ := hattempt stop hdue
      rw [attempts, hback]
      dsimp only
      rw [hreply]
      dsimp only
      rw [hc]
  | error e =>
    rw [ha] at hattempt
    by_cases he : e.isTemporary = true
    · obtain rfl := hleft ⟨e, ha, he⟩
      have hcause : (w.reply o n).cause = .exhausted e := by
        rw [Reply.cause, ha]
        exact if_pos he
      have hend := ((v.note .warn "Handler error").note .error
        "All retries exhausted, committing offset and skipping message").concludes_conclude m
        "after exhausting retries" .exhausted (.exhausted e) rfl
      rw [hcause]
      refine ⟨v, _, hv, (hend.of_note _ _).of_note _ _, fun stop last hdue => ?_⟩
      obtain ⟨y, hback, hreply⟩ := hattempt stop hdue
      rw [attempts_error hback hreply, if_pos he, attempts]
      rfl
    · have hcause : (w.reply o n).cause = .rejected e := by
        rw [Reply.cause, ha]
        exact if_neg he
      have hend := (v.note .error
        "Permanent handler error, committing offset and skipping message").concludes_conclude m
        "after permanent handler error" .rejected (.rejected e) rfl
      rw [hcause]
      refine ⟨v, _, hv, hend.of_note _ _, fun stop last hdue => ?_⟩
      obtain ⟨y, hback, hreply⟩ := hattempt stop hdue
      rw [attempts_error hback hreply, if_neg he]
      rfl

theorem exists_stop (h : Stands m w o n n (w.idleSince o n) (n - 1) u)
    (hdue : stop.due (w.answerTime o n) = true) :
    ∃ j t r v, Stands m w o j n t r v ∧
      (j = n ∧ stop.due (w.callTime o n) = true ∨ j = n + 1 ∧ stop.due (w.callTime o n) = false) ∧
      ∀ left last, attempts m o stop (left + 1) n last u = (v.interrupt stop).abandon := by
  cases hcalled : stop.due (w.callTime o n) with
  | true =>
    cases n with
    | zero =>
      refine ⟨0, _, _, u, h, .inl ⟨rfl, rfl⟩, fun left last => ?_⟩
      have hnow : u.now = w.callTime o 0 := h.now
      rw [attempts, backOff, if_pos rfl]
      dsimp only
      rw [attempt, hnow, waitUntil_stopped hcalled]
    | succ n =>
      obtain ⟨v, hv, hback⟩ := h.exists_retry
      refine ⟨n + 1, _, _, v, hv, .inl ⟨rfl, rfl⟩, fun left last => ?_⟩
      rw [attempts, hback, waitUntil_stopped hcalled]
  | false =>
    obtain ⟨x, hx, hback⟩ := h.exists_backOff
    obtain ⟨y, hy, hcall⟩ := hx.exists_call
    refine ⟨n + 1, _, _, y, hy, .inr ⟨rfl, rfl⟩, fun left last => ?_⟩
    rw [attempts, hback stop hcalled]
    dsimp only
    rw [hcall stop hcalled, hy.takeTurn_stopped hdue]

end Stands

/-! ## Messages -/

theorem exists_handle (hbefore : ∀ i < k, (w.reply o i).Temporary)
    (hk : k < w.settings.retry.maxAttempts) :
    ∃ u left last, Stands m w o k k (w.idleSince o k) (k - 1) u ∧
      w.settings.retry.maxAttempts = left + 1 + k ∧
      ∀ stop : Stop, (∀ i < k, stop.due (w.answerTime o i) = false) →
        (w.record (.began m)).handle m o stop = attempts m o stop (left + 1) k last u := by
  obtain ⟨u, last, hu, hrun⟩ := Stands.exists_before (m := m) hbefore
  obtain ⟨left, hleft⟩ := Nat.exists_eq_add_of_lt hk
  have hmost : w.settings.retry.maxAttempts = left + 1 + k := by omega
  refine ⟨u, left, last, hu, hmost, fun stop hdue => ?_⟩
  rw [← hrun stop (left + 1) hdue, ← hmost]
  rfl

theorem process_last (hk : w.keys.contains m.processedKey = false) (ho : m.order? = some o)
    (hlast : w.LastAttempt o k) :
    ∃ v x, Stands m w o (k + 1) (k + 1) (w.answerTime o k) k v ∧
      Concludes v m (w.reply o k).cause x ∧
      ∀ stop : Stop, stop.due (w.answerTime o k) = false →
        w.process m stop = (x.1, x.2.record (.ended x.2.now m x.1)) := by
  obtain ⟨u, left, last, hu, hmost, hhandle⟩ := exists_handle (m := m) hlast.before hlast.allowed
  have hfinal (ht : (w.reply o k).Temporary) : left = 0 := by
    have hall := hlast.final ht
    omega
  obtain ⟨v, x, hv, hend, hrun⟩ := hu.exists_last hfinal
  refine ⟨v, x, hv, hend, fun stop hdue => ?_⟩
  have hearlier (i : Nat) (hi : i < k) : stop.due (w.answerTime o i) = false :=
    Stop.not_due_of_le (w.answerTime_mono o hi.le) hdue
  rw [process_of_order hk ho, hhandle stop hearlier, hrun stop last hdue]

theorem process_stopped (hk : w.keys.contains m.processedKey = false) (ho : m.order? = some o)
    (hlast : w.LastAttempt o k) (hdue : stop.due (w.answerTime o k) = true) :
    ∃ j n t r v, Stands m w o j n t r v ∧ n ≤ k ∧
      (∀ i, i < j ↔ stop.due (w.callTime o i) = false) ∧
      (∀ i, i < n ↔ stop.due (w.answerTime o i) = false) ∧
      w.process m stop = ((v.interrupt stop).abandon.1, (v.interrupt stop).abandon.2.record
        (.ended (v.interrupt stop).abandon.2.now m (v.interrupt stop).abandon.1)) := by
  classical
  -- the attempt that is stopped is the first whose reply would come too late
  have hex : ∃ n, stop.due (w.answerTime o n) = true := ⟨k, hdue⟩
  obtain ⟨n, hn, hfirst⟩ : ∃ n, stop.due (w.answerTime o n) = true ∧
      ∀ i < n, stop.due (w.answerTime o i) = false :=
    ⟨Nat.find hex, Nat.find_spec hex, fun i hi => Bool.eq_false_iff.2 (Nat.find_min hex hi)⟩
  have hreplies (i : Nat) : i < n ↔ stop.due (w.answerTime o i) = false := by
    refine ⟨hfirst i, fun hi => ?_⟩
    by_contra hge
    refine Bool.eq_false_iff.1 hi (Stop.due_of_le ?_ hn)
    exact w.answerTime_mono o (Nat.le_of_not_lt hge)
  have hnk : n ≤ k := by
    by_contra hlt
    exact Bool.eq_false_iff.1 (hfirst k (Nat.lt_of_not_le hlt)) hdue
  obtain ⟨u, left, last, hu, -, hhandle⟩ := exists_handle (m := m)
    (fun i hi => hlast.before i (hi.trans_le hnk)) (hnk.trans_lt hlast.allowed)
  obtain ⟨j, t, r, v, hv, hj, hstop⟩ := hu.exists_stop hn
  have hcalls (i : Nat) : i < j ↔ stop.due (w.callTime o i) = false := by
    constructor
    · intro hi
      rcases hj with ⟨rfl, -⟩ | ⟨rfl, hcalled⟩
      · exact Stop.not_due_of_le (w.callTime_le_answerTime o i) (hfirst i hi)
      · exact Stop.not_due_of_le (w.callTime_mono o (Nat.le_of_lt_succ hi)) hcalled
    · intro hi
      by_contra hge
      refine Bool.eq_false_iff.1 hi ?_
      rcases hj with ⟨rfl, hcalled⟩ | ⟨rfl, -⟩
      · exact Stop.due_of_le (w.callTime_mono o (Nat.le_of_not_lt hge)) hcalled
      · exact Stop.due_of_le (w.answerTime_le_callTime o (Nat.le_of_not_lt hge)) hn
  refine ⟨j, n, t, r, v, hv, hnk, hcalls, hreplies, ?_⟩
  rw [process_of_order hk ho, hhandle stop hfirst, hstop left last]

end OrderDesk.Pipeline
