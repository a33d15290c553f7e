import OrderDesk.Proofs.Ingest.Arrivals

/-!
Schedules. The turns of the handler, the retry policy and the store tell when the handler is called
for an order and what it answers each time. Attempts go by that schedule until they are stopped.
-/

namespace OrderDesk

structure Reply where
  millis : Nat
  answer : Except OrderError Unit

namespace Reply

def Temporary (r : Reply) : Prop := ∃ e, r.answer = .error e ∧ e.isTemporary = true

def cause (r : Reply) : Cause :=
  match r.answer with
  | .ok () => .processed
  | .error e => if e.isTemporary then .exhausted e else .rejected e

def outcome (r : Reply) : Except OrderError Outcome := r.answer.map fun _ => .processed

theorem marks_cause (r : Reply) : r.cause.marks = true := by
  unfold cause
  split
  · rfl
  · split <;> rfl

theorem answer_cause (r : Reply) : r.cause.answer = r.outcome := by
  unfold cause outcome
  split
  · rename_i h
    rw [h]
    rfl
  · rename_i e h
    rw [h]
    split <;> rfl

end Reply

namespace Turn

def timedOut (timeout : Span) : OrderError :=
  .storage ("handler timed out after " ++ Text.Decimal.natText timeout.millis ++ "ms")

def millis (turn : Turn) : Nat := min turn.stall Pipeline.longestWait

/-- The reply to an order, and the store after it. A turn that takes too long fails at the timeout
and writes nothing. -/
def reply (turn : Turn) (timeout : Span) (o : Order) (s : Store) : Reply × Store :=
  if timeout.millisUp < turn.millis then (⟨timeout.millisUp, .error (timedOut timeout)⟩, s)
  else match turn.error with
    | some e => (⟨turn.millis, .error e⟩, s)
    | none => (⟨turn.millis, (s.upsert o).1.map fun _ => ()⟩, (s.upsert o).2)

theorem millis_reply (turn : Turn) (timeout : Span) (o : Order) (s : Store) :
    (turn.reply timeout o s).1.millis =
      min (min turn.stall timeout.millisUp) Pipeline.longestWait := by
  unfold reply millis
  split
  · dsimp only
    omega
  · split <;> dsimp only <;> omega

end Turn

theorem Stop.due_of_le {stop : Stop} {t u : Nat} (h : t ≤ u) (hdue : stop.due t = true) :
    stop.due u = true := by
  cases stop with
  | never => cases hdue
  | cancel d | close d =>
    simp only [due, decide_eq_true_eq] at hdue ⊢
    exact hdue.trans h

theorem Stop.not_due_of_le {stop : Stop} {t u : Nat} (h : t ≤ u) (hdue : stop.due u = false) :
    stop.due t = false := by
  rw [← Bool.not_eq_true] at hdue ⊢
  exact mt (due_of_le h) hdue

namespace Pipeline

/-! ## The schedule -/

def turnAt (w : Pipeline) (n : Nat) : Turn := w.turns.getD n .plain

def storeAt (w : Pipeline) (o : Order) : Nat → Store
  | 0 => w.desk.store
  | n + 1 => ((w.turnAt n).reply w.settings.handlerTimeout o (storeAt w o n)).2

def reply (w : Pipeline) (o : Order) (n : Nat) : Reply :=
  ((w.turnAt n).reply w.settings.handlerTimeout o (w.storeAt o n)).1

def pause (w : Pipeline) (n : Nat) : Nat := min (w.settings.retry.delay n).millisUp longestWait

/-- When attempt `n` calls the handler: at once, or after a pause from the reply before. -/
def callTime (w : Pipeline) (o : Order) : Nat → Nat
  | 0 => w.now
  | n + 1 => callTime w o n + (w.reply o n).millis + w.pause (n + 1)

def answerTime (w : Pipeline) (o : Order) (n : Nat) : Nat := w.callTime o n + (w.reply o n).millis

def schedule (w : Pipeline) (o : Order) (n : Nat) : List Call :=
  (List.range n).map fun i => ⟨w.callTime o i, o.uid⟩

def exchanges (w : Pipeline) (o : Order) (n : Nat) : List Act :=
  (List.range n).flatMap fun i =>
    [.called (w.callTime o i) o, .answered (w.answerTime o i) (w.reply o i).answer]

/-- Attempt `k` is the last one: the first that does not fail temporarily, or else the last that the
policy allows. -/
structure LastAttempt (w : Pipeline) (o : Order) (k : Nat) : Prop where
  allowed : k < w.settings.retry.maxAttempts
  before : ∀ i < k, (w.reply o i).Temporary
  final : (w.reply o k).Temporary → k + 1 = w.settings.retry.maxAttempts

variable {w u v : Pipeline} {o : Order} {n k : Nat} {as bs : List Act}

theorem exists_lastAttempt (w : Pipeline) (o : Order) : ∃ k, w.LastAttempt o k := by
  classical
  by_cases h : ∃ i, i < w.settings.retry.maxAttempts ∧ ¬ (w.reply o i).Temporary
  · obtain ⟨hlt, hnot⟩ := Nat.find_spec h
    refine ⟨Nat.find h, hlt, fun i hi => ?_, fun ht => absurd ht hnot⟩
    by_contra hi'
    exact Nat.find_min h hi ⟨hi.trans hlt, hi'⟩
  · push Not at h
    obtain ⟨k, hk⟩ := Nat.exists_eq_succ_of_ne_zero w.settings.retry.maxAttempts_pos.ne'
    rw [hk] at h
    exact ⟨k, by omega, fun i hi => h i (Nat.lt_succ_of_lt hi), fun _ => hk.symm⟩

theorem schedule_succ (w : Pipeline) (o : Order) (n : Nat) :
    w.schedule o (n + 1) = w.schedule o n ++ [⟨w.callTime o n, o.uid⟩] := by
  rw [schedule, List.range_succ, List.map_append]
  rfl

theorem exchanges_succ (w : Pipeline) (o : Order) (n : Nat) :
    w.exchanges o (n + 1) = w.exchanges o n ++
      [.called (w.callTime o n) o, .answered (w.answerTime o n) (w.reply o n).answer] := by
  rw [exchanges, List.range_succ, List.flatMap_append]
  rfl

theorem callTime_mono (w : Pipeline) (o : Order) : Monotone (w.callTime o) :=
  monotone_nat_of_le_succ fun n => by
    rw [callTime, Nat.add_assoc]
    exact Nat.le_add_right _ _

theorem callTime_le_answerTime (w : Pipeline) (o : Order) (n : Nat) :
    w.callTime o n ≤ w.answerTime o n :=
  Nat.le_add_right ..

theorem answerTime_le_callTime (w : Pipeline) (o : Order) (h : n < k) :
    w.answerTime o n ≤ w.callTime o k := by
  have hnext : w.answerTime o n ≤ w.callTime o (n + 1) := Nat.le_add_right ..
  exact hnext.trans (w.callTime_mono o h)

theorem answerTime_mono (w : Pipeline) (o : Order) : Monotone (w.answerTime o) :=
  monotone_nat_of_le_succ fun n =>
    (w.answerTime_le_callTime o (Nat.lt_succ_self n)).trans (w.callTime_le_answerTime o (n + 1))

/-! ## Telling -/

def Tells (w : Pipeline) (shown : List Act) (u : Pipeline) : Prop :=
  ∃ during, u.history = w.history ++ during ∧ during.filter Act.shows = shown ∧
    ∀ key, u.keys.contains key = true ↔
      w.keys.contains key = true ∧ ∀ a ∈ during, ¬ a.Forgets key

theorem Tells.of_eq (ht : u.trace = w.trace) (hk : u.keys = w.keys) : w.Tells [] u := by
  refine ⟨[], ?_, rfl, fun key => ?_⟩
  · rw [history, ht, List.append_nil, history]
  · simp [hk]

theorem Tells.trans (h : w.Tells as u) (hs : u.Tells bs v) : w.Tells (as ++ bs) v := by
  obtain ⟨during, hd, rfl, hkeys⟩ := h
  obtain ⟨after, ha, rfl, hlater⟩ := hs
  refine ⟨during ++ after, by rw [ha, hd, List.append_assoc], List.filter_append .., fun key => ?_⟩
  rw [hlater, hkeys, List.forall_mem_append, and_assoc]

theorem tells_record (w : Pipeline) {a : Act} (ha : a.shows = true) (hf : ∀ key, ¬ a.Forgets key) :
    w.Tells [a] (w.record a) := by
  have hshown : [a].filter Act.shows = [a] := by rw [List.filter_cons_of_pos ha, List.filter_nil]
  refine ⟨[a], history_record w a, hshown, fun key => ?_⟩
  simp only [List.mem_singleton, forall_eq, hf key, not_false_eq_true, and_true]
  rfl

theorem tells_purge (w : Pipeline) (age : Span) : w.Tells [] (w.purge age).2 := by
  refine ⟨[.dropped (w.keys.stale age w.clock.now)], history_record w _, rfl, fun key => ?_⟩
  refine (ProcessedKeys.contains_purge ..).trans ?_
  simp [Act.Forgets]

theorem tells_passTo (w : Pipeline) (t : Nat) : w.Tells [] (w.passTo t) := by
  have hclean : w.Tells [] w.cleanUp := by
    simp only [cleanUp]
    split <;> exact w.tells_purge w.settings.maxAge
  rcases w.passTo_eq t with ⟨next, he⟩ | he <;> rw [he]
  · exact hclean
  · exact .of_eq rfl rfl

/-! ## Resting -/

structure Undisturbed (w u : Pipeline) : Prop where
  le : w.now ≤ u.now
  same : (∀ due, w.nextPurge = some due → u.now < due) →
    u.keys = w.keys ∧ u.nextPurge = w.nextPurge

theorem Undisturbed.of_eq (hn : u.now = w.now) (hk : u.keys = w.keys)
    (hp : u.nextPurge = w.nextPurge) : w.Undisturbed u :=
  ⟨hn.ge, fun _ => ⟨hk, hp⟩⟩

theorem Undisturbed.trans (h : w.Undisturbed u) (hs : u.Undisturbed v) : w.Undisturbed v := by
  refine ⟨h.le.trans hs.le, fun hdue => ?_⟩
  obtain ⟨hkeys, hnext⟩ := h.same fun due hd => hs.le.trans_lt (hdue due hd)
  obtain ⟨hkeys', hnext'⟩ := hs.same fun due hd => hdue due (hnext ▸ hd)
  exact ⟨hkeys'.trans hkeys, hnext'.trans hnext⟩

theorem undisturbed_passTo (w : Pipeline) (t : Nat) : w.Undisturbed (w.passTo t) := by
  have hnow := w.now_passTo t
  refine ⟨hnow ▸ le_max_left .., fun hdue => ?_⟩
  rw [hnow] at hdue
  unfold passTo
  split
  · exact ⟨rfl, rfl⟩
  · rename_i due hd
    have hlate : ¬ due ≤ t := by
      have hlt := hdue due hd
      omega
    rw [if_neg hlate]
    exact ⟨rfl, rfl⟩

structure Rests (w u : Pipeline) : Prop where
  kept : w.Kept u
  turns : u.turns = w.turns
  calls : u.calls = w.calls
  store : u.desk.store = w.desk.store
  cache : u.desk.cache = w.desk.cache
  counted : u.desk.counted = w.desk.counted
  tells : w.Tells [] u
  undisturbed : w.Undisturbed u

theorem rests_note (w : Pipeline) (level : Level) (text : String) : w.Rests (w.note level text) :=
  ⟨⟨rfl, rfl, rfl⟩, rfl, rfl, rfl, rfl, rfl, .of_eq rfl rfl, .of_eq rfl rfl rfl⟩

theorem rests_passTo (w : Pipeline) (t : Nat) : w.Rests (w.passTo t) := by
  have hclean : w.cleanUp.turns = w.turns ∧ w.cleanUp.calls = w.calls := by
    simp only [cleanUp]
    split <;> exact ⟨rfl, rfl⟩
  have hrest : (w.passTo t).turns = w.turns ∧ (w.passTo t).calls = w.calls := by
    rcases w.passTo_eq t with ⟨next, he⟩ | he <;> rw [he]
    · exact hclean
    · exact ⟨rfl, rfl⟩
  exact ⟨w.kept_passTo t, hrest.1, hrest.2, w.store_passTo t, w.cache_passTo t,
    w.counted_passTo t, w.tells_passTo t, w.undisturbed_passTo t⟩

end Pipeline

end OrderDesk
