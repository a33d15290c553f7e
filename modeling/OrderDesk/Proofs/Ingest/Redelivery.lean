import OrderDesk.Order.Sample
import OrderDesk.Proofs.Ingest.Chronicle

/-!
Redelivery. A message that was handled to an end and committed is told from its redeliveries until its
key is forgotten, in whatever order messages are processed and runs are started.
-/

namespace OrderDesk.Pipeline

variable {w u v : Pipeline} {c : Course} {r : Round} {rounds : List Round} {time : Nat}
  {stop : Stop} {rest : List Polled}

structure Recorded (w : Pipeline) : Prop where
  chronicle : Chronicle w.settings.retry.maxAttempts w.history
  tracked : w.Tracked

theorem Recorded.of_eq (h : w.Recorded) (hk : u.keys = w.keys) (ht : u.trace = w.trace)
    (hs : u.settings = w.settings) : u.Recorded where
  chronicle := by
    rw [hs, history, ht]
    exact h.chronicle
  tracked := h.tracked.of_eq hk ht

theorem Recorded.follows (h : w.Recorded) (hf : Follows stop w c v) : v.Recorded where
  chronicle := by
    rw [hf.settings, hf.history]
    refine h.chronicle.course hf.lawful ?_
    rw [hf.duplicate]
    exact h.tracked _
  tracked := hf.tracked h.tracked

theorem Recorded.record (h : w.Recorded) {a : Act} (ha : a.Between)
    (hf : ∀ key, ¬ a.Forgets key) : (w.record a).Recorded where
  chronicle := by
    rw [history_record]
    exact h.chronicle.act ha
  tracked := h.tracked.record (fun _ he => by rw [he] at ha; exact ha) hf

theorem Recorded.polled (h : w.Recorded) (p : Polled) : (w.record (.polled p)).Recorded :=
  h.record trivial fun _ => id

theorem Recorded.purge (h : w.Recorded) (age : Span) : (w.purge age).2.Recorded where
  chronicle := by
    have hh : (w.purge age).2.history = w.history ++ [.dropped (w.keys.stale age w.clock.now)] :=
      history_record w _
    rw [hh]
    exact h.chronicle.act trivial
  tracked := h.tracked.purge age

theorem Recorded.passTo (h : w.Recorded) (t : Nat) : (w.passTo t).Recorded where
  chronicle := by
    obtain ⟨drops, hhistory, hdrops⟩ := w.passTo_drops t
    rw [hhistory, (w.kept_passTo t).settings]
    refine h.chronicle.append fun a ha => ?_
    obtain ⟨keys, rfl⟩ := hdrops a ha
    exact trivial
  tracked := h.tracked.passTo t

theorem Recorded.goes (h : w.Recorded) (hg : Goes time (w.take r.polled rest) r u) :
    u.Recorded := by
  have htake : (w.take r.polled rest).Recorded := (h.polled r.polled).of_eq rfl rfl rfl
  cases hg with
  | idle => exact htake
  | failed => exact htake.of_eq rfl rfl rfl
  | message hf => exact htake.follows hf

theorem Recorded.runs (h : w.Recorded) (hr : Runs time w rounds u) : u.Recorded := by
  induction hr with
  | stop w => exact h
  | round _ _ hg _ ih => exact ih (h.goes hg)

theorem Recorded.idleUntil (h : w.Recorded) (time : Nat) : (w.idleUntil time).Recorded := by
  unfold Pipeline.idleUntil
  dsimp only
  generalize (time - w.now + _ - 1) / _ = count
  split
  · have hidle : ((w.passTo time).record (.idled count)).Recorded :=
      (h.passTo time).record trivial fun _ => id
    exact hidle.of_eq rfl rfl rfl
  · exact h

theorem Recorded.pollUntil (h : w.Recorded) (time : Nat) : (w.pollUntil time).Recorded := by
  unfold Pipeline.pollUntil
  split
  · split
    · refine Recorded.passTo ?_ time
      exact (h.polled (.failed ScriptedLog.closedError)).of_eq rfl rfl rfl
    · exact h
  · obtain ⟨rounds, u, hr, he⟩ := consume_runs time w.log.script w rfl
    rw [he]
    exact (h.runs hr).idleUntil time

theorem keys_startCleaning (w : Pipeline) : w.startCleaning.keys = w.keys := by
  obtain ⟨nextPurge, events, hw⟩ := w.startCleaning_opens
  rw [hw]

theorem Recorded.runUntil (h : w.Recorded) (time : Nat) : (w.runUntil time).Recorded := by
  obtain ⟨ht, hs, -⟩ := w.startCleaning_same
  have hstart : (w.startCleaning.note .info "Ingestion pipeline started").Recorded :=
    h.of_eq w.keys_startCleaning ht hs
  exact (hstart.pollUntil time).of_eq rfl rfl rfl

/-- What a pipeline becomes that starts without keys and is neither closed nor marked from outside.
Whatever else happens meanwhile leaves its keys alone: orders are read and written at the desk, the
log is filled, commits are refused, the handler fails, the clock is set. -/
inductive Reachable : Pipeline → Prop where
  | start (w : Pipeline) (hk : w.keys = .empty) (ht : w.trace = []) : Reachable w
  | process {w : Pipeline} (h : Reachable w) (m : Message) (stop : Stop) (hs : ¬ stop.Closes) :
      Reachable (w.process m stop).2
  | runUntil {w : Pipeline} (h : Reachable w) (time : Nat) : Reachable (w.runUntil time)
  | passTo {w : Pipeline} (h : Reachable w) (time : Nat) : Reachable (w.passTo time)
  | purge {w : Pipeline} (h : Reachable w) (age : Span) : Reachable (w.purge age).2
  | meanwhile {w u : Pipeline} (h : Reachable w) (hk : u.keys = w.keys) (ht : u.trace = w.trace)
      (hs : u.settings = w.settings) : Reachable u

theorem Reachable.processMessage (h : Reachable w) (m : Message) :
    Reachable (w.processMessage m).2 := by
  refine h.process m _ ?_
  split <;> exact id

theorem Reachable.run (h : Reachable w) (forMillis : Nat) (cancelled : Bool) :
    Reachable (w.run forMillis cancelled) := (h.runUntil _).passTo _

theorem Reachable.recorded (h : Reachable w) : w.Recorded := by
  induction h with
  | start w hk ht =>
    have hh : w.history = [] := by rw [history, ht]; rfl
    refine ⟨hh ▸ .nil, fun key => ?_⟩
    rw [hk, hh]
    exact iff_of_false Bool.false_ne_true (not_remembers_nil key)
  | process _ m stop hs ih =>
    obtain ⟨c, -, -, hc⟩ := process_follows _ m hs
    exact ih.follows hc
  | runUntil _ time ih => exact ih.runUntil time
  | passTo _ time ih => exact ih.passTo time
  | purge _ age ih => exact ih.purge age
  | meanwhile _ hk ht hs ih => exact ih.of_eq hk ht hs

/-! ## Duplicates -/

theorem skip_same (w : Pipeline) (m : Message) :
    (w.skip m).2.keys = w.keys ∧ (w.skip m).2.calls = w.calls := by
  unfold skip
  dsimp only
  have hk : ((w.note .debug "Skipping already processed message").askCommit m).2.keys = w.keys :=
    rfl
  have hc : ((w.note .debug "Skipping already processed message").askCommit m).2.calls = w.calls :=
    rfl
  generalize (w.note .debug "Skipping already processed message").askCommit m = x at hk hc ⊢
  rcases x with ⟨_ | _, u⟩
  · exact ⟨hk, hc⟩
  · exact ⟨hk, hc⟩

theorem process_duplicate (w : Pipeline) {m : Message} (stop : Stop)
    (hk : w.keys.contains m.processedKey = true) :
    (w.process m stop).1 = .ok .duplicate ∧
      (w.process m stop).2.history = w.history ++
        [.began m, .committed m w.log.accepts, .ended w.now m (.ok .duplicate)] ∧
      (w.process m stop).2.log = (w.log.commit m).2 ∧
      (w.process m stop).2.calls = w.calls ∧
      (w.process m stop).2.desk.store = w.desk.store ∧
      (w.process m stop).2.desk.cache = w.desk.cache ∧
      (w.process m stop).2.keys = w.keys := by
  have hcarry : (w.record (.began m)).carry m stop = (w.record (.began m)).skip m := by
    unfold carry
    exact if_pos hk
  have hend := (w.record (.began m)).ends_skip m
  obtain ⟨hkeys, hcalls⟩ := (w.record (.began m)).skip_same m
  unfold process
  rw [hcarry]
  generalize (w.record (.began m)).skip m = x at hend hkeys hcalls ⊢
  rcases x with ⟨r, v⟩
  have hr : r = .ok .duplicate := hend.answer
  have hh : v.history = w.history ++ [.began m] ++ [.committed m w.log.accepts] := by
    rw [hend.history, history_record]
    rfl
  refine ⟨hr, ?_, hend.log, hcalls, hend.store, hend.cache, hkeys⟩
  have hnow : v.now = w.now := hend.now
  rw [history_record, hh, hr, hnow]
  simp only [List.append_assoc, List.cons_append, List.nil_append]

theorem Recorded.keys_process (h : w.Recorded) {m : Message} (hs : ¬ stop.Closes)
    (hr : w.log.accepts = false ∨ (w.process m stop).1 = .ok .cancelled ∨
      (w.process m stop).1 = .ok .malformed ∨ (w.process m stop).1 = .ok .invalid)
    {key : String} (hk : (w.process m stop).2.keys.contains key = true) :
    w.keys.contains key = true := by
  obtain ⟨c, rfl, hanswer, hc⟩ := w.process_follows m hs
  have hmarks : c.ending.marks = false := by
    have hending := hc.ending
    rcases hc.log_cases with ⟨he, -⟩ | ⟨cause, he, -⟩
    · rw [he, Ending.marks]
    · rw [he, Ending.marks]
      rcases hr with ha | hr
      · rw [ha, Bool.and_false]
      · rw [hanswer, he] at hr
        exact Ending.not_marks_of_answer hr
  rw [(hc.tracked h.tracked) key, hc.history] at hk
  rcases remembers_append.1 hk with hk | ⟨hk, -⟩
  · rw [(hc.lawful.marked hk.mem).1] at hmarks
    cases hmarks
  · exact (h.tracked key).2 hk

structure Deduplicates (w : Pipeline) : Prop where
  /-- A key is processed because its message was handled to an end and its commit accepted. -/
  known : ∀ key, w.keys.contains key = true →
    ∃ (before : List Act) (c : Course) (after : List Act) (cause : Cause),
      w.history = before ++ c.acts ++ after ∧ c.Lawful w.settings.retry.maxAttempts ∧
        c.message.processedKey = key ∧ c.ending = .committed cause true ∧
        (cause = .processed ∨ (∃ e, cause = .rejected e) ∨ ∃ e, cause = .exhausted e)
  /-- A message with a processed key is committed again, accepted or not, and nothing else is done. -/
  again : ∀ m stop, w.keys.contains m.processedKey = true →
    (w.process m stop).1 = .ok .duplicate ∧
      (w.process m stop).2.history = w.history ++
        [.began m, .committed m w.log.accepts, .ended w.now m (.ok .duplicate)] ∧
      (w.process m stop).2.log = (w.log.commit m).2 ∧
      (w.process m stop).2.calls = w.calls ∧
      (w.process m stop).2.desk.store = w.desk.store ∧
      (w.process m stop).2.desk.cache = w.desk.cache ∧
      (w.process m stop).2.keys = w.keys
  /-- After a message was handled to an end and committed, one with its key is not handled, unless
  the key was forgotten in between. -/
  once : ∀ (before : List Act) (c : Course) (between : List Act) (m : Message) (after : List Act),
    w.history = before ++ c.acts ++ between ++ .began m :: after → c.ending.marks = true →
    c.message.processedKey = m.processedKey → (∀ a ∈ between, ¬ a.Forgets m.processedKey) →
    ∃ (d : Course) (rest : List Act) (accepted : Bool), .began m :: after = d.acts ++ rest ∧
      d.message = m ∧ d.ending = .committed .duplicate accepted ∧
      d.during.filter Act.shows = []
  /-- A call whose commit is refused, or that is interrupted or comes to nothing, marks nothing. -/
  unmarked : ∀ m stop, ¬ stop.Closes →
    (w.log.accepts = false ∨ (w.process m stop).1 = .ok .cancelled ∨
      (w.process m stop).1 = .ok .malformed ∨ (w.process m stop).1 = .ok .invalid) →
    ∀ key, (w.process m stop).2.keys.contains key = true → w.keys.contains key = true

theorem Recorded.known (h : w.Recorded) {key : String} (hk : w.keys.contains key = true) :
    ∃ (before : List Act) (c : Course) (after : List Act) (cause : Cause),
      w.history = before ++ c.acts ++ after ∧ c.Lawful w.settings.retry.maxAttempts ∧
        c.message.processedKey = key ∧ c.ending = .committed cause true ∧
        (cause = .processed ∨ (∃ e, cause = .rejected e) ∨ ∃ e, cause = .exhausted e) := by
  obtain ⟨before, c, after, hh, hc, hkey, hm, -⟩ := h.chronicle.exists_course ((h.tracked key).1 hk)
  cases he : c.ending with
  | interrupted =>
    rw [he] at hm
    cases hm
  | committed cause accepted =>
    rw [he, Ending.marks, Bool.and_eq_true] at hm
    obtain ⟨hm, rfl⟩ := hm
    refine ⟨before, c, after, cause, hh, hc, hkey, he, ?_⟩
    cases cause with
    | processed => exact .inl rfl
    | rejected e => exact .inr (.inl ⟨e, rfl⟩)
    | exhausted e => exact .inr (.inr ⟨e, rfl⟩)
    | duplicate | malformed | invalid => cases hm

theorem Recorded.once (h : w.Recorded) {before between after : List Act} {m : Message}
    (hh : w.history = before ++ c.acts ++ between ++ .began m :: after)
    (hm : c.ending.marks = true) (hkey : c.message.processedKey = m.processedKey)
    (hkeep : ∀ a ∈ between, ¬ a.Forgets m.processedKey) :
    ∃ (d : Course) (rest : List Act) (accepted : Bool), .began m :: after = d.acts ++ rest ∧
      d.message = m ∧ d.ending = .committed .duplicate accepted ∧
      d.during.filter Act.shows = [] := by
  -- the key is remembered when the message begins, so its course is that of a duplicate
  have hcourse : Remembers c.acts m.processedKey := hkey ▸ Course.remembers hm
  have hbefore : Remembers (before ++ c.acts ++ between) m.processedKey :=
    remembers_append.2 (.inr ⟨remembers_append.2 (.inl hcourse), hkeep⟩)
  obtain ⟨d, rest, hsplit, hd, hlawful, hdup⟩ := h.chronicle.of_began hh
  have hcause := hdup.2 hbefore
  unfold Course.Lawful at hlawful
  rw [hcause] at hlawful
  have hquiet := hlawful.eq_nil_of_duplicate
  cases he : d.ending with
  | interrupted =>
    rw [he] at hcause
    cases hcause
  | committed cause accepted =>
    rw [he] at hcause
    obtain rfl : cause = .duplicate := Option.some.inj hcause
    exact ⟨d, rest, accepted, hsplit, hd, he, hquiet⟩

theorem Reachable.deduplicates (h : Reachable w) : w.Deduplicates where
  known _ := h.recorded.known
  again _ stop := w.process_duplicate stop
  once _ _ _ _ _ := h.recorded.once
  unmarked _ _ hs hr _ := h.recorded.keys_process hs hr

theorem duplicate_sample :
    let m := Message.sample (.sample "b563feb7b2b84b6test" 1) 0
    let w := ((start .standard false).process m .never).2
    w.keys.contains m.processedKey = true ∧ w.calls.length = 1 ∧
      (w.process m .never).1 = .ok .duplicate ∧ (w.process m .never).2.calls = w.calls := by
  intro m w
  have hreach : Reachable w := .process (.start _ rfl rfl) m .never id
  have hfirst : w.keys.contains m.processedKey = true ∧ w.calls.length = 1 := by decide +kernel
  have hagain := hreach.deduplicates.again m .never hfirst.1
  exact ⟨hfirst.1, hfirst.2, hagain.1, hagain.2.2.2.1⟩

end OrderDesk.Pipeline
