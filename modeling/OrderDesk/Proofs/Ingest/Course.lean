import OrderDesk.Proofs.Desk.Contents
import OrderDesk.Proofs.Ingest.Moves

/-!
Courses: what the processing of a message looks like from its begin to its end. A message is either
committed once, for a cause, or interrupted; what its course shows tells which.
-/

namespace OrderDesk

def Cause.marks : Cause → Bool
  | .processed | .rejected _ | .exhausted _ => true
  | _ => false

def Cause.answer : Cause → Except OrderError Outcome
  | .duplicate => .ok .duplicate
  | .malformed => .ok .malformed
  | .invalid => .ok .invalid
  | .processed => .ok .processed
  | .rejected e => .error e
  | .exhausted e => .error e

def Cause.outcome : Cause → Outcome
  | .duplicate => .duplicate
  | .malformed => .malformed
  | .invalid => .invalid
  | .processed => .processed
  | .rejected _ => .rejected
  | .exhausted _ => .exhausted

inductive Ending where
  | interrupted
  | committed (cause : Cause) (accepted : Bool)

namespace Ending

def cause? : Ending → Option Cause
  | .interrupted => none
  | .committed cause _ => some cause

def marks : Ending → Bool
  | .interrupted => false
  | .committed cause accepted => cause.marks && accepted

def answer (m : Message) : Ending → Except OrderError Outcome
  | .interrupted => .ok .cancelled
  | .committed .duplicate _ => .ok .duplicate
  | .committed cause true => cause.answer
  | .committed _ false => .error (ScriptedLog.refusal m).toOrderError

def acts (m : Message) : Ending → List Act
  | .interrupted => []
  | .committed cause accepted =>
    .committed m accepted :: if cause.marks && accepted then [.marked m.processedKey] else []

theorem cases_of_mem_acts {m : Message} {e : Ending} {a : Act} (h : a ∈ e.acts m) :
    (∃ accepted, a = .committed m accepted) ∨ a = .marked m.processedKey := by
  cases e with
  | interrupted => cases h
  | committed cause accepted =>
    rcases List.mem_cons.1 h with rfl | h
    · exact .inl ⟨accepted, rfl⟩
    · split at h
      · exact .inr (List.mem_singleton.1 h)
      · cases h

def outcome? : Ending → Option Outcome
  | .interrupted => some .cancelled
  | .committed .duplicate _ => some .duplicate
  | .committed cause true => some cause.outcome
  | .committed _ false => none

def counters (e : Ending) : List Counter :=
  e.outcome?.toList.map .message ++ if e.outcome? = some .duplicate then [.duplicate] else []

def accepted? : Ending → Option Bool
  | .interrupted => none
  | .committed _ accepted => some accepted

def onLog (m : Message) (l : ScriptedLog) : Ending → ScriptedLog
  | .interrupted => l
  | .committed _ _ => (l.commit m).2

theorem not_marks_of_answer {m : Message} {e : Ending}
    (h : e.answer m = .ok .cancelled ∨ e.answer m = .ok .malformed ∨ e.answer m = .ok .invalid) :
    e.marks = false := by
  cases e with
  | interrupted => rfl
  | committed cause accepted =>
    cases cause <;> cases accepted <;> simp [answer, marks, Cause.answer, Cause.marks] at h ⊢

end Ending

def ScriptedLog.ending (l : ScriptedLog) : Option Cause → Ending
  | none => .interrupted
  | some cause => .committed cause l.accepts

@[simp] theorem ScriptedLog.cause?_ending (l : ScriptedLog) (cause : Option Cause) :
    (l.ending cause).cause? = cause := by cases cause <;> rfl

namespace Pipeline

structure Ends (w : Pipeline) (m : Message) (cause : Option Cause)
    (r : Except OrderError Outcome) (v : Pipeline) : Prop where
  answer : r = (w.log.ending cause).answer m
  history : v.history = w.history ++ (w.log.ending cause).acts m
  log : v.log = (w.log.ending cause).onLog m w.log
  settings : v.settings = w.settings
  stopped : v.stopped = w.stopped
  now : v.now = w.now
  store : v.desk.store = w.desk.store
  cache : v.desk.cache = w.desk.cache
  tracked : w.Tracked → v.Tracked

variable {w u v : Pipeline} {m : Message} {cause : Option Cause} {r : Except OrderError Outcome}

theorem Ends.of_note (level : Level) (text : String) (h : Ends (w.note level text) m cause r v) :
    Ends w m cause r v :=
  ⟨h.answer, h.history, h.log, h.settings, h.stopped, h.now, h.store, h.cache,
    fun ht => h.tracked (ht.of_eq rfl rfl)⟩

theorem Ends.note (h : Ends w m cause r v) (level : Level) (text : String) :
    Ends w m cause r (v.note level text) :=
  ⟨h.answer, h.history, h.log, h.settings, h.stopped, h.now, h.store, h.cache,
    fun ht => (h.tracked ht).of_eq rfl rfl⟩

theorem Ends.count (h : Ends w m cause r v) (c : Counter) : Ends w m cause r (v.count c) :=
  ⟨h.answer, h.history, h.log, h.settings, h.stopped, h.now, h.store, h.cache,
    fun ht => (h.tracked ht).of_eq rfl rfl⟩

theorem ends_abandon (w : Pipeline) (m : Message) : Ends w m none w.abandon.1 w.abandon.2 :=
  ⟨rfl, (List.append_nil _).symm, rfl, rfl, rfl, rfl, rfl, rfl, fun h => h.of_eq rfl rfl⟩

theorem ends_askCommit {cause : Cause} (h : (cause.marks && w.log.accepts) = false) :
    Ends w m (some cause) ((w.log.ending (some cause)).answer m) (w.askCommit m).2 where
  answer := rfl
  history := by
    rw [ScriptedLog.ending, Ending.acts, h]
    exact history_record ..
  log := rfl
  settings := rfl
  stopped := rfl
  now := rfl
  store := rfl
  cache := rfl
  tracked ht := (ht.record (a := .committed m w.log.accepts) (fun _ => nofun) fun _ => id).of_eq
    rfl rfl

theorem ends_skip (w : Pipeline) (m : Message) :
    Ends w m (some .duplicate) (w.skip m).1 (w.skip m).2 := by
  refine Ends.of_note .debug "Skipping already processed message" ?_
  unfold skip
  dsimp only
  generalize w.note .debug "Skipping already processed message" = w
  have hask : Ends w m (some .duplicate) (.ok .duplicate) (w.askCommit m).2 := ends_askCommit rfl
  cases h : w.askCommit m with
  | mk a u =>
    rw [h] at hask
    cases a with
    | ok => exact (hask.count _).count _
    | error e => exact ((hask.note _ _).count _).count _

theorem commit_cases (w : Pipeline) (m : Message) (context : String) :
    (w.log.accepts = true ∧ w.commit m context = (.ok (), (w.askCommit m).2)) ∨
      (w.log.accepts = false ∧ w.commit m context =
        (.error (ScriptedLog.refusal m).toOrderError,
          (w.askCommit m).2.note .error ("Failed to commit offset " ++ context))) := by
  unfold commit askCommit ScriptedLog.commit
  cases w.log.accepts with
  | true => exact .inl ⟨rfl, rfl⟩
  | false => exact .inr ⟨rfl, rfl⟩

theorem answer_ending {l : ScriptedLog} {cause : Cause} (hc : cause ≠ .duplicate) :
    (l.ending (some cause)).answer m =
      if l.accepts then cause.answer else .error (ScriptedLog.refusal m).toOrderError := by
  unfold ScriptedLog.ending
  cases l.accepts <;> cases cause <;> first | rfl | exact absurd rfl hc

theorem ends_refused {cause : Cause} (hc : cause ≠ .duplicate) (h : w.log.accepts = false)
    (level : Level) (text : String) :
    Ends w m (some cause) (.error (ScriptedLog.refusal m).toOrderError)
      ((w.askCommit m).2.note level text) := by
  have hask : Ends w m (some cause) _ (w.askCommit m).2 :=
    ends_askCommit (by rw [h, Bool.and_false])
  rw [answer_ending hc, h] at hask
  exact hask.note level text

theorem ends_drop (w : Pipeline) (m : Message) (cause : Cause) {outcome : Outcome}
    (hc : cause ≠ .duplicate) (hm : cause.marks = false) (ha : cause.answer = .ok outcome) :
    Ends w m (some cause) (w.drop m outcome).1 (w.drop m outcome).2 := by
  unfold drop
  rcases w.commit_cases m "after dropping message" with ⟨h, he⟩ | ⟨h, he⟩ <;> rw [he]
  · have hask : Ends w m (some cause) _ (w.askCommit m).2 :=
      ends_askCommit (by rw [hm, Bool.false_and])
    rw [answer_ending hc, h, if_pos rfl, ha] at hask
    exact (hask.count _).note _ _
  · exact ends_refused hc h _ _

theorem ends_mark {cause : Cause} (hm : cause.marks = true) (h : w.log.accepts = true) :
    Ends w m (some cause) cause.answer ((w.askCommit m).2.mark m.processedKey) where
  answer := by
    have hc : cause ≠ .duplicate := by rintro rfl; cases hm
    rw [answer_ending hc, h, if_pos rfl]
  history := by
    have hmark := history_record (w.askCommit m).2 (.marked m.processedKey)
    have hcommit := history_record w (.committed m w.log.accepts)
    rw [ScriptedLog.ending, Ending.acts, hm, h]
    refine hmark.trans ?_
    rw [show (w.askCommit m).2.history = _ from hcommit, h]
    exact List.append_assoc ..
  log := rfl
  settings := rfl
  stopped := rfl
  now := rfl
  store := rfl
  cache := rfl
  tracked ht := by
    have hcommit : (w.record (.committed m w.log.accepts)).Tracked :=
      ht.record (fun _ => nofun) fun _ => id
    exact Tracked.mark (hcommit.of_eq rfl rfl) m.processedKey

theorem ends_conclude (w : Pipeline) (m : Message) (context : String) (outcome : Outcome)
    (cause : Cause) (hm : cause.marks = true) :
    Ends w m (some cause) (w.conclude m context outcome cause.answer).1
      (w.conclude m context outcome cause.answer).2 := by
  have hc : cause ≠ .duplicate := by rintro rfl; cases hm
  unfold conclude
  rcases w.commit_cases m context with ⟨h, he⟩ | ⟨h, he⟩ <;> rw [he]
  · exact (ends_mark hm h).count _
  · exact ends_refused hc h _ _

/-! ## What is counted -/

structure Settles (w : Pipeline) (m : Message) (cause : Option Cause)
    (r : Except OrderError Outcome) (v : Pipeline) : Prop extends Ends w m cause r v where
  counted : v.desk.counted = (w.log.ending cause).counters ++ w.desk.counted

theorem Settles.of_note (level : Level) (text : String)
    (h : Settles (w.note level text) m cause r v) : Settles w m cause r v :=
  ⟨h.toEnds.of_note level text, h.counted⟩

theorem Settles.note (h : Settles w m cause r v) (level : Level) (text : String) :
    Settles w m cause r (v.note level text) :=
  ⟨h.toEnds.note level text, h.counted⟩

theorem settles_abandon (w : Pipeline) (m : Message) :
    Settles w m none w.abandon.1 w.abandon.2 := ⟨w.ends_abandon m, rfl⟩

theorem settles_skip (w : Pipeline) (m : Message) :
    Settles w m (some .duplicate) (w.skip m).1 (w.skip m).2 := by
  refine ⟨w.ends_skip m, ?_⟩
  unfold skip
  dsimp only
  rcases h : (w.note .debug "Skipping already processed message").askCommit m with ⟨_ | _, u⟩ <;>
    obtain rfl := congrArg Prod.snd h <;> rfl

theorem counters_ending {l : ScriptedLog} {cause : Cause} (hc : cause ≠ .duplicate) :
    (l.ending (some cause)).counters = if l.accepts then [.message cause.outcome] else [] := by
  unfold ScriptedLog.ending
  cases l.accepts <;> cases cause <;> first | rfl | exact absurd rfl hc

theorem settles_drop (w : Pipeline) (m : Message) (cause : Cause)
    (hc : cause ≠ .duplicate) (hm : cause.marks = false) (ha : cause.answer = .ok cause.outcome) :
    Settles w m (some cause) (w.drop m cause.outcome).1 (w.drop m cause.outcome).2 := by
  refine ⟨w.ends_drop m cause hc hm ha, ?_⟩
  rw [counters_ending hc]
  unfold drop
  rcases w.commit_cases m "after dropping message" with ⟨h, he⟩ | ⟨h, he⟩ <;> rw [he, h] <;> rfl

theorem settles_conclude (w : Pipeline) (m : Message) (context : String) (cause : Cause)
    (hm : cause.marks = true) :
    Settles w m (some cause) (w.conclude m context cause.outcome cause.answer).1
      (w.conclude m context cause.outcome cause.answer).2 := by
  have hc : cause ≠ .duplicate := by rintro rfl; cases hm
  refine ⟨w.ends_conclude m context cause.outcome cause hm, ?_⟩
  rw [counters_ending hc]
  unfold conclude
  rcases w.commit_cases m context with ⟨h, he⟩ | ⟨h, he⟩ <;> rw [he, h] <;> rfl

/-! ## Attempts -/

variable {o : Order}

/-- The retries that are counted up to a cause or an interruption, from attempt `n` on: each reply
is followed by one unless it is the last. -/
def retriesFrom (n : Nat) (acts : List Act) (cause : Option Cause) : Nat :=
  n + (Act.replies acts).length - cause.isSome.toNat

theorem attempts_settles (stop : Stop) (ho : m.order? = some o) {before : List Counter}
    (left n : Nat) (last : Option OrderError) (w : Pipeline)
    (hw : w.desk.counted = List.replicate (n - 1) .retry ++ before) :
    ∃ acts cause u, Tried o left last acts cause ∧ Moves m stop w acts u ∧
      (cause = none → stop.due u.now = true) ∧
      u.desk.counted = List.replicate (retriesFrom n acts cause) .retry ++ before ∧
      Settles u m cause (attempts m o stop left n last w).1
        (attempts m o stop left n last w).2 := by
  -- the induction is on the attempts left, each starts where the one before came to
  induction left generalizing n last w with
  | zero =>
    exact ⟨[], _, w, .exhausted last, .refl w, nofun, hw,
      .of_note _ _ (settles_conclude _ m _ (.exhausted (last.getD neverTried)) rfl)⟩
  | succ left ih =>
    have hback := backOff_moves w m n stop
    have hretry := counted_backOff hw stop
    unfold attempts
    rcases hb : w.backOff n stop with ⟨_ | _, w₁⟩ <;> rw [hb] at hback hretry
    · exact ⟨[], none, w₁, .notCalled left last, hback, fun _ => due_of_backOff hb, hretry,
        settles_abandon w₁ m⟩
    have htry := attempt_moves w₁ ho stop
    have hcounted : (w₁.attempt o stop).2.desk.counted = List.replicate n .retry ++ before :=
      (w₁.counted_attempt o stop).trans hretry
    dsimp only
    rcases ha : w₁.attempt o stop with ⟨_ | _ | _, w₂⟩ <;> rw [ha] at htry hcounted
    -- stopped before the call or during it
    · obtain ⟨hdue, hnot | ⟨t, hcalled⟩⟩ := htry
      · exact ⟨[], none, w₂, .notCalled left last, hback.trans hnot, fun _ => hdue, hcounted,
          settles_abandon w₂ m⟩
      · exact ⟨_, none, w₂, .notAnswered left last t, hback.trans hcalled, fun _ => hdue, hcounted,
          settles_abandon w₂ m⟩
    · rename_i e
      -- a failure goes to the attempts left if it may pass, and is final if not
      obtain ⟨t, t', hmoves⟩ := htry
      dsimp only
      split
      · rename_i he
        obtain ⟨acts, cause, u, ht, hrest, hdue, hlater, hend⟩ :=
          ih (n + 1) (some e) (w₂.note .warn "Handler error") hcounted
        refine ⟨_, cause, u, .again left last t t' e acts cause he ht, ?_, hdue, ?_, hend⟩
        · exact (hback.trans hmoves).trans (.step (.note ..) hrest)
        · rw [hlater, retriesFrom, retriesFrom, Nat.add_right_comm]
          rfl
      · rename_i he
        have hf : e.isTemporary = false := Bool.eq_false_iff.2 he
        exact ⟨_, _, w₂, .rejected left last t t' e hf, hback.trans hmoves, nofun, hcounted,
          .of_note _ _ (settles_conclude _ m _ (.rejected e) rfl)⟩
    · obtain ⟨t, t', hmoves⟩ := htry
      have hend := settles_conclude w₂ m "after handling" .processed rfl
      refine ⟨_, _, w₂, .processed left last t t', hback.trans hmoves, nofun, hcounted, ?_⟩
      dsimp only [Cause.answer, Cause.outcome] at hend ⊢
      rcases hc : w₂.conclude m "after handling" .processed (.ok .processed) with ⟨_ | _, v⟩ <;>
        rw [hc] at hend
      · exact hend
      · exact hend.note _ _

end Pipeline

inductive Handled (most : Nat) (m : Message) : List Act → Option Cause → Prop where
  | duplicate : Handled most m [] (some .duplicate)
  | malformed (e) (h : Wire.decodeOrder m.bytes = .error e) : Handled most m [] (some .malformed)
  | invalid (o e) (h : Wire.decodeOrder m.bytes = .ok o) (he : o.validate = .error e) :
      Handled most m [] (some .invalid)
  | tried (o acts cause) (ho : m.order? = some o) (h : Tried o most none acts cause) :
      Handled most m acts cause

theorem Handled.written {most : Nat} {m : Message} {acts : List Act} {cause : Option Cause}
    (h : Handled most m acts cause) : acts.filterMap m.written? = m.written cause := by
  cases h with
  | tried o acts cause ho h => exact h.written
  | _ => rfl

theorem Handled.eq_nil_of_duplicate {most : Nat} {m : Message} {acts : List Act}
    (h : Handled most m acts (some .duplicate)) : acts = [] := by
  cases h with
  | duplicate => rfl
  | tried o acts cause ho h => exact absurd rfl h.ne_duplicate

namespace Pipeline

variable {w u v : Pipeline} {m : Message}

theorem carry_settles (w : Pipeline) (m : Message) (stop : Stop) :
    ∃ acts cause u, Handled w.settings.retry.maxAttempts m acts cause ∧ Moves m stop w acts u ∧
      (cause = some .duplicate ↔ w.keys.contains m.processedKey = true) ∧
      (cause = none → stop.due u.now = true) ∧
      u.desk.counted = List.replicate (retriesFrom 0 acts cause) .retry ++ w.desk.counted ∧
      Settles u m cause (w.carry m stop).1 (w.carry m stop).2 := by
  unfold carry
  split
  · rename_i hk
    exact ⟨[], _, w, .duplicate, .refl w, iff_of_true rfl hk, nofun, rfl, w.settles_skip m⟩
  · rename_i hk
    split
    · rename_i e he
      exact ⟨[], _, w, .malformed e he, .refl w, iff_of_false nofun hk, nofun, rfl,
        .of_note _ _ (settles_drop _ m .malformed nofun rfl rfl)⟩
    · rename_i o hd
      split
      · rename_i e he
        exact ⟨[], _, w, .invalid o e hd he, .refl w, iff_of_false nofun hk, nofun, rfl,
          .of_note _ _ (settles_drop _ m .invalid nofun rfl rfl)⟩
      · rename_i hv
        have ho : m.order? = some o := by simp only [Message.order?, hd, hv]
        obtain ⟨acts, cause, u, ht, hmoves, hdue, hcounted, hend⟩ :=
          attempts_settles stop ho w.settings.retry.maxAttempts 0 none w rfl
        have hdup : cause ≠ some .duplicate := by
          rintro rfl
          exact ht.ne_duplicate rfl
        exact ⟨acts, cause, u, .tried o acts cause ho ht, hmoves, iff_of_false hdup hk, hdue,
          hcounted, hend⟩

theorem carry_ends (w : Pipeline) (m : Message) (stop : Stop) :
    ∃ acts cause u, Handled w.settings.retry.maxAttempts m acts cause ∧ Moves m stop w acts u ∧
      (cause = some .duplicate ↔ w.keys.contains m.processedKey = true) ∧
      (cause = none → stop.due u.now = true) ∧
      Ends u m cause (w.carry m stop).1 (w.carry m stop).2 := by
  obtain ⟨acts, cause, u, hh, hmoves, hdup, hdue, -, hend⟩ := w.carry_settles m stop
  exact ⟨acts, cause, u, hh, hmoves, hdup, hdue, hend.toEnds⟩

end Pipeline

def Act.Handles : Act → Prop
  | .called .. | .answered .. | .dropped _ => True
  | _ => False

theorem Tried.handles {o : Order} {left : Nat} {last : Option OrderError} {acts : List Act}
    {cause : Option Cause} (h : Tried o left last acts cause) {a : Act} (ha : a ∈ acts) :
    a.Handles := by
  induction h with
  | exhausted | notCalled => cases ha
  | notAnswered =>
    rw [List.mem_singleton.1 ha]
    exact trivial
  | processed | rejected =>
    rcases List.mem_pair.1 ha with rfl | rfl <;> exact trivial
  | again left last t u e acts cause he h ih =>
    rcases List.mem_cons.1 ha with rfl | ha
    · exact trivial
    · rcases List.mem_cons.1 ha with rfl | ha
      · exact trivial
      · exact ih ha

theorem Handled.handles {most : Nat} {m : Message} {acts : List Act} {cause : Option Cause}
    (h : Handled most m acts cause) {a : Act} (ha : a ∈ acts) : a.Handles := by
  cases h with
  | tried o acts cause ho h => exact h.handles ha
  | _ => cases ha

structure Course where
  message : Message
  during : List Act
  ending : Ending
  time : Nat

namespace Course

def acts (c : Course) : List Act :=
  .began c.message :: c.during ++ c.ending.acts c.message ++
    [.ended c.time c.message (c.ending.answer c.message)]

def Lawful (most : Nat) (c : Course) : Prop :=
  Handled most c.message (c.during.filter Act.shows) c.ending.cause?

def written (c : Course) : List Order := c.message.written c.ending.cause?

theorem Lawful.during {most : Nat} {c : Course} (h : c.Lawful most) {a : Act}
    (ha : a ∈ c.during) : a.Handles := by
  cases hs : a.shows with
  | true => exact Handled.handles h (List.mem_filter.2 ⟨ha, hs⟩)
  | false => cases a <;> first | exact trivial | cases hs

end Course

namespace Pipeline

variable {w u v : Pipeline} {m : Message} {stop : Stop}

structure Follows (stop : Stop) (w : Pipeline) (c : Course) (v : Pipeline) : Prop where
  lawful : c.Lawful w.settings.retry.maxAttempts
  duplicate : c.ending.cause? = some .duplicate ↔ w.keys.contains c.message.processedKey = true
  ending : c.ending = w.log.ending c.ending.cause?
  due : c.ending = .interrupted → stop.due v.now = true
  history : v.history = w.history ++ c.acts
  log : v.log = c.ending.onLog c.message w.log
  settings : v.settings = w.settings
  stopped : v.stopped = w.stopped
  tracked : w.Tracked → v.Tracked
  contents : v.desk.store.contents = w.desk.store.contents.replay c.written

theorem Follows.note {c : Course} (h : Follows stop w c v) (level : Level) (text : String) :
    Follows stop w c (v.note level text) :=
  ⟨h.lawful, h.duplicate, h.ending, h.due, h.history, h.log, h.settings, h.stopped,
    fun ht => (h.tracked ht).of_eq rfl rfl, h.contents⟩

theorem Follows.log_cases {c : Course} (h : Follows stop w c v) :
    (c.ending = .interrupted ∧ v.log = w.log) ∨
      ∃ cause, c.ending = .committed cause w.log.accepts ∧ v.log = (w.log.commit c.message).2 := by
  have hending := h.ending
  have hlog := h.log
  cases hc : c.ending.cause? with
  | none =>
    rw [hc, ScriptedLog.ending] at hending
    rw [hending] at hlog
    exact .inl ⟨hending, hlog⟩
  | some cause =>
    rw [hc, ScriptedLog.ending] at hending
    rw [hending] at hlog
    exact .inr ⟨cause, hending, hlog⟩

theorem process_follows (w : Pipeline) (m : Message) (hs : ¬ stop.Closes) :
    ∃ c : Course, c.message = m ∧ (w.process m stop).1 = c.ending.answer m ∧
      Follows stop w c (w.process m stop).2 := by
  obtain ⟨acts, cause, u, hh, hmoves, hdup, hdue, hend⟩ := (w.record (.began m)).carry_ends m stop
  obtain ⟨during, hduring, rfl⟩ := hmoves.adds hs
  have hkept := hmoves.kept hs
  have hlog : u.log = w.log := hkept.log
  -- the course is what shows between begin and end, with the end that the log at the start allows
  let r := (w.record (.began m)).carry m stop
  let c : Course := ⟨m, during, w.log.ending cause, r.2.now⟩
  have hanswer : r.1 = c.ending.answer m := by rw [hend.answer, hlog]
  have hcause : c.ending.cause? = cause := w.log.cause?_ending cause
  refine ⟨c, rfl, hanswer, ?_⟩
  exact
    { lawful := by
        unfold Course.Lawful
        rw [hcause]
        exact hh
      duplicate := by
        rw [hcause]
        exact hdup
      ending := by rw [hcause]
      due := by
        intro hi
        have hc : cause = none := by rw [← hcause, hi]; rfl
        exact hend.now.symm ▸ hdue hc
      history := by
        have hv : (w.process m stop).2.history = r.2.history ++ [.ended r.2.now m r.1] :=
          history_record ..
        have hr : r.2.history = w.history ++ [.began m] ++ during ++ c.ending.acts m := by
          rw [hend.history, hduring, history_record, hlog]
        rw [hv, hr, hanswer]
        simp only [Course.acts, List.append_assoc, List.cons_append, List.nil_append, c]
      log := by
        have hr := hend.log
        rw [hlog] at hr
        exact hr
      settings := hend.settings.trans hkept.settings
      stopped := hend.stopped.trans hkept.stopped
      tracked := by
        intro ht
        have hbegan : (w.record (.began m)).Tracked := ht.record (fun _ => nofun) fun _ => id
        have hcarried : r.2.Tracked := hend.tracked (hmoves.tracked hs hbegan)
        exact hcarried.record (fun _ => nofun) fun _ => id
      contents := by
        have hstore : (w.process m stop).2.desk.store = u.desk.store := hend.store
        rw [hstore, hmoves.writes, hh.written, Course.written, hcause]
        rfl }

end Pipeline

end OrderDesk
