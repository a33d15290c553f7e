import OrderDesk.Ingest.Run
import OrderDesk.Proofs.Ingest.Course

/-!
Rounds of a run: a poll, and the course of the message that it brings. No failure ends a run, only the
time does, and only the last round may leave its message uncommitted.
-/

namespace OrderDesk

def Act.asksLog : Act → Bool
  | .polled _ | .committed .. => true
  | _ => false

def Act.Idles : Act → Prop
  | .idled _ | .dropped _ => True
  | _ => False

def Course.commits (c : Course) : List Act :=
  (c.ending.accepted?.map (Act.committed c.message)).toList

theorem Course.Lawful.asks {most : Nat} {c : Course} (h : c.Lawful most) :
    c.acts.filter Act.asksLog = c.commits := by
  have hduring : c.during.filter Act.asksLog = [] := by
    refine List.filter_eq_nil_iff.2 fun a ha => ?_
    have hh := h.during ha
    cases a <;> first | exact Bool.false_ne_true | exact hh.elim
  have hending : (c.ending.acts c.message).filter Act.asksLog = c.commits := by
    unfold Course.commits Ending.acts
    cases c.ending with
    | interrupted => rfl
    | committed cause accepted =>
      dsimp only
      split <;> rfl
  simp only [Course.acts, List.filter_append, hduring, hending, List.filter_cons, Act.asksLog,
    Bool.false_eq_true, if_false, List.nil_append, List.append_nil, List.filter_nil,
    List.cons_append]

inductive Round where
  | idle
  | failed (e : LogError)
  | message (c : Course)

namespace Round

def polled : Round → Polled
  | .idle => .idle
  | .failed e => .failed e
  | .message c => .message c.message

def course? : Round → Option Course
  | .message c => some c
  | _ => none

def acts (r : Round) : List Act := .polled r.polled :: (r.course?.map Course.acts).getD []

def commits (r : Round) : List Act := (r.course?.map Course.commits).getD []

def Interrupted (r : Round) : Prop := ∃ c, r = .message c ∧ c.ending = .interrupted

def Lawful (most : Nat) (r : Round) : Prop := ∀ c, r = .message c → c.Lawful most

variable {most : Nat} {r : Round}

theorem Lawful.asks (h : r.Lawful most) :
    r.acts.filter Act.asksLog = .polled r.polled :: r.commits := by
  rw [acts, List.filter_cons_of_pos rfl]
  cases r with
  | message c => exact congrArg _ (h c rfl).asks
  | _ => rfl

def answer? (r : Round) : Option Bool := r.course?.bind fun c => c.ending.accepted?

def accepted? : Round → Option Message
  | .message c => if c.ending.accepted? = some true then some c.message else none
  | _ => none

end Round

namespace ScriptedLog

def answers (l : ScriptedLog) (n : Nat) : List Bool :=
  (List.range n).map fun i => !l.refusals[i]?.getD l.refusing

theorem answers_commit (l : ScriptedLog) (m : Message) (n : Nat) :
    l.answers (n + 1) = l.accepts :: (l.commit m).2.answers n := by
  have hr : (l.commit m).2.refusals = l.refusals.tail := by unfold commit; split <;> rfl
  have hf : (l.commit m).2.refusing = l.refusing := by unfold commit; split <;> rfl
  have hhead : (!l.refusals[0]?.getD l.refusing) = l.accepts := by
    unfold accepts
    cases l.refusals <;> rfl
  rw [answers, answers, List.range_succ_eq_map, List.map_cons, List.map_map, hr, hf, hhead]
  refine congrArg _ (List.map_congr_left fun i _ => ?_)
  simp only [Function.comp_apply, List.getElem?_tail]

theorem committed_commit (l : ScriptedLog) (m : Message) :
    (l.commit m).2.committed = l.committed ++ if l.accepts then [m] else [] := by
  unfold commit
  cases l.accepts with
  | true => rfl
  | false => exact (List.append_nil _).symm

theorem script_commit (l : ScriptedLog) (m : Message) :
    (l.commit m).2.script = l.script := by unfold commit; split <;> rfl

end ScriptedLog

namespace Pipeline

def Noted (w v : Pipeline) : Prop :=
  ∃ events, v = { w with desk := { w.desk with journal := w.desk.journal ++ events } }

/-- What becomes of a pipeline in a round, after its poll. A failure is noted at most; a message is
processed, with the time as its cancellation, and what it comes to changes nothing more. -/
inductive Goes (time : Nat) : Pipeline → Round → Pipeline → Prop where
  | idle (w) : Goes time w .idle w
  | failed (w e level text) : Goes time w (.failed e) (w.note level text)
  | message {w c v} (h : Follows (.cancel time) w c v)
    (hv : (w.process c.message (.cancel time)).2.Noted v) : Goes time w (.message c) v

/-- Each round starts where the one before ended, before the time. There is no other only if the time
has come where the last one ended, or if the script is at its end. -/
inductive Runs (time : Nat) : Pipeline → List Round → Pipeline → Prop where
  | stop (w) (h : w.log.script = [] ∨ time ≤ w.now) : Runs time w [] w
  | round {w u v r rounds script} (hscript : w.log.script = r.polled :: script)
      (hnow : w.now < time) (hr : Goes time (w.take r.polled script) r u)
      (h : Runs time u rounds v) : Runs time w (r :: rounds) v

variable {w u v : Pipeline} {r : Round} {rounds : List Round} {time : Nat} {rest : List Polled}

theorem Noted.refl (w : Pipeline) : w.Noted w := by
  refine ⟨[], ?_⟩
  rw [List.append_nil]

theorem Noted.note (h : w.Noted v) (level : Level) (text : String) :
    w.Noted (v.note level text) := by
  obtain ⟨events, rfl⟩ := h
  refine ⟨events ++ [⟨level, text⟩], ?_⟩
  rw [← List.append_assoc]
  rfl

theorem react_goes (w : Pipeline) (time : Nat) (p : Polled) :
    ∃ r, r.polled = p ∧ Goes time w r (w.react (.cancel time) p) := by
  cases p with
  | idle => exact ⟨.idle, rfl, .idle w⟩
  | failed e => exact ⟨.failed e, rfl, .failed w e _ _⟩
  | message m =>
    have hs : ¬ (Stop.cancel time).Closes := id
    obtain ⟨c, rfl, -, hc⟩ := w.process_follows m hs
    refine ⟨.message c, rfl, ?_⟩
    unfold react
    dsimp only
    rcases hp : w.process c.message (.cancel time) with ⟨_ | _, v⟩ <;> rw [hp] at hc
    · refine .message (hc.note _ _) ?_
      rw [hp]
      exact (Noted.refl v).note _ _
    · refine .message hc ?_
      rw [hp]
      exact .refl v

theorem Goes.history (h : Goes time (w.take r.polled rest) r u) :
    u.history = w.history ++ r.acts := by
  have htake : (w.take r.polled rest).history = w.history ++ [.polled r.polled] :=
    history_record ..
  cases h with
  | message h => rw [h.history, htake, List.append_assoc]; rfl
  | _ => exact htake

theorem Goes.script (h : Goes time w r u) : u.log.script = w.log.script := by
  cases h with
  | message h =>
    rcases h.log_cases with ⟨-, hl⟩ | ⟨cause, -, hl⟩ <;> rw [hl]
    exact ScriptedLog.script_commit ..
  | _ => rfl

theorem Goes.committed (h : Goes time w r u) :
    u.log.committed = w.log.committed ++ r.accepted?.toList := by
  cases h with
  | message h =>
    rcases h.log_cases with ⟨he, hl⟩ | ⟨cause, he, hl⟩ <;> rw [hl]
    · simp only [Round.accepted?, he, Ending.accepted?, reduceCtorEq, if_false, Option.toList_none,
        List.append_nil]
    · rw [ScriptedLog.committed_commit, Round.accepted?, he, Ending.accepted?]
      cases w.log.accepts <;> rfl
  | _ => exact (List.append_nil _).symm

theorem Goes.answers (h : Goes time w r u) (n : Nat) :
    w.log.answers (r.answer?.toList.length + n) = r.answer?.toList ++ u.log.answers n := by
  cases h with
  | message h =>
    rcases h.log_cases with ⟨he, hl⟩ | ⟨cause, he, hl⟩
    · have hr : (Round.message _).answer? = none := congrArg Ending.accepted? he
      rw [hr, hl, Option.toList_none, List.length_nil, Nat.zero_add, List.nil_append]
    · have hr : (Round.message _).answer? = some w.log.accepts := congrArg Ending.accepted? he
      rw [hr, hl, Nat.add_comm]
      exact w.log.answers_commit _ n
  | _ => exact congrArg w.log.answers (Nat.zero_add n)

theorem Goes.lawful (h : Goes time w r u) : r.Lawful w.settings.retry.maxAttempts := by
  cases h with
  | message h => rintro c ⟨rfl⟩; exact h.lawful
  | _ => nofun

theorem Goes.settings (h : Goes time w r u) : u.settings = w.settings := by
  cases h with
  | message h => exact h.settings
  | _ => rfl

theorem Goes.due (h : Goes time w r u) (hi : r.Interrupted) : time ≤ u.now := by
  obtain ⟨c, rfl, hc⟩ := hi
  cases h with
  | message h => simpa [Stop.due] using h.due hc

theorem Runs.history (h : Runs time w rounds u) :
    u.history = w.history ++ rounds.flatMap Round.acts := by
  induction h with
  | stop w => exact (List.append_nil _).symm
  | round _ _ hr _ ih => rw [ih, hr.history, List.flatMap_cons, List.append_assoc]

theorem Runs.script (h : Runs time w rounds u) :
    w.log.script = rounds.map Round.polled ++ u.log.script := by
  induction h with
  | stop w => rfl
  | round hscript _ hr _ ih =>
    rw [hscript, List.map_cons, List.cons_append, ← ih, hr.script]
    rfl

theorem Runs.committed (h : Runs time w rounds u) :
    u.log.committed = w.log.committed ++ rounds.filterMap Round.accepted? := by
  induction h with
  | stop w => exact (List.append_nil _).symm
  | @round w u v r rounds script _ _ hr _ ih =>
    have hone : (r :: rounds).filterMap Round.accepted? =
        r.accepted?.toList ++ rounds.filterMap Round.accepted? := by
      cases ha : r.accepted? <;> simp [ha]
    rw [ih, hr.committed, hone, List.append_assoc]
    rfl

theorem Runs.answers (h : Runs time w rounds u) :
    rounds.filterMap Round.answer? = w.log.answers (rounds.filterMap Round.answer?).length := by
  induction h with
  | stop w => rfl
  | @round w u v r rounds script _ _ hr _ ih =>
    have hone : (r :: rounds).filterMap Round.answer? =
        r.answer?.toList ++ rounds.filterMap Round.answer? := by
      cases ha : r.answer? <;> simp [ha]
    rw [hone, List.length_append]
    refine Eq.trans ?_ (hr.answers _).symm
    rw [← ih]

theorem Runs.lawful (h : Runs time w rounds u) (hr : r ∈ rounds) :
    r.Lawful w.settings.retry.maxAttempts := by
  induction h with
  | stop w => cases hr
  | @round w u v q rounds script _ _ hgoes _ ih =>
    have hset : u.settings = w.settings := hgoes.settings
    rcases List.mem_cons.1 hr with rfl | hr
    · exact hgoes.lawful
    · exact hset ▸ ih hr

theorem Runs.late (h : Runs time w rounds u) (hn : time ≤ w.now) : rounds = [] ∧ u = w := by
  cases h with
  | stop => exact ⟨rfl, rfl⟩
  | round _ hnow => exact absurd hn (Nat.not_le.2 hnow)

theorem Runs.interrupted (h : Runs time w rounds u) :
    (∀ r ∈ rounds.dropLast, ¬ r.Interrupted) ∧
      ((∃ r ∈ rounds, r.Interrupted) → time ≤ u.now) := by
  induction h with
  | stop w h => exact ⟨nofun, nofun⟩
  | @round w u v r rounds script _ _ hr hruns ih =>
    cases hruns with
    | stop _ h =>
      refine ⟨nofun, ?_⟩
      rintro ⟨_, hm, hi⟩
      exact hr.due (List.mem_singleton.1 hm ▸ hi)
    | round hscript hnow hr' h' =>
      -- another round started before the time, so this one was not interrupted
      have hfirst : ¬ r.Interrupted := fun hi => Nat.not_le.2 hnow (hr.due hi)
      refine ⟨?_, ?_⟩
      · intro q hq
        rcases List.mem_cons.1 hq with rfl | hq
        · exact hfirst
        · exact ih.1 q hq
      · rintro ⟨q, hq, hi⟩
        rcases List.mem_cons.1 hq with rfl | hq
        · exact absurd hi hfirst
        · exact ih.2 ⟨q, hq, hi⟩

theorem consume_runs (time : Nat) (script : List Polled) (w : Pipeline)
    (h : w.log.script = script) :
    ∃ rounds u, Runs time w rounds u ∧ consume time script w = u.idleUntil time := by
  induction script generalizing w with
  | nil => exact ⟨[], w, .stop w (.inl h), rfl⟩
  | cons p script ih =>
    unfold consume
    split
    · rename_i hn
      refine ⟨[], w, .stop w (.inr hn), ?_⟩
      rw [idleUntil, if_neg (Nat.not_lt.2 hn)]
    · rename_i hn
      obtain ⟨r, rfl, hr⟩ := (w.take p script).react_goes time p
      obtain ⟨rounds, u, hruns, he⟩ := ih _ hr.script
      exact ⟨r :: rounds, u, .round h (Nat.not_le.1 hn) hr hruns, he⟩

/-! ## Until the time comes -/

def pollWait (w : Pipeline) : Nat := min w.settings.pollTimeout.millisUp longestWait

/-- What a run does after its rounds: nothing if the time has come, and otherwise it polls on until
then, while old keys may be dropped. -/
inductive Waits (time : Nat) (u : Pipeline) : List Act → Pipeline → Prop where
  | due {v : Pipeline} (h : time ≤ u.now) (hv : u.Noted v) : Waits time u [] v
  | polls {v : Pipeline} {drops : List Act} {count : Nat} (h : u.now < time)
    (hdrops : ∀ a ∈ drops, ∃ keys, a = .dropped keys)
    (hcount : 0 < u.pollWait →
      (count - 1) * u.pollWait < time - u.now ∧ time - u.now ≤ count * u.pollWait)
    (hhistory : v.history = u.history ++ (drops ++ [.idled count]))
    (hlog : v.log = u.log.idle count) (hnow : v.now = time) :
    Waits time u (drops ++ [.idled count]) v

namespace Waits

variable {rest : List Act}

theorem history (h : Waits time u rest v) : v.history = u.history ++ rest := by
  cases h with
  | due _ hv =>
    obtain ⟨events, rfl⟩ := hv
    exact (List.append_nil _).symm
  | polls _ _ _ hhistory => exact hhistory

theorem idles (h : Waits time u rest v) : ∀ a ∈ rest, a.Idles := by
  cases h with
  | due => exact List.forall_mem_nil _
  | polls _ hdrops =>
    intro a ha
    rcases List.mem_append.1 ha with ha | ha
    · obtain ⟨keys, rfl⟩ := hdrops a ha
      exact trivial
    · rw [List.mem_singleton.1 ha]
      exact trivial

theorem eq_nil (h : Waits time u rest v) (hdue : time ≤ u.now) : rest = [] := by
  cases h with
  | due => rfl
  | polls hnow => exact absurd hdue (Nat.not_le.2 hnow)

theorem now (h : Waits time u rest v) : v.now = max u.now time := by
  cases h with
  | due hdue hv =>
    obtain ⟨events, rfl⟩ := hv
    exact (Nat.max_eq_left hdue).symm
  | polls hlt _ _ _ _ hnow => rw [hnow, Nat.max_eq_right hlt.le]

theorem log (h : Waits time u rest v) :
    v.log.script = u.log.script ∧ v.log.committed = u.log.committed := by
  cases h with
  | due _ hv =>
    obtain ⟨events, rfl⟩ := hv
    exact ⟨rfl, rfl⟩
  | polls _ _ _ _ hlog => rw [hlog]; exact ⟨rfl, rfl⟩

theorem note (h : Waits time u rest v) (level : Level) (text : String) :
    Waits time u rest (v.note level text) := by
  cases h with
  | due hdue hv => exact .due hdue (hv.note level text)
  | polls hlt hdrops hcount hhistory hlog hnow => exact .polls hlt hdrops hcount hhistory hlog hnow

end Waits

theorem passTo_drops (w : Pipeline) (t : Nat) :
    ∃ drops, (w.passTo t).history = w.history ++ drops ∧
      ∀ a ∈ drops, ∃ keys, a = .dropped keys := by
  obtain ⟨drops, hdrops, hshown⟩ := w.adds_passTo t
  refine ⟨drops, hdrops, fun a ha => ?_⟩
  have hs : ¬ a.shows = true := List.filter_eq_nil_iff.1 hshown a ha
  cases a <;> first | exact ⟨_, rfl⟩ | exact absurd rfl hs

theorem cover_count {left every : Nat} (hleft : 0 < left) (hevery : 0 < every) :
    ((left + every - 1) / every - 1) * every < left ∧
      left ≤ (left + every - 1) / every * every := by
  have hdiv := Nat.div_add_mod (left + every - 1) every
  have hmod := Nat.mod_lt (left + every - 1) hevery
  rw [Nat.mul_comm] at hdiv
  rw [Nat.sub_mul]
  omega

theorem idleUntil_waits (w : Pipeline) (time : Nat) :
    ∃ rest, w.Waits time rest (w.idleUntil time) := by
  unfold idleUntil
  split
  · rename_i hnow
    obtain ⟨drops, hhistory, hdrops⟩ := w.passTo_drops time
    let count := (time - w.now + w.pollWait - 1) / w.pollWait
    have hcount (hevery : 0 < w.pollWait) := cover_count (Nat.sub_pos_of_lt hnow) hevery
    have hidled : ((w.passTo time).record (.idled count)).history =
        w.history ++ (drops ++ [.idled count]) := by
      rw [history_record, hhistory, List.append_assoc]
    have hcome : (w.passTo time).now = time :=
      (w.now_passTo time).trans (Nat.max_eq_right hnow.le)
    exact ⟨_, .polls hnow hdrops hcount hidled rfl hcome⟩
  · rename_i hdue
    exact ⟨[], .due (Nat.not_lt.1 hdue) (.refl w)⟩

structure Conducts (time : Nat) (w : Pipeline) (rounds : List Round) (rest : List Act)
    (u : Pipeline) : Prop where
  history : u.history = w.history ++ rounds.flatMap Round.acts ++ rest
  lawful : ∀ r ∈ rounds, r.Lawful w.settings.retry.maxAttempts
  /-- Each message that is polled is committed once before the next poll. -/
  asks : ∀ r ∈ rounds, r.acts.filter Act.asksLog = .polled r.polled :: r.commits
  /-- Only the handling of the last message may be interrupted, and nothing is done after that. -/
  interrupted : ∀ r ∈ rounds.dropLast, ¬ r.Interrupted
  last : (∃ r ∈ rounds, r.Interrupted) → rest = []
  idles : ∀ a ∈ rest, a.Idles
  committed : u.log.committed = w.log.committed ++ rounds.filterMap Round.accepted?
  answers :
    rounds.filterMap Round.answer? = w.log.answers (rounds.filterMap Round.answer?).length
  /-- No failure ends the rounds: only the time does, or the end of the script, and then the log is
  polled on until the time comes. -/
  runs : w.log.closed = false → ∃ v, Runs time w rounds v ∧ v.Waits time rest u
  /-- A closed log fails every poll, and that does not end the run either. -/
  closed : w.log.closed = true → w.now < time →
    rounds = [.failed ScriptedLog.closedError] ∧ u.now = time
  script : w.log.closed = false → w.log.script = rounds.map Round.polled ++ u.log.script
  /-- If the time has come before the start, nothing is polled. -/
  late : time ≤ w.now → rounds = [] ∧ rest = []
  now : time ≤ u.now

theorem Conducts.note {rest : List Act} (h : Conducts time w rounds rest u) (level : Level)
    (text : String) : Conducts time w rounds rest (u.note level text) :=
  { h with
    runs := by
      intro hopen
      obtain ⟨v, hruns, hwaits⟩ := h.runs hopen
      exact ⟨v, hruns, hwaits.note level text⟩ }

theorem Conducts.of_runs {rest : List Act} (hopen : w.log.closed = false)
    (h : Runs time w rounds v) (hw : v.Waits time rest u) : Conducts time w rounds rest u where
  history := by rw [hw.history, h.history]
  lawful r hr := h.lawful hr
  asks r hr := (h.lawful hr).asks
  interrupted := h.interrupted.1
  last hi := hw.eq_nil (h.interrupted.2 hi)
  idles := hw.idles
  committed := by rw [hw.log.2, h.committed]
  answers := h.answers
  runs _ := ⟨v, h, hw⟩
  closed hclosed := by rw [hopen] at hclosed; cases hclosed
  script _ := by rw [hw.log.1, h.script]
  late hn := by
    obtain ⟨rfl, rfl⟩ := h.late hn
    exact ⟨rfl, hw.eq_nil hn⟩
  now := hw.now ▸ Nat.le_max_right v.now time

theorem closed_conducts (w : Pipeline) (time : Nat) (hclosed : w.log.closed = true)
    (hn : w.now < time) :
    ∃ rest, Conducts time w [.failed ScriptedLog.closedError] rest
      (({ w.record (.polled (.failed ScriptedLog.closedError)) with log := w.log.idle 1 }.react
        (.cancel time) (.failed ScriptedLog.closedError)).passTo time) := by
  have hopen : ¬ w.log.closed = false := by rw [hclosed]; exact Bool.noConfusion
  -- one poll fails, and time passes without another
  let p : Polled := .failed ScriptedLog.closedError
  let v : Pipeline := { w.record (.polled p) with log := w.log.idle 1 }.react (.cancel time) p
  have hv : v.history = w.history ++ [.polled p] := history_record w _
  have hnow : (v.passTo time).now = time := (v.now_passTo time).trans (Nat.max_eq_right hn.le)
  obtain ⟨drops, hhistory, hdrops⟩ := v.passTo_drops time
  have hround : ¬ Round.Interrupted (.failed ScriptedLog.closedError) := by
    rintro ⟨c, hc, -⟩
    cases hc
  refine ⟨drops, ?_⟩
  exact
    { history := by rw [hhistory, hv]; rfl
      lawful := by
        intro r hr c hc
        rw [List.mem_singleton.1 hr] at hc
        cases hc
      asks := by
        intro r hr
        rw [List.mem_singleton.1 hr]
        rfl
      interrupted := nofun
      last := by
        rintro ⟨r, hr, hi⟩
        exact absurd (List.mem_singleton.1 hr ▸ hi) hround
      idles := by
        intro a ha
        obtain ⟨keys, rfl⟩ := hdrops a ha
        exact trivial
      committed := by
        rw [(v.kept_passTo time).log]
        exact (List.append_nil _).symm
      answers := rfl
      runs := fun h => absurd h hopen
      closed := fun _ _ => ⟨rfl, hnow⟩
      script := fun h => absurd h hopen
      late := fun h => absurd hn (Nat.not_lt.2 h)
      now := hnow.ge }

theorem Conducts.refl (w : Pipeline) {time : Nat} (hn : time ≤ w.now) :
    Conducts time w [] [] w where
  history := by simp
  lawful := nofun
  asks := nofun
  interrupted := nofun
  last _ := rfl
  idles := List.forall_mem_nil _
  committed := (List.append_nil _).symm
  answers := rfl
  runs _ := ⟨w, .stop w (.inr hn), .due hn (.refl w)⟩
  closed _ h := absurd h (Nat.not_lt.2 hn)
  script _ := rfl
  late _ := ⟨rfl, rfl⟩
  now := hn

theorem pollUntil_conducts (w : Pipeline) (time : Nat) :
    ∃ rounds rest, Conducts time w rounds rest (w.pollUntil time) := by
  unfold pollUntil
  split
  · rename_i hclosed
    split
    · rename_i hn
      obtain ⟨rest, hc⟩ := w.closed_conducts time hclosed hn
      exact ⟨_, rest, hc⟩
    · rename_i hn
      exact ⟨[], [], .refl w (Nat.not_lt.1 hn)⟩
  · rename_i hopen
    obtain ⟨rounds, u, hruns, he⟩ := consume_runs time w.log.script w rfl
    obtain ⟨rest, hwaits⟩ := u.idleUntil_waits time
    rw [he]
    exact ⟨rounds, rest, .of_runs (Bool.eq_false_iff.2 hopen) hruns hwaits⟩

/-- What a run does before its first poll: purges may fall due from now on, and its start is noted. -/
def Opens (w v : Pipeline) : Prop := ∃ nextPurge, { w with nextPurge }.Noted v

theorem startCleaning_opens (w : Pipeline) : w.Opens w.startCleaning := by
  unfold startCleaning
  dsimp only
  split
  · exact ⟨w.nextPurge, (Noted.refl w).note _ _⟩
  · split
    · exact ⟨w.nextPurge, .refl w⟩
    · exact ⟨_, .refl _⟩

theorem startCleaning_same (w : Pipeline) :
    w.startCleaning.trace = w.trace ∧ w.startCleaning.settings = w.settings ∧
      w.startCleaning.log = w.log := by
  obtain ⟨nextPurge, events, hw⟩ := w.startCleaning_opens
  rw [hw]
  exact ⟨rfl, rfl, rfl⟩

/-- Until whatever time it runs, a run commits each message it polls once before it polls the next,
but for the last one, whose handling the time may interrupt, and it polls until that time. -/
theorem runUntil_conducts (w : Pipeline) (time : Nat) :
    ∃ v rounds rest, w.Opens v ∧ Conducts time v rounds rest (w.runUntil time) := by
  obtain ⟨nextPurge, hv⟩ := w.startCleaning_opens
  obtain ⟨rounds, rest, hc⟩ :=
    (w.startCleaning.note .info "Ingestion pipeline started").pollUntil_conducts time
  exact ⟨_, rounds, rest, ⟨nextPurge, hv.note _ _⟩, hc.note _ _⟩

end Pipeline

end OrderDesk
