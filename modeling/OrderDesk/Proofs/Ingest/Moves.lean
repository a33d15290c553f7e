import OrderDesk.Ingest.Processing
import OrderDesk.Proofs.Desk.Contents
import OrderDesk.Proofs.Ingest.Memory

/-!
Moves of a pipeline that handles a message. Each move shows the acts it adds, and what attempts show
is told by the retry policy alone. Purges fall due at any time and are not shown.
-/

namespace OrderDesk

/-- The order of a message that can be read and breaks no rule. -/
def Message.order? (m : Message) : Option Order :=
  match Wire.decodeOrder m.bytes with
  | .ok o => match o.validate with
    | .ok () => some o
    | .error _ => none
  | .error _ => none

def Message.written? (m : Message) : Act → Option Order
  | .answered _ (.ok ()) => m.order?
  | _ => none

def Stop.Closes : Stop → Prop
  | .close _ => True
  | _ => False

def Act.shows : Act → Bool
  | .dropped _ => false
  | _ => true

namespace Act

def isCall : Act → Bool
  | .called .. => true
  | _ => false

def reply? : Act → Option (Except OrderError Unit)
  | .answered _ r => some r
  | _ => none

def replies (as : List Act) : List (Except OrderError Unit) := as.filterMap reply?

end Act

inductive Cause where
  | duplicate
  | malformed
  | invalid
  | processed
  | rejected (e : OrderError)
  | exhausted (e : OrderError)

/-- What attempts show, at most `left` of them after a latest failure, and what they come to: nothing
if they are interrupted. -/
inductive Tried (o : Order) : Nat → Option OrderError → List Act → Option Cause → Prop where
  | exhausted (last) : Tried o 0 last [] (some (.exhausted (last.getD Pipeline.neverTried)))
  | notCalled (left last) : Tried o (left + 1) last [] none
  | notAnswered (left last t) : Tried o (left + 1) last [.called t o] none
  | processed (left last t u) :
      Tried o (left + 1) last [.called t o, .answered u (.ok ())] (some .processed)
  | rejected (left last t u e) (he : e.isTemporary = false) :
      Tried o (left + 1) last [.called t o, .answered u (.error e)] (some (.rejected e))
  | again (left last t u e acts cause) (he : e.isTemporary = true)
      (h : Tried o left (some e) acts cause) :
      Tried o (left + 1) last (.called t o :: .answered u (.error e) :: acts) cause

theorem Tried.ne_duplicate {o : Order} {left : Nat} {last : Option OrderError} {acts : List Act}
    {cause : Option Cause} (h : Tried o left last acts cause) : cause ≠ some .duplicate := by
  induction h with
  | again left last t u e acts cause he h ih => exact ih
  | _ => nofun

namespace Pipeline

inductive Move (m : Message) (stop : Stop) : Pipeline → List Act → Pipeline → Prop where
  | note (w level text) : Move m stop w [] (w.note level text)
  | count (w c) : Move m stop w [] (w.count c)
  | pass (w t) : Move m stop w [] (w.passTo t)
  | interrupt (w) : Move m stop w [] (w.interrupt stop)
  | call (w o) (ho : m.order? = some o) : Move m stop w [.called w.now o] (w.call o)
  | fail (w e) :
      Move m stop w [.answered w.now (.error e)] (w.record (.answered w.now (.error e)))
  | persist (w o) (ho : m.order? = some o) :
      Move m stop w [.answered w.now (w.access (Desk.persist o)).1]
        ((w.access (Desk.persist o)).2.record (.answered w.now (w.access (Desk.persist o)).1))

inductive Moves (m : Message) (stop : Stop) : Pipeline → List Act → Pipeline → Prop where
  | refl (w) : Moves m stop w [] w
  | step {w u v as bs} (h : Move m stop w as u) (hs : Moves m stop u bs v) :
      Moves m stop w (as ++ bs) v

variable {m : Message} {o : Order} {stop : Stop} {w u v : Pipeline} {as bs : List Act}

theorem Move.moves (h : Move m stop w as u) : Moves m stop w as u := by
  have hs := Moves.step h (.refl u)
  rwa [List.append_nil] at hs

theorem Moves.trans (h : Moves m stop w as u) (hs : Moves m stop u bs v) :
    Moves m stop w (as ++ bs) v := by
  induction h with
  | refl w => exact hs
  | step h _ ih =>
    rw [List.append_assoc]
    exact .step h (ih hs)

/-! ## Attempts -/

theorem waitUntil_moves (w : Pipeline) (m : Message) (t : Nat) (stop : Stop) :
    Moves m stop w [] (w.waitUntil t stop).2 := by
  simp only [waitUntil]
  split
  · exact (Move.interrupt w).moves
  · exact (Move.pass w t).moves

theorem now_passTo (w : Pipeline) (t : Nat) : (w.passTo t).now = max w.now t := by
  rcases w.passTo_eq t with ⟨next, he⟩ | he <;> rw [he]

theorem due_of_waitUntil {t : Nat} (h : w.waitUntil t stop = (false, u)) :
    stop.due u.now = true := by
  unfold waitUntil at h
  split at h
  · rename_i hd
    obtain rfl : w.interrupt stop = u := congrArg Prod.snd h
    cases stop with
    | never => simp [Stop.due] at hd
    | cancel d => simp [interrupt, Stop.due, now_passTo]
    | close d => simp [interrupt, close, record, note, Stop.due, now_passTo]
  · simp at h

theorem backOff_moves (w : Pipeline) (m : Message) (n : Nat) (stop : Stop) :
    Moves m stop w [] (w.backOff n stop).2 := by
  unfold backOff
  split
  · exact .refl w
  · exact .step (.note ..) (.step (.count ..) (waitUntil_moves ..))

theorem due_of_backOff {n : Nat} (h : w.backOff n stop = (false, u)) : stop.due u.now = true := by
  unfold backOff at h
  split at h
  · simp at h
  · exact due_of_waitUntil h

theorem finishTurn_cases (w : Pipeline) (o : Order) (turn : Turn) :
    (∃ e, w.finishTurn o turn = (.error e, w)) ∨
      w.finishTurn o turn = w.access (Desk.persist o) := by
  simp only [finishTurn]
  split
  · exact .inl ⟨_, rfl⟩
  · cases turn.error with
    | some e => exact .inl ⟨e, rfl⟩
    | none => exact .inr rfl

theorem answer_moves (w : Pipeline) (ho : m.order? = some o) (stop : Stop) (turn : Turn) :
    Moves m stop w [.answered w.now (w.answer o turn).1] (w.answer o turn).2 := by
  unfold answer
  rcases w.finishTurn_cases o turn with ⟨e, he⟩ | he <;> rw [he]
  · exact (Move.fail w e).moves
  · exact (Move.persist w o ho).moves

theorem takeTurn_moves (w : Pipeline) (ho : m.order? = some o) (turn : Turn) (stop : Stop) :
    match w.takeTurn o turn stop with
    | (none, u) => stop.due u.now = true ∧ Moves m stop w [] u
    | (some r, u) => ∃ t, Moves m stop w [.answered t r] u := by
  unfold takeTurn
  generalize w.wakeAfter _ = wake
  have hstall := waitUntil_moves w m wake stop
  rcases hf : w.waitUntil wake stop with ⟨_ | _, u⟩
  · rw [hf] at hstall
    exact ⟨due_of_waitUntil hf, hstall⟩
  · rw [hf] at hstall
    exact ⟨_, hstall.trans (answer_moves u ho stop turn)⟩

theorem attempt_moves (w : Pipeline) (ho : m.order? = some o) (stop : Stop) :
    match w.attempt o stop with
    | (none, u) => stop.due u.now = true ∧
        (Moves m stop w [] u ∨ ∃ t, Moves m stop w [.called t o] u)
    | (some r, u) => ∃ t t', Moves m stop w [.called t o, .answered t' r] u := by
  unfold attempt
  have hready := waitUntil_moves w m w.now stop
  rcases hw : w.waitUntil w.now stop with ⟨_ | _, u⟩
  · rw [hw] at hready
    exact ⟨due_of_waitUntil hw, .inl hready⟩
  · rw [hw] at hready
    have hcall := hready.trans (Move.call u o ho).moves
    have hturn := takeTurn_moves (u.call o) ho u.nextTurn stop
    dsimp only
    generalize (u.call o).takeTurn o u.nextTurn stop = x at hturn ⊢
    match x with
    | (none, v) => exact ⟨hturn.1, .inr ⟨_, hcall.trans hturn.2⟩⟩
    | (some r, v) =>
      obtain ⟨t, hanswer⟩ := hturn
      exact ⟨_, t, hcall.trans hanswer⟩

/-! ## What moves keep -/

structure Kept (w u : Pipeline) : Prop where
  settings : u.settings = w.settings
  stopped : u.stopped = w.stopped
  log : u.log = w.log

theorem Kept.refl (w : Pipeline) : w.Kept w := ⟨rfl, rfl, rfl⟩

theorem Kept.trans (h : w.Kept u) (hs : u.Kept v) : w.Kept v :=
  ⟨hs.settings.trans h.settings, hs.stopped.trans h.stopped, hs.log.trans h.log⟩

theorem kept_cleanUp (w : Pipeline) : w.Kept w.cleanUp := by
  simp only [cleanUp]
  split <;> exact ⟨rfl, rfl, rfl⟩

theorem kept_passTo (w : Pipeline) (t : Nat) : w.Kept (w.passTo t) := by
  have hc := w.kept_cleanUp
  rcases w.passTo_eq t with ⟨next, he⟩ | he <;> rw [he]
  · exact ⟨hc.settings, hc.stopped, hc.log⟩
  · exact ⟨rfl, rfl, rfl⟩

theorem Move.kept (h : Move m stop w as u) (hs : ¬ stop.Closes) : w.Kept u := by
  cases h with
  | pass t => exact w.kept_passTo t
  | interrupt =>
    cases stop with
    | never => exact .refl w
    | cancel d => exact w.kept_passTo d
    | close d => exact absurd trivial hs
  | _ => exact ⟨rfl, rfl, rfl⟩

theorem Moves.kept (h : Moves m stop w as u) (hs : ¬ stop.Closes) : w.Kept u := by
  induction h with
  | refl w => exact .refl w
  | step h _ ih => exact (h.kept hs).trans ih

def Adds (w : Pipeline) (shown : List Act) (u : Pipeline) : Prop :=
  ∃ during, u.history = w.history ++ during ∧ during.filter Act.shows = shown

theorem Adds.of_trace (h : u.trace = w.trace) : w.Adds [] u :=
  ⟨[], by rw [history, h, List.append_nil, history], rfl⟩

theorem Adds.trans (h : w.Adds as u) (hs : u.Adds bs v) : w.Adds (as ++ bs) v := by
  obtain ⟨during, he, rfl⟩ := h
  obtain ⟨after, hf, rfl⟩ := hs
  exact ⟨during ++ after, by rw [hf, he, List.append_assoc], List.filter_append ..⟩

theorem adds_record (w : Pipeline) {a : Act} (ha : a.shows = true) : w.Adds [a] (w.record a) :=
  ⟨[a], history_record w a, by rw [List.filter_cons_of_pos ha, List.filter_nil]⟩

theorem adds_passTo (w : Pipeline) (t : Nat) : w.Adds [] (w.passTo t) := by
  have hc : w.Adds [] w.cleanUp := by
    have hp : w.Adds [] (w.purge w.settings.maxAge).2 := ⟨[_], history_record w _, rfl⟩
    simp only [cleanUp]
    split <;> exact hp
  rcases w.passTo_eq t with ⟨next, he⟩ | he <;> rw [he]
  · exact hc
  · exact .of_trace rfl

theorem Move.adds (h : Move m stop w as u) (hs : ¬ stop.Closes) : w.Adds as u := by
  cases h with
  | note | count => exact .of_trace rfl
  | pass t => exact w.adds_passTo t
  | interrupt =>
    cases stop with
    | never => exact .of_trace rfl
    | cancel d => exact w.adds_passTo d
    | close d => exact absurd trivial hs
  | call | fail | persist => exact adds_record _ rfl

theorem Moves.adds (h : Moves m stop w as u) (hs : ¬ stop.Closes) : w.Adds as u := by
  induction h with
  | refl w => exact .of_trace rfl
  | step h _ ih => exact (h.adds hs).trans ih

theorem Move.tracked (h : Move m stop w as u) (hs : ¬ stop.Closes) (ht : w.Tracked) :
    u.Tracked := by
  have hrecord {a : Act} (ha : (∀ key, a ≠ .marked key) ∧ ∀ key, ¬ a.Forgets key) :
      (w.record a).Tracked := ht.record ha.1 ha.2
  cases h with
  | note | count => exact ht.of_eq rfl rfl
  | pass t => exact ht.passTo t
  | interrupt =>
    cases stop with
    | never => exact ht
    | cancel d => exact ht.passTo d
    | close d => exact absurd trivial hs
  | call => exact (hrecord (a := .called w.now _) ⟨fun _ => nofun, fun _ => id⟩).of_eq rfl rfl
  | fail | persist =>
    exact (hrecord (a := .answered w.now _) ⟨fun _ => nofun, fun _ => id⟩).of_eq rfl rfl

theorem Moves.tracked (h : Moves m stop w as u) (hs : ¬ stop.Closes) (ht : w.Tracked) :
    u.Tracked := by
  induction h with
  | refl w => exact ht
  | step h _ ih => exact ih (h.tracked hs ht)

/-! ## What moves write -/

theorem store_passTo (w : Pipeline) (t : Nat) : (w.passTo t).desk.store = w.desk.store := by
  have hc : w.cleanUp.desk.store = w.desk.store := by
    simp only [cleanUp]
    split <;> rfl
  rcases w.passTo_eq t with ⟨next, he⟩ | he <;> rw [he]
  exact hc

theorem cache_passTo (w : Pipeline) (t : Nat) : (w.passTo t).desk.cache = w.desk.cache := by
  have hc : w.cleanUp.desk.cache = w.desk.cache := by
    simp only [cleanUp]
    split <;> rfl
  rcases w.passTo_eq t with ⟨next, he⟩ | he <;> rw [he]
  exact hc

theorem Move.writes (h : Move m stop w as u) :
    u.desk.store.contents = w.desk.store.contents.replay (as.filterMap m.written?) := by
  cases h with
  | pass t => exact congrArg Store.contents (w.store_passTo t)
  | interrupt =>
    cases stop with
    | never => rfl
    | cancel d => exact congrArg Store.contents (w.store_passTo d)
    | close d => exact congrArg Store.contents (w.store_passTo d)
  | persist o ho =>
    have hp := Desk.contents_persist w.desk o
    change ((w.access (Desk.persist o)).2).desk.store.contents = _
    unfold access
    cases hr : (Desk.persist o).run w.desk with
    | mk r d =>
      rw [hr] at hp
      cases r with
      | ok => simpa [Message.written?, ho, Contents.replay] using hp
      | error e => exact hp
  | _ => rfl

theorem Moves.writes (h : Moves m stop w as u) :
    u.desk.store.contents = w.desk.store.contents.replay (as.filterMap m.written?) := by
  induction h with
  | refl w => rfl
  | step h _ ih => rw [ih, h.writes, List.filterMap_append, Contents.replay_append]

/-! ## What is counted -/

theorem counted_passTo (w : Pipeline) (t : Nat) : (w.passTo t).desk.counted = w.desk.counted := by
  have hc : w.cleanUp.desk.counted = w.desk.counted := by
    simp only [cleanUp]
    split <;> rfl
  rcases w.passTo_eq t with ⟨next, he⟩ | he <;> rw [he]
  exact hc

theorem counted_waitUntil (w : Pipeline) (t : Nat) (stop : Stop) :
    (w.waitUntil t stop).2.desk.counted = w.desk.counted := by
  unfold waitUntil
  split
  · cases stop with
    | never => rfl
    | cancel d => exact w.counted_passTo d
    | close d => exact w.counted_passTo d
  · exact w.counted_passTo t

theorem counted_backOff {n : Nat} {before : List Counter}
    (h : w.desk.counted = List.replicate (n - 1) .retry ++ before) (stop : Stop) :
    (w.backOff n stop).2.desk.counted = List.replicate n .retry ++ before := by
  cases n with
  | zero => exact h
  | succ n =>
    have hretry : (Counter.retry :: w.desk.counted) = List.replicate (n + 1) .retry ++ before :=
      congrArg (Counter.retry :: ·) h
    rw [← hretry, backOff, if_neg (Nat.succ_ne_zero n)]
    exact counted_waitUntil ..

theorem counted_persist (d : Desk) (o : Order) :
    ((Desk.persist o).run d).2.counted = d.counted := by
  simp only [Desk.persist, Access.run_bind, Access.run_perform, Step.run]
  cases (d.store.upsert o).1 <;> rfl

theorem counted_answer (w : Pipeline) (o : Order) (turn : Turn) :
    (w.answer o turn).2.desk.counted = w.desk.counted := by
  unfold answer
  rcases w.finishTurn_cases o turn with ⟨e, he⟩ | he <;> rw [he]
  · rfl
  · exact counted_persist w.desk o

theorem counted_takeTurn (w : Pipeline) (o : Order) (turn : Turn) (stop : Stop) :
    (w.takeTurn o turn stop).2.desk.counted = w.desk.counted := by
  unfold takeTurn
  generalize w.wakeAfter _ = wake
  have hstall := w.counted_waitUntil wake stop
  rcases hw : w.waitUntil wake stop with ⟨_ | _, u⟩ <;> rw [hw] at hstall
  · exact hstall
  · exact (u.counted_answer o turn).trans hstall

theorem counted_attempt (w : Pipeline) (o : Order) (stop : Stop) :
    (w.attempt o stop).2.desk.counted = w.desk.counted := by
  unfold attempt
  have hready := w.counted_waitUntil w.now stop
  rcases hw : w.waitUntil w.now stop with ⟨_ | _, u⟩ <;> rw [hw] at hready
  · exact hready
  · exact ((u.call o).counted_takeTurn o u.nextTurn stop).trans hready

end Pipeline

def Message.written (m : Message) : Option Cause → List Order
  | some .processed => m.order?.toList
  | _ => []

theorem Tried.written {m : Message} {o : Order} {left : Nat} {last : Option OrderError}
    {acts : List Act} {cause : Option Cause} (h : Tried o left last acts cause) :
    acts.filterMap m.written? = m.written cause := by
  induction h with
  | exhausted | notCalled | notAnswered | rejected => rfl
  | processed left last t u =>
    have hanswer : m.written? (.answered u (.ok ())) = m.order? := rfl
    rw [List.filterMap_cons_none rfl, Message.written]
    cases ho : m.order? with
    | none => exact List.filterMap_cons_none (hanswer.trans ho)
    | some b => exact List.filterMap_cons_some (hanswer.trans ho)
  | again left last t u e acts cause he h ih => exact ih

end OrderDesk
