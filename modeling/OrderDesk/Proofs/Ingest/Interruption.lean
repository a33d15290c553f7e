import OrderDesk.Ingest.Run
import OrderDesk.Order.Sample
import OrderDesk.Proofs.Ingest.Progress

/-!
Interruption. A stop that comes before the last reply ends a message at once: its handler is not
called any more, it is not committed, and nothing is kept of it. A later stop changes nothing.
-/

namespace OrderDesk

def Stop.shown : Stop → List Act
  | .close _ => [.closed]
  | _ => []

theorem Turn.reply_error (turn : Turn) (timeout : Span) (o : Order) (s : Store)
    (h : (turn.reply timeout o s).1.Temporary) :
    (turn.reply timeout o s).2.shelf = s.shelf ∧ (turn.reply timeout o s).2.given = s.given := by
  obtain ⟨e, he, -⟩ := h
  revert he
  unfold reply
  split
  · exact fun _ => ⟨rfl, rfl⟩
  · split
    · exact fun _ => ⟨rfl, rfl⟩
    · unfold Store.upsert
      dsimp only
      split
      · exact fun _ => ⟨rfl, rfl⟩
      · intro he
        cases he

namespace Pipeline

variable {w u v : Pipeline} {m : Message} {o : Order} {stop : Stop} {j k n r t : Nat}

theorem storeAt_of_temporary (h : ∀ i < n, (w.reply o i).Temporary) :
    (w.storeAt o n).shelf = w.desk.store.shelf ∧ (w.storeAt o n).given = w.desk.store.given := by
  induction n with
  | zero => exact ⟨rfl, rfl⟩
  | succ n ih =>
    obtain ⟨hshelf, hgiven⟩ := ih fun i hi => h i (Nat.lt_succ_of_lt hi)
    obtain ⟨hsame, hcount⟩ := Turn.reply_error _ _ o _ (h n (Nat.lt_succ_self n))
    exact ⟨hsame.trans hshelf, hcount.trans hgiven⟩

structure Halts (stop : Stop) (w u : Pipeline) : Prop where
  calls : u.calls = w.calls
  store : u.desk.store = w.desk.store
  cache : u.desk.cache = w.desk.cache
  counted : u.desk.counted = w.desk.counted
  log : u.log = w.log ∨ stop.Closes ∧ u.log = w.log.close
  tells : w.Tells stop.shown u
  undisturbed : ¬ stop.Closes → w.Undisturbed u

theorem halts_interrupt (w : Pipeline) (stop : Stop) : Halts stop w (w.interrupt stop) := by
  have hpass (d : Nat) := w.rests_passTo d
  cases stop with
  | never => exact ⟨rfl, rfl, rfl, rfl, .inl rfl, .of_eq rfl rfl, fun _ => .of_eq rfl rfl rfl⟩
  | cancel d =>
    exact ⟨(hpass d).calls, (hpass d).store, (hpass d).cache, (hpass d).counted,
      .inl (hpass d).kept.log, (hpass d).tells, fun _ => (hpass d).undisturbed⟩
  | close d =>
    have hclose : (w.passTo d).Tells [.closed] (w.passTo d).close := by
      refine ⟨[.closed], history_record _ _, rfl, fun key => ?_⟩
      simp [close, ProcessedKeys.contains, ProcessedKeys.empty, Act.Forgets]
    exact ⟨(hpass d).calls, (hpass d).store, (hpass d).cache, (hpass d).counted,
      .inr ⟨trivial, congrArg ScriptedLog.close (hpass d).kept.log⟩, (hpass d).tells.trans hclose,
      fun hnot => absurd trivial hnot⟩

structure Interrupted (w : Pipeline) (m : Message) (o : Order) (stop : Stop) (j n : Nat)
    (x : Except OrderError Outcome × Pipeline) : Prop where
  answer : x.1 = .ok .cancelled
  /-- The calls are those that were due before the stop. -/
  calls : x.2.calls = w.calls ++ (List.range j).map fun i => ⟨w.callTime o i, o.uid⟩
  before : ∀ i, i < j ↔ stop.due (w.callTime o i) = false
  replies : ∀ i, i < n ↔ stop.due (w.answerTime o i) = false
  /-- Nothing is committed or marked, and no key is lost but to a purge or to closing. -/
  tells : w.Tells (.began m :: w.dialogue o j n ++ stop.shown ++
    [.ended x.2.now m (.ok .cancelled)]) x.2
  undisturbed : ¬ stop.Closes → w.Undisturbed x.2
  log : x.2.log = w.log ∨ stop.Closes ∧ x.2.log = w.log.close
  shelf : x.2.desk.store.shelf = w.desk.store.shelf
  given : x.2.desk.store.given = w.desk.store.given
  cache : x.2.desk.cache = w.desk.cache
  counted : ∃ retries, x.2.desk.counted =
    .message .cancelled :: List.replicate retries .retry ++ w.desk.counted

theorem exists_interrupted (hk : w.keys.contains m.processedKey = false) (ho : m.order? = some o)
    (hlast : w.LastAttempt o k) (hdue : stop.due (w.answerTime o k) = true) :
    ∃ j n, Interrupted w m o stop j n (w.process m stop) := by
  obtain ⟨j, n, t, r, v, hv, hnk, hbefore, hreplies, hprocess⟩ := process_stopped hk ho hlast hdue
  have htemporary (i : Nat) (hi : i < n) : (w.reply o i).Temporary :=
    hlast.before i (hi.trans_le hnk)
  have hhalt := v.halts_interrupt stop
  obtain ⟨hshelf, hgiven⟩ := storeAt_of_temporary htemporary
  refine ⟨j, n, ?_⟩
  rw [hprocess]
  constructor
  case answer => rfl
  case calls => exact hhalt.calls.trans hv.calls
  case before => exact hbefore
  case replies => exact hreplies
  case tells =>
    have hended : (v.interrupt stop).Tells [.ended (v.interrupt stop).now m (.ok .cancelled)]
        ((v.interrupt stop).abandon.2.record _) :=
      Tells.trans (.of_eq rfl rfl) (tells_record _ rfl fun _ => id)
    exact (hv.tells.trans hhalt.tells).trans hended
  case undisturbed =>
    intro hnot
    exact (hv.undisturbed.trans (hhalt.undisturbed hnot)).trans (.of_eq rfl rfl rfl)
  case log =>
    have hlog := hhalt.log
    rw [hv.kept.log] at hlog
    exact hlog
  case shelf => exact (congrArg Store.shelf (hhalt.store.trans hv.store)).trans hshelf
  case given => exact (congrArg Store.given (hhalt.store.trans hv.store)).trans hgiven
  case cache =>
    refine hhalt.cache.trans (hv.cache fun i hi hok => ?_)
    obtain ⟨e, he, -⟩ := htemporary i hi
    rw [he] at hok
    cases hok
  case counted =>
    exact ⟨r, congrArg (Counter.message .cancelled :: ·) (hhalt.counted.trans hv.counted)⟩

theorem carry_of_order_none (hk : w.keys.contains m.processedKey = false) (hm : m.order? = none) :
    ∃ level text outcome, ∀ stop, w.carry m stop = (w.note level text).drop m outcome := by
  have hnew : ¬ w.keys.contains m.processedKey = true := Bool.eq_false_iff.1 hk
  unfold Message.order? at hm
  unfold carry
  simp only [if_neg hnew]
  cases hd : Wire.decodeOrder m.bytes with
  | error e => exact ⟨_, _, _, fun stop => rfl⟩
  | ok o =>
    rw [hd] at hm
    dsimp only at hm ⊢
    cases hv : o.validate with
    | error vs => exact ⟨_, _, _, fun stop => rfl⟩
    | ok =>
      rw [hv] at hm
      cases hm

theorem process_unhandled (h : w.keys.contains m.processedKey = true ∨ m.order? = none)
    (stop : Stop) : w.process m stop = w.process m .never := by
  have hcarry : (w.record (.began m)).carry m stop = (w.record (.began m)).carry m .never := by
    cases hk : w.keys.contains m.processedKey with
    | true =>
      have hskip (stop : Stop) :
          (w.record (.began m)).carry m stop = (w.record (.began m)).skip m := if_pos hk
      rw [hskip, hskip]
    | false =>
      have hm := h.resolve_left (Bool.eq_false_iff.1 hk)
      obtain ⟨level, text, outcome, hdrop⟩ := (w.record (.began m)).carry_of_order_none hk hm
      rw [hdrop, hdrop]
  rw [process, process, hcarry]

/-! ## Closed pipelines -/

structure Shut (w : Pipeline) : Prop where
  stopped : w.stopped = true
  closed : w.log.closed = true
  forgotten : ∀ key, w.keys.contains key = false

/-- What may become of a pipeline that was closed. In the meantime others may change anything but
that it is closed and what it remembers. -/
inductive Later (w : Pipeline) : Pipeline → Prop where
  | close : Later w w.close
  | again {v : Pipeline} (h : Later w v) : Later w v.close
  | processMessage {v : Pipeline} (h : Later w v) (m : Message) : Later w (v.processMessage m).2
  | processAndClose {v : Pipeline} (h : Later w v) (m : Message) (after : Nat) :
      Later w (v.processAndClose m after).2
  | run {v : Pipeline} (h : Later w v) (forMillis : Nat) (cancelled : Bool) :
      Later w (v.run forMillis cancelled)
  | pass {v : Pipeline} (h : Later w v) (t : Nat) : Later w (v.passTo t)
  | purge {v : Pipeline} (h : Later w v) (age : Span) : Later w (v.purge age).2
  | meanwhile {v u : Pipeline} (h : Later w v) (hkeys : u.keys = v.keys)
      (hstopped : u.stopped = v.stopped) (hclosed : u.log.closed = v.log.closed) : Later w u

namespace Shut

theorem of_close (w : Pipeline) : w.close.Shut := ⟨rfl, rfl, fun _ => rfl⟩

theorem of_eq (h : w.Shut) (hkeys : u.keys = w.keys) (hstopped : u.stopped = w.stopped)
    (hclosed : u.log.closed = w.log.closed) : u.Shut :=
  ⟨hstopped.trans h.stopped, hclosed.trans h.closed, fun key => hkeys ▸ h.forgotten key⟩

theorem of_tells {as : List Act} (h : w.Shut) (ht : w.Tells as u) (hstopped : u.stopped = w.stopped)
    (hlog : u.log = w.log) : u.Shut where
  stopped := hstopped.trans h.stopped
  closed := by
    rw [hlog]
    exact h.closed
  forgotten key := by
    obtain ⟨during, -, -, hkeys⟩ := ht
    have hnot := hkeys key
    rw [h.forgotten key] at hnot
    simpa using hnot

theorem passTo (h : w.Shut) (t : Nat) : (w.passTo t).Shut :=
  h.of_tells (w.tells_passTo t) (w.kept_passTo t).stopped (w.kept_passTo t).log

theorem drop (h : w.Shut) (m : Message) (outcome : Outcome) : (w.drop m outcome).2.Shut := by
  have hclosed : (w.log.commit m).2.closed = w.log.closed := by
    unfold ScriptedLog.commit
    split <;> rfl
  have hasked : (w.askCommit m).2.Shut := h.of_eq rfl rfl hclosed
  unfold Pipeline.drop
  rcases w.commit_cases m "after dropping message" with ⟨-, he⟩ | ⟨-, he⟩ <;> rw [he]
  · exact hasked.of_eq rfl rfl rfl
  · exact hasked.of_eq rfl rfl rfl

theorem interrupted (h : w.Shut) (ho : m.order? = some o) :
    Interrupted w m o (.cancel 0) 0 0 (w.processMessage m) := by
  obtain ⟨k, hlast⟩ := w.exists_lastAttempt o
  have hdue (t : Nat) : (Stop.cancel 0).due t = true := decide_eq_true (Nat.zero_le t)
  obtain ⟨j, n, hx⟩ := exists_interrupted (h.forgotten m.processedKey) ho hlast (hdue _)
  have hnone {k : Nat} {f : Nat → Nat} (hk : ∀ i, i < k ↔ (Stop.cancel 0).due (f i) = false) :
      k = 0 := by
    by_contra hne
    have hfirst := (hk 0).1 (Nat.pos_of_ne_zero hne)
    rw [hdue] at hfirst
    cases hfirst
  obtain rfl := hnone hx.before
  obtain rfl := hnone hx.replies
  rw [processMessage, if_pos h.stopped]
  exact hx

theorem processMessage (h : w.Shut) (m : Message) : (w.processMessage m).2.Shut := by
  cases ho : m.order? with
  | some o =>
    have hx := h.interrupted ho
    have hstopped : (w.process m (.cancel 0)).2.stopped = w.stopped := by
      have hopen : ¬ (Stop.cancel 0).Closes := id
      obtain ⟨c, -, -, hfollows⟩ := w.process_follows m hopen
      exact hfollows.stopped
    refine h.of_tells hx.tells ?_ (hx.log.resolve_right fun hlog => hlog.1)
    rw [Pipeline.processMessage, if_pos h.stopped]
    exact hstopped
  | none =>
    obtain ⟨level, text, outcome, hdrop⟩ :=
      (w.record (.began m)).carry_of_order_none (h.forgotten m.processedKey) ho
    rw [Pipeline.processMessage, process, hdrop]
    have hbegan : ((w.record (.began m)).note level text).Shut := h.of_eq rfl rfl rfl
    exact (hbegan.drop m outcome).of_eq rfl rfl rfl

theorem processAndClose (h : w.Shut) (m : Message) (after : Nat) :
    (w.processAndClose m after).2.Shut := by
  unfold Pipeline.processAndClose
  dsimp only
  split
  · exact (of_close w).processMessage m
  · rw [if_pos h.stopped]
    exact of_close _

theorem run (h : w.Shut) (forMillis : Nat) (cancelled : Bool) :
    (w.run forMillis cancelled).Shut := by
  have hclean : w.startCleaning.Shut := by
    unfold startCleaning
    dsimp only
    split
    · exact h.of_eq rfl rfl rfl
    · rw [if_pos (.inr h.stopped)]
      exact h
  have hpoll (time : Nat) :
      ((w.startCleaning.note .info "Ingestion pipeline started").pollUntil time).Shut := by
    have hstarted : (w.startCleaning.note .info "Ingestion pipeline started").Shut :=
      hclean.of_eq rfl rfl rfl
    unfold pollUntil
    rw [if_pos hstarted.closed]
    split
    · refine passTo ?_ time
      exact hstarted.of_eq rfl rfl rfl
    · exact hstarted
  refine passTo ?_ _
  exact (hpoll _).of_eq rfl rfl rfl

end Shut

theorem Later.shut (h : w.Later v) : v.Shut := by
  induction h with
  | close => exact .of_close w
  | again h ih => exact .of_close _
  | processMessage h m ih => exact ih.processMessage m
  | processAndClose h m after ih => exact ih.processAndClose m after
  | run h forMillis cancelled ih => exact ih.run forMillis cancelled
  | pass h t ih => exact ih.passTo t
  | purge h age ih => exact ih.of_tells (tells_purge _ age) rfl rfl
  | meanwhile h hkeys hstopped hclosed ih => exact ih.of_eq hkeys hstopped hclosed

/-! ## Stops -/

/-- Whatever a pipeline holds, a stop ends the handling of a message cleanly, or not at all. -/
structure StopsCleanly (w : Pipeline) : Prop where
  handled : ∀ m o, w.keys.contains m.processedKey = false → m.order? = some o →
    ∃ k, w.LastAttempt o k ∧ ∀ stop : Stop,
      (stop.due (w.answerTime o k) = true → ∃ j n, Interrupted w m o stop j n (w.process m stop)) ∧
      (stop.due (w.answerTime o k) = false → w.process m stop = w.process m .never)
  unhandled : ∀ m, w.keys.contains m.processedKey = true ∨ m.order? = none →
    ∀ stop, w.process m stop = w.process m .never
  closed : ∀ v, w.Later v → ∀ m o, m.order? = some o →
    Interrupted v m o (.cancel 0) 0 0 (v.processMessage m)

theorem stopsCleanly (w : Pipeline) : StopsCleanly w := by
  constructor
  case handled =>
    intro m o hk ho
    obtain ⟨k, hlast⟩ := w.exists_lastAttempt o
    refine ⟨k, hlast, fun stop => ⟨exists_interrupted hk ho hlast, fun hdue => ?_⟩⟩
    obtain ⟨v, x, -, -, hrun⟩ := process_last hk ho hlast
    rw [hrun stop hdue, hrun .never rfl]
  case unhandled => exact fun m h stop => process_unhandled h stop
  case closed => exact fun v hv m o ho => hv.shut.interrupted ho

/-- Keys that a message was told from are forgotten when its handling is stopped by closing, and may
have grown too old when it is stopped otherwise. -/
theorem stop_forgets :
    let o := Order.sample "abc" 1
    let m := Message.sample o 1
    let w := { (start .standard false).mark "k" with turns := [⟨20000, none⟩] }
    let u := { w with
      clock := ⟨⟨w.clock.now.nanos + 1800000000001⟩, false⟩
      nextPurge := some 500 }
    w.keys.contains "k" = true ∧ (w.process m (.close 1000)).1 = .ok .cancelled ∧
      (w.process m (.close 1000)).2.keys.contains "k" = false ∧
      (u.process m (.cancel 1000)).1 = .ok .cancelled ∧
      (u.process m (.cancel 1000)).2.keys.contains "k" = false := by
  decide +kernel

end Pipeline

end OrderDesk
