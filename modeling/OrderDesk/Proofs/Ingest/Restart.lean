import OrderDesk.Proofs.Ingest.Redelivery
import OrderDesk.Proofs.Log.Keys

/-!
Restarts. A pipeline that is started again knows no keys and goes on after the last commit, so it may
handle messages again and bring back older versions of orders. At the end of the log nothing of this
is left but the numbers of items: what remains is written over it, in the order of the log.
-/

namespace OrderDesk

def Polled.message? : Polled → Option Message
  | .message m => some m
  | _ => none

def messages (script : List Polled) : List Message := script.filterMap Polled.message?

def orders (ms : List Message) : List Order := ms.filterMap Message.order?

def Ordered (ms : List Message) : Prop := ms.Pairwise fun m n => m.offset < n.offset

instance (ms : List Message) : Decidable (Ordered ms) :=
  inferInstanceAs (Decidable (ms.Pairwise fun m n => m.offset < n.offset))

theorem orders_append (ms ns : List Message) : orders (ms ++ ns) = orders ms ++ orders ns :=
  List.filterMap_append ..

/-! ## What a run writes -/

def Round.written (r : Round) : List Order := (r.course?.map Course.written).getD []

namespace Pipeline

variable {w u : Pipeline} {r : Round} {rounds : List Round} {time : Nat} {rest : List Polled}

theorem Goes.contents (h : Goes time w r u) :
    u.desk.store.contents = w.desk.store.contents.replay r.written := by
  cases h with
  | message h => exact h.contents
  | _ => rfl

theorem Runs.contents (h : Runs time w rounds u) :
    u.desk.store.contents = w.desk.store.contents.replay (rounds.flatMap Round.written) := by
  induction h with
  | stop w => rfl
  | round _ _ hr _ ih =>
    rw [ih, hr.contents, List.flatMap_cons, Contents.replay_append]
    rfl

end Pipeline

def Act.fails : Act → Bool
  | .answered _ (.error _) => true
  | _ => false

def Act.cancels : Act → Bool
  | .ended _ _ (.ok .cancelled) => true
  | _ => false

def Unfailing (h : List Act) : Prop := ∀ a ∈ h, a.fails = false

instance (h : List Act) : Decidable (Unfailing h) := inferInstanceAs (Decidable (∀ a ∈ h, _))

theorem Tried.cause_of_unfailing {o : Order} {left : Nat} {last : Option OrderError}
    {acts : List Act} {cause : Option Cause} (h : Tried o (left + 1) last acts cause)
    (hu : Unfailing acts) : cause = none ∨ cause = some .processed := by
  cases h with
  | notCalled | notAnswered => exact .inl rfl
  | processed => exact .inr rfl
  | rejected _ _ t u e => cases hu (.answered u (.error e)) (by simp)
  | again _ _ t u e => cases hu (.answered u (.error e)) (by simp)

theorem Course.Lawful.written {most : Nat} {c : Course} (h : c.Lawful (most + 1))
    (hu : Unfailing c.acts) (hd : c.ending.cause? ≠ some .duplicate)
    (hi : c.ending ≠ .interrupted) : c.written = orders [c.message] := by
  have hshown : Unfailing (c.during.filter Act.shows) := by
    intro a ha
    refine hu a ?_
    simp [Course.acts, List.mem_of_mem_filter ha]
  have hcause : c.ending.cause? ≠ none := by
    intro hn
    cases he : c.ending with
    | interrupted => exact hi he
    | committed => simp [he, Ending.cause?] at hn
  unfold Course.written
  unfold Course.Lawful at h
  generalize c.ending.cause? = cause at h hd hcause ⊢
  generalize c.during.filter Act.shows = acts at h hshown
  cases h with
  | duplicate => exact absurd rfl hd
  | malformed e he =>
    have ho : c.message.order? = none := by rw [Message.order?, he]
    simp [Message.written, orders, ho]
  | invalid o e hdec he =>
    have ho : c.message.order? = none := by simp only [Message.order?, hdec, he]
    simp [Message.written, orders, ho]
  | tried o acts cause ho h =>
    rcases h.cause_of_unfailing hshown with rfl | rfl
    · exact absurd rfl hcause
    · simp [Message.written, orders, ho]

namespace Pipeline

variable {w u : Pipeline} {r : Round} {rounds : List Round} {time : Nat} {rest : List Polled}

theorem mem_messages_of_polled {script : List Polled} {c : Course}
    (h : w.log.script = (Round.message c).polled :: script) :
    messages w.log.script = c.message :: messages script := by
  rw [h]
  rfl

theorem messages_subset {p : Polled} {script : List Polled} (h : w.log.script = p :: script) :
    (messages script).Sublist (messages w.log.script) := by
  rw [h]
  exact (List.sublist_cons_self p script).filterMap _

theorem Runs.not_duplicate (h : Runs time w rounds u) (hw : w.Recorded)
    (hs : Ordered (messages w.log.script))
    (hn : ∀ key, .marked key ∈ w.history → ∀ m ∈ messages w.log.script, m.processedKey ≠ key) :
    ∀ c, .message c ∈ rounds → c.ending.cause? ≠ some .duplicate := by
  induction h with
  | stop w => nofun
  | @round w u v r rounds script hscript _ hgoes hruns ih =>
    have htail : messages u.log.script = messages script := by rw [hgoes.script]; rfl
    have hsub := messages_subset hscript
    -- a course marks its own message only, and what is to come has other offsets
    have hnext : ∀ key, .marked key ∈ u.history →
        ∀ m ∈ messages u.log.script, m.processedKey ≠ key := by
      intro key hk m hm
      rw [htail] at hm
      rw [hgoes.history] at hk
      rcases List.mem_append.1 hk with hk | hk
      · exact hn key hk m (hsub.subset hm)
      · cases hgoes with
        | message hf =>
          have hacts := (List.mem_cons.1 hk).resolve_left nofun
          have hmark := (hf.lawful.marked hacts).2
          rw [mem_messages_of_polled hscript] at hs
          have hlt := (List.pairwise_cons.1 hs).1 m hm
          rintro rfl
          exact Int64.ne_of_lt hlt (Message.processedKey_inj.1 hmark).2.2.symm
        | _ => cases List.mem_singleton.1 hk
    have hrest := ih (hw.goes hgoes) (htail ▸ hs.sublist hsub) hnext
    intro c hc
    rcases List.mem_cons.1 hc with rfl | hc
    · intro hd
      cases hgoes with
      | message hf =>
        have hkey : w.keys.contains c.message.processedKey = true := hf.duplicate.1 hd
        have hmark := ((hw.tracked _).1 hkey).mem
        refine hn _ hmark c.message ?_ rfl
        rw [mem_messages_of_polled hscript]
        exact List.mem_cons_self
    · exact hrest c hc

theorem Runs.eq_nil_of_interrupted (h : Runs time u rounds w) (hdue : time ≤ u.now) :
    rounds = [] := by
  cases h with
  | stop => rfl
  | round _ hnow => exact absurd hdue (Nat.not_le.2 hnow)

theorem written_of_interrupted {c : Course} (h : c.ending = .interrupted) : c.written = [] := by
  rw [Course.written, h]
  rfl

theorem mem_of_accepted {c : Course} {m : Message}
    (h : m ∈ (Round.accepted? (.message c)).toList) : c.ending ≠ .interrupted ∧ m = c.message := by
  unfold Round.accepted? at h
  dsimp only at h
  split at h
  · rename_i ha
    refine ⟨fun hi => ?_, by simpa using h⟩
    rw [hi] at ha
    cases ha
  · simp at h

theorem mem_accepted_cons {c : Course} {m : Message}
    (hm : m ∈ (Round.message c :: rounds).filterMap Round.accepted?) :
    c.ending ≠ .interrupted ∧ m = c.message ∨ m ∈ rounds.filterMap Round.accepted? := by
  rw [List.filterMap_cons] at hm
  split at hm
  · exact .inr hm
  · rename_i b hb
    rcases List.mem_cons.1 hm with rfl | hm
    · exact .inl (mem_of_accepted (by simp [hb]))
    · exact .inr hm

theorem Runs.done (h : Runs time w rounds u)
    (hplain : ∀ c, .message c ∈ rounds → c.ending ≠ .interrupted →
      c.written = orders [c.message]) :
    ∃ done left, messages w.log.script = done ++ left ∧
      rounds.flatMap Round.written = orders done ∧
      (∀ m ∈ rounds.filterMap Round.accepted?, m ∈ done) ∧
      ((∀ r ∈ rounds, ¬ r.Interrupted) → left = messages u.log.script) := by
  induction h with
  | stop w => exact ⟨[], _, rfl, rfl, nofun, fun _ => rfl⟩
  | @round w u v r rounds script hscript _ hgoes hruns ih =>
    have htail : messages u.log.script = messages script := by rw [hgoes.script]; rfl
    obtain ⟨done, left, hsplit, hwritten, haccepted, hleft⟩ :=
      ih fun c hc => hplain c (List.mem_cons_of_mem r hc)
    have hrest : (∀ q ∈ r :: rounds, ¬ q.Interrupted) → left = messages v.log.script :=
      fun hall => hleft fun q hq => hall q (List.mem_cons_of_mem r hq)
    rw [htail] at hsplit
    rw [hscript, List.flatMap_cons, hwritten]
    match r with
    | .idle | .failed _ => exact ⟨done, left, hsplit, rfl, haccepted, hrest⟩
    | .message c =>
      -- an interrupted message is the last one, it and those after it are left
      by_cases hi : c.ending = .interrupted
      · have hint : (Round.message c).Interrupted := ⟨c, rfl, hi⟩
        obtain rfl := hruns.eq_nil_of_interrupted (hgoes.due hint)
        refine ⟨[], messages (Round.polled (.message c) :: script), rfl, ?_, ?_, ?_⟩
        · rw [← hwritten]
          exact congrArg (· ++ _) (written_of_interrupted hi)
        · intro m hm
          rcases mem_accepted_cons hm with ⟨hne, -⟩ | hm
          · exact absurd hi hne
          · cases hm
        · exact fun hall => absurd hint (hall _ List.mem_cons_self)
      · have hone : (Round.message c).written = orders [c.message] :=
          hplain c List.mem_cons_self hi
        refine ⟨c.message :: done, left, ?_, ?_, fun m hm => ?_, hrest⟩
        · rw [List.cons_append, ← hsplit]
          rfl
        · rw [hone, ← orders_append]
          rfl
        · rcases mem_accepted_cons hm with ⟨-, rfl⟩ | hm
          · exact List.mem_cons_self
          · exact List.mem_cons_of_mem _ (haccepted m hm)

end Pipeline

/-! ## Positions -/

def remaining (log committed : List Message) : List Message :=
  match committed.getLast? with
  | none => log
  | some p => log.filter fun m => p.offset < m.offset

theorem remaining_concat (log committed : List Message) (p : Message) :
    remaining log (committed ++ [p]) = log.filter fun m => p.offset < m.offset := by
  rw [remaining, List.getLast?_concat]

theorem Ordered.remaining {log : List Message} (h : Ordered log) (committed : List Message) :
    Ordered (remaining log committed) := by
  unfold OrderDesk.remaining
  split
  · exact h
  · exact h.filter _

theorem filter_of_remaining {log committed before after : List Message} {p : Message}
    (h : Ordered log) (hr : remaining log committed = before ++ p :: after) :
    (log.filter fun m => p.offset < m.offset) = after := by
  -- what follows the message in the log remains, for its offset is beyond the position
  have hsame : (log.filter fun m => p.offset < m.offset) =
      (remaining log committed).filter fun m => p.offset < m.offset := by
    have hp : p ∈ remaining log committed := by simp [hr]
    unfold remaining at hp ⊢
    split
    · rfl
    · rename_i q hq
      rw [hq] at hp
      have hqp : q.offset < p.offset := by simpa using (List.mem_filter.1 hp).2
      rw [List.filter_filter]
      refine List.filter_congr fun m _ => ?_
      by_cases hm : p.offset < m.offset
      · simp [hm, Int64.lt_trans hqp hm]
      · simp [hm]
  have hordered := h.remaining committed
  rw [hr] at hordered
  obtain ⟨-, htail, hcross⟩ := List.pairwise_append.1 hordered
  have hbefore : (before.filter fun m => p.offset < m.offset) = [] := by
    refine List.filter_eq_nil_iff.2 fun m hm => ?_
    have hlt := hcross m hm p List.mem_cons_self
    simpa using Int64.le_of_lt hlt
  have hafter : (after.filter fun m => p.offset < m.offset) = after := by
    refine List.filter_eq_self.2 fun m hm => ?_
    exact decide_eq_true ((List.pairwise_cons.1 htail).1 m hm)
  rw [hsame, hr, List.filter_append, hbefore, List.filter_cons_of_neg (by simp), hafter,
    List.nil_append]

theorem remaining_append {log committed done left taken : List Message} (h : Ordered log)
    (hr : remaining log committed = done ++ left) (ht : ∀ m ∈ taken, m ∈ done) :
    ∃ first again, done = first ++ again ∧
      remaining log (committed ++ taken) = again ++ left := by
  rcases List.eq_nil_or_concat taken with rfl | ⟨front, p, rfl⟩
  · exact ⟨[], done, rfl, by rw [List.append_nil, hr]⟩
  · obtain ⟨before, again, rfl⟩ := List.append_of_mem (ht p (by simp))
    refine ⟨before ++ [p], again, by simp, ?_⟩
    rw [List.concat_eq_append, ← List.append_assoc, remaining_concat]
    have hsplit : remaining log committed = before ++ p :: (again ++ left) := by
      rw [hr, List.append_assoc, List.cons_append]
    exact filter_of_remaining h hsplit

/-! ## Restarts -/

namespace Pipeline

variable {w u : Pipeline} {s t : Store} {log committed : List Message} {time : Nat}

/-- A pipeline that is started on a store, at the position after the last commit. -/
structure Fresh (log : List Message) (s : Store) (committed : List Message) (w : Pipeline) :
    Prop where
  keys : w.keys = .empty
  trace : w.trace = []
  store : w.desk.store = s
  commits : w.log.committed = committed
  script : messages w.log.script = remaining log committed
  opened : w.log.closed = false

/-- A run that left no message of its log, polled or not, without an attempt to commit it. -/
structure Finished (w : Pipeline) : Prop where
  script : messages w.log.script = []
  handled : ∀ a ∈ w.history, a.cancels = false

/-- The stores and commits that restarts may lead to. Each pipeline of them polls what it is given at
any pace, has commits refused in any pattern, and is cancelled at any time. -/
inductive Restarts (log : List Message) (s : Store) : Store → List Message → Prop where
  | none : Restarts log s s []
  | again {t : Store} {committed : List Message} (h : Restarts log s t committed) (w : Pipeline)
      (time : Nat) (hw : w.Fresh log t committed) (hu : Unfailing (w.runUntil time).history) :
      Restarts log s (w.runUntil time).desk.store (w.runUntil time).log.committed

theorem store_idleUntil (w : Pipeline) (time : Nat) :
    (w.idleUntil time).desk.store = w.desk.store := by
  unfold idleUntil
  split
  · exact w.store_passTo time
  · rfl

theorem store_startCleaning (w : Pipeline) : w.startCleaning.desk.store = w.desk.store := by
  obtain ⟨nextPurge, events, hw⟩ := w.startCleaning_opens
  rw [hw]

theorem exists_maxAttempts (p : RetryPolicy) : ∃ k, p.maxAttempts = k + 1 := by
  refine Nat.exists_eq_succ_of_ne_zero ?_
  have hmost : RetryPolicy.mostAttempts ≠ 0 := by decide
  unfold RetryPolicy.maxAttempts
  omega

theorem Fresh.runs (hw : w.Fresh log s committed) (time : Nat) :
    ∃ w₀ rounds u, Runs time w₀ rounds u ∧ w₀.Recorded ∧ w₀.history = [] ∧ w₀.log = w.log ∧
      w₀.desk.store = s ∧
      w.runUntil time = (u.idleUntil time).note .info "Ingestion pipeline shutting down" := by
  obtain ⟨ht, -, hl⟩ := w.startCleaning_same
  let w₀ := w.startCleaning.note .info "Ingestion pipeline started"
  have htrace : w₀.trace = [] := ht.trans hw.trace
  have hkeys : w₀.keys = .empty := w.keys_startCleaning.trans hw.keys
  obtain ⟨rounds, u, hruns, he⟩ := consume_runs time w₀.log.script w₀ rfl
  refine ⟨w₀, rounds, u, hruns, (Reachable.start w₀ hkeys htrace).recorded,
    congrArg List.reverse htrace, hl, w.store_startCleaning.trans hw.store, ?_⟩
  have hopen : ¬ w₀.log.closed = true := by
    rw [show w₀.log = w.log from hl, hw.opened]
    exact Bool.false_ne_true
  have hpoll : w₀.pollUntil time = u.idleUntil time := by
    rw [pollUntil, if_neg hopen, he]
  exact congrArg (note · .info "Ingestion pipeline shutting down") hpoll

theorem Fresh.runUntil (hlog : Ordered log) (hw : w.Fresh log s committed)
    (hu : Unfailing (w.runUntil time).history) :
    ∃ done left taken, remaining log committed = done ++ left ∧
      (w.runUntil time).desk.store.contents = s.contents.replay (orders done) ∧
      (w.runUntil time).log.committed = committed ++ taken ∧ (∀ m ∈ taken, m ∈ done) ∧
      ((w.runUntil time).Finished → left = []) := by
  obtain ⟨w₀, rounds, u, hruns, hrec, hnil, hlog₀, hstore, he⟩ := hw.runs time
  have hscript : messages w₀.log.script = remaining log committed := by rw [hlog₀, hw.script]
  obtain ⟨rest, hwaits⟩ := u.idleUntil_waits time
  have hhistory : (w.runUntil time).history = rounds.flatMap Round.acts ++ rest := by
    rw [he, history_note, hwaits.history, hruns.history, hnil, List.nil_append]
  have hacts {c : Course} {a : Act} (hc : .message c ∈ rounds) (ha : a ∈ c.acts) :
      a ∈ (w.runUntil time).history := by
    have hround : a ∈ (Round.message c).acts := by
      rw [Round.acts]
      exact List.mem_cons_of_mem _ ha
    rw [hhistory]
    exact List.mem_append_left _ (List.mem_flatMap.2 ⟨_, hc, hround⟩)
  -- no message that remains is told to be a duplicate, so each one handled has its order written
  have hdup := hruns.not_duplicate hrec (hscript ▸ hlog.remaining committed) (by simp [hnil])
  have hplain : ∀ c, .message c ∈ rounds → c.ending ≠ .interrupted →
      c.written = orders [c.message] := by
    intro c hc hi
    obtain ⟨k, hk⟩ := exists_maxAttempts w₀.settings.retry
    have hlawful : c.Lawful (k + 1) := hk ▸ hruns.lawful hc c rfl
    exact hlawful.written (fun a ha => hu a (hacts hc ha)) (hdup c hc) hi
  obtain ⟨done, left, hsplit, hwritten, htaken, hleft⟩ := hruns.done hplain
  obtain ⟨hidle, hcommitted⟩ := hwaits.log
  refine ⟨done, left, rounds.filterMap Round.accepted?, hscript ▸ hsplit, ?_, ?_, htaken, ?_⟩
  · rw [he]
    change (u.idleUntil time).desk.store.contents = _
    rw [store_idleUntil, hruns.contents, hstore, hwritten]
  · rw [he]
    change (u.idleUntil time).log.committed = _
    rw [hcommitted, hruns.committed, hlog₀, hw.commits]
  · intro hf
    rw [hleft]
    · have hscript := hf.script
      rw [he] at hscript
      change messages (u.idleUntil time).log.script = [] at hscript
      rwa [hidle] at hscript
    · rintro _ hr ⟨c, rfl, hi⟩
      have hended : .ended c.time c.message (.ok .cancelled) ∈ c.acts := by
        simp [Course.acts, hi, Ending.answer]
      cases hf.handled _ (hacts hr hended)

theorem Restarts.contents (hlog : Ordered log) (h : Restarts log s t committed) :
    t.contents.replay (orders (remaining log committed)) = s.contents.replay (orders log) := by
  induction h with
  | none => rfl
  | again _ w time hw hu ih =>
    obtain ⟨done, left, taken, hsplit, hcontents, hcommitted, htaken, -⟩ := hw.runUntil hlog hu
    -- the messages handled in vain are written a second time, which changes nothing
    obtain ⟨first, again, rfl, hremain⟩ := remaining_append hlog hsplit htaken
    rw [hcontents, hcommitted, hremain, ← ih, hsplit]
    simp only [orders_append, Contents.replay_append, Contents.replay_replay]

/-- However often a pipeline is cancelled and started again at the position after the last commit, in
the end the store holds the same orders as after one run over the log, but for the numbers of items. -/
theorem restarts_agree {v : Pipeline} {time' : Nat} (hlog : Ordered log)
    (h : Restarts log s t committed)
    (hw : w.Fresh log t committed) (hwu : Unfailing (w.runUntil time).history)
    (hwf : (w.runUntil time).Finished)
    (hv : v.Fresh log s []) (hvu : Unfailing (v.runUntil time').history)
    (hvf : (v.runUntil time').Finished) :
    (w.runUntil time).desk.store.shelf.orders.map Order.unnumbered =
      (v.runUntil time').desk.store.shelf.orders.map Order.unnumbered := by
  have hend {t : Store} {committed : List Message} {w : Pipeline} {time : Nat}
      (h : Restarts log s t committed) (hw : w.Fresh log t committed)
      (hu : Unfailing (w.runUntil time).history) (hf : (w.runUntil time).Finished) :
      (w.runUntil time).desk.store.contents = s.contents.replay (orders log) := by
    obtain ⟨done, left, taken, hsplit, hcontents, -, -, hleft⟩ := hw.runUntil hlog hu
    rw [hleft hf, List.append_nil] at hsplit
    rw [hcontents, ← hsplit, h.contents hlog]
  refine Store.orders_eq_of_contents ?_
  rw [hend h hw hwu hwf, hend .none hv hvu hvf]

def launch (s : Store) (committed : List Message) (turns : List Turn) (ms : List Message) :
    Pipeline :=
  { start .standard false with
    desk := { Desk.empty with store := s }
    log := { ScriptedLog.empty with script := ms.map .message, committed := committed }
    turns := turns }

theorem restarts_agree_sample :
    let m₁ := Message.sample (.sample "b563feb7b2b84b6test" 1) 1
    let m₀ : Message := { m₁ with payload := none, offset := 0 }
    let w := (launch .empty [] [⟨5, none⟩] [m₀, m₁]).runUntil 3
    let u := (launch w.desk.store w.log.committed [] [m₁]).runUntil 3
    let v := (launch .empty [] [] [m₀, m₁]).runUntil 3
    w.log.committed = [m₀] ∧ w.desk.store.shelf.orders = [] ∧
      v.desk.store.shelf.orders.length = 1 ∧
      u.desk.store.shelf.orders.map Order.unnumbered =
        v.desk.store.shelf.orders.map Order.unnumbered := by
  intro m₁ m₀ w u v
  have hlog : Ordered [m₀, m₁] := by decide +kernel
  have hw : Unfailing w.history ∧ w.log.committed = [m₀] ∧ w.desk.store.shelf.orders = [] := by
    decide +kernel
  have hu : Unfailing u.history ∧ messages u.log.script = [] ∧
      ∀ a ∈ u.history, a.cancels = false := by decide +kernel
  have hv : Unfailing v.history ∧ messages v.log.script = [] ∧
      (∀ a ∈ v.history, a.cancels = false) ∧ v.desk.store.shelf.orders.length = 1 := by
    decide +kernel
  have hfirst : Restarts [m₀, m₁] .empty w.desk.store w.log.committed :=
    .again .none _ 3 ⟨rfl, rfl, rfl, rfl, rfl, rfl⟩ hw.1
  have hremain : [m₁] = remaining [m₀, m₁] w.log.committed := by
    rw [hw.2.1]
    decide +kernel
  refine ⟨hw.2.1, hw.2.2, hv.2.2.2, ?_⟩
  exact restarts_agree hlog hfirst ⟨rfl, rfl, rfl, rfl, hremain, rfl⟩ hu.1 ⟨hu.2.1, hu.2.2⟩
    ⟨rfl, rfl, rfl, rfl, rfl, rfl⟩ hv.1 ⟨hv.2.1, hv.2.2.1⟩

end Pipeline

end OrderDesk
