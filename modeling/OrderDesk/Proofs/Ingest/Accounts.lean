import OrderDesk.Order.Sample
import OrderDesk.Proofs.Ingest.Passages

/-!
Accounts. However messages are processed, one by one or by runs, the counters of a pipeline tell how
many passages its history has under each label, and how many retries were begun.
-/

namespace OrderDesk

def Counter.Ingests : Counter → Prop
  | .message _ | .retry | .duplicate => True
  | _ => False

theorem Act.Aside.not_call {a : Act} (h : a.Aside) : a.isCall = false := by
  cases a <;> first | rfl | exact h.elim

theorem Passage.countP_isCall_acts (p : Passage) : p.acts.countP Act.isCall = p.calls := by
  have hacts : p.acts = [.began p.message] ++ p.during ++
      [.ended p.time p.message p.result] := rfl
  rw [hacts, List.countP_append, List.countP_append, Passage.calls]
  exact Nat.zero_add _

namespace Pipeline

variable {w u v : Pipeline} {ps : List Passage}

structure Accounted (w : Pipeline) (ps : List Passage) : Prop where
  comprise : Comprise w.history ps
  labelled : ∀ p ∈ ps, p.Labelled
  messages : ∀ l, w.total (.message l) = ps.countP fun p => p.countsAs l
  duplicates : w.total .duplicate = ps.countP fun p => p.countsAs .duplicate
  called : (ps.countP fun p => 0 < p.calls) ≤ w.history.countP Act.isCall
  retries : w.total .retry + (ps.countP fun p => 0 < p.calls) =
    w.history.countP Act.isCall + ps.countP Passage.waiting

namespace Accounted

theorem meanwhile (h : w.Accounted ps) (ht : u.trace = w.trace)
    (hc : ∀ c, c.Ingests → u.total c = w.total c) : u.Accounted ps := by
  have hh : u.history = w.history := congrArg List.reverse ht
  constructor
  case comprise => exact hh ▸ h.comprise
  case labelled => exact h.labelled
  case messages => exact fun l => (hc (.message l) trivial).trans (h.messages l)
  case duplicates => exact (hc .duplicate trivial).trans h.duplicates
  case called => exact hh ▸ h.called
  case retries =>
    rw [hh, hc .retry trivial]
    exact h.retries

theorem quiet (h : w.Accounted ps) (hq : w.Quiet v) : v.Accounted ps := by
  obtain ⟨as, hh, ha⟩ := hq.acts
  have htotal (c : Counter) : v.total c = w.total c := congrArg (List.count c) hq.counted
  have hcalls : v.history.countP Act.isCall = w.history.countP Act.isCall := by
    have hnone : as.countP Act.isCall = 0 :=
      List.countP_eq_zero.2 fun a has => by simp [(ha a has).not_call]
    rw [hh, List.countP_append, hnone, Nat.add_zero]
  constructor
  case comprise =>
    have hboth := h.comprise.append (comprise_asides ha)
    rwa [List.append_nil, ← hh] at hboth
  case labelled => exact h.labelled
  case messages => exact fun l => (htotal _).trans (h.messages l)
  case duplicates => exact (htotal _).trans h.duplicates
  case called => exact hcalls ▸ h.called
  case retries =>
    rw [hcalls, htotal]
    exact h.retries

theorem passes {p : Passage} (h : w.Accounted ps) (hp : w.Passes p v) :
    v.Accounted (ps ++ [p]) := by
  have hcalls : v.history.countP Act.isCall = w.history.countP Act.isCall + p.calls := by
    rw [hp.history, List.countP_append, p.countP_isCall_acts]
  have hcalled : (ps ++ [p]).countP (fun p => 0 < p.calls) =
      ps.countP (fun p => 0 < p.calls) + if 0 < p.calls then 1 else 0 := by
    rw [List.countP_append, List.countP_singleton]
    simp only [decide_eq_true_eq]
  constructor
  case comprise =>
    rw [hp.history]
    exact h.comprise.append (p.comprise_acts hp.inside)
  case labelled =>
    refine List.forall_mem_append.2 ⟨h.labelled, ?_⟩
    simpa using hp.labelled
  case messages =>
    intro l
    rw [hp.messages, h.messages, List.countP_append, List.countP_singleton]
  case duplicates =>
    rw [hp.duplicates, h.duplicates, List.countP_append, List.countP_singleton]
  case called =>
    rw [hcalls, hcalled]
    refine Nat.add_le_add h.called ?_
    split <;> omega
  case retries =>
    have hlast := hp.retries
    have hbefore := h.retries
    rw [hcalls, hcalled, List.countP_append, List.countP_singleton]
    omega

end Accounted

theorem Steps.accounted (h : w.Steps v) (hw : ∃ ps, w.Accounted ps) : ∃ ps, v.Accounted ps := by
  induction h with
  | quiet hq =>
    obtain ⟨ps, hps⟩ := hw
    exact ⟨ps, hps.quiet hq⟩
  | process w m stop =>
    obtain ⟨ps, hps⟩ := hw
    obtain ⟨p, -, -, hp⟩ := w.process_passes m stop
    exact ⟨ps ++ [p], hps.passes hp⟩
  | trans _ _ ih ihs => exact ihs (ih hw)

/-- What a pipeline becomes that starts without a history. It processes messages, on its own or in
runs, whatever stops it, and is closed at any time. Meanwhile anything may become of its settings,
of the handler's turns, of desk, log and clock; but only the pipeline itself counts messages,
retries and duplicates. -/
inductive Operated : Pipeline → Prop where
  | start (w : Pipeline) (ht : w.trace = []) (hc : ∀ c, c.Ingests → w.total c = 0) : Operated w
  | process {w : Pipeline} (h : Operated w) (m : Message) (stop : Stop) :
      Operated (w.process m stop).2
  | runUntil {w : Pipeline} (h : Operated w) (time : Nat) : Operated (w.runUntil time)
  | passTo {w : Pipeline} (h : Operated w) (time : Nat) : Operated (w.passTo time)
  | close {w : Pipeline} (h : Operated w) : Operated w.close
  | mark {w : Pipeline} (h : Operated w) (key : String) : Operated (w.mark key)
  | purge {w : Pipeline} (h : Operated w) (age : Span) : Operated (w.purge age).2
  | meanwhile {w u : Pipeline} (h : Operated w) (ht : u.trace = w.trace)
      (hc : ∀ c, c.Ingests → u.total c = w.total c) : Operated u

theorem Operated.exists_accounted (h : Operated w) : ∃ ps, w.Accounted ps := by
  induction h with
  | start w ht hc =>
    have hh : w.history = [] := congrArg List.reverse ht
    refine ⟨[], ?_⟩
    constructor
    case comprise => exact hh ▸ comprise_nil
    case labelled => exact fun p hp => absurd hp List.not_mem_nil
    case messages => exact fun l => hc (.message l) trivial
    case duplicates => exact hc .duplicate trivial
    case called => exact Nat.zero_le _
    case retries =>
      rw [hc .retry trivial, hh]
      rfl
  | process h m stop ih => exact (Steps.process _ m stop).accounted ih
  | runUntil h time ih => exact (steps_runUntil _ time).accounted ih
  | passTo h time ih => exact (steps_passTo _ time).accounted ih
  | close h ih => exact (steps_close _).accounted ih
  | mark h key ih => exact (steps_mark _ key).accounted ih
  | purge h age ih => exact (steps_purge _ age).accounted ih
  | meanwhile h ht hc ih =>
    obtain ⟨ps, hps⟩ := ih
    exact ⟨ps, hps.meanwhile ht hc⟩

def passages (w : Pipeline) : List Passage := passagesFrom none w.history

theorem Operated.accounted (h : Operated w) : w.Accounted w.passages := by
  obtain ⟨ps, hps⟩ := h.exists_accounted
  have hpassages : w.passages = ps := hps.comprise.passages_eq
  rw [hpassages]
  exact hps

structure CountsMessages (w : Pipeline) : Prop where
  labelled : ∀ p ∈ w.passages, p.Labelled
  messages : ∀ l, w.total (.message l) = w.passages.countP fun p => p.countsAs l
  duplicates : w.total .duplicate = w.total (.message .duplicate)
  next : ∀ m stop, ∃ p : Passage, p.message = m ∧ p.result = (w.process m stop).1 ∧
    (w.process m stop).2.passages = w.passages ++ [p] ∧ p.Labelled ∧
    ∀ l, (w.process m stop).2.total (.message l) =
      w.total (.message l) + if p.countsAs l then 1 else 0

theorem Operated.countsMessages (h : Operated w) : w.CountsMessages := by
  have haccounted := h.accounted
  constructor
  case labelled => exact haccounted.labelled
  case messages => exact haccounted.messages
  case duplicates => rw [haccounted.duplicates, haccounted.messages]
  case next =>
    intro m stop
    obtain ⟨p, hm, hr, hp⟩ := w.process_passes m stop
    have hpassages := (haccounted.passes hp).comprise.passages_eq
    exact ⟨p, hm, hr, hpassages, hp.labelled, hp.messages⟩

theorem countsMessages_sample :
    let m := Message.sample (.sample "abc" 1) 1
    let w := (((start .standard false).process m .never).2.process m .never).2
    w.Operated ∧ w.CountsMessages ∧ w.total (.message .processed) = 1 ∧
      w.total (.message .duplicate) = 1 ∧ w.total .duplicate = 1 := by
  intro m w
  have hw : w.Operated := ((Operated.start _ rfl fun _ _ => rfl).process m .never).process m .never
  have htotals : w.total (.message .processed) = 1 ∧ w.total (.message .duplicate) = 1 ∧
      w.total .duplicate = 1 := by
    decide +kernel
  exact ⟨hw, hw.countsMessages, htotals⟩

/-- Of retries there are counted the calls after the first one for a message, and one for each message
that waited for another call when it was interrupted. -/
theorem Operated.retries_total (h : Operated w) :
    let calls := w.history.countP Act.isCall
    let called := w.passages.countP fun p => 0 < p.calls
    called ≤ calls ∧ w.total .retry = calls - called + w.passages.countP Passage.waiting ∧
      (w.total .retry = calls - called ↔ ∀ p ∈ w.passages, p.waiting = false) := by
  intro calls called
  have hle : called ≤ calls := h.accounted.called
  have hretries : w.total .retry + called = calls + w.passages.countP Passage.waiting :=
    h.accounted.retries
  have hnone : w.passages.countP Passage.waiting = 0 ↔ ∀ p ∈ w.passages, p.waiting = false := by
    simp [List.countP_eq_zero]
  refine ⟨hle, ?_, ?_⟩
  · omega
  · rw [← hnone]
    omega

theorem retries_total_sample :
    let busy : Turn := ⟨0, some (.storage "busy")⟩
    let w := { start .standard false with turns := [busy, busy] }
    let v := (w.process (.sample (.sample "abc" 1) 1) .never).2
    v.Operated ∧ v.passages.map Passage.calls = [3] ∧ v.total .retry = 2 ∧
      ∀ p ∈ v.passages, p.waiting = false := by
  intro busy w v
  have hv : v.Operated := (Operated.start w rfl fun _ _ => rfl).process _ .never
  have hcounts : v.passages.map Passage.calls = [3] ∧ v.total .retry = 2 ∧
      v.history.countP Act.isCall - (v.passages.countP fun p => 0 < p.calls) = 2 := by
    decide +kernel
  obtain ⟨hcalls, htotal, hafter⟩ := hcounts
  obtain ⟨-, -, hiff⟩ := hv.retries_total
  exact ⟨hv, hcalls, htotal, hiff.1 (htotal.trans hafter.symm)⟩

/-- A message that is interrupted after its second failure was tried again once, and two retries are
counted. -/
theorem waiting_counted :
    let busy : Turn := ⟨0, some (.storage "busy")⟩
    let w := { start .standard false with turns := [busy, busy] }
    let v := (w.process (.sample (.sample "abc" 1) 1) (.cancel 3000)).2
    v.Operated ∧ v.history.countP Act.isCall = 2 ∧
      (v.passages.countP fun p => 0 < p.calls) = 1 ∧ v.total .retry = 2 := by
  intro busy w v
  have hv : v.Operated := (Operated.start w rfl fun _ _ => rfl).process _ (.cancel 3000)
  have hcounts : v.history.countP Act.isCall = 2 ∧
      (v.passages.countP fun p => 0 < p.calls) = 1 ∧ v.total .retry = 2 := by
    decide +kernel
  exact ⟨hv, hcounts⟩

end Pipeline

end OrderDesk
