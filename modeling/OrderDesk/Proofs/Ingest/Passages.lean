import OrderDesk.Proofs.Ingest.Admission

/-!
Passages. Of a message that is processed there show the calls of the handler and its replies, the
commit and the result. These tell under which label the message is counted, and how many retries.
-/

namespace OrderDesk

def Act.accepted? : Act → Option Bool
  | .committed _ accepted => some accepted
  | _ => none

structure Passage where
  message : Message
  during : List Act
  time : Nat
  result : Except OrderError Outcome

namespace Passage

def acts (p : Passage) : List Act :=
  .began p.message :: p.during ++ [.ended p.time p.message p.result]

def calls (p : Passage) : Nat := p.during.countP Act.isCall

def replies (p : Passage) : List (Except OrderError Unit) := Act.replies p.during

def commits (p : Passage) : List Bool := p.during.filterMap Act.accepted?

/-- The last reply was a failure of a kind, the commit was accepted, and the failure is the result. -/
def givenUp (p : Passage) (temporary : Bool) : Bool :=
  match p.result with
  | .ok _ => false
  | .error e =>
    p.replies.getLast? = some (.error e) ∧ e.isTemporary = temporary ∧ p.commits = [true]

/-- Whether a message is one for a label: that of a failure if it is given up, and otherwise the one
that is its result. -/
def countsAs (p : Passage) : Outcome → Bool
  | .rejected => p.givenUp false
  | .exhausted => p.givenUp true
  | label => p.result = .ok label

def waiting (p : Passage) : Bool :=
  p.result = .ok .cancelled ∧ p.replies ≠ [] ∧ p.calls = p.replies.length

/-- A message is one for a single label, or for none if its commit is refused and it is no
duplicate. -/
structure Labelled (p : Passage) : Prop where
  once : ∀ l k, p.countsAs l = true → p.countsAs k = true → l = k
  never : (∀ l, p.countsAs l = false) ↔ p.result ≠ .ok .duplicate ∧ p.commits = [false]

variable {p : Passage} {label : Outcome} {e : OrderError}

theorem countsAs_of_ok (h : p.result = .ok label) (hr : label ≠ .rejected)
    (he : label ≠ .exhausted) (l : Outcome) : p.countsAs l = true ↔ label = l := by
  cases l <;> simp [countsAs, givenUp, h, hr, he]

theorem countsAs_of_error (h : p.result = .error e) (l : Outcome) :
    p.countsAs l = true ↔ (if e.isTemporary then .exhausted else .rejected) = l ∧
      p.replies.getLast? = some (.error e) ∧ p.commits = [true] := by
  cases ht : e.isTemporary <;> cases l <;> simp [countsAs, givenUp, h, ht]

end Passage

/-! ## Histories -/

/-- The passages that acts show. Of a message at hand there is what it has shown so far. -/
def passagesFrom : Option (Message × List Act) → List Act → List Passage
  | _, [] => []
  | _, .began m :: as => passagesFrom (some (m, [])) as
  | some (m, during), .ended t _ r :: as => ⟨m, during, t, r⟩ :: passagesFrom none as
  | some (m, during), a :: as => passagesFrom (some (m, during ++ [a])) as
  | none, _ :: as => passagesFrom none as

def Comprise (as : List Act) (ps : List Passage) : Prop :=
  ∀ bs, passagesFrom none (as ++ bs) = ps ++ passagesFrom none bs

variable {as bs : List Act} {ps qs : List Passage}

theorem Comprise.passages_eq (h : Comprise as ps) : passagesFrom none as = ps := by
  have hall := h []
  rwa [List.append_nil, passagesFrom, List.append_nil] at hall

theorem comprise_nil : Comprise [] [] := fun _ => rfl

theorem Comprise.append (h : Comprise as ps) (hb : Comprise bs qs) :
    Comprise (as ++ bs) (ps ++ qs) := by
  intro cs
  rw [List.append_assoc, h, hb, List.append_assoc]

theorem comprise_asides (h : ∀ a ∈ as, a.Aside) : Comprise as [] := by
  intro bs
  induction as with
  | nil => rfl
  | cons a as ih =>
    have hrest := ih fun b hb => h b (List.mem_cons_of_mem a hb)
    have haside := h a List.mem_cons_self
    cases a <;> first | exact hrest | exact haside.elim

theorem Passage.comprise_acts (p : Passage) (hin : ∀ a ∈ p.during, a.isInside = true) :
    Comprise p.acts [p] := by
  intro bs
  have hend (during rest : List Act) (hr : ∀ a ∈ rest, a.isInside = true) :
      passagesFrom (some (p.message, during))
        (rest ++ .ended p.time p.message p.result :: bs) =
        ⟨p.message, during ++ rest, p.time, p.result⟩ :: passagesFrom none bs := by
    induction rest generalizing during with
    | nil => rw [List.append_nil, List.nil_append, passagesFrom]
    | cons a rest ih =>
      have hnext := ih (during ++ [a]) fun b hb => hr b (List.mem_cons_of_mem a hb)
      rw [List.append_assoc, List.singleton_append] at hnext
      have hinside := hr a List.mem_cons_self
      cases a <;> first | exact hnext | cases hinside
  have hfirst := hend [] p.during hin
  rw [Passage.acts, List.append_assoc, List.singleton_append]
  exact hfirst

/-! ## Handling -/

namespace Act

theorem countP_isCall_filter (as : List Act) :
    (as.filter isHandling).countP isCall = as.countP isCall := by
  rw [List.countP_filter]
  refine List.countP_congr fun a _ => ?_
  cases a <;> simp [isCall, isHandling]

theorem replies_filter (as : List Act) : replies (as.filter isHandling) = replies as := by
  rw [replies, List.filterMap_filter]
  refine List.filterMap_congr fun a _ => ?_
  cases a <;> rfl

end Act

theorem Tried.calls {o : Order} {left : Nat} {last : Option OrderError} {acts : List Act}
    {cause : Option Cause} (h : Tried o left last acts cause) :
    acts.countP Act.isCall = (Act.replies acts).length ∨
      cause = none ∧ acts.countP Act.isCall = (Act.replies acts).length + 1 := by
  induction h with
  | exhausted | notCalled | processed | rejected => exact .inl rfl
  | notAnswered => exact .inr ⟨rfl, rfl⟩
  | again left last t u e acts cause he h ih =>
    have hcalls : (Act.called t o :: .answered u (.error e) :: acts).countP Act.isCall =
        acts.countP Act.isCall + 1 := by
      rw [List.countP_cons_of_pos rfl, List.countP_cons_of_neg Bool.false_ne_true]
    have hreplies : (Act.replies (.called t o :: .answered u (.error e) :: acts)).length =
        (Act.replies acts).length + 1 := rfl
    rw [hcalls, hreplies]
    exact ih.imp (congrArg (· + 1)) (And.imp_right (congrArg (· + 1)))

theorem Handled.calls {most : Nat} {m : Message} {acts : List Act} {cause : Option Cause}
    (h : Handled most m acts cause) :
    acts.countP Act.isCall = (Act.replies acts).length ∨
      cause = none ∧ acts.countP Act.isCall = (Act.replies acts).length + 1 := by
  cases h with
  | tried o acts cause ho h => exact h.calls
  | _ => exact .inl rfl

def Cause.failure? : Cause → Option (OrderError × Bool)
  | .rejected e => some (e, false)
  | .exhausted e => some (e, true)
  | _ => none

theorem Tried.failure {o : Order} {left : Nat} {last : Option OrderError} {acts : List Act}
    {cause : Option Cause} (h : Tried o left last acts cause)
    (hlast : ∀ e ∈ last, e.isTemporary = true) (hleft : left = 0 → last ≠ none)
    {e : OrderError} {temporary : Bool}
    (hc : cause.bind Cause.failure? = some (e, temporary)) :
    ((Act.replies acts).getLast?.or (last.map .error)) = some (.error e) ∧
      e.isTemporary = temporary := by
  induction h with
  | exhausted last =>
    obtain ⟨d, rfl⟩ := Option.ne_none_iff_exists'.1 (hleft rfl)
    obtain ⟨rfl, rfl⟩ := Prod.mk.inj (Option.some.inj hc)
    exact ⟨rfl, hlast d rfl⟩
  | notCalled | notAnswered | processed => cases hc
  | rejected left last t u d hd =>
    obtain ⟨rfl, rfl⟩ := Prod.mk.inj (Option.some.inj hc)
    exact ⟨rfl, hd⟩
  | again left last t u d acts cause hd h ih =>
    obtain ⟨hreply, htemporary⟩ := ih (by simpa using hd) (fun _ => nofun) hc
    refine ⟨?_, htemporary⟩
    have hreplies : Act.replies (.called t o :: .answered u (.error d) :: acts) =
        .error d :: Act.replies acts := rfl
    rw [hreplies, List.getLast?_cons, Option.some_or]
    cases hl : (Act.replies acts).getLast? <;> rw [hl] at hreply <;> exact hreply

theorem Handled.failure {most : Nat} {m : Message} {acts : List Act} {cause : Option Cause}
    (h : Handled most m acts cause) (hmost : 0 < most) {e : OrderError} {temporary : Bool}
    (hc : cause.bind Cause.failure? = some (e, temporary)) :
    (Act.replies acts).getLast? = some (.error e) ∧ e.isTemporary = temporary := by
  cases h with
  | tried o acts cause ho h =>
    have hlast := h.failure (by simp) (fun hzero => absurd hzero hmost.ne') hc
    rwa [Option.map_none, Option.or_none] at hlast
  | _ => cases hc

/-! ## Ends -/

namespace Ending

theorem answer_eq_cancelled_iff {e : Ending} {m : Message} :
    e.answer m = .ok .cancelled ↔ e.cause? = none := by
  cases e with
  | interrupted => exact iff_of_true rfl rfl
  | committed cause accepted =>
    cases cause <;> cases accepted <;> simp [answer, Cause.answer, cause?]

theorem outcome?_eq_none_iff {e : Ending} {m : Message} :
    e.outcome? = none ↔ e.answer m ≠ .ok .duplicate ∧ e.accepted?.toList = [false] := by
  cases e with
  | interrupted => simp [outcome?, answer, accepted?]
  | committed cause accepted =>
    cases cause <;> cases accepted <;> simp [outcome?, answer, Cause.answer, accepted?]

def passage (e : Ending) (m : Message) (during : List Act) (time : Nat) : Passage :=
  ⟨m, during ++ e.acts m, time, e.answer m⟩

variable (e : Ending) (m : Message) {during : List Act} (time : Nat)

theorem handling_passage :
    (e.passage m during time).during.filter Act.isHandling = during.filter Act.isHandling := by
  have hnone : (e.acts m).filter Act.isHandling = [] := by
    refine List.filter_eq_nil_iff.2 fun a ha => ?_
    rw [not_handling_of_mem_acts ha]
    exact Bool.false_ne_true
  rw [passage, List.filter_append, hnone, List.append_nil]

theorem calls_passage :
    (e.passage m during time).calls = (during.filter Act.isHandling).countP Act.isCall := by
  rw [Passage.calls, ← Act.countP_isCall_filter, handling_passage]

theorem replies_passage :
    (e.passage m during time).replies = Act.replies (during.filter Act.isHandling) := by
  rw [Passage.replies, ← Act.replies_filter, handling_passage]

theorem commits_passage (h : ∀ a ∈ during, a.isHandling = true ∨ a.Passes) :
    (e.passage m during time).commits = e.accepted?.toList := by
  have hnone : during.filterMap Act.accepted? = [] := by
    refine List.filterMap_eq_nil_iff.2 fun a ha => ?_
    have hshown := h a ha
    cases a <;> first | rfl | simp [Act.isHandling, Act.Passes] at hshown
  have hend : (e.acts m).filterMap Act.accepted? = e.accepted?.toList := by
    cases e with
    | interrupted => rfl
    | committed cause accepted => cases cause <;> cases accepted <;> rfl
  rw [Passage.commits, passage, List.filterMap_append, hnone, hend]
  rfl

theorem inside_passage (h : ∀ a ∈ during, a.isHandling = true ∨ a.Passes) :
    ∀ a ∈ (e.passage m during time).during, a.isInside = true := by
  refine List.forall_mem_append.2 ⟨fun a ha => ?_, fun a ha => ?_⟩
  · exact (h a ha).elim Act.isInside_of_handling Act.Passes.isInside
  · rcases cases_of_mem_acts ha with ⟨accepted, rfl⟩ | rfl <;> rfl

end Ending

/-! ## Labels -/

theorem Passage.countsAs_iff {p : Passage} {e : Ending} (hr : p.result = e.answer p.message)
    (hc : p.commits = e.accepted?.toList)
    (hf : ∀ d temporary, e.cause?.bind Cause.failure? = some (d, temporary) →
      p.replies.getLast? = some (.error d) ∧ d.isTemporary = temporary) (l : Outcome) :
    p.countsAs l = true ↔ e.outcome? = some l := by
  cases e with
  | interrupted =>
    rw [countsAs_of_ok hr nofun nofun]
    exact Option.some_inj.symm
  | committed cause accepted =>
    cases accepted with
    | true =>
      cases cause with
      | duplicate | malformed | invalid | processed =>
        rw [countsAs_of_ok hr nofun nofun]
        exact Option.some_inj.symm
      | rejected d | exhausted d =>
        obtain ⟨hlast, htemporary⟩ := hf d _ rfl
        rw [countsAs_of_error hr, htemporary]
        simp [hlast, hc, Ending.accepted?, Ending.outcome?, Cause.outcome]
    | false =>
      have hrefused : p.commits ≠ [true] := by
        rw [hc]
        exact nofun
      cases cause with
      | duplicate =>
        rw [countsAs_of_ok hr nofun nofun]
        exact Option.some_inj.symm
      | _ =>
        rw [countsAs_of_error hr]
        exact iff_of_false (fun h => hrefused h.2.2) nofun

theorem Passage.labelled_of_ending {p : Passage} {e : Ending} (hr : p.result = e.answer p.message)
    (hc : p.commits = e.accepted?.toList)
    (hl : ∀ l, p.countsAs l = true ↔ e.outcome? = some l) : p.Labelled where
  once l k hl' hk := Option.some.inj (((hl l).1 hl').symm.trans ((hl k).1 hk))
  never := by
    rw [hr, hc, ← Ending.outcome?_eq_none_iff, Option.eq_none_iff_forall_ne_some]
    exact forall_congr' fun l => by rw [← Bool.not_eq_true, hl]

namespace Pipeline

variable {w v : Pipeline}

/-! ## Totals -/

def total (w : Pipeline) (c : Counter) : Nat := w.desk.counted.count c

theorem total_of_counters {e : Ending} {n : Nat}
    (h : v.desk.counted = e.counters ++ (List.replicate n .retry ++ w.desk.counted)) :
    (∀ l, v.total (.message l) = w.total (.message l) + if e.outcome? = some l then 1 else 0) ∧
      v.total .duplicate = w.total .duplicate + (if e.outcome? = some .duplicate then 1 else 0) ∧
      v.total .retry = w.total .retry + n := by
  have htotal (c : Counter) :
      v.total c = e.counters.count c + ((List.replicate n .retry).count c + w.total c) := by
    rw [total, h, List.count_append, List.count_append, total]
  have hcounters : (∀ l, e.counters.count (.message l) = if e.outcome? = some l then 1 else 0) ∧
      e.counters.count .duplicate = (if e.outcome? = some .duplicate then 1 else 0) ∧
      e.counters.count .retry = 0 := by
    unfold Ending.counters
    cases e.outcome? with
    | none => exact ⟨fun _ => rfl, rfl, rfl⟩
    | some label =>
      refine ⟨fun l => ?_, ?_⟩
      · cases label <;> cases l <;> rfl
      · cases label <;> exact ⟨rfl, rfl⟩
  have hnone (c : Counter) (hc : c ≠ .retry) : (List.replicate n Counter.retry).count c = 0 :=
    List.count_eq_zero.2 fun hmem => hc (List.eq_of_mem_replicate hmem)
  obtain ⟨hmessage, hduplicate, hretry⟩ := hcounters
  refine ⟨fun l => ?_, ?_, ?_⟩
  · rw [htotal, hmessage, hnone (.message l) nofun, Nat.zero_add, Nat.add_comm]
  · rw [htotal, hduplicate, hnone .duplicate nofun, Nat.zero_add, Nat.add_comm]
  · rw [htotal, hretry, List.count_replicate_self, Nat.zero_add, Nat.add_comm]

theorem retriesFrom_zero {p : Passage} {acts : List Act} {cause : Option Cause}
    (hr : p.result = .ok .cancelled ↔ cause = none) (hreplies : p.replies = Act.replies acts)
    (hcalls : p.calls = p.replies.length ∨ cause = none ∧ p.calls = p.replies.length + 1) :
    retriesFrom 0 acts cause + (if 0 < p.calls then 1 else 0) =
      p.calls + if p.waiting then 1 else 0 := by
  have hwaiting : p.waiting = true ↔
      cause = none ∧ 0 < p.replies.length ∧ p.calls = p.replies.length := by
    rw [← hr, List.length_pos_iff]
    simp [Passage.waiting]
  rw [retriesFrom, ← hreplies, Nat.zero_add]
  cases cause with
  | some c =>
    have hcause : ¬ some c = none := Option.some_ne_none c
    have hwait : ¬ p.waiting = true := fun h => hcause (hwaiting.1 h).1
    have hsame : p.calls = p.replies.length := hcalls.resolve_right fun h => hcause h.1
    rw [if_neg hwait, hsame, Option.isSome_some, Bool.toNat_true]
    split <;> omega
  | none =>
    rw [Option.isSome_none, Bool.toNat_false]
    rcases hcalls with hsame | ⟨-, hopen⟩
    · rw [hsame]
      by_cases hpos : 0 < p.replies.length
      · rw [if_pos hpos, if_pos (hwaiting.2 ⟨rfl, hpos, hsame⟩), Nat.sub_zero]
      · rw [if_neg hpos, if_neg fun h => hpos (hwaiting.1 h).2.1, Nat.sub_zero]
    · have hwait : ¬ p.waiting = true := fun h => by
        have hsame := (hwaiting.1 h).2.2
        omega
      rw [if_neg hwait, hopen, if_pos (Nat.succ_pos _), Nat.sub_zero, Nat.add_zero]

structure Passes (w : Pipeline) (p : Passage) (v : Pipeline) : Prop where
  history : v.history = w.history ++ p.acts
  inside : ∀ a ∈ p.during, a.isInside = true
  labelled : p.Labelled
  messages : ∀ l, v.total (.message l) = w.total (.message l) + if p.countsAs l then 1 else 0
  duplicates : v.total .duplicate = w.total .duplicate + if p.countsAs .duplicate then 1 else 0
  retries : v.total .retry + (if 0 < p.calls then 1 else 0) =
    w.total .retry + p.calls + if p.waiting then 1 else 0

theorem process_passes (w : Pipeline) (m : Message) (stop : Stop) :
    ∃ p : Passage, p.message = m ∧ p.result = (w.process m stop).1 ∧
      w.Passes p (w.process m stop).2 := by
  obtain ⟨acts, cause, u, hh, hmoves, -, -, hcounted, hend⟩ :=
    (w.record (.began m)).carry_settles m stop
  obtain ⟨during, hduring, rfl, hpass⟩ := hmoves.handling
  let r := (w.record (.began m)).carry m stop
  let e := u.log.ending cause
  let p := e.passage m during r.2.now
  have hcause : e.cause? = cause := u.log.cause?_ending cause
  have hcommits : p.commits = e.accepted?.toList := e.commits_passage m _ hpass
  have hreplies : p.replies = Act.replies (during.filter Act.isHandling) := e.replies_passage m _
  have hlabel : ∀ l, p.countsAs l = true ↔ e.outcome? = some l := by
    refine p.countsAs_iff rfl hcommits fun d temporary hd => ?_
    rw [hcause] at hd
    rw [hreplies]
    exact hh.failure w.settings.retry.maxAttempts_pos hd
  -- what the end counts comes on top of the retries that were counted on the way
  obtain ⟨hmessages, hduplicates, hretries⟩ := total_of_counters (w := w)
    (v := (w.process m stop).2) (hend.counted.trans (congrArg (e.counters ++ ·) hcounted))
  refine ⟨p, rfl, hend.answer.symm, ?_⟩
  constructor
  case history =>
    have hv : (w.process m stop).2.history = r.2.history ++ [.ended r.2.now m (e.answer m)] := by
      rw [← hend.answer]
      exact history_record ..
    have hr : r.2.history = w.history ++ [.began m] ++ during ++ e.acts m := by
      rw [hend.history, hduring, history_record]
    rw [hv, hr]
    simp only [Passage.acts, Ending.passage, List.append_assoc, List.cons_append, List.nil_append, p]
  case inside => exact e.inside_passage m _ hpass
  case labelled => exact p.labelled_of_ending rfl hcommits hlabel
  case messages =>
    intro l
    rw [hmessages]
    simp only [hlabel]
  case duplicates =>
    rw [hduplicates]
    simp only [hlabel]
  case retries =>
    have hcancelled : p.result = .ok .cancelled ↔ cause = none := by
      rw [← hcause]
      exact Ending.answer_eq_cancelled_iff
    have hopen : p.calls = p.replies.length ∨ cause = none ∧ p.calls = p.replies.length + 1 := by
      rw [hreplies, e.calls_passage]
      exact hh.calls
    have hfrom := retriesFrom_zero hcancelled hreplies hopen
    omega

end Pipeline

end OrderDesk
