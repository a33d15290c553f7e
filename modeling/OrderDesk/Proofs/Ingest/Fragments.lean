import OrderDesk.Order.Sample
import OrderDesk.Proofs.Ingest.Course
import OrderDesk.Proofs.Wire.Orders

/-!
Fragments. What is left of a payload that was cut off, at whatever byte, is never taken for an order:
its message is committed and dropped before the handler hears of it, and nothing else is touched.
-/

namespace OrderDesk.Pipeline

open Wire (Cut decodeOrder encodeOrder)

variable {w v : Pipeline} {m : Message} {f : Wire.Fault}

/-- A message that is committed and dropped as malformed. If its commit is refused, that is its
answer, and it is not counted. -/
structure Discards (w : Pipeline) (m : Message) (r : Except OrderError Outcome) (v : Pipeline) :
    Prop where
  answer : r = if w.log.accepts then .ok .malformed else .error (ScriptedLog.refusal m).toOrderError
  history : v.history = w.history ++ [.began m, .committed m w.log.accepts, .ended w.now m r]
  counted : v.desk.counted =
    (if w.log.accepts then [.message .malformed] else []) ++ w.desk.counted
  log : v.log = (w.log.commit m).2
  turns : v.turns = w.turns
  calls : v.calls = w.calls
  store : v.desk.store = w.desk.store
  cache : v.desk.cache = w.desk.cache
  keys : v.keys = w.keys

theorem drop_aside (w : Pipeline) (m : Message) (outcome : Outcome) :
    (w.drop m outcome).2.turns = w.turns ∧ (w.drop m outcome).2.calls = w.calls ∧
      (w.drop m outcome).2.keys = w.keys := by
  unfold drop
  rcases w.commit_cases m "after dropping message" with ⟨-, he⟩ | ⟨-, he⟩ <;> rw [he] <;>
    exact ⟨rfl, rfl, rfl⟩

theorem carry_of_decode_error (hk : w.keys.contains m.processedKey = false)
    (hd : decodeOrder m.bytes = .error f) (stop : Stop) :
    w.carry m stop =
      (w.note .error "Failed to deserialize message into an order").drop m .malformed := by
  have hnew : ¬ w.keys.contains m.processedKey = true := Bool.eq_false_iff.1 hk
  simp only [carry, if_neg hnew, hd]

theorem discards_process (hk : w.keys.contains m.processedKey = false)
    (hd : decodeOrder m.bytes = .error f) (stop : Stop) :
    Discards w m (w.process m stop).1 (w.process m stop).2 := by
  let u := (w.record (.began m)).note .error "Failed to deserialize message into an order"
  have hdropped : Settles u m (some .malformed) (u.drop m .malformed).1 (u.drop m .malformed).2 :=
    u.settles_drop m .malformed nofun rfl rfl
  obtain ⟨hturns, hcalls, hkeys⟩ := u.drop_aside m .malformed
  have hprocess : w.process m stop =
      ((u.drop m .malformed).1, (u.drop m .malformed).2.record
        (.ended (u.drop m .malformed).2.now m (u.drop m .malformed).1)) := by
    rw [process, carry_of_decode_error (w := w.record (.began m)) hk hd]
  rw [hprocess]
  constructor
  case answer => exact hdropped.answer.trans (answer_ending nofun)
  case history =>
    have hnow : (u.drop m .malformed).2.now = w.now := hdropped.now
    have hacts : u.history ++ (u.log.ending (some .malformed)).acts m =
        w.history ++ [.began m] ++ [.committed m w.log.accepts] :=
      congrArg (· ++ _) (history_record w (.began m))
    rw [history_record, hdropped.history, hacts, hnow, List.append_assoc, List.append_assoc]
    rfl
  case counted =>
    have hcounters : (u.log.ending (some .malformed)).counters = _ := counters_ending nofun
    exact hdropped.counted.trans (congrArg (· ++ _) hcounters)
  case log => exact hdropped.log
  case turns => exact hturns
  case calls => exact hcalls
  case store => exact hdropped.store
  case cache => exact hdropped.cache
  case keys => exact hkeys

/-- However an order's payload is cut, decoding what is left of it meets the end of the input, and a
new message with it is discarded. -/
theorem fragments_discarded (o : Order) (p : Wire.Input) (hp : Cut p (encodeOrder o)) :
    decodeOrder p = .error .eof ∧
      ∀ (w : Pipeline) (m : Message) (stop : Stop), m.bytes = p →
        w.keys.contains m.processedKey = false →
        Discards w m (w.process m stop).1 (w.process m stop).2 := by
  have heof := Wire.decodeOrder_cut hp
  refine ⟨heof, fun w m stop hm hk => ?_⟩
  rw [← hm] at heof
  exact discards_process hk heof stop

theorem sample_fragment_discarded :
    let p := (encodeOrder (Order.sample "é" 1)).take 15
    let m := { Message.sample (Order.sample "é" 1) 7 with payload := some p }
    let w := start .standard false
    Cut p (encodeOrder (Order.sample "é" 1)) ∧ p.getLast? = some 0xC3 ∧
      w.keys.contains m.processedKey = false ∧ decodeOrder p = .error .eof ∧
      Discards w m (w.process m .never).1 (w.process m .never).2 := by
  intro p m w
  have hcut : Cut p (encodeOrder (Order.sample "é" 1)) :=
    ⟨List.take_prefix _ _, by decide +kernel⟩
  obtain ⟨heof, hdiscards⟩ := fragments_discarded (Order.sample "é" 1) p hcut
  exact ⟨hcut, by decide +kernel, rfl, heof, hdiscards w m .never rfl rfl⟩

end OrderDesk.Pipeline
