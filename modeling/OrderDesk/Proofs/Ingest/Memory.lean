import Mathlib.Data.List.Nodup
import OrderDesk.Ingest.Pipeline

/-!
What a pipeline remembers. Its processed keys are those that its history marked and has not forgotten
since.
-/

namespace OrderDesk

variable {key other : String}

namespace ProcessedKeys

variable {k : ProcessedKeys}

theorem contains_iff : k.contains key = true ↔ ∃ t, (key, t) ∈ k.marks := by
  simp [contains]

theorem contains_mark (k : ProcessedKeys) (key other : String) (now : Instant) :
    (k.mark key now).contains other = true ↔ other = key ∨ k.contains other = true := by
  simp only [contains_iff, mark, List.mem_cons, List.mem_filter, Prod.mk.injEq]
  by_cases h : other = key <;> simp [h]

theorem mark_unique {t u : Instant} (ht : (key, t) ∈ k.marks) (hu : (key, u) ∈ k.marks) : t = u :=
  congrArg Prod.snd (List.inj_on_of_nodup_map k.distinct ht hu rfl)

theorem contains_purge (k : ProcessedKeys) (age : Span) (now : Instant) (key : String) :
    (k.purge age now).2.contains key = true ↔
      k.contains key = true ∧ key ∉ k.stale age now := by
  simp only [purge, stale]
  cases now.before? age with
  | none => simp
  | some cutoff =>
    have hsince : (k.since cutoff).contains key = true ↔
        ∃ t, (key, t) ∈ k.marks ∧ cutoff.nanos ≤ t.nanos := by
      simp [contains_iff, since]
    have hstale : key ∈ (k.marks.filter fun m => m.2.nanos < cutoff.nanos).map Prod.fst ↔
        ∃ t, (key, t) ∈ k.marks ∧ t.nanos < cutoff.nanos := by
      simp
    rw [hstale]
    refine hsince.trans ⟨?_, ?_⟩
    · rintro ⟨t, ht, hle⟩
      refine ⟨contains_iff.2 ⟨t, ht⟩, ?_⟩
      rintro ⟨u, hu, hlt⟩
      rw [mark_unique ht hu] at hle
      exact absurd hlt (Int.not_lt.2 hle)
    · rintro ⟨hk, hns⟩
      obtain ⟨t, ht⟩ := contains_iff.1 hk
      exact ⟨t, ht, Int.not_lt.1 fun hlt => hns ⟨t, ht, hlt⟩⟩

end ProcessedKeys

def Act.Forgets (key : String) : Act → Prop
  | .dropped keys => key ∈ keys
  | .closed => True
  | _ => False

/-- Whether a history marked a key and has not forgotten it since. -/
def Remembers (h : List Act) (key : String) : Prop :=
  ∃ before after, h = before ++ .marked key :: after ∧ ∀ a ∈ after, ¬ a.Forgets key

theorem not_remembers_nil (key : String) : ¬ Remembers [] key := by
  rintro ⟨before, after, h, -⟩
  simp at h

theorem remembers_concat {h : List Act} {a : Act} :
    Remembers (h ++ [a]) key ↔ a = .marked key ∨ Remembers h key ∧ ¬ a.Forgets key := by
  constructor
  · rintro ⟨before, after, he, hkeep⟩
    rcases List.eq_nil_or_concat after with rfl | ⟨after, b, rfl⟩
    -- the act itself is the mark, or the mark came before it
    · obtain ⟨rfl, hb⟩ := List.append_inj' he rfl
      exact .inl (List.cons.inj hb).1
    · have hsplit : h ++ [a] = (before ++ .marked key :: after) ++ [b] := by simpa using he
      obtain ⟨rfl, hb⟩ := List.append_inj' hsplit rfl
      obtain rfl := (List.cons.inj hb).1
      exact .inr ⟨⟨before, after, rfl, fun c hc => hkeep c (by simp [hc])⟩, hkeep a (by simp)⟩
  · rintro (rfl | ⟨⟨before, after, rfl, hkeep⟩, ha⟩)
    · exact ⟨h, [], rfl, by simp⟩
    · refine ⟨before, after ++ [a], by simp, fun c hc => ?_⟩
      rcases List.mem_append.1 hc with hc | hc
      · exact hkeep c hc
      · exact List.mem_singleton.1 hc ▸ ha

namespace Pipeline

variable {w u : Pipeline}

def Tracked (w : Pipeline) : Prop := ∀ key, w.keys.contains key = true ↔ Remembers w.history key

theorem Tracked.of_eq (h : w.Tracked) (hk : u.keys = w.keys) (ht : u.trace = w.trace) :
    u.Tracked := by
  intro key
  rw [hk, history, ht]
  exact h key

theorem Tracked.record (h : w.Tracked) {a : Act} (hm : ∀ key, a ≠ .marked key)
    (hf : ∀ key, ¬ a.Forgets key) : (w.record a).Tracked := by
  intro key
  rw [history_record, remembers_concat]
  simp only [hm key, hf key, false_or, not_false_eq_true, and_true]
  exact h key

theorem Tracked.mark (h : w.Tracked) (key : String) : (w.mark key).Tracked := by
  intro other
  have hh : (w.mark key).history = w.history ++ [.marked key] := history_record w _
  rw [hh, remembers_concat, ← h other]
  refine (ProcessedKeys.contains_mark ..).trans ?_
  have hm : Act.marked key = .marked other ↔ other = key := by
    rw [Act.marked.injEq]
    exact eq_comm
  rw [hm]
  simp only [Act.Forgets, not_false_eq_true, and_true]

theorem Tracked.purge (h : w.Tracked) (age : Span) : (w.purge age).2.Tracked := by
  intro key
  have hh : (w.purge age).2.history = w.history ++ [.dropped (w.keys.stale age w.clock.now)] :=
    history_record w _
  rw [hh, remembers_concat, ← h key]
  refine (ProcessedKeys.contains_purge ..).trans ?_
  simp only [Act.Forgets, reduceCtorEq, false_or]

theorem Tracked.cleanUp (h : w.Tracked) : w.cleanUp.Tracked := by
  simp only [Pipeline.cleanUp]
  split <;> exact (h.purge w.settings.maxAge).of_eq rfl rfl

theorem Tracked.passTo (h : w.Tracked) (t : Nat) : (w.passTo t).Tracked := by
  rcases w.passTo_eq t with ⟨next, he⟩ | he <;> rw [he]
  · exact h.cleanUp.of_eq rfl rfl
  · exact h.of_eq rfl rfl

end Pipeline

end OrderDesk
