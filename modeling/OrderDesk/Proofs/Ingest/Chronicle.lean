import Mathlib.Data.List.Induction
import OrderDesk.Proofs.Ingest.Rounds

/-!
Chronicles: histories of courses, with polls, idling and purges between them, in which exactly those
messages are told to be duplicates whose keys are remembered.
-/

namespace OrderDesk

def Act.Between : Act → Prop
  | .polled _ | .idled _ | .dropped _ => True
  | _ => False

inductive Chronicle (most : Nat) : List Act → Prop where
  | nil : Chronicle most []
  | course {h : List Act} {c : Course} (hh : Chronicle most h) (hc : c.Lawful most)
      (hd : c.ending.cause? = some .duplicate ↔ Remembers h c.message.processedKey) :
      Chronicle most (h ++ c.acts)
  | act {h : List Act} {a : Act} (hh : Chronicle most h) (ha : a.Between) :
      Chronicle most (h ++ [a])

variable {most : Nat} {key : String} {h k : List Act} {c : Course}

theorem Chronicle.append (hh : Chronicle most h) (ha : ∀ a ∈ k, a.Between) :
    Chronicle most (h ++ k) := by
  induction k generalizing h with
  | nil => rwa [List.append_nil]
  | cons a k ih =>
    rw [← List.singleton_append, ← List.append_assoc]
    exact ih (hh.act (ha a List.mem_cons_self)) fun b hb => ha b (List.mem_cons_of_mem a hb)

theorem remembers_append :
    Remembers (h ++ k) key ↔
      Remembers k key ∨ Remembers h key ∧ ∀ a ∈ k, ¬ a.Forgets key := by
  induction k using List.reverseRecOn with
  | nil => simp [not_remembers_nil]
  | append_singleton k a ih =>
    rw [← List.append_assoc, remembers_concat, remembers_concat, ih]
    simp only [List.forall_mem_append, List.forall_mem_singleton]
    tauto

theorem Course.Lawful.marked (hc : c.Lawful most) (hm : .marked key ∈ c.acts) :
    c.ending.marks = true ∧ key = c.message.processedKey := by
  simp only [Course.acts, List.mem_append, List.mem_cons, List.not_mem_nil, or_false,
    reduceCtorEq, false_or] at hm
  rcases hm with hm | hm
  · exact (hc.during hm).elim
  · unfold Ending.acts at hm
    cases he : c.ending with
    | interrupted => rw [he] at hm; cases hm
    | committed cause accepted =>
      rw [he] at hm
      rcases List.mem_cons.1 hm with hm | hm
      · cases hm
      · split at hm
        · rename_i hmarks
          exact ⟨hmarks, by simpa using hm⟩
        · cases hm

theorem Remembers.mem (hr : Remembers h key) : .marked key ∈ h := by
  obtain ⟨before, after, rfl, -⟩ := hr
  simp

theorem Course.remembers (hm : c.ending.marks = true) :
    Remembers c.acts c.message.processedKey := by
  unfold Ending.marks at hm
  cases he : c.ending with
  | interrupted => rw [he] at hm; cases hm
  | committed cause accepted =>
    rw [he] at hm
    refine ⟨.began c.message :: c.during ++ [.committed c.message accepted],
      [.ended c.time c.message (c.ending.answer c.message)], ?_, ?_⟩
    · simp only [Course.acts, he, Ending.acts]
      rw [if_pos hm]
      simp
    · intro a ha
      rw [List.mem_singleton.1 ha]
      exact id

theorem Chronicle.exists_course (hh : Chronicle most h) (hr : Remembers h key) :
    ∃ (before : List Act) (c : Course) (after : List Act), h = before ++ c.acts ++ after ∧
      c.Lawful most ∧ c.message.processedKey = key ∧ c.ending.marks = true ∧
        ∀ a ∈ after, ¬ a.Forgets key := by
  induction hh with
  | nil => exact absurd hr (not_remembers_nil key)
  | @course h c _ hc _ ih =>
    rcases remembers_append.1 hr with hr | ⟨hr, hkeep⟩
    -- the last course marked the key, or an earlier one did and the last one kept it
    · obtain ⟨hm, rfl⟩ := hc.marked hr.mem
      exact ⟨h, c, [], (List.append_nil _).symm, hc, rfl, hm, List.forall_mem_nil _⟩
    · obtain ⟨before, d, after, rfl, hd, hkey, hm, hafter⟩ := ih hr
      refine ⟨before, d, after ++ c.acts, List.append_assoc .., hd, hkey, hm, ?_⟩
      exact List.forall_mem_append.2 ⟨hafter, hkeep⟩
  | @act h a _ ha ih =>
    rcases remembers_concat.1 hr with rfl | ⟨hr, hkeep⟩
    · exact ha.elim
    · obtain ⟨before, d, after, rfl, hd, hkey, hm, hafter⟩ := ih hr
      refine ⟨before, d, after ++ [a], List.append_assoc .., hd, hkey, hm, ?_⟩
      exact List.forall_mem_append.2 ⟨hafter, List.forall_mem_singleton.2 hkeep⟩

theorem Course.Lawful.began (hc : c.Lawful most) {m : Message} {before after : List Act}
    (he : c.acts = before ++ .began m :: after) : before = [] ∧ c.message = m := by
  cases before with
  | nil =>
    have hhead : Act.began c.message = .began m := (List.cons.inj he).1
    exact ⟨rfl, Act.began.inj hhead⟩
  | cons b before =>
    have hsplit : c.during ++ c.ending.acts c.message ++
        [.ended c.time c.message (c.ending.answer c.message)] = before ++ .began m :: after :=
      (List.cons.inj he).2
    have htail : .began m ∈ c.during ++ c.ending.acts c.message ++
        [.ended c.time c.message (c.ending.answer c.message)] := by
      rw [hsplit]
      simp
    simp only [List.mem_append, List.mem_singleton, reduceCtorEq, or_false] at htail
    rcases htail with hm | hm
    · exact (hc.during hm).elim
    · unfold Ending.acts at hm
      split at hm
      · cases hm
      · rcases List.mem_cons.1 hm with hm | hm
        · cases hm
        · split at hm <;> simp at hm

theorem Chronicle.of_began (hh : Chronicle most h) {m : Message} {before after : List Act}
    (he : h = before ++ .began m :: after) :
    ∃ (c : Course) (rest : List Act), .began m :: after = c.acts ++ rest ∧ c.message = m ∧
      c.Lawful most ∧ (c.ending.cause? = some .duplicate ↔ Remembers before m.processedKey) := by
  induction hh generalizing after with
  | nil => simp at he
  | @course h c _ hc hd ih =>
    rcases List.append_eq_append_iff.1 he with ⟨b, rfl, hb⟩ | ⟨b, rfl, hb⟩
    -- the message begins in the last course or before it
    · obtain ⟨rfl, rfl⟩ := hc.began hb
      refine ⟨c, [], by simpa using hb.symm, rfl, hc, by simpa using hd⟩
    · cases b with
      | nil =>
        have hfirst : c.acts = [] ++ .began m :: after := hb.symm
        obtain ⟨-, rfl⟩ := hc.began hfirst
        exact ⟨c, [], by simpa using hb, rfl, hc, by simpa using hd⟩
      | cons a b =>
        obtain ⟨rfl, rfl⟩ := List.cons.inj hb
        obtain ⟨d, rest, hrest, hd⟩ := ih rfl
        refine ⟨d, rest ++ c.acts, ?_, hd⟩
        rw [← List.append_assoc, ← hrest]
        rfl
  | @act h a _ ha ih =>
    rcases List.eq_nil_or_concat after with rfl | ⟨after, b, rfl⟩
    · obtain ⟨-, hb⟩ := List.append_inj' he rfl
      rw [(List.cons.inj hb).1] at ha
      exact ha.elim
    · have hsplit : h ++ [a] = (before ++ .began m :: after) ++ [b] := by simpa using he
      obtain ⟨rfl, -⟩ := List.append_inj' hsplit rfl
      obtain ⟨d, rest, hrest, hd⟩ := ih rfl
      refine ⟨d, rest ++ [b], ?_, hd⟩
      rw [← List.append_assoc, ← hrest]
      simp

end OrderDesk
