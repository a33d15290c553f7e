import Mathlib.Data.List.Induction
import Mathlib.Data.Set.Card
import OrderDesk.Proofs.Ingest.Memory

/-!
Lifetimes of processed keys. Keys are marked, purged and cleared in any order while their clock is
set forward or back. A key is found as long as every purge since its latest mark reached back no
further than that mark, and a purge tells how many keys it took.
-/

namespace OrderDesk

variable {key other : String}

inductive KeyUse where
  | mark (key : String)
  | purge (age : Span)
  | clear
  | setClock (t : Instant)

namespace KeyUse

def clockAfter (t : Instant) : KeyUse → Instant
  | .setClock t' => t'
  | _ => t

def clock (start : Instant) (us : List KeyUse) : Instant := us.foldl clockAfter start

theorem clock_concat (start : Instant) (us : List KeyUse) (u : KeyUse) :
    clock start (us ++ [u]) = clockAfter (clock start us) u := List.foldl_append

end KeyUse

/-- A purge leaves what was marked at an instant: the age or the cutoff cannot be represented, or
the cutoff is not after the mark. -/
def Instant.Spares (now : Instant) (age : Span) (marked : Instant) : Prop :=
  age.nanos ≤ farthest.nanos → least.nanos ≤ now.nanos - age.nanos →
    now.nanos - age.nanos ≤ marked.nanos

/-- After these uses a key has its latest mark from an instant, nothing was cleared since, and every
purge since then spared the mark. -/
def KeyUse.Marked (start : Instant) (us : List KeyUse) (key : String) (t : Instant) : Prop :=
  ∃ before after, us = before ++ .mark key :: after ∧ .mark key ∉ after ∧ .clear ∉ after ∧
    t = clock start before ∧
    ∀ mid age rest, after = mid ++ .purge age :: rest →
      (clock start (before ++ .mark key :: mid)).Spares age t

structure TimedKeys where
  keys : ProcessedKeys
  now : Instant

namespace TimedKeys

def start (t : Instant) : TimedKeys := ⟨.empty, t⟩

def use (k : TimedKeys) : KeyUse → TimedKeys
  | .mark key => { k with keys := k.keys.mark key k.now }
  | .purge age => { k with keys := (k.keys.purge age k.now).2 }
  | .clear => { k with keys := .empty }
  | .setClock t => { k with now := t }

def run (k : TimedKeys) (us : List KeyUse) : TimedKeys := us.foldl use k

@[simp] theorem run_concat (k : TimedKeys) (us : List KeyUse) (u : KeyUse) :
    k.run (us ++ [u]) = (k.run us).use u := List.foldl_append

end TimedKeys

/-! ## Single uses -/

namespace ProcessedKeys

variable {k : ProcessedKeys} {t now : Instant} {age : Span}

theorem mem_mark : (key, t) ∈ (k.mark other now).marks ↔
    other = key ∧ t = now ∨ other ≠ key ∧ (key, t) ∈ k.marks := by
  simp only [mark, List.mem_cons, List.mem_filter, Prod.mk.injEq]
  by_cases h : key = other
  · simp [h]
  · simp [h, Ne.symm h]

theorem mem_purge : (key, t) ∈ (k.purge age now).2.marks ↔
    (key, t) ∈ k.marks ∧ now.Spares age t := by
  simp only [purge, Instant.before?, Instant.Spares]
  split
  · rename_i cutoff h
    split at h
    · rename_i hage
      obtain rfl := Option.some.inj h
      simp [since, hage.1, hage.2]
    · cases h
  · rename_i h
    split at h
    · cases h
    · rename_i hage
      have hspared : age.nanos ≤ Instant.farthest.nanos →
          Instant.least.nanos ≤ now.nanos - age.nanos → now.nanos - age.nanos ≤ t.nanos :=
        fun hfar hleast => absurd ⟨hfar, hleast⟩ hage
      exact (and_iff_left hspared).symm

theorem encard_contains (k : ProcessedKeys) :
    {key | k.contains key = true}.encard = (k.size : ℕ∞) := by
  have hkeys : {key | k.contains key = true} = ((k.marks.map Prod.fst).toFinset : Set String) := by
    ext key
    simp [contains_iff]
  rw [hkeys, Set.encard_coe_eq_coe_finsetCard, List.toFinset_card_of_nodup k.distinct,
    List.length_map, size]

theorem nodup_stale (k : ProcessedKeys) (age : Span) (now : Instant) : (k.stale age now).Nodup := by
  unfold stale
  split
  · exact nodup_filter k.distinct _
  · exact List.nodup_nil

theorem purge_fst (k : ProcessedKeys) (age : Span) (now : Instant) :
    (k.purge age now).1 = (k.stale age now).length := by
  unfold purge stale
  cases now.before? age with
  | none => rfl
  | some cutoff =>
    have hsplit := List.length_eq_length_filter_add (l := k.marks)
      fun m => decide (cutoff.nanos ≤ m.2.nanos)
    have hstale : (fun m : String × Instant => !decide (cutoff.nanos ≤ m.2.nanos)) =
        fun m => decide (m.2.nanos < cutoff.nanos) := by
      funext m
      rw [← decide_not, decide_eq_decide]
      exact Int.not_le
    rw [hstale] at hsplit
    simp only [size, since, List.length_map]
    omega

theorem contains_of_mem_stale (h : key ∈ k.stale age now) : k.contains key = true := by
  unfold stale at h
  split at h
  · obtain ⟨m, hm, rfl⟩ := List.mem_map.1 h
    exact contains_iff.2 ⟨m.2, List.mem_of_mem_filter hm⟩
  · cases h

theorem encard_purge (k : ProcessedKeys) (age : Span) (now : Instant) :
    {key | k.contains key = true ∧ (k.purge age now).2.contains key = false}.encard =
      ((k.purge age now).1 : ℕ∞) := by
  have hgone : {key | k.contains key = true ∧ (k.purge age now).2.contains key = false} =
      ((k.stale age now).toFinset : Set String) := by
    ext key
    have hkept := contains_purge k age now key
    rw [Set.mem_ofPred_eq, ← Bool.not_eq_true, hkept, List.coe_toFinset, Set.mem_ofPred_eq]
    constructor
    · rintro ⟨hk, hnot⟩
      exact Classical.not_not.1 fun hs => hnot ⟨hk, hs⟩
    · intro hs
      exact ⟨contains_of_mem_stale hs, fun hk => hk.2 hs⟩
  rw [hgone, Set.encard_coe_eq_coe_finsetCard, List.toFinset_card_of_nodup (k.nodup_stale age now),
    purge_fst]

end ProcessedKeys

/-! ## Histories -/

theorem concat_eq_append_cons {α : Type} {us before after : List α} {u v : α} :
    us ++ [u] = before ++ v :: after ↔
      (before = us ∧ v = u ∧ after = []) ∨
        ∃ rest, after = rest ++ [u] ∧ us = before ++ v :: rest := by
  constructor
  · intro h
    rcases List.eq_nil_or_concat after with rfl | ⟨rest, w, rfl⟩
    · obtain ⟨rfl, hv⟩ := List.append_inj' h rfl
      exact .inl ⟨rfl, (List.cons.inj hv).1.symm, rfl⟩
    · have hsplit : us ++ [u] = (before ++ v :: rest) ++ [w] := by simpa using h
      obtain ⟨rfl, hw⟩ := List.append_inj' hsplit rfl
      obtain rfl := (List.cons.inj hw).1
      exact .inr ⟨rest, List.concat_eq_append, rfl⟩
  · rintro (⟨rfl, rfl, rfl⟩ | ⟨rest, rfl, rfl⟩)
    · rfl
    · simp

namespace KeyUse

variable {start t : Instant} {us : List KeyUse}

theorem not_marked_nil : ¬ Marked start [] key t := by
  rintro ⟨before, after, h, -⟩
  simp at h

theorem marked_concat {u : KeyUse} (hm : u ≠ .mark key) (hc : u ≠ .clear) :
    Marked start (us ++ [u]) key t ↔
      Marked start us key t ∧ ∀ age, u = .purge age → (clock start us).Spares age t := by
  constructor
  · rintro ⟨before, after, h, hlast, hclear, ht, hspares⟩
    rcases concat_eq_append_cons.1 h with ⟨-, hu, -⟩ | ⟨rest, rfl, rfl⟩
    · exact absurd hu.symm hm
    · simp only [List.mem_append, not_or] at hlast hclear
      refine ⟨⟨before, rest, rfl, hlast.1, hclear.1, ht, fun mid age tail hrest => ?_⟩, ?_⟩
      · exact hspares mid age (tail ++ [u]) (by rw [hrest]; simp)
      · rintro age rfl
        exact hspares rest age [] rfl
  · rintro ⟨⟨before, rest, rfl, hlast, hclear, ht, hspares⟩, hnew⟩
    refine ⟨before, rest ++ [u], by simp, ?_, ?_, ht, fun mid age tail hsplit => ?_⟩
    · simpa using ⟨hlast, hm.symm⟩
    · simpa using ⟨hclear, hc.symm⟩
    · rcases concat_eq_append_cons.1 hsplit with ⟨rfl, hu, -⟩ | ⟨tail, -, rfl⟩
      · exact hnew age hu.symm
      · exact hspares mid age tail rfl

theorem marked_concat_mark :
    Marked start (us ++ [.mark other]) key t ↔
      other = key ∧ t = clock start us ∨ other ≠ key ∧ Marked start us key t := by
  by_cases hk : other = key
  · subst hk
    refine Iff.trans ⟨?_, ?_⟩ (or_iff_left fun h => h.1 rfl).symm
    · rintro ⟨before, after, h, hlast, -, ht, -⟩
      rcases concat_eq_append_cons.1 h with ⟨rfl, -, -⟩ | ⟨rest, rfl, -⟩
      · exact ⟨rfl, ht⟩
      · exact absurd (by simp) hlast
    · rintro ⟨-, rfl⟩
      exact ⟨us, [], rfl, List.not_mem_nil, List.not_mem_nil, rfl, by simp⟩
  · have hother : KeyUse.mark other ≠ .mark key := fun h => hk (KeyUse.mark.inj h)
    rw [marked_concat hother nofun]
    simp [hk]

theorem not_marked_concat_clear : ¬ Marked start (us ++ [.clear]) key t := by
  rintro ⟨before, after, h, -, hclear, -⟩
  rcases concat_eq_append_cons.1 h with ⟨-, hu, -⟩ | ⟨rest, rfl, -⟩
  · cases hu
  · exact hclear (by simp)

end KeyUse

namespace TimedKeys

variable {t₀ t : Instant} {us : List KeyUse}

theorem now_run (t₀ : Instant) (us : List KeyUse) :
    ((start t₀).run us).now = KeyUse.clock t₀ us := by
  induction us using List.reverseRecOn with
  | nil => rfl
  | append_singleton us u ih =>
    rw [run_concat, KeyUse.clock_concat]
    cases u with
    | setClock t => rfl
    | _ => exact ih

theorem mem_marks_run : (key, t) ∈ ((start t₀).run us).keys.marks ↔ KeyUse.Marked t₀ us key t := by
  induction us using List.reverseRecOn with
  | nil => exact iff_of_false List.not_mem_nil KeyUse.not_marked_nil
  | append_singleton us u ih =>
    have hnow := now_run t₀ us
    rw [run_concat]
    cases u with
    | mark other =>
      rw [KeyUse.marked_concat_mark, ← ih, ← hnow]
      exact ProcessedKeys.mem_mark
    | purge age =>
      rw [KeyUse.marked_concat (u := .purge age) nofun nofun, ← ih, ← hnow]
      simp only [KeyUse.purge.injEq, forall_eq']
      exact ProcessedKeys.mem_purge
    | clear => exact iff_of_false List.not_mem_nil KeyUse.not_marked_concat_clear
    | setClock t' =>
      rw [KeyUse.marked_concat (u := .setClock t') nofun nofun, ← ih]
      exact (and_iff_left nofun).symm

theorem contains_run : ((start t₀).run us).keys.contains key = true ↔
    ∃ t, KeyUse.Marked t₀ us key t := by
  simp only [ProcessedKeys.contains_iff, mem_marks_run]

end TimedKeys

/-! ## Fixed ages -/

namespace KeyUse

variable {start : Instant} {us vs : List KeyUse}

def Forward (start : Instant) (us : List KeyUse) : Prop :=
  ∀ before t after, us = before ++ .setClock t :: after → (clock start before).nanos ≤ t.nanos

theorem Forward.of_append (h : Forward start (us ++ vs)) : Forward start us := by
  intro before t after hsplit
  apply h before t (after ++ vs)
  rw [hsplit, List.append_assoc, List.cons_append]

theorem Forward.clock_le (h : Forward start (us ++ vs)) :
    (clock start us).nanos ≤ (clock start (us ++ vs)).nanos := by
  induction vs using List.reverseRecOn with
  | nil => rw [List.append_nil]
  | append_singleton vs v ih =>
    rw [← List.append_assoc] at h ⊢
    have hlast : (clock start (us ++ vs)).nanos ≤ (clock start (us ++ vs ++ [v])).nanos := by
      rw [clock_concat]
      cases v with
      | setClock t => exact h (us ++ vs) t [] rfl
      | _ => exact le_rfl
    exact (ih h.of_append).trans hlast

theorem Forward.marked {age : Span} {before after : List KeyUse}
    (h : Forward start (before ++ .mark key :: after)) (hlast : .mark key ∉ after)
    (hclear : .clear ∉ after) (hage : ∀ other, .purge other ∈ after → other = age)
    (hnow : (clock start (before ++ .mark key :: after)).nanos ≤
      (clock start before).nanos + age.nanos) :
    Marked start (before ++ .mark key :: after) key (clock start before) := by
  refine ⟨before, after, rfl, hlast, hclear, rfl, ?_⟩
  rintro mid other rest rfl
  obtain rfl : other = age := hage other (by simp)
  intro _ _
  have hsplit : before ++ .mark key :: (mid ++ .purge other :: rest) =
      (before ++ .mark key :: mid) ++ .purge other :: rest := by simp
  rw [hsplit] at h hnow
  have hpurge := h.clock_le
  omega

end KeyUse

namespace TimedKeys

variable {t₀ : Instant} {us : List KeyUse}

structure Lives (t₀ : Instant) (us : List KeyUse) : Prop where
  /-- A key is found exactly if it was marked, nothing was cleared since its latest mark, and every
  purge since then spared the mark. -/
  found : ∀ key, ((start t₀).run us).keys.contains key = true ↔ ∃ t, KeyUse.Marked t₀ us key t
  /-- A purge tells how many keys it takes. -/
  told : ∀ age, (((start t₀).run us).keys.purge age (KeyUse.clock t₀ us)).1 =
    {key | ((start t₀).run us).keys.contains key = true ∧
      ((start t₀).run (us ++ [.purge age])).keys.contains key = false}.encard
  counted : ((start t₀).run us).keys.size =
    {key | ((start t₀).run us).keys.contains key = true}.encard
  /-- If the clock is never set back and all purges since the latest mark of a key have one age, the
  key is found until that mark is older. -/
  kept : ∀ key age before after, us = before ++ .mark key :: after → .mark key ∉ after →
    .clear ∉ after → (∀ other, .purge other ∈ after → other = age) → KeyUse.Forward t₀ us →
    (KeyUse.clock t₀ us).nanos ≤ (KeyUse.clock t₀ before).nanos + age.nanos →
    ((start t₀).run us).keys.contains key = true

theorem lives (t₀ : Instant) (us : List KeyUse) : Lives t₀ us where
  found _ := contains_run
  told age := by
    rw [run_concat, ← now_run]
    exact (ProcessedKeys.encard_purge _ age _).symm
  counted := (ProcessedKeys.encard_contains _).symm
  kept key age before after hus hlast hclear hage hforward hnow := by
    subst hus
    exact contains_run.2 ⟨_, hforward.marked hlast hclear hage hnow⟩

example :
    let us := [.mark "a", .setClock ⟨5⟩, .mark "b", .mark "a", .setClock ⟨9⟩, .purge ⟨4⟩]
    ((start ⟨0⟩).run us).keys.marks.map Prod.fst = ["a", "b"] := by decide

end TimedKeys

end OrderDesk
