import Mathlib.Computability.Language
import OrderDesk.Text.Pattern

/-!
Patterns as languages. A piece stands for the runs of characters that it allows, and a pattern for what
runs of its pieces make when one follows the other. The search through all ways to split a text
accepts exactly the language of the pattern.
-/

namespace OrderDesk.Text

variable {p : Piece} {ps : Pattern} {next : List Char → Bool} {s : List Char} {c : Char} {n : Nat}

def Piece.runs (p : Piece) : Language Char :=
  {run | (∀ c ∈ run, p.allows c = true) ∧ p.least ≤ run.length ∧
    ∀ m, p.most = some m → run.length ≤ m}

def Pattern.language (ps : Pattern) : Language Char := (ps.map Piece.runs).prod

/-! ## The search -/

theorem Piece.mayGrow_iff : p.mayGrow n = true ↔ ∀ m, p.most = some m → n < m := by
  unfold mayGrow
  cases p.most <;> simp

theorem Piece.split_iff : p.split next s n = true ↔
    ∃ run rest, run ++ rest = s ∧ (∀ c ∈ run, p.allows c = true) ∧ p.least ≤ n + run.length ∧
      (∀ m, p.most = some m → run ≠ [] → n + run.length ≤ m) ∧ next rest = true := by
  induction s generalizing n with
  | nil => simp [split]
  | cons c s ih =>
    simp only [split, Bool.or_eq_true, Bool.and_eq_true, decide_eq_true_eq, mayGrow_iff, ih]
    constructor
    -- the run ends here, or takes one more character
    · rintro (⟨hleast, hnext⟩ | ⟨⟨hgrow, hc⟩, run, rest, rfl, hrun, hleast, hmost, hnext⟩)
      · exact ⟨[], c :: s, rfl, List.forall_mem_nil _, hleast, fun _ _ h => absurd rfl h, hnext⟩
      · refine ⟨c :: run, rest, rfl, List.forall_mem_cons.2 ⟨hc, hrun⟩, ?_, ?_, hnext⟩
        · rw [List.length_cons]
          omega
        · intro m hm _
          rcases eq_or_ne run [] with rfl | hne
          · exact hgrow m hm
          · have hle := hmost m hm hne
            rw [List.length_cons]
            omega
    · rintro ⟨run, rest, hs, hrun, hleast, hmost, hnext⟩
      cases run with
      | nil =>
        obtain rfl : rest = c :: s := hs
        exact .inl ⟨hleast, hnext⟩
      | cons d run =>
        obtain ⟨rfl, rfl⟩ := List.cons.inj hs
        obtain ⟨hd, hrun⟩ := List.forall_mem_cons.1 hrun
        have hbound (m : Nat) (hm : p.most = some m) : n + 1 + run.length ≤ m := by
          have hle := hmost m hm (List.cons_ne_nil d run)
          rw [List.length_cons] at hle
          omega
        rw [List.length_cons] at hleast
        refine .inr ⟨⟨fun m hm => ?_, hd⟩, run, rest, rfl, hrun, by omega, fun m hm _ => hbound m hm,
          hnext⟩
        have hle := hbound m hm
        omega

namespace Pattern

theorem mem_language_nil : s ∈ language [] ↔ s = [] := Iff.rfl

theorem mem_language_cons : s ∈ language (p :: ps) ↔
    ∃ run ∈ p.runs, ∃ rest ∈ language ps, run ++ rest = s := by
  rw [language, List.map_cons, List.prod_cons, Language.mem_mul]
  rfl

theorem acceptsChars_iff : ps.acceptsChars s = true ↔ s ∈ language ps := by
  induction ps generalizing s with
  | nil => exact List.isEmpty_iff
  | cons p ps ih =>
    rw [acceptsChars, Piece.split_iff, mem_language_cons]
    simp only [ih, Nat.zero_add]
    constructor
    · rintro ⟨run, rest, rfl, hrun, hleast, hmost, hrest⟩
      refine ⟨run, ⟨hrun, hleast, fun m hm => ?_⟩, rest, hrest, rfl⟩
      rcases eq_or_ne run [] with rfl | hne
      · exact Nat.zero_le m
      · exact hmost m hm hne
    · rintro ⟨run, ⟨hrun, hleast, hmost⟩, rest, hrest, rfl⟩
      exact ⟨run, rest, rfl, hrun, hleast, fun m hm _ => hmost m hm, hrest⟩

theorem accepts_iff {s : String} : ps.accepts s = true ↔ s.toList ∈ language ps := acceptsChars_iff

/-! ## Characters -/

theorem exists_of_mem_language (h : s ∈ language ps) : ∀ c ∈ s, ∃ p ∈ ps, p.allows c = true := by
  induction ps generalizing s with
  | nil =>
    obtain rfl := mem_language_nil.1 h
    exact List.forall_mem_nil _
  | cons p ps ih =>
    obtain ⟨run, hrun, rest, hrest, rfl⟩ := mem_language_cons.1 h
    intro c hc
    rcases List.mem_append.1 hc with hc | hc
    · exact ⟨p, List.mem_cons_self, hrun.1 c hc⟩
    · obtain ⟨q, hq, hallows⟩ := ih hrest c hc
      exact ⟨q, List.mem_cons_of_mem p hq, hallows⟩

theorem exists_of_acceptsChars (h : ps.acceptsChars s = true) :
    ∀ c ∈ s, ∃ p ∈ ps, p.allows c = true :=
  exists_of_mem_language (acceptsChars_iff.1 h)

theorem not_mem_of_accepts {s : String} (hc : ∀ p ∈ ps, p.allows c = false)
    (h : ps.accepts s = true) : c ∉ s.toList := by
  intro hmem
  obtain ⟨p, hp, hallows⟩ := exists_of_acceptsChars h c hmem
  rw [hc p hp] at hallows
  cases hallows

end Pattern

/-! ## Pieces -/

section Pieces

variable {allows : Char → Bool}

theorem Piece.mem_runs_many : s ∈ (many allows).runs ↔ s ≠ [] ∧ ∀ c ∈ s, allows c = true := by
  constructor
  · rintro ⟨hall, hleast, -⟩
    exact ⟨List.length_pos_iff.1 hleast, hall⟩
  · rintro ⟨hne, hall⟩
    exact ⟨hall, List.length_pos_iff.2 hne, nofun⟩

theorem Piece.mem_runs_one : s ∈ (one allows).runs ↔ ∃ c, allows c = true ∧ s = [c] := by
  constructor
  · rintro ⟨hall, hleast, hmost⟩
    obtain ⟨c, rfl⟩ := List.length_eq_one_iff.1 (Nat.le_antisymm (hmost 1 rfl) hleast)
    exact ⟨c, hall c List.mem_cons_self, rfl⟩
  · rintro ⟨c, hc, rfl⟩
    exact ⟨List.forall_mem_singleton.2 hc, Nat.le_refl 1, fun m hm => (Option.some.inj hm).le⟩

namespace Pattern

theorem mem_language_singleton : s ∈ language [p] ↔ s ∈ p.runs := by
  simp only [mem_language_cons, mem_language_nil, exists_eq_left, List.append_nil, exists_eq_right]

theorem mem_language_many_cons : s ∈ language (.many allows :: ps) ↔
    ∃ run rest, s = run ++ rest ∧ (run ≠ [] ∧ ∀ c ∈ run, allows c = true) ∧ rest ∈ language ps := by
  rw [mem_language_cons]
  constructor
  · rintro ⟨run, hrun, rest, hrest, rfl⟩
    exact ⟨run, rest, rfl, Piece.mem_runs_many.1 hrun, hrest⟩
  · rintro ⟨run, rest, rfl, hrun, hrest⟩
    exact ⟨run, Piece.mem_runs_many.2 hrun, rest, hrest, rfl⟩

theorem mem_language_one_cons : s ∈ language (.one allows :: ps) ↔
    ∃ c rest, s = c :: rest ∧ allows c = true ∧ rest ∈ language ps := by
  rw [mem_language_cons]
  constructor
  · rintro ⟨run, hrun, rest, hrest, rfl⟩
    obtain ⟨c, hc, rfl⟩ := Piece.mem_runs_one.1 hrun
    exact ⟨c, rest, rfl, hc, hrest⟩
  · rintro ⟨c, rest, rfl, hc, hrest⟩
    exact ⟨[c], Piece.mem_runs_one.2 ⟨c, hc, rfl⟩, rest, hrest, rfl⟩

theorem mem_language_exactly_cons : s ∈ language (.exactly c :: ps) ↔
    ∃ rest, s = c :: rest ∧ rest ∈ language ps := by
  rw [Piece.exactly, mem_language_one_cons]
  constructor
  · rintro ⟨d, rest, rfl, hd, hrest⟩
    exact ⟨rest, by rw [of_decide_eq_true hd], hrest⟩
  · rintro ⟨rest, rfl, hrest⟩
    exact ⟨c, rest, rfl, decide_eq_true rfl, hrest⟩

end Pattern

end Pieces

end OrderDesk.Text
