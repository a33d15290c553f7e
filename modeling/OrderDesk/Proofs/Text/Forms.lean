import OrderDesk.Proofs.Text.Decimal
import OrderDesk.Proofs.Text.Patterns

/-!
Forms of fields: what the texts are like that the patterns of an order's fields accept. Ids are letters
and digits, postal codes are digits, and a phone number and an address are what they are taken to be;
nothing may stand around them.
-/

namespace OrderDesk.Text

variable {s : String} {c : Char}

/-! ## Letters and digits -/

theorem isAlphanum_iff : (isAsciiLetter c || Decimal.isDigit c) = c.isAlphanum := by
  have hupper : c.isUpper = (decide ('A' ≤ c) && decide (c ≤ 'Z')) := Bool.decide_and ..
  have hparts : c.isAlphanum =
      (c.isUpper || (decide ('a' ≤ c) && decide (c ≤ 'z')) || Decimal.isDigit c) := rfl
  rw [hparts, hupper]
  rfl

theorem accepts_alphanumeric_iff :
    alphanumeric.accepts s = true ↔ s ≠ "" ∧ ∀ c ∈ s.toList, c.isAlphanum = true := by
  rw [Pattern.accepts_iff, alphanumeric, Pattern.mem_language_singleton, Piece.mem_runs_many, ne_eq,
    String.toList_eq_nil_iff]
  simp only [isAlphanum_iff, ne_eq]

theorem accepts_numeric_iff :
    numeric.accepts s = true ↔ s ≠ "" ∧ ∀ c ∈ s.toList, c.isDigit = true := by
  rw [Pattern.accepts_iff, numeric, Pattern.mem_language_singleton, Piece.mem_runs_many, ne_eq,
    String.toList_eq_nil_iff]
  rfl

/-! ## Phone numbers -/

/-- A plus sign, a digit that is not zero, and one to fourteen digits more. -/
def IsPhone (s : List Char) : Prop :=
  ∃ d ds, s = '+' :: d :: ds ∧ ('1' ≤ d ∧ d ≤ '9') ∧ (1 ≤ ds.length ∧ ds.length ≤ 14) ∧
    ∀ c ∈ ds, c.isDigit = true

theorem accepts_e164_iff : e164.accepts s = true ↔ IsPhone s.toList := by
  rw [Pattern.accepts_iff, e164, Pattern.mem_language_exactly_cons]
  simp only [Pattern.mem_language_one_cons, Pattern.mem_language_singleton, Bool.and_eq_true,
    decide_eq_true_eq]
  constructor
  · rintro ⟨_, hs, d, ds, rfl, hd, hall, hleast, hmost⟩
    exact ⟨d, ds, hs, hd, ⟨hleast, hmost 14 rfl⟩, hall⟩
  · rintro ⟨d, ds, hs, hd, ⟨hleast, hmost⟩, hall⟩
    exact ⟨_, hs, d, ds, rfl, hd, hall, hleast, fun m hm => hmost.trans (Option.some.inj hm).le⟩

/-! ## Addresses -/

/-- No white space and one at sign, with something before it, and after it a point that is neither the
first nor the last character there. -/
structure IsAddress (s : List Char) : Prop where
  solid : ∀ c ∈ s, isBlank c = false
  one : s.count '@' = 1
  parts : ∃ name host, s = name ++ '@' :: host ∧ name ≠ [] ∧
    ∃ front back, host = front ++ '.' :: back ∧ front ≠ [] ∧ back ≠ []

theorem forall_inAddress_iff {run : List Char} :
    (∀ c ∈ run, inAddress c = true) ↔ '@' ∉ run ∧ ∀ c ∈ run, isBlank c = false := by
  simp only [inAddress, Bool.and_eq_true, decide_eq_true_eq, Bool.not_eq_true']
  constructor
  · intro h
    exact ⟨fun hat => (h _ hat).1 rfl, fun c hc => (h c hc).2⟩
  · rintro ⟨hat, hsolid⟩ c hc
    exact ⟨ne_of_mem_of_not_mem hc hat, hsolid c hc⟩

theorem accepts_email_iff : email.accepts s = true ↔ IsAddress s.toList := by
  rw [Pattern.accepts_iff, email]
  generalize s.toList = s
  have hcount (name front back : List Char) :
      (name ++ '@' :: (front ++ '.' :: back)).count '@' = 1 ↔
        '@' ∉ name ∧ '@' ∉ front ∧ '@' ∉ back := by
    have hpoint : ¬ ('.' == '@') = true := by decide
    simp only [List.count_append, List.count_cons_self, List.count_cons, if_neg hpoint,
      ← List.count_eq_zero]
    omega
  have hsolid (name front back : List Char) :
      (∀ c ∈ name ++ '@' :: (front ++ '.' :: back), isBlank c = false) ↔
        (∀ c ∈ name, isBlank c = false) ∧ (∀ c ∈ front, isBlank c = false) ∧
          ∀ c ∈ back, isBlank c = false := by
    have hat : isBlank '@' = false := by decide
    have hpoint : isBlank '.' = false := by decide
    simp only [List.forall_mem_append, List.forall_mem_cons, hat, hpoint, true_and]
  simp only [Pattern.mem_language_many_cons, Pattern.mem_language_exactly_cons,
    Pattern.mem_language_singleton, Piece.mem_runs_many, forall_inAddress_iff]
  constructor
  · rintro ⟨name, _, rfl, ⟨hne, hname⟩, _, rfl, front, _, rfl, ⟨hfne, hfront⟩, back, rfl, hbne, hback⟩
    exact ⟨(hsolid ..).2 ⟨hname.2, hfront.2, hback.2⟩, (hcount ..).2 ⟨hname.1, hfront.1, hback.1⟩,
      name, _, rfl, hne, front, back, rfl, hfne, hbne⟩
  · rintro ⟨hblank, hone, name, _, rfl, hne, front, back, rfl, hfne, hbne⟩
    obtain ⟨hname, hfront, hback⟩ := (hcount ..).1 hone
    obtain ⟨hnameSolid, hfrontSolid, hbackSolid⟩ := (hsolid ..).1 hblank
    exact ⟨name, _, rfl, ⟨hne, hname, hnameSolid⟩, _, rfl, front, _, rfl,
      ⟨hfne, hfront, hfrontSolid⟩, back, rfl, hbne, hback, hbackSolid⟩

/-! ## All forms -/

def forms : List Pattern := [alphanumeric, numeric, e164, email]

theorem isBlank_of_isAlphanum (h : c.isAlphanum = true) : isBlank c = false := by
  simp only [← isAlphanum_iff, isAsciiLetter, Decimal.isDigit, Bool.or_eq_true, Bool.and_eq_true,
    decide_eq_true_eq] at h
  change ((65 ≤ c.toNat ∧ c.toNat ≤ 90) ∨ (97 ≤ c.toNat ∧ c.toNat ≤ 122)) ∨
    (48 ≤ c.toNat ∧ c.toNat ≤ 57) at h
  exact isBlank_of_printable (by omega) (by omega)

theorem IsPhone.solid {s : List Char} (h : IsPhone s) : ∀ c ∈ s, isBlank c = false := by
  obtain ⟨d, ds, rfl, ⟨hlow, hhigh⟩, -, hall⟩ := h
  have hlow : 49 ≤ d.toNat := hlow
  have hhigh : d.toNat ≤ 57 := hhigh
  refine List.forall_mem_cons.2 ⟨by decide, List.forall_mem_cons.2 ⟨?_, fun c hc => ?_⟩⟩
  · exact isBlank_of_printable (by omega) (by omega)
  · exact isBlank_of_isDigit (hall c hc)

theorem isBlank_of_accepts {p : Pattern} (hp : p ∈ forms) (h : p.accepts s = true) :
    ∀ c ∈ s.toList, isBlank c = false := by
  simp only [forms, List.mem_cons, List.not_mem_nil, or_false] at hp
  rcases hp with rfl | rfl | rfl | rfl
  · exact fun c hc => isBlank_of_isAlphanum ((accepts_alphanumeric_iff.1 h).2 c hc)
  · exact fun c hc => isBlank_of_isDigit ((accepts_numeric_iff.1 h).2 c hc)
  · exact (accepts_e164_iff.1 h).solid
  · exact (accepts_email_iff.1 h).solid

structure Formed (s : String) : Prop where
  alphanumeric_iff : alphanumeric.accepts s = true ↔ s ≠ "" ∧ ∀ c ∈ s.toList, c.isAlphanum = true
  numeric_iff : numeric.accepts s = true ↔ s ≠ "" ∧ ∀ c ∈ s.toList, c.isDigit = true
  e164_iff : e164.accepts s = true ↔ IsPhone s.toList
  email_iff : email.accepts s = true ↔ IsAddress s.toList
  /-- Wherever a character stands in a text, the pattern has a place for it, and white space has
  none. -/
  whole : ∀ p ∈ forms, p.accepts s = true →
    ∀ c ∈ s.toList, (∃ q ∈ p, q.allows c = true) ∧ isBlank c = false
  lines : ∀ p ∈ forms, p.accepts (s ++ "\n") = false ∧ p.accepts ("\n" ++ s) = false

theorem formed (s : String) : Formed s := by
  have hline {p : Pattern} (hp : p ∈ forms) {t : String} (ht : '\n' ∈ t.toList) :
      p.accepts t = false := by
    rw [← Bool.not_eq_true]
    intro h
    exact absurd (isBlank_of_accepts hp h _ ht) (by decide)
  constructor
  case alphanumeric_iff => exact accepts_alphanumeric_iff
  case numeric_iff => exact accepts_numeric_iff
  case e164_iff => exact accepts_e164_iff
  case email_iff => exact accepts_email_iff
  case whole =>
    intro p hp h c hc
    exact ⟨Pattern.exists_of_acceptsChars h c hc, isBlank_of_accepts hp h c hc⟩
  case lines =>
    intro p hp
    exact ⟨hline hp (by simp), hline hp (by simp)⟩

example : email.accepts "a.b@c.d.e" = true ∧ email.accepts "a@.b." = false := by decide +kernel

end OrderDesk.Text
