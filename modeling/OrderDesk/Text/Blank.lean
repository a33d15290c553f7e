/-!
White space: the 25 code points with the Unicode property `White_Space`, and the operations on
text that skip them. A text is blank when it holds nothing else.
-/

namespace OrderDesk.Text

/-- The code points with the Unicode property `White_Space`, as closed ranges. -/
def blankRanges : List (Nat × Nat) :=
  [(0x09, 0x0D), (0x20, 0x20), (0x85, 0x85), (0xA0, 0xA0), (0x1680, 0x1680), (0x2000, 0x200A),
    (0x2028, 0x2029), (0x202F, 0x202F), (0x205F, 0x205F), (0x3000, 0x3000)]

def isBlank (c : Char) : Bool :=
  blankRanges.any fun r => r.1 ≤ c.toNat && c.toNat ≤ r.2

def skipBlank (s : List Char) : List Char := s.dropWhile isBlank

def trim (s : List Char) : List Char := (skipBlank (skipBlank s).reverse).reverse

def blank (s : String) : Bool := s.toList.all isBlank

theorem isBlank_of_printable {c : Char} (hlow : 0x20 < c.toNat) (hhigh : c.toNat < 0x7F) :
    isBlank c = false := by
  simp only [isBlank, blankRanges, List.any_cons, List.any_nil, Bool.or_false, Bool.or_eq_false_iff,
    Bool.and_eq_false_iff, decide_eq_false_iff_not]
  omega

theorem skipBlank_of_not_isBlank {c : Char} (h : isBlank c = false) (s : List Char) :
    skipBlank (c :: s) = c :: s := by
  simp [skipBlank, h]

end OrderDesk.Text
