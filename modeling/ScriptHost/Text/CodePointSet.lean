/-!
Sets of code points given by their boundaries. A set is the increasing list of the code points at
which membership changes, so a code point belongs to it exactly when an odd number of boundaries
lies at or below it.
-/

namespace ScriptHost

/-- Code points from one boundary up to the next, every second stretch. -/
structure CodePointSet where
  boundaries : List Nat

namespace CodePointSet

/-- Membership: an odd number of boundaries at or below the character. -/
def contains (s : CodePointSet) (c : Char) : Bool :=
  s.boundaries.countP (· ≤ c.toNat) % 2 == 1

theorem contains_empty (c : Char) : (CodePointSet.mk []).contains c = false := rfl

theorem contains_cons (b : Nat) (bs : List Nat) (c : Char) :
    (CodePointSet.mk (b :: bs)).contains c =
      ((CodePointSet.mk bs).contains c ^^ decide (b ≤ c.toNat)) := by
  by_cases h : b ≤ c.toNat
  · simp only [contains, List.countP_cons, h, decide_true, if_true, Bool.xor_true]
    rcases Nat.mod_two_eq_zero_or_one (bs.countP (· ≤ c.toNat)) with h0 | h1
    · simp [h0, Nat.add_mod]
    · simp [h1, Nat.add_mod]
  · simp [contains, h]

end CodePointSet

end ScriptHost
