/-!
# Length in 16-bit units

A character outside the basic plane counts for two units, every other for one.
-/

namespace LiveMarkup.Text

/-- The number of 16-bit units of a list of characters. -/
def units16 : List Char → Nat
  | [] => 0
  | c :: cs => (if c.toNat < 0x10000 then 1 else 2) + units16 cs

theorem units16_append (a b : List Char) : units16 (a ++ b) = units16 a + units16 b := by
  induction a with
  | nil => simp [units16]
  | cons c cs ih => simp [units16, ih, Nat.add_assoc]

/-- The characters of a text are at most as many as its units. -/
theorem length_le_units16 (cs : List Char) : cs.length ≤ units16 cs := by
  induction cs with
  | nil => simp [units16]
  | cons c cs ih => simp only [units16, List.length_cons]; split <;> omega

end LiveMarkup.Text
