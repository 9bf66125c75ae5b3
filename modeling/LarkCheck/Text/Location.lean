/-!
# Locations in a text

Lines count from 1 and columns from 0. A column counts code points, so one
step to the right passes one character, and only a line break moves down.
-/

namespace LarkCheck

structure Location where
  line : Nat
  column : Nat
deriving DecidableEq, Repr, Inhabited

namespace Location

/-- The place of the first character of a text. -/
def start : Location := ⟨1, 0⟩

def advance (loc : Location) (width : Nat) : Location :=
  ⟨loc.line, loc.column + width⟩

def nextLine (loc : Location) : Location :=
  ⟨loc.line + 1, 0⟩

/-- Reading order: by line, then by column. -/
def cmp (a b : Location) : Ordering :=
  (compare a.line b.line).then (compare a.column b.column)

instance : LT Location :=
  ⟨fun a b => a.line < b.line ∨ a.line = b.line ∧ a.column < b.column⟩

instance (a b : Location) : Decidable (a < b) :=
  inferInstanceAs (Decidable (a.line < b.line ∨ a.line = b.line ∧ a.column < b.column))

def text (loc : Location) : String :=
  toString loc.line ++ ":" ++ toString loc.column

theorem lt_iff {a b : Location} :
    a < b ↔ a.line < b.line ∨ a.line = b.line ∧ a.column < b.column := Iff.rfl

theorem lt_trans {a b c : Location} (hab : a < b) (hbc : b < c) : a < c := by
  rw [lt_iff] at *
  omega

theorem lt_irrefl (a : Location) : ¬ a < a := by
  rw [lt_iff]
  omega

theorem lt_of_lt_of_not_lt {a b c : Location} (hab : a < b) (hcb : ¬ c < b) : a < c := by
  rw [lt_iff] at *
  omega

theorem not_lt_trans {a b c : Location} (hba : ¬ b < a) (hcb : ¬ c < b) : ¬ c < a :=
  fun hca => hcb (lt_of_lt_of_not_lt hca hba)

theorem lt_advance (a : Location) {width : Nat} (h : 0 < width) : a < a.advance width := by
  rw [lt_iff]
  exact Or.inr ⟨rfl, Nat.lt_add_of_pos_right h⟩

theorem lt_nextLine (a : Location) : a < a.nextLine := by
  rw [lt_iff]
  exact Or.inl (Nat.lt_succ_self _)

end Location

end LarkCheck
