import LarkCheck.Proofs.Token.Spelling

/-!
# Reading a printed text

The readings of a printed text give the kinds of its pieces one after the other,
without a report, and the lines of the tokens show the spacing between them.
-/

namespace LarkCheck

open Token

/-- Whether a token on the line `next` keeps its spacing to a token on the line `line`. -/
def Spacing.keeps : Spacing → Nat → Nat → Prop
  | line, m, n => m < n
  | blank, m, n => m = n
  | free, _, _ => True

/-- The readings of pieces after a token on the line `line`. -/
inductive Laid : Nat → List Piece → List Reading → Prop
  | nil {line : Nat} {loc : Location} : Laid line [] [⟨[], some ⟨.eof, loc⟩⟩]
  | cons {line : Nat} {p : Piece} {ps : List Piece} {rs : List Reading} {loc : Location}
    (h : p.spacing.keeps line loc.line) (ht : Laid loc.line ps rs) :
    Laid line (p :: ps) (⟨[], some ⟨p.kind, loc⟩⟩ :: rs)

theorem Laid.length_eq {line : Nat} {ps : List Piece} {rs : List Reading} (h : Laid line ps rs) :
    rs.length = ps.length + 1 := by
  induction h with
  | nil => rfl
  | cons _ _ ih => simp [ih]

namespace Token

/-- The place after white space. -/
def afterWhite (loc : Location) (white : List Char) : Location :=
  white.foldl (fun loc c => if Text.isLineBreak c then loc.nextLine else loc.advance 1) loc

variable {white text : List Char}

theorem le_line_afterWhite (loc : Location) (white : List Char) :
    loc.line ≤ (afterWhite loc white).line := by
  induction white generalizing loc with
  | nil => exact Nat.le_refl _
  | cons c white ih =>
    refine Nat.le_trans ?_ (ih _)
    dsimp only
    split
    · exact Nat.le_succ _
    · exact Nat.le_refl _

theorem keeps_of_admits {spacing : Spacing} (h : spacing.admits white = true) (loc : Location) :
    spacing.keeps loc.line (afterWhite loc white).line := by
  cases spacing with
  | free => trivial
  | line =>
    replace h : white.any Text.isLineBreak = true := (Bool.and_eq_true_iff.1 h).2
    induction white generalizing loc with
    | nil => cases h
    | cons c white ih =>
      by_cases hc : Text.isLineBreak c = true
      · have hle := le_line_afterWhite loc.nextLine white
        simp only [Spacing.keeps, afterWhite, List.foldl_cons, hc, if_true]
        exact Nat.lt_of_lt_of_le (Nat.lt_succ_self _) hle
      · simp only [List.any_cons, hc, Bool.false_or] at h
        simp only [afterWhite, List.foldl_cons, hc, Bool.false_eq_true, if_false]
        exact ih (loc.advance 1) h
  | blank =>
    replace h : white.all Text.isBlank = true := (Bool.and_eq_true_iff.1 h).1
    induction white generalizing loc with
    | nil => rfl
    | cons c white ih =>
      obtain ⟨hc, h⟩ := Bool.and_eq_true_iff.1 h
      have hbreak : Text.isLineBreak c = false := Bool.eq_false_iff.2 fun hbreak => by
        rw [Text.isBlank_eq_false_of_isLineBreak hbreak] at hc
        cases hc
      simp only [afterWhite, List.foldl_cons, hbreak, Bool.false_eq_true, if_false]
      exact ih (loc.advance 1) h

theorem all_isWhite_of_admits {spacing : Spacing} (h : spacing.admits white = true) :
    white.all isWhite = true := by
  cases spacing with
  | free | line => exact (Bool.and_eq_true_iff.1 h).1
  | blank =>
    refine List.all_eq_true.2 fun c hc => ?_
    have := List.all_eq_true.1 (Bool.and_eq_true_iff.1 h).1 c hc
    simp [isWhite, this]

theorem ne_nil_of_admits {spacing : Spacing} (h : spacing.admits white = true) : white ≠ [] := by
  rintro rfl
  cases spacing <;> cases h

theorem gapFrom_white (h : white.all isWhite = true) (text : List Char) (offset : Nat)
    (loc : Location) : gapFrom false (white ++ text) offset loc =
      gapFrom false text (offset + white.length) (afterWhite loc white) := by
  induction white generalizing offset loc with
  | nil => rfl
  | cons c white ih =>
    obtain ⟨hc, h⟩ := Bool.and_eq_true_iff.1 h
    rw [List.cons_append, gapFrom]
    by_cases hbreak : Text.isLineBreak c = true
    · simp only [hbreak, if_true, ih h, afterWhite, List.foldl_cons, List.length_cons,
        Nat.add_assoc, Nat.add_comm 1]
    · have hblank : Text.isBlank c = true := by simpa [isWhite, hbreak] using hc
      simp only [hbreak, hblank, Bool.false_eq_true, Bool.or_true, if_false, if_true, ih h,
        afterWhite, List.foldl_cons, List.length_cons, Nat.add_assoc, Nat.add_comm 1]

theorem gapFrom_opening {c : Char} {opening : Opening} (h : opening? c = some opening)
    (text : List Char) (offset : Nat) (loc : Location) :
    gapFrom false (c :: text) offset loc = ⟨[], some opening, ⟨c :: text, offset, loc⟩⟩ := by
  have hwhite : isWhite c = false := Bool.eq_false_iff.2 fun hwhite => by
    rw [opening?_eq_none_of_isWhite hwhite] at h
    cases h
  have hcomment : c ≠ '#' := by
    rintro rfl
    revert h
    simp [show opening? '#' = none by decide]
  obtain ⟨hblank, hbreak⟩ := Bool.or_eq_false_iff.1 hwhite
  rw [gapFrom]
  simp [hblank, hbreak, hcomment, h]

theorem readings_white (h : white.all isWhite = true) (offset : Nat) (loc : Location) :
    readings ⟨white, offset, loc⟩ = [⟨[], some ⟨.eof, afterWhite loc white⟩⟩] := by
  have hread : Cursor.read ⟨white, offset, loc⟩ =
      (⟨[], some ⟨.eof, afterWhite loc white⟩⟩,
        ⟨[], offset + white.length, afterWhite loc white⟩) := by
    have := gapFrom_white h [] offset loc
    rw [List.append_nil] at this
    simp [Cursor.read, Cursor.gap, this, gapFrom]
  rw [readings, hread]
  simp [Reading.isEof]

theorem readings_spelling {kind : Kind} (hk : kind.Writable) (h : white.all isWhite = true)
    (htext : Ended text) (offset : Nat) (loc : Location) :
    ∃ offset' loc', readings ⟨white ++ (kind.spelling ++ text), offset, loc⟩ =
      ⟨[], some ⟨kind, afterWhite loc white⟩⟩ :: readings ⟨text, offset', loc'⟩ ∧
        loc'.line = (afterWhite loc white).line := by
  obtain ⟨first, rest, opening, heq, hopening, hread⟩ := lexesBefore_of_writable hk htext
  have hgap : gapFrom false (white ++ (kind.spelling ++ text)) offset loc =
      ⟨[], some opening, ⟨kind.spelling ++ text, offset + white.length, afterWhite loc white⟩⟩ := by
    rw [gapFrom_white h, heq, List.cons_append, gapFrom_opening hopening]
  have heof : kind ≠ .eof := by
    rintro rfl
    exact hk
  refine ⟨offset + white.length + kind.spelling.length,
    (afterWhite loc white).advance kind.spelling.length, ?_, rfl⟩
  rw [readings]
  simp only [Cursor.read, Cursor.gap, hgap, hread]
  simp [Reading.isEof, heof]

end Token

theorem Printed.ended {ps : List Piece} {text : List Char} (h : Printed ps text) :
    Ended text := by
  intro c hc
  cases h with
  | nil h => exact List.all_eq_true.1 h c (List.mem_of_mem_head? hc)
  | @cons p ps white text h ht =>
    cases white with
    | nil => exact absurd rfl (ne_nil_of_admits h)
    | cons d white =>
      obtain rfl : d = c := by simpa using hc
      exact (Bool.and_eq_true_iff.1 (all_isWhite_of_admits h)).1

theorem Printed.laid {ps : List Piece} {text : List Char} (h : Printed ps text)
    (hps : ∀ p ∈ ps, p.kind.Writable) (offset : Nat) (loc : Location) :
    Laid loc.line ps (readings ⟨text, offset, loc⟩) := by
  induction h generalizing offset loc with
  | nil h =>
    rw [readings_white h]
    exact .nil
  | @cons p ps white text h ht ih =>
    obtain ⟨hp, hps⟩ := List.forall_mem_cons.1 hps
    obtain ⟨offset', loc', heq, hline⟩ :=
      readings_spelling hp (all_isWhite_of_admits h) ht.ended offset loc
    rw [heq]
    refine .cons (keeps_of_admits h loc) ?_
    rw [← hline]
    exact ih hps offset' loc'

end LarkCheck
