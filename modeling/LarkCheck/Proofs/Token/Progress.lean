import LarkCheck.Proofs.Token.Scans
import LarkCheck.Proofs.Token.Zones

/-!
# Reading comes to an end

Wherever reading is resumed, no reading leaves the text. One that gives the end of the
file stands at the end of the text, and all later ones give it again and report nothing;
any other, even of a malformed lexeme, moves on. So a text has no more readings than
characters and one.
-/

namespace LarkCheck

namespace Token

variable {c d : Cursor} {z z' : Zone} {ms : List Mark} {text : List Char}

/-- The cursor stands in the text or at its end. -/
structure Within (text : List Char) (c : Cursor) : Prop where
  rest_eq : c.rest = text.drop c.offset
  offset_le : c.offset ≤ text.length

theorem within_resume (text : List Char) (offset : Nat) (loc : Location) :
    Within text (.resume text offset loc) := by
  refine ⟨?_, Nat.min_le_right _ _⟩
  rw [Cursor.resume]
  rcases Nat.le_total offset text.length with h | h
  · rw [Nat.min_eq_left h]
  · rw [Nat.min_eq_right h, List.drop_length, List.drop_eq_nil_iff.2 h]

theorem Within.length_eq (h : Within text c) : c.offset + c.rest.length = text.length := by
  rw [h.rest_eq, List.length_drop]
  exact Nat.add_sub_cancel' h.offset_le

theorem Within.walk (h : Within text c) (hwalk : Walk z c ms z' d) : Within text d := by
  refine ⟨?_, ?_⟩
  · rw [hwalk.rest_eq, h.rest_eq, List.drop_drop, hwalk.offset_eq]
  · rw [← h.length_eq, hwalk.length_eq]
    exact Nat.le_add_right _ _

theorem Within.read (h : Within text c) : Within text c.read.2 := by
  obtain ⟨ms, hwalk⟩ := exists_walk_read c
  exact h.walk hwalk

theorem Within.afterReads (h : Within text c) (n : Nat) : Within text (afterReads c n) := by
  induction n with
  | zero => exact h
  | succ n ih => exact ih.read

/-- A reading that does not give the end of the file takes a lexeme, well formed or not. -/
theorem gap_offset_lt_read (h : c.read.1.isEof = false) :
    c.gap.after.offset < c.read.2.offset := by
  cases hopening : c.gap.opening with
  | none =>
    rw [read_of_none hopening] at h
    cases h
  | some opening =>
    obtain ⟨first, rest, hrest, hfirst⟩ :=
      (gapFrom_rest false c.rest c.offset c.loc).2 opening hopening
    have hlt : c.read.2.rest.length < c.gap.after.rest.length := by
      rw [read_of_some hopening]
      exact readLexeme_rest_lt hrest hfirst
    obtain ⟨_, -, hpasses⟩ := passes_lexeme c
    obtain ⟨ms, hwalk, -⟩ := hpasses.walk
    have hlength := hwalk.length_eq
    omega

theorem offset_lt_read (h : c.read.1.isEof = false) : c.offset < c.read.2.offset :=
  Nat.lt_of_le_of_lt (passes_gap c).offset_le (gap_offset_lt_read h)

theorem read_of_nil (h : c.rest = []) : c.read = (⟨[], some ⟨.eof, c.loc⟩⟩, c) := by
  obtain ⟨_, offset, loc⟩ := c
  subst h
  rfl

/-- The reading that gives the end of the file leaves nothing of the text. -/
theorem read_of_isEof (h : c.read.1.isEof = true) :
    c.read.1.token = some ⟨.eof, c.read.2.loc⟩ ∧ c.read.2.rest = [] := by
  rw [read_of_none (opening_of_isEof h)]
  exact ⟨rfl, rest_of_isEof h⟩

/-- Behind the end of the file every reading stays where it is. -/
theorem afterReads_of_isEof {n : Nat} (h : (afterReads c n).read.1.isEof = true) {m : Nat}
    (hm : n < m) : afterReads c m = afterReads c (n + 1) := by
  induction hm with
  | refl => rfl
  | step _ ih =>
    have hstay : (afterReads c (n + 1)).read = _ := read_of_nil (read_of_isEof h).2
    rw [afterReads, ih, hstay]

theorem afterReads_read (c : Cursor) (n : Nat) : afterReads c.read.2 n = afterReads c (n + 1) := by
  induction n with
  | zero => rfl
  | succ n ih => exact congrArg (·.read.2) ih

/-- The readings end with the first that gives the end of the file. -/
theorem exists_readings_eq (c : Cursor) : ∃ n ≤ c.rest.length,
    (∀ m < n, (afterReads c m).read.1.isEof = false) ∧ (afterReads c n).read.1.isEof = true ∧
      readings c = (List.range (n + 1)).map fun m => (afterReads c m).read.1 := by
  by_cases heof : c.read.1.isEof = true
  · exact ⟨0, Nat.zero_le _, nofun, heof, readings_of_isEof heof⟩
  · replace heof : c.read.1.isEof = false := by simpa using heof
    have hlt := read_rest_lt heof
    obtain ⟨n, hle, hbefore, hlast, hreadings⟩ := exists_readings_eq c.read.2
    simp only [afterReads_read] at hbefore hlast hreadings
    refine ⟨n + 1, Nat.lt_of_le_of_lt hle hlt, fun m hm => ?_, hlast, ?_⟩
    · cases m with
      | zero => exact heof
      | succ m => exact hbefore m (Nat.lt_of_succ_lt_succ hm)
    · rw [readings_of_not_isEof heof, hreadings, List.range_succ_eq_map (n := n + 1),
        List.map_cons, List.map_map]
      rfl
termination_by c.rest.length

/-- Readings stay in the text, move on until the end of the file and then repeat it. So a text is
lexed by as many readings as it has characters and one more at most. -/
theorem readings_progress (text : List Char) (offset : Nat) (loc : Location) :
    let c := afterReads (.resume text offset loc)
    (∀ n, (c n).offset ≤ text.length ∧ (c n).rest = text.drop (c n).offset) ∧
    (∀ n, (c n).read.1.isEof = true →
      (c (n + 1)).offset = text.length ∧
      (c n).read.1.token = some ⟨.eof, (c (n + 1)).loc⟩ ∧
      ∀ m > n, (c m).read.1 = ⟨[], some ⟨.eof, (c (n + 1)).loc⟩⟩ ∧ c (m + 1) = c (n + 1)) ∧
    (∀ n, (c n).read.1.isEof = false → (c n).offset < (c (n + 1)).offset) ∧
    ∃ n ≤ text.length, (∀ m < n, (afterReads (.start text) m).read.1.isEof = false) ∧
      (afterReads (.start text) n).read.1.isEof = true ∧
      ∀ log, lex log text =
        let all := (List.range (n + 1)).map fun m => (afterReads (.start text) m).read.1
        let news := all.flatMap (·.news)
        (if news.any Diagnostic.isError then none else some (all.filterMap (·.token)),
          ⟨log.unit, log.entries ++ news⟩) := by
  intro c
  have hwithin := (within_resume text offset loc).afterReads
  refine ⟨fun n => ⟨(hwithin n).offset_le, (hwithin n).rest_eq⟩, fun n heof => ?_,
    fun n heof => offset_lt_read heof, ?_⟩
  · obtain ⟨htoken, hrest⟩ := read_of_isEof heof
    have hend : (c (n + 1)).offset = text.length := by
      have hlength := (hwithin (n + 1)).length_eq
      rwa [show (afterReads _ (n + 1)).rest = [] from hrest] at hlength
    have hstay : (c (n + 1)).read = _ := read_of_nil hrest
    refine ⟨hend, htoken, fun m hm => ?_⟩
    have heq : c m = c (n + 1) := afterReads_of_isEof heof hm
    exact ⟨by rw [heq, hstay], afterReads_of_isEof heof (Nat.lt_succ_of_lt hm)⟩
  · obtain ⟨n, hle, hbefore, hlast, hreadings⟩ := exists_readings_eq (.start text)
    refine ⟨n, hle, hbefore, hlast, fun log => ?_⟩
    rw [← hreadings]
    simp only [lex, Log.errorCount_lt_append]
    rfl

end Token

end LarkCheck
