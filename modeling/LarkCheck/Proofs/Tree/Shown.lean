import LarkCheck.Proofs.Tree.Calls

/-!
# What the rules are shown

The visits of a tree begin its statements in the order of its nodes. A rule that
keeps a record of what it is shown decides as it would without, and by their
records all rules are shown the same: every statement of the tree, in that order.
-/

namespace LarkCheck

def Node.stmt? : Node → Option Stmt
  | .stmt x => some x
  | .expr _ => none

/-- The statements among some nodes, in their order. -/
def stmtsOf (ns : List Node) : List Stmt :=
  ns.filterMap Node.stmt?

theorem mem_stmtsOf {ns : List Node} {x : Stmt} : x ∈ stmtsOf ns ↔ .stmt x ∈ ns := by
  refine List.mem_filterMap.trans ⟨?_, fun h => ⟨_, h, rfl⟩⟩
  rintro ⟨_ | _, hn, ⟨⟩⟩
  exact hn

theorem stmtsOf_append (ns ms : List Node) : stmtsOf (ns ++ ms) = stmtsOf ns ++ stmtsOf ms :=
  List.filterMap_append

/-- The visits begin the statements among the nodes, in their order. -/
structure Begins (vs : List Visit) (ns : List Node) : Prop where
  stmts_eq : vs.filterMap Visit.stmt? = stmtsOf ns

theorem begins_law : VisitLaw fun vs _ ns => Begins vs ns where
  nil := ⟨rfl⟩
  missing _ := ⟨rfl⟩
  quiet v hstmt _ := ⟨List.filterMap_cons_none hstmt⟩
  append h h' := ⟨by rw [List.filterMap_append, h.stmts_eq, h'.stmts_eq, stmtsOf_append]⟩
  expr h := ⟨h.stmts_eq⟩
  stmt {x _ _} h := ⟨congrArg (x :: ·) h.stmts_eq⟩

variable {σ : Type}

/-- Noting the calls changes neither what the rules decide nor what they remember. Statement by
statement all rules are called, and the verdict is that of the calls unless a child is missing. -/
theorem Block.checkRules_noting (rules : List (Rule σ)) (memory : σ) (log : Log) (unit : Block) :
    let checked := unit.checkRules (noting rules) (memory, []) log
    (checked.1, checked.2.1, checked.2.2.1) = unit.checkRules rules memory log ∧
      checked.2.2.2.map Call.showing =
        (stmtsOf unit.nodes).flatMap (showings 0 rules.length) ∧
      checked.1 = (checked.2.2.2.all Call.passed && unit.emptySlots.isEmpty) := by
  intro checked
  obtain ⟨calls, hmemory, hshown, hpassed⟩ :=
    RuleCheck.exists_notes_visits rules unit.visits ⟨(memory, []), true, log⟩
  obtain rfl : checked.2.2.2 = calls := hmemory
  refine ⟨checkRules_map (noting_mirrors rules 0) (memory, []) log unit, hshown.trans ?_, hpassed⟩
  rw [(Block.visited begins_law unit).stmts_eq]

/-- The rule, which also records under its number what it is shown. -/
def Rule.recording (rule : Rule σ) (number : Nat) : Rule (σ × List (Nat × Stmt)) where
  judge memory x log :=
    let ruling := rule.judge memory.1 x log
    ⟨ruling.passed, ruling.log, ruling.memory, memory.2 ++ [(number, x)]⟩

/-- The rules, with a record of what each of them is shown. They are numbered from 0. -/
def recording (rules : List (Rule σ)) : List (Rule (σ × List (Nat × Stmt))) :=
  rules.zipIdx.map fun (rule, number) => rule.recording number

/-- What the rule with this number was shown. -/
def shownTo (number : Nat) (record : List (Nat × Stmt)) : List Stmt :=
  record.filterMap fun (n, x) => if n = number then some x else none

theorem shownTo_append (i : Nat) (record record' : List (Nat × Stmt)) :
    shownTo i (record ++ record') = shownTo i record ++ shownTo i record' :=
  List.filterMap_append

theorem shownTo_cons (i number : Nat) (x : Stmt) (record : List (Nat × Stmt)) :
    shownTo i ((number, x) :: record) =
      (if number = i then [x] else []) ++ shownTo i record := by
  unfold shownTo
  rw [List.filterMap_cons]
  by_cases h : number = i <;> simp [h]

theorem shownTo_showings (i first count : Nat) (x : Stmt) :
    shownTo i (showings first count x) = if first ≤ i ∧ i < first + count then [x] else [] := by
  induction count generalizing first with
  | zero =>
    rw [if_neg (by omega)]
    rfl
  | succ count ih =>
    change shownTo i ((first, x) :: showings (first + 1) count x) = _
    rw [shownTo_cons, ih]
    by_cases hi : first = i
    · rw [if_pos hi, if_neg (by omega), if_pos (by omega)]
      rfl
    · have hrest : (first + 1 ≤ i ∧ i < first + 1 + count) ↔
          (first ≤ i ∧ i < first + (count + 1)) := by omega
      simp only [if_neg hi, List.nil_append, hrest]

theorem shownTo_flatMap {i count : Nat} (hi : i < count) (xs : List Stmt) :
    shownTo i (xs.flatMap (showings 0 count)) = xs := by
  induction xs with
  | nil => rfl
  | cons x xs ih =>
    rw [List.flatMap_cons, shownTo_append, shownTo_showings, if_pos (by omega), ih]
    rfl

/-- A record is what is noted without the verdicts. -/
theorem noting_mirrors_recording (rules : List (Rule σ)) :
    List.Forall₂ (Rule.Mirrors fun memory => (memory.1, memory.2.map Call.showing))
      (noting rules) (recording rules) := by
  unfold noting notingFrom recording
  rw [List.forall₂_map_left_iff, List.forall₂_map_right_iff, List.forall₂_same]
  intro _ _ memory x log
  simp [Ruling.map, Rule.noting, Rule.recording, Call.showing]

/-- Recording changes neither what the rules decide nor what they remember, and every rule is shown
every statement of the tree once, in the order of the nodes. -/
theorem Block.checkRules_recording (rules : List (Rule σ)) (memory : σ) (log : Log)
    (unit : Block) :
    let checked := unit.checkRules (recording rules) (memory, []) log
    (checked.1, checked.2.1, checked.2.2.1) = unit.checkRules rules memory log ∧
      ∀ i < rules.length, shownTo i checked.2.2.2 = stmtsOf unit.nodes := by
  obtain ⟨hsame, hshown, -⟩ := unit.checkRules_noting rules memory log
  have hrecord := checkRules_map (noting_mirrors_recording rules) (memory, []) log unit
  simp only [List.map_nil] at hrecord
  simp only [← hrecord]
  refine ⟨hsame, fun i hi => ?_⟩
  rw [hshown, shownTo_flatMap hi]

end LarkCheck
