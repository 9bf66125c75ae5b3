import LarkCheck.Proofs.Grammar.Order.Productions
import LarkCheck.Proofs.Grammar.Yield
import LarkCheck.Proofs.Token.Places

/-!
# The order in which rules see statements

The statements of an accepted text are shown to every rule in the order of the text,
except those that a class literal swaps: a statement in an argument for the base class
is shown before the statements in the defaults of the parameters, which stand in front
of it.
-/

namespace LarkCheck

open Token LarkCheck.Parser

namespace Parser

/-- The tokens of a text are in order when the first of them has been taken. -/
theorem inOrder_start {text : List Char} {t : Token} {s : State}
    (h : advance (.start (readings (.start text))) = .ok t s) :
    s.InOrder ∧ ⟨0, 0⟩ < s.current.loc := by
  obtain ⟨hready, htokens, -⟩ := advance_start (endsOnce_readings _) h
  rw [State.tokens] at htokens
  refine ⟨⟨hready.synced, ?_⟩, ?_⟩
  · rw [htokens]
    exact pairwise_tokens _
  · have hstart : (⟨0, 0⟩ : Location) < .start := by decide
    refine Location.lt_of_lt_of_not_lt hstart (not_lt_of_mem_readings (.start text) s.current ?_)
    rw [← htokens]
    exact List.mem_cons_self

end Parser

/-- The statements of an accepted text's tree come in the order of the text, except where a class
literal swaps them. -/
theorem arranged_of_parse {log : Log} {text : List Char} {unit : Block}
    (h : (parse log text).1 = some unit) : Arranged unit.nodes := by
  obtain ⟨s, hunit, -, -⟩ := parse_fst_eq_some h
  simp only [Parser.unit, bind_eq_ok] at hunit
  obtain ⟨t, s₁, h₁, body, s₂, h₂, next, s₃, -, hunit⟩ := hunit
  obtain ⟨hinOrder, hlo⟩ := inOrder_start h₁
  split at hunit
  · obtain ⟨rfl, rfl⟩ := pure_eq_ok.1 hunit
    have r := block_along (Nested.orders_ofLevels _) _ _ _ hinOrder h₂
    exact (r.between _ hlo).arranged
  · exact absurd hunit fail_ne_ok

/-- Of an accepted text every rule is shown every statement, and one statement before another if it
stands in front of it, unless a class literal has the one in an argument for its base class and the
other in a default of its parameters. The rules are observed by records, which change nothing. -/
theorem shown_in_order {σ : Type} {log : Log} {text : List Char} {unit : Block}
    (h : (parse log text).1 = some unit) (rules : List (Rule σ)) (memory : σ) (log' : Log) :
    let checked := unit.checkRules (recording rules) (memory, []) log'
    (checked.1, checked.2.1, checked.2.2.1) = unit.checkRules rules memory log' ∧
      ∀ i < rules.length,
        shownTo i checked.2.2.2 = stmtsOf unit.nodes ∧
        (shownTo i checked.2.2.2).Pairwise fun x y =>
          (x.loc < y.loc ↔ ¬ Swaps unit.nodes x y) ∧ (y.loc < x.loc ↔ Swaps unit.nodes x y) := by
  obtain ⟨hsame, hshown⟩ := unit.checkRules_recording rules memory log'
  refine ⟨hsame, fun i hi => ⟨hshown i hi, ?_⟩⟩
  have harranged := arranged_of_parse h
  rw [hshown i hi]
  exact harranged.pairwise.imp harranged.before_iff

/-- A class with a statement in a default of its parameter and one in the argument for its base
class. -/
def swappedText : List Char :=
  "class B() end\nclass A(p = routine() break end) : B(routine() next end) end".toList

/-- A rule that passes every statement. -/
def passing : Rule Unit :=
  ⟨fun memory _ log => ⟨true, log, memory⟩⟩

/-- The places of the statements that a single rule is shown. -/
def shownPlaces (unit : Block) : List Location :=
  (shownTo 0 (unit.checkRules (recording [passing]) ((), []) (.empty "u")).2.2.2).map (·.loc)

theorem shownPlaces_swappedText : (parse (.empty "u") swappedText).1.map shownPlaces =
    some [⟨1, 0⟩, ⟨2, 0⟩, ⟨2, 47⟩, ⟨2, 22⟩] := by
  decide +kernel

theorem shown_in_order_swappedText :
    ∃ unit, (parse (.empty "u") swappedText).1 = some unit ∧
      shownPlaces unit = [⟨1, 0⟩, ⟨2, 0⟩, ⟨2, 47⟩, ⟨2, 22⟩] ∧
      let record := (unit.checkRules (recording [passing]) ((), []) (.empty "u")).2.2.2
      shownTo 0 record = stmtsOf unit.nodes ∧
        (shownTo 0 record).Pairwise fun x y =>
          (x.loc < y.loc ↔ ¬ Swaps unit.nodes x y) ∧ (y.loc < x.loc ↔ Swaps unit.nodes x y) := by
  obtain ⟨unit, h, hplaces⟩ := Option.map_eq_some_iff.1 shownPlaces_swappedText
  exact ⟨unit, h, hplaces, (shown_in_order h [passing] () (.empty "u")).2 0 (by decide)⟩

/-- Not every accepted text has its statements shown in the order of their places. -/
theorem swappedText_not_shown_in_order :
    ∃ unit, (parse (.empty "u") swappedText).1 = some unit ∧
      ¬ (shownTo 0 (unit.checkRules (recording [passing]) ((), []) (.empty "u")).2.2.2).Pairwise
        (·.loc < ·.loc) := by
  obtain ⟨unit, h, hplaces⟩ := Option.map_eq_some_iff.1 shownPlaces_swappedText
  refine ⟨unit, h, fun hpairwise => ?_⟩
  have hordered : (shownPlaces unit).Pairwise (· < ·) := List.pairwise_map.2 hpairwise
  rw [hplaces] at hordered
  exact absurd hordered (by decide)

end LarkCheck
