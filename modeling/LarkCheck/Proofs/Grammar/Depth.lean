import LarkCheck.Proofs.Grammar.Nodes
import LarkCheck.Proofs.Grammar.Yield
import LarkCheck.Proofs.Tree.Path

/-!
# The depth of a parsed tree

The guards bound how deep a tree is, but they let one node pass: an assignment is
put over its finished target without a level. So a way down an accepted text's
tree can be longer than `maxTreeDepth` by the assignments that it leaves through
their targets, and the guard of nesting bounds how many these are.
-/

namespace LarkCheck

open Token LarkCheck.Parser

/-- On a way down the tree of an accepted text stand at most `maxTreeDepth` nodes besides the
assignments that it leaves through their targets. -/
theorem length_path_of_parse {log : Log} {text : List Char} {unit : Block}
    (h : (parse log text).1 = some unit) {x : Stmt} (hx : x ∈ unit.stmts) {path : List Node}
    {targets : Nat} (hp : Path (.stmt x) path targets) :
    path.length ≤ maxTreeDepth + targets ∧ targets ≤ maxNesting - 2 := by
  have hmem : Node.stmt x ∈ Node.ofBlock (some unit) := by simpa [Node.ofBlock] using hx
  obtain ⟨s, hunit, -, -⟩ := parse_fst_eq_some h
  obtain ⟨-, -, hnest, hload⟩ := unit_spans (endsOnce_readings _) hunit
  obtain ⟨hnest', hload'⟩ := Node.Under.block (some unit) _ hmem
  simp only [Block.slotWeight, Weight.nest_deeper, Weight.load_deeper] at hnest' hload'
  have grammatical : ∀ m ∈ (Node.stmt x).nodes, m.Grammatical := fun m hm => by
    refine grammatical_of_parse h ?_
    rw [← Block.optionNodes, ← Node.nodes_ofBlock]
    exact List.mem_flatMap.2 ⟨_, hmem, hm⟩
  have hlength := hp.length_le
  have htargets := hp.targets_le grammatical
  simp only [Node.turns, Node.isAssignment, Bool.false_eq_true, if_false] at htargets
  omega

def copies (n : Nat) (s : String) : List Char :=
  (List.replicate n s.toList).flatten

/-- The length of the leftmost way down the tree of a text, with its targets. -/
def leftmost? (text : List Char) : Option (Nat × Nat) :=
  match (parse (.empty "u") text).1 with
  | some ⟨_, x :: _⟩ =>
    let way := Node.leftmost 400 (.stmt x)
    some (way.1.length, way.2)
  | _ => none

theorem exists_of_leftmost? {text : List Char} {n k : Nat} (h : leftmost? text = some (n, k)) :
    ∃ unit x path, (parse (.empty "u") text).1 = some unit ∧ x ∈ unit.stmts ∧
      Path (.stmt x) path k ∧ path.length = n := by
  unfold leftmost? at h
  split at h
  · rename_i loc x xs hparse
    cases h
    exact ⟨_, x, _, hparse, List.mem_cons_self, Node.leftmost_path _ _, rfl⟩
  · cases h

/-- An assignment to a member of an assignment, as deep as the guard of nesting lets it be. -/
def deepText : List Char :=
  copies 61 "(" ++ copies 1 "a" ++ copies 132 ".b" ++ copies 1 " = nil" ++ copies 61 ").b = nil"

/-- The bounds are reached. -/
theorem length_path_of_parse_deepText :
    ∃ unit x path targets, (parse (.empty "u") deepText).1 = some unit ∧ x ∈ unit.stmts ∧
      Path (.stmt x) path targets ∧ path.length = maxTreeDepth + targets ∧
      targets = maxNesting - 2 ∧
      (path.length ≤ maxTreeDepth + targets ∧ targets ≤ maxNesting - 2) := by
  have hleftmost : leftmost? deepText = some (318, 62) := by decide +kernel
  obtain ⟨unit, x, path, h, hx, hp, hlength⟩ := exists_of_leftmost? hleftmost
  exact ⟨unit, x, path, 62, h, hx, hp, hlength, rfl, length_path_of_parse h hx hp⟩

/-- A single assignment, to a member that stands as deep as a node can. -/
def longText : List Char :=
  copies 1 "a" ++ copies 254 ".b" ++ copies 1 " = nil"

theorem longText_exceeds_maxTreeDepth :
    ∃ unit x path targets, (parse (.empty "u") longText).1 = some unit ∧ x ∈ unit.stmts ∧
      Path (.stmt x) path targets ∧ maxTreeDepth < path.length := by
  have hleftmost : leftmost? longText = some (257, 1) := by decide +kernel
  obtain ⟨unit, x, path, h, hx, hp, hlength⟩ := exists_of_leftmost? hleftmost
  exact ⟨unit, x, path, 1, h, hx, hp, by rw [hlength]; decide⟩

end LarkCheck
