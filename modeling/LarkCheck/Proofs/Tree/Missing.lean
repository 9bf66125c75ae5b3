import LarkCheck.Proofs.Tree.Address
import LarkCheck.Proofs.Tree.Gaps

/-!
# Missing children

A tree is complete if there is no gap at any address. The structure check reports the
gaps of every node, whatever was missing before it, and nothing else. Children that a
node may do without make no difference to its gaps.
-/

namespace LarkCheck

namespace Param

/-- The parameter without a default. -/
def bare : Param → Param
  | value loc name _ => value loc name none
  | output loc name => output loc name

end Param

namespace Node

/-- The node without the children that it may do without. -/
def bare : Node → Node
  | expr (.routine loc params body) => expr (.routine loc (params.map Param.bare) body)
  | expr (.classDef loc name params _ includes sections) =>
    expr (.classDef loc name (params.map Param.bare) none includes sections)
  | stmt (.cond loc test body elseifs _) => stmt (.cond loc test body elseifs none)
  | stmt (.case loc subject whens _) => stmt (.case loc subject whens none)
  | stmt (.returnValue loc _) => stmt (.returnValue loc none)
  | n => n

/-- What a node may do without is not missed. -/
theorem gaps_bare (n : Node) : n.bare.gaps = n.gaps := by
  rcases n with x | e
  · cases x <;> rfl
  · cases e <;> rfl

end Node

namespace Block

variable {unit : Block}

/-- At no address is there a node that lacks a required child. -/
def Complete (unit : Block) : Prop :=
  ∀ address n, unit.at? address = some n → n.gaps = []

theorem complete_iff : unit.Complete ↔ ∀ n ∈ unit.nodes, n.gaps = [] := by
  constructor
  · intro h n hn
    obtain ⟨address, hat⟩ := mem_nodes_iff.1 hn
    exact h address n hat
  · intro h address n hat
    exact h n (mem_nodes_iff.2 ⟨address, hat⟩)

theorem emptySlots_eq_nil_iff : unit.emptySlots = [] ↔ unit.Complete := by
  rw [complete_iff, ← List.flatMap_eq_nil_iff]
  constructor
  · intro h
    have hperm := unit.emptySlots_perm
    rw [h] at hperm
    exact hperm.nil_eq.symm
  · intro h
    have hperm := unit.emptySlots_perm
    rw [h] at hperm
    exact hperm.eq_nil

theorem isEmpty_emptySlots : unit.emptySlots.isEmpty = true ↔ unit.Complete := by
  rw [List.isEmpty_iff, emptySlots_eq_nil_iff]

end Block

/-- The structure check reports each gap of each node of the tree once, at the place of the node,
branch, clause, pair or section that has it, and reports nothing else. The empty slots that it
counts are as many, and it passes if and only if there are none. What a node may do without plays no
part in this. -/
theorem checkStructure_exact (log : Log) (unit : Block) :
    (∃ listed, Addressed unit.at? unit.nodes listed ∧
      ∃ reports : List Diagnostic, (unit.checkStructure log).2.entries = log.entries ++ reports ∧
        (unit.checkStructure log).2.unit = log.unit ∧
        reports.Perm ((listed.flatMap fun (_, n) => n.gaps).map fun slot =>
          ⟨.missingChild, .error, slot.loc, [slot.node ++ " is missing its " ++ slot.field]⟩) ∧
        (StructureCheck.run unit).missing = (listed.flatMap fun (_, n) => n.gaps).length) ∧
      ((unit.checkStructure log).1 = true ↔ unit.Complete) ∧
      ∀ n : Node, n.bare.gaps = n.gaps := by
  simp only [Block.checkStructure_eq, StructureCheck.run_eq]
  refine ⟨?_, Block.isEmpty_emptySlots, Node.gaps_bare⟩
  obtain ⟨listed, hlisted⟩ := unit.exists_addressed
  have hperm : unit.emptySlots.Perm (listed.flatMap fun (_, n) => n.gaps) := by
    have hgaps := unit.emptySlots_perm
    rw [← hlisted.nodes_eq, List.flatMap_map] at hgaps
    exact hgaps
  exact ⟨listed, hlisted, unit.emptySlots.map EmptySlot.diagnostic, rfl, rfl, hperm.map _,
    hperm.length_eq⟩

end LarkCheck
