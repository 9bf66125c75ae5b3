import LarkCheck.Proofs.Tree.Missing
import LarkCheck.Proofs.Tree.Shown

/-!
# Every rule sees every statement

The notes of the rules list the statements of a tree in the order of their addresses,
each with all rules in the order in which they are registered. A verdict or a missing
child keeps no later call from being made; it only decides the outcome.
-/

namespace LarkCheck

/-- The statements of a unit with their addresses, each address once and in the order of
addresses. -/
theorem Block.exists_addressed_stmts (unit : Block) :
    ∃ shown : List (Address × Stmt), shown.map Prod.snd = stmtsOf unit.nodes ∧
      shown.Pairwise (fun a b => a.1.Before b.1) ∧
      ∀ address x, (address, x) ∈ shown ↔ unit.at? address = some (.stmt x) := by
  obtain ⟨listed, hlisted⟩ := unit.exists_addressed
  refine ⟨listed.filterMap fun place => place.2.stmt?.map (place.1, ·), ?_, ?_, ?_⟩
  · rw [← hlisted.nodes_eq, stmtsOf, List.filterMap_map, List.map_filterMap]
    congr 1
    funext ⟨address, n⟩
    cases hn : n.stmt? <;> simp [hn]
  · refine hlisted.ordered.filterMap _ ?_
    rintro ⟨a, n⟩ ⟨b, m⟩ hab _ hn _ hm
    obtain ⟨x, -, rfl⟩ := Option.map_eq_some_iff.1 hn
    obtain ⟨y, -, rfl⟩ := Option.map_eq_some_iff.1 hm
    exact hab
  · intro address x
    rw [← hlisted.mem_iff, List.mem_filterMap]
    constructor
    · rintro ⟨⟨a, n⟩, hn, hx⟩
      obtain ⟨y, hy, heq⟩ := Option.map_eq_some_iff.1 hx
      obtain ⟨rfl, rfl⟩ := Prod.mk.inj heq
      cases n with
      | stmt z =>
        cases hy
        exact hn
      | expr e => cases hy
    · intro hx
      exact ⟨_, hx, rfl⟩

/-- In a rule check all rules are called for one statement before any is called for the next, in
their order, and the statements are taken in the order of their addresses: each that there is, once,
before those that it holds, and these before the next one of its block. The check passes if and only
if every call passed its statement and the tree is complete. The rules have one memory, of which
each may have a part of its own, and the calls are observed by notes in it, which change nothing. -/
theorem calls_of_checkRules {σ : Type} (rules : List (Rule σ)) (memory : σ) (log : Log)
    (unit : Block) :
    let checked := unit.checkRules (noting rules) (memory, []) log
    let calls := checked.2.2.2
    (checked.1, checked.2.1, checked.2.2.1) = unit.checkRules rules memory log ∧
      (∃ shown : List (Address × Stmt), shown.Pairwise (fun a b => a.1.Before b.1) ∧
        (∀ address x, (address, x) ∈ shown ↔ unit.at? address = some (.stmt x)) ∧
        calls.map (fun call => (call.rule, call.stmt)) =
          shown.flatMap fun (_, x) => (List.range rules.length).map fun number => (number, x)) ∧
      (checked.1 = true ↔ (∀ call ∈ calls, call.passed = true) ∧ unit.Complete) := by
  obtain ⟨hsame, hshown, hpassed⟩ := unit.checkRules_noting rules memory log
  refine ⟨hsame, ?_, ?_⟩
  · obtain ⟨shown, hstmts, hordered, hmem⟩ := unit.exists_addressed_stmts
    refine ⟨shown, hordered, hmem, hshown.trans ?_⟩
    rw [← hstmts, List.flatMap_map, List.range_eq_range']
    rfl
  · rw [hpassed, Bool.and_eq_true, List.all_eq_true, Block.isEmpty_emptySlots]

end LarkCheck
