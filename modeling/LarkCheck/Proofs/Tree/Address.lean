import LarkCheck.Proofs.Tree.Children
import Mathlib.Data.List.Induction

/-!
# Addresses

A node of a unit is told by its address: the number of a statement of the unit, and
from there the number of a child on each further level. Equal nodes may stand at
several addresses, but at one address there is one node. Addresses are ordered like
the words of a dictionary. So a node comes before what it holds, and all of that
before the next child of its parent, and this is the order in which the nodes of a
unit are listed.
-/

namespace LarkCheck

/-- Numbers of children, from the outside to the inside. -/
abbrev Address := List Nat

/-- At the first number in which they differ it has the smaller one, or it is a proper beginning of
the other. -/
abbrev Address.Before : Address → Address → Prop :=
  List.Lex (· < ·)

namespace Node

/-- The node at an address below this one. -/
def below? (n : Node) : Address → Option Node
  | [] => some n
  | i :: address => n.children[i]?.bind fun c => c.below? address

/-- The node at an address that begins with the number of one of these. -/
def among? (ns : List Node) : Address → Option Node
  | [] => none
  | i :: address => ns[i]?.bind fun n => n.below? address

end Node

def Block.at? (unit : Block) : Address → Option Node :=
  Node.among? (unit.stmts.map .stmt)

/-- The nodes with their addresses: each address that there is, once, in the order of addresses. -/
structure Addressed (at? : Address → Option Node) (ns : List Node)
    (listed : List (Address × Node)) : Prop where
  nodes_eq : listed.map Prod.snd = ns
  ordered : listed.Pairwise fun a b => a.1.Before b.1
  mem_iff : ∀ address n, (address, n) ∈ listed ↔ at? address = some n

namespace Addressed

variable {n : Node} {ns : List Node} {listed listed' : List (Address × Node)}

theorem nil : Addressed (Node.among? []) [] [] where
  nodes_eq := rfl
  ordered := .nil
  mem_iff address n := by
    cases address <;> simp [Node.among?]

/-- A node comes before what it holds. -/
theorem self (h : Addressed (Node.among? n.children) (n.children.flatMap Node.nodes) listed) :
    Addressed n.below? n.nodes (([], n) :: listed) where
  nodes_eq := by
    rw [List.map_cons, h.nodes_eq, Node.nodes_eq]
  ordered := by
    refine List.pairwise_cons.2 ⟨?_, h.ordered⟩
    rintro ⟨address, m⟩ hm
    rw [h.mem_iff] at hm
    cases address with
    | nil => cases hm
    | cons i address => exact .nil
  mem_iff address m := by
    rw [List.mem_cons, h.mem_iff]
    cases address with
    | nil => simp [Node.below?, Node.among?, eq_comm]
    | cons i address => simp [Node.below?, Node.among?]

/-- The addresses in one more node begin with its number, which no address before has. -/
theorem concat (h : Addressed (Node.among? ns) (ns.flatMap Node.nodes) listed)
    (h' : Addressed n.below? n.nodes listed') :
    Addressed (Node.among? (ns ++ [n])) ((ns ++ [n]).flatMap Node.nodes)
      (listed ++ listed'.map fun (address, m) => (ns.length :: address, m)) where
  nodes_eq := by
    rw [List.map_append, h.nodes_eq, List.flatMap_append, List.flatMap_singleton, ← h'.nodes_eq,
      List.map_map]
    rfl
  ordered := by
    refine List.pairwise_append.2 ⟨h.ordered, ?_, ?_⟩
    · rw [List.pairwise_map]
      exact h'.ordered.imp fun hab => .cons hab
    · rintro ⟨address, m⟩ hm b hb
      obtain ⟨c, -, rfl⟩ := List.mem_map.1 hb
      rw [h.mem_iff] at hm
      cases address with
      | nil => cases hm
      | cons i address =>
        obtain ⟨k, hk, -⟩ := Option.bind_eq_some_iff.1 hm
        exact .rel (List.getElem?_eq_some_iff.1 hk).1
  mem_iff address m := by
    rw [List.mem_append, h.mem_iff, List.mem_map]
    cases address with
    | nil => simp [Node.among?]
    | cons i address =>
      have hlast : (∃ a ∈ listed', (ns.length :: a.1, a.2) = (i :: address, m)) ↔
          i = ns.length ∧ n.below? address = some m := by
        rw [← h'.mem_iff]
        constructor
        · rintro ⟨⟨b, k⟩, hb, heq⟩
          obtain ⟨⟨rfl, rfl⟩, rfl⟩ : (ns.length = i ∧ b = address) ∧ k = m := by simpa using heq
          exact ⟨rfl, hb⟩
        · rintro ⟨rfl, hm⟩
          exact ⟨_, hm, rfl⟩
      rw [hlast]
      rcases Nat.lt_trichotomy i ns.length with hi | rfl | hi
      · simp [Node.among?, List.getElem?_append_left hi, Nat.ne_of_lt hi]
      · simp [Node.among?]
      · have hout : ns[i]? = none := List.getElem?_eq_none (Nat.le_of_lt hi)
        have hout' : (ns ++ [n])[i]? = none := List.getElem?_eq_none (by simp; omega)
        simp [Node.among?, hout, hout', Nat.ne_of_gt hi]

end Addressed

namespace Node

/-- Node by node, if each of them has its list. -/
theorem exists_addressed_among (ns : List Node)
    (h : ∀ n ∈ ns, ∃ listed, Addressed n.below? n.nodes listed) :
    ∃ listed, Addressed (among? ns) (ns.flatMap nodes) listed := by
  induction ns using List.reverseRecOn with
  | nil => exact ⟨[], .nil⟩
  | append_singleton ns n ih =>
    obtain ⟨listed, hns⟩ := ih fun m hm => h m (List.mem_append_left _ hm)
    obtain ⟨listed', hn⟩ := h n (List.mem_append_right _ (List.mem_singleton_self n))
    exact ⟨_, hns.concat hn⟩

theorem length_nodes_lt {c n : Node} (hc : c ∈ n.children) : c.nodes.length < n.nodes.length := by
  have hsub : c.nodes.Sublist (n.children.flatMap nodes) :=
    List.sublist_flatten_of_mem (List.mem_map_of_mem hc)
  have hle := hsub.length_le
  rw [nodes_eq n, List.length_cons]
  omega

/-- By induction on the number of nodes, of which a child has fewer. -/
theorem exists_addressed (n : Node) : ∃ listed, Addressed n.below? n.nodes listed := by
  obtain ⟨listed, h⟩ := exists_addressed_among n.children fun c hc => exists_addressed c
  exact ⟨_, h.self⟩
termination_by n.nodes.length
decreasing_by exact length_nodes_lt hc

end Node

namespace Block

variable {unit : Block}

theorem exists_addressed (unit : Block) : ∃ listed, Addressed unit.at? unit.nodes listed := by
  obtain ⟨loc, stmts⟩ := unit
  obtain ⟨listed, h⟩ := Node.exists_addressed_among (stmts.map .stmt) fun n _ => n.exists_addressed
  rw [Node.nodes_stmts] at h
  exact ⟨listed, h⟩

theorem mem_nodes_iff {n : Node} : n ∈ unit.nodes ↔ ∃ address, unit.at? address = some n := by
  obtain ⟨listed, h⟩ := unit.exists_addressed
  rw [← h.nodes_eq, List.mem_map]
  constructor
  · rintro ⟨⟨address, m⟩, hm, rfl⟩
    exact ⟨address, (h.mem_iff _ _).1 hm⟩
  · rintro ⟨address, hn⟩
    exact ⟨(address, n), (h.mem_iff _ _).2 hn, rfl⟩

end Block

end LarkCheck
