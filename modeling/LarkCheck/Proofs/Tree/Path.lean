import LarkCheck.Proofs.Tree.Children
import LarkCheck.Proofs.Tree.Shape
import LarkCheck.Proofs.Tree.Weight

/-!
# Ways down a tree

A way down goes from a node to one of its children, from there to one of its own,
and so on. An assignment is put over its target without a level of its own, a link
of a chain stands a level above its operands, and every other child is behind a
guard of nesting. So the weight of the first node bounds how long the way is.
-/

namespace LarkCheck

namespace Node

def weight : Node → Weight
  | expr e => e.weight
  | stmt x => x.weight

def isAssignment : Node → Bool
  | expr e => e.isAssignment
  | stmt _ => false

/-- Behind a guard of nesting, none of the nodes outweighs `w`. -/
def Under (ns : List Node) (w : Weight) : Prop := ∀ c ∈ ns, c.weight.deeper ≤ w

namespace Under

variable {ns ms : List Node} {v w : Weight}

theorem nil : Under [] w := by
  simp [Under]

theorem mono (h : Under ns v) (hvw : v ≤ w) : Under ns w :=
  fun c hc => Weight.le_trans (h c hc) hvw

theorem append (h : Under ns w) (h' : Under ms w) : Under (ns ++ ms) w := fun c hc =>
  (List.mem_append.1 hc).elim (h c) (h' c)

theorem join (h : Under ns v) (h' : Under ms w) : Under (ns ++ ms) (v.join w) :=
  (h.mono (Weight.le_join_left v w)).append (h'.mono (Weight.le_join_right v w))

theorem slot (slot : Option Expr) : Under (ofSlot slot) (Expr.slotWeight slot).deeper := by
  cases slot with
  | none => exact nil
  | some e => simp [Under, ofSlot, weight, Expr.slotWeight, Weight.le_refl]

theorem exprs (es : List Expr) : Under (es.map .expr) (Expr.listWeight es) := by
  induction es with
  | nil => exact nil
  | cons e es ih => exact (slot (some e)).join ih

theorem stmts (xs : List Stmt) : Under (xs.map .stmt) (Stmt.listWeight xs) := by
  induction xs with
  | nil => exact nil
  | cons x xs ih =>
    have first : Under [.stmt x] x.weight.deeper := by simp [Under, weight, Weight.le_refl]
    exact first.join ih

theorem block (block : Option Block) : Under (ofBlock block) (Block.slotWeight block) := by
  cases block with
  | none => exact nil
  | some b =>
    obtain ⟨loc, xs⟩ := b
    simp only [ofBlock, Option.toList_some, List.flatMap_singleton]
    exact stmts xs

theorem pairs (ps : List Pair) :
    Under (ps.flatMap fun p => ofSlot p.key ++ ofSlot p.value) (Pair.listWeight ps) := by
  induction ps with
  | nil => exact nil
  | cons p ps ih =>
    obtain ⟨loc, key, value⟩ := p
    exact ((slot key).join (slot value)).join ih

theorem params (ps : List Param) : Under (ps.flatMap ofParam) (Param.listWeight ps) := by
  induction ps with
  | nil => exact nil
  | cons p ps ih =>
    rcases p with ⟨loc, name, _ | default⟩ | ⟨loc, name⟩
    · exact nil.join ih
    · exact (slot (some default)).join ih
    · exact nil.join ih

theorem base (base : Option Base) :
    Under (base.toList.flatMap fun b => b.args.map .expr) (Base.optionWeight base) := by
  cases base with
  | none => exact nil
  | some b =>
    obtain ⟨name, args⟩ := b
    simp only [Option.toList_some, List.flatMap_singleton]
    exact exprs args

theorem sections (xs : List Section) :
    Under (xs.flatMap fun x => ofBlock x.body) (Section.listWeight xs) := by
  induction xs with
  | nil => exact nil
  | cons x xs ih =>
    obtain ⟨loc, access, body⟩ := x
    exact (block body).join ih

theorem branches (bs : List Branch) : Under (bs.flatMap ofBranch) (Branch.listWeight bs) := by
  induction bs with
  | nil => exact nil
  | cons b bs ih =>
    obtain ⟨loc, test, body⟩ := b
    exact ((slot test).join (block body)).join ih

end Under

theorem under_guarded (n : Node) : Under n.guarded n.weight := by
  rcases n with x | e
  · cases x with
    | importPath | breakLoop | nextRound => exact .nil
    | expr loc e => exact .slot e
    | cond loc test body elseifs otherwise =>
      exact (Under.slot test).join ((Under.block body).join
        ((Under.branches elseifs).join (.block otherwise)))
    | case loc subject whens otherwise =>
      exact (Under.slot subject).join ((Under.branches whens).join (.block otherwise))
    | whileLoop loc test body => exact (Under.slot test).join (.block body)
    | forLoop loc init test step body =>
      exact (Under.slot init).join ((Under.slot test).join ((Under.slot step).join (.block body)))
    | foreachLoop loc item collection body => exact (Under.slot collection).join (.block body)
    | returnValue loc value =>
      cases value with
      | none => exact .nil
      | some e => exact .slot (some e)
  · cases e with
    | ident | nil | bool | int | real | string | receiver | member | binary => exact .nil
    | array loc items => exact .exprs items
    | hash loc pairs => exact .pairs pairs
    | routine loc params body => exact (Under.params params).join (.block body)
    | classDef loc name params base includes sections =>
      refine Under.append (.mono (.base base) ?_) (.append (.mono (.params params) ?_)
        (.mono (.sections sections) ?_))
      all_goals
        constructor <;> simp only [weight, Expr.weight, Weight.nest_join, Weight.load_join] <;>
          omega
    | package loc name body => exact .block body
    | paren loc inner => exact .slot inner
    | index loc object index =>
      exact .mono (.slot index) (Weight.le_link_right _ _)
    | call loc callee args => exact .mono (.exprs args) (Weight.le_link_right _ _)
    | unary loc op operand => exact .slot operand
    | assign loc target value => exact .mono (.slot value) (Weight.le_join_right _ _)

variable {c n : Node}

theorem load_of_mem_guarded (hc : c ∈ n.guarded) : c.weight.load + 1 ≤ n.weight.load :=
  (under_guarded n c hc).2

/-- A link stands a level above each of its operands, and no operand is an assignment. -/
theorem weight_of_mem_operands (hc : c ∈ n.operands) :
    c.weight.load + 1 ≤ n.weight.load ∧ c.weight.nest ≤ n.weight.nest ∧
      (n.Grammatical → c.isAssignment = false) := by
  rcases n with x | e
  · cases hc
  · cases e <;> simp only [operands, List.mem_append, mem_ofSlot, List.not_mem_nil] at hc
    case index | call | member =>
      obtain ⟨e, rfl, rfl⟩ := hc
      refine ⟨?_, Nat.le_max_left _ _, fun hn => ?_⟩
      · simp only [weight, Expr.weight, Expr.slotWeight, Weight.load_link]
        omega
      · obtain ⟨_, ⟨⟩, hpost⟩ := hn.1
        exact (Expr.not_operator_of_isPostfix hpost).1
    case binary =>
      obtain ⟨e, rfl, rfl⟩ | ⟨e, rfl, rfl⟩ := hc
      · refine ⟨?_, Nat.le_max_left _ _, fun hn => ?_⟩
        · simp only [weight, Expr.weight, Expr.slotWeight, Weight.load_link]
          omega
        · obtain ⟨-, ⟨_, ⟨⟩, hleft⟩, -⟩ := hn.1
          exact hleft.1
      · refine ⟨?_, Nat.le_max_right _ _, fun hn => ?_⟩
        · simp only [weight, Expr.weight, Expr.slotWeight, Weight.load_link]
          omega
        · obtain ⟨-, -, _, ⟨⟩, hright⟩ := hn.1
          exact hright.1

/-- An assignment lies no level above its target, which is no assignment itself. -/
theorem weight_of_mem_target (hc : c ∈ n.target) :
    c.weight.load ≤ n.weight.load ∧ c.weight.nest ≤ n.weight.nest ∧ 1 ≤ n.weight.nest ∧
      n.isAssignment = true ∧ (n.Grammatical → c.isAssignment = false) := by
  rcases n with x | e
  · cases hc
  · cases e <;> simp only [target, mem_ofSlot, List.not_mem_nil] at hc
    case assign =>
      obtain ⟨e, rfl, rfl⟩ := hc
      refine ⟨Nat.le_max_left _ _, Nat.le_max_left _ _, ?_, rfl, fun hn => ?_⟩
      · simp only [weight, Expr.weight, Weight.nest_join, Weight.nest_deeper]
        omega
      · obtain ⟨_, ⟨⟩, hassignable⟩ := hn.1
        cases e <;> first | rfl | cases hassignable

/-- How often a way down from the node can go from an assignment to its target: below an
assignment's target and below an operand a further assignment is behind a guard of nesting. -/
def turns (n : Node) : Nat :=
  if n.isAssignment then n.weight.nest else n.weight.nest - 1

theorem turns_le_nest (n : Node) : n.turns ≤ n.weight.nest := by
  unfold turns
  split <;> omega

theorem pred_nest_le_turns (n : Node) : n.weight.nest - 1 ≤ n.turns := by
  unfold turns
  split <;> omega

theorem turns_of_mem_guarded (hc : c ∈ n.guarded) : c.turns ≤ n.turns := by
  have hnest : c.weight.nest + 1 ≤ n.weight.nest := (under_guarded n c hc).1
  have := turns_le_nest c
  have := pred_nest_le_turns n
  omega

theorem turns_of_mem_operands (hn : n.Grammatical) (hc : c ∈ n.operands) : c.turns ≤ n.turns := by
  obtain ⟨-, hnest, hplain⟩ := weight_of_mem_operands hc
  have := pred_nest_le_turns n
  simp only [turns, hplain hn, Bool.false_eq_true, if_false] at this ⊢
  omega

theorem turns_of_mem_target (hn : n.Grammatical) (hc : c ∈ n.target) : c.turns + 1 ≤ n.turns := by
  obtain ⟨-, hnest, hpos, hassign, hplain⟩ := weight_of_mem_target hc
  simp only [turns, hplain hn, hassign, Bool.false_eq_true, if_false, if_true]
  omega

end Node

/-- A way down from a node: the nodes on it, and how many assignments it leaves through their
targets. -/
inductive Path : Node → List Node → Nat → Prop
  | stop (n : Node) : Path n [n] 0
  | target {n c : Node} {ns : List Node} {k : Nat} (hc : c ∈ n.target) (h : Path c ns k) :
    Path n (n :: ns) (k + 1)
  | child {n c : Node} {ns : List Node} {k : Nat} (hc : c ∈ n.operands ++ n.guarded)
    (h : Path c ns k) : Path n (n :: ns) k

namespace Path

variable {n : Node} {ns : List Node} {k : Nat}

theorem length_le (h : Path n ns k) : ns.length ≤ n.weight.load + 1 + k := by
  induction h with
  | stop n => exact Nat.le_add_left _ _
  | target hc h ih =>
    have := (Node.weight_of_mem_target hc).1
    simp only [List.length_cons]
    omega
  | child hc h ih =>
    have := (List.mem_append.1 hc).elim
      (fun h => (Node.weight_of_mem_operands h).1) Node.load_of_mem_guarded
    simp only [List.length_cons]
    omega

theorem targets_le (h : Path n ns k) (hn : ∀ m ∈ n.nodes, m.Grammatical) : k ≤ n.turns := by
  induction h with
  | stop n => exact Nat.zero_le _
  | @target n c ns k hc h ih =>
    have hchild : c ∈ n.children := List.mem_append_left _ hc
    have := ih fun m hm => hn m (Node.nodes_subset hchild hm)
    have := Node.turns_of_mem_target (hn n n.mem_nodes_self) hc
    omega
  | @child n c ns k hc h ih =>
    have hchild : c ∈ n.children := List.mem_append_right _ hc
    have := ih fun m hm => hn m (Node.nodes_subset hchild hm)
    have := (List.mem_append.1 hc).elim (Node.turns_of_mem_operands (hn n n.mem_nodes_self))
      Node.turns_of_mem_guarded
    omega

end Path

namespace Node

/-- The way down that always takes the first child, as far as the fuel lasts. -/
def leftmost : Nat → Node → List Node × Nat
  | 0, n => ([n], 0)
  | fuel + 1, n =>
    match n.target, n.operands ++ n.guarded with
    | c :: _, _ => (n :: (leftmost fuel c).1, (leftmost fuel c).2 + 1)
    | [], c :: _ => (n :: (leftmost fuel c).1, (leftmost fuel c).2)
    | [], [] => ([n], 0)

theorem leftmost_path (fuel : Nat) (n : Node) :
    Path n (leftmost fuel n).1 (leftmost fuel n).2 := by
  induction fuel generalizing n with
  | zero => exact .stop n
  | succ fuel ih =>
    simp only [leftmost]
    split
    · rename_i c _ ht
      exact .target (c := c) (by simp [ht]) (ih c)
    · rename_i c _ _ hc
      exact .child (c := c) (by simp [hc]) (ih c)
    · exact .stop n

end Node

end LarkCheck
