import LarkCheck.Proofs.Scope.Mention
import LarkCheck.Tree.Nodes
import Mathlib.Data.List.Perm.Basic

/-!
# The scopes that a tree asks for

Each routine, each class and each package of a tree has a scope of its own, inside of
that of the innermost of them which has it among its parameters or in its body. What
a class hands to its base stands outside. The scopes are numbered from the outside to
the inside and from left to right.
-/

namespace LarkCheck

/-- Kind, place and parent of a scope. -/
abbrev Heading := Scope.Kind × Location × Option Nat

namespace Mention

mutual

/-- The headings of the scopes in a mention, in the scope `around`, numbered from `next` on. -/
def headings (around next : Nat) : Mention → List Heading
  | .use _ | .bind _ | .param _ => []
  | .scope kind loc ms => (kind, loc, some around) :: listHeadings next (next + 1) ms

def listHeadings (around next : Nat) : List Mention → List Heading
  | [] => []
  | m :: ms =>
    m.headings around next ++
      listHeadings around (next + (m.headings around next).length) ms

end

theorem listHeadings_append (around next : Nat) (ms ns : List Mention) :
    listHeadings around next (ms ++ ns) = listHeadings around next ms ++
      listHeadings around (next + (listHeadings around next ms).length) ns := by
  induction ms generalizing next with
  | nil => rfl
  | cons m ms ih =>
    simp only [List.cons_append, listHeadings, ih, List.append_assoc, List.length_append,
      Nat.add_assoc]

end Mention

/-- The routine, class or package that a node is, if it is one. -/
def Node.literal? : Node → Option (Scope.Kind × Location)
  | .expr (.routine loc _ _) => some (.routine, loc)
  | .expr (.classDef loc _ _ _ _ _) => some (.classDef, loc)
  | .expr (.package loc _ _) => some (.package, loc)
  | _ => none

/-- The scopes in the mentions are those of the literals among the nodes, wherever they stand. -/
def Holds (ms : List Mention) (ns : List Node) : Prop :=
  ∀ around next, ((Mention.listHeadings around next ms).map fun h => (h.1, h.2.1)).Perm
    (ns.filterMap Node.literal?)

namespace Holds

variable {ms ms' : List Mention} {ns ns' : List Node}

theorem nil : Holds [] [] :=
  fun _ _ => .nil

theorem use (name : Name) : Holds [.use name] [] :=
  fun _ _ => .nil

theorem bind (name : Name) : Holds [.bind name] [] :=
  fun _ _ => .nil

theorem param (name : Name) : Holds [.param name] [] :=
  fun _ _ => .nil

theorem uses (names : List Name) : Holds (names.map .use) [] := by
  intro around next
  induction names with
  | nil => exact .nil
  | cons name names ih => exact ih

theorem append (h : Holds ms ns) (h' : Holds ms' ns') : Holds (ms ++ ms') (ns ++ ns') := by
  intro around next
  rw [Mention.listHeadings_append, List.map_append, List.filterMap_append]
  exact (h around next).append (h' around _)

theorem perm (h : Holds ms ns) (hns : ns.Perm ns') : Holds ms ns' :=
  fun around next => (h around next).trans (hns.filterMap _)

/-- What mentions names only stands before what holds the nodes. -/
theorem after (h : Holds ms []) (h' : Holds ms' ns) : Holds (ms ++ ms') ns :=
  h.append h'

/-- A node without a scope of its own. -/
theorem node {n : Node} (hn : n.literal? = none) (h : Holds ms ns) : Holds ms (n :: ns) := by
  intro around next
  rw [List.filterMap_cons_none hn]
  exact h around next

/-- A literal with its parameters, if it has any, and its body. -/
theorem scope {n : Node} {kind : Scope.Kind} {loc : Location} (hn : n.literal? = some (kind, loc))
    (h : Holds ms ns) : Holds [.scope kind loc ms] (n :: ns) := by
  intro around next
  rw [List.filterMap_cons_some hn]
  simp only [Mention.listHeadings, Mention.headings, List.append_nil, List.map_cons]
  exact (h next (next + 1)).cons _

end Holds

mutual

/-- By recursion on the tree: mentions and nodes are put together from those of the parts. -/
theorem Expr.holds (e : Expr) : Holds e.mentions e.nodes := by
  cases e with
  | ident loc name => exact .node rfl (.use _)
  | nil | bool | int | real | string | receiver => exact .node rfl .nil
  | array loc items => exact .node rfl (Expr.holds_list items)
  | hash loc pairs => exact .node rfl (Pair.holds_list pairs)
  | routine loc params body =>
    exact .scope rfl ((Param.holds_list params).append (Block.holds_option body))
  | classDef loc name params base includes sections =>
    -- the node comes before what it hands to its base, the scope after it
    have inside := (Param.holds_list params).append (Section.holds_list sections)
    have scope : Holds [.scope .classDef loc _]
        (.expr (.classDef loc name params base includes sections) :: _) := .scope rfl inside
    have outside := (Base.holds_option base).append (.after (.uses includes) scope)
    have whole := Holds.after (.bind ⟨loc, name⟩) (outside.perm List.perm_middle)
    exact whole
  | package loc name body =>
    exact .after (.bind ⟨loc, name⟩) (.scope rfl (Block.holds_option body))
  | paren loc inner => exact .node rfl (Expr.holds_option inner)
  | index loc object index =>
    exact .node rfl ((Expr.holds_option object).append (Expr.holds_option index))
  | call loc callee args =>
    exact .node rfl ((Expr.holds_option callee).append (Expr.holds_list args))
  | member loc object name => exact .node rfl (Expr.holds_option object)
  | unary loc op operand => exact .node rfl (Expr.holds_option operand)
  | binary loc level op left right =>
    exact .node rfl ((Expr.holds_option left).append (Expr.holds_option right))
  | assign loc target value =>
    exact .node rfl ((Expr.holds_target target).append (Expr.holds_option value))

theorem Expr.holds_option (o : Option Expr) :
    Holds (Expr.optionMentions o) (Expr.optionNodes o) := by
  cases o with
  | none => exact .nil
  | some e => exact Expr.holds e

theorem Expr.holds_target (o : Option Expr) :
    Holds (Expr.targetMentions o) (Expr.optionNodes o) := by
  cases o with
  | none => exact .nil
  | some e =>
    have h := Expr.holds e
    cases e with
    | ident loc name => exact .node rfl (.bind _)
    | _ => exact h

theorem Expr.holds_list (es : List Expr) : Holds (Expr.listMentions es) (Expr.listNodes es) := by
  cases es with
  | nil => exact .nil
  | cons e es => exact (Expr.holds e).append (Expr.holds_list es)

theorem Pair.holds_list (ps : List Pair) : Holds (Pair.listMentions ps) (Pair.listNodes ps) := by
  cases ps with
  | nil => exact .nil
  | cons p ps =>
    obtain ⟨loc, key, value⟩ := p
    exact (Expr.holds_option key).append
      ((Expr.holds_option value).append (Pair.holds_list ps))

theorem Param.holds (p : Param) : Holds p.mentions p.nodes := by
  cases p with
  | value loc name default =>
    have both := (Expr.holds_option default).append (.param ⟨loc, name⟩)
    rwa [List.append_nil (Expr.optionNodes default)] at both
  | output loc name => exact .param _

theorem Param.holds_list (ps : List Param) :
    Holds (Param.listMentions ps) (Param.listNodes ps) := by
  cases ps with
  | nil => exact .nil
  | cons p ps => exact (Param.holds p).append (Param.holds_list ps)

theorem Base.holds_option (o : Option Base) :
    Holds (Base.optionMentions o) (Base.optionNodes o) := by
  cases o with
  | none => exact .nil
  | some b =>
    obtain ⟨name, args⟩ := b
    exact .after (.use name) (Expr.holds_list args)

theorem Section.holds_list (xs : List Section) :
    Holds (Section.listMentions xs) (Section.listNodes xs) := by
  cases xs with
  | nil => exact .nil
  | cons x xs =>
    obtain ⟨loc, access, body⟩ := x
    exact (Block.holds_option body).append (Section.holds_list xs)

theorem Block.holds (b : Block) : Holds b.mentions b.nodes := by
  obtain ⟨loc, stmts⟩ := b
  exact Stmt.holds_list stmts

theorem Block.holds_option (o : Option Block) :
    Holds (Block.optionMentions o) (Block.optionNodes o) := by
  cases o with
  | none => exact .nil
  | some b => exact Block.holds b

theorem Stmt.holds (x : Stmt) : Holds x.mentions x.nodes := by
  cases x with
  | importPath loc path =>
    refine .node rfl ?_
    unfold Stmt.mentions
    cases path.getLast? with
    | none => exact .nil
    | some name => exact .bind _
  | expr loc e => exact .node rfl (Expr.holds_option e)
  | cond loc test body elseifs otherwise =>
    exact .node rfl ((Expr.holds_option test).append ((Block.holds_option body).append
      ((Branch.holds_list elseifs).append (Block.holds_option otherwise))))
  | case loc subject whens otherwise =>
    exact .node rfl ((Expr.holds_option subject).append
      ((Branch.holds_list whens).append (Block.holds_option otherwise)))
  | whileLoop loc test body =>
    exact .node rfl ((Expr.holds_option test).append (Block.holds_option body))
  | forLoop loc init test step body =>
    exact .node rfl ((Expr.holds_option init).append ((Expr.holds_option test).append
      ((Expr.holds_option step).append (Block.holds_option body))))
  | foreachLoop loc item collection body =>
    exact .node rfl ((Expr.holds_option collection).append
      (.after (.bind item) (Block.holds_option body)))
  | breakLoop | nextRound => exact .node rfl .nil
  | returnValue loc value => exact .node rfl (Expr.holds_option value)

theorem Stmt.holds_list (xs : List Stmt) : Holds (Stmt.listMentions xs) (Stmt.listNodes xs) := by
  cases xs with
  | nil => exact .nil
  | cons x xs => exact (Stmt.holds x).append (Stmt.holds_list xs)

theorem Branch.holds_list (bs : List Branch) :
    Holds (Branch.listMentions bs) (Branch.listNodes bs) := by
  cases bs with
  | nil => exact .nil
  | cons b bs =>
    obtain ⟨loc, test, body⟩ := b
    exact (Expr.holds_option test).append
      ((Block.holds_option body).append (Branch.holds_list bs))

end

theorem Block.holds_units (units : List Block) :
    Holds (units.flatMap Block.mentions) (units.flatMap Block.nodes) := by
  induction units with
  | nil => exact .nil
  | cons unit units ih =>
    rw [List.flatMap_cons, List.flatMap_cons]
    exact unit.holds.append ih

end LarkCheck
