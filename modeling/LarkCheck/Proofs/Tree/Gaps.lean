import LarkCheck.Proofs.Tree.Shape
import LarkCheck.Tree.Check

/-!
# The gaps of a tree

What a node requires can be read off the node alone: a slot that is empty is a gap
of the node, and so is one in a branch, a pair or a section of it. The visits of a
tree are put together along its nodes, so what can be said of visits part by part can
be said of those of a whole tree. They meet every gap of every node once and no other
missing child, so both passes over the structure report the gaps and accept a tree
without any.
-/

namespace LarkCheck

/-- The slot itself, if there is nothing in it. -/
def EmptySlot.unless {α : Type} (slot : EmptySlot) : Option α → List EmptySlot
  | none => [slot]
  | some _ => []

def Pair.gaps (p : Pair) : List EmptySlot :=
  EmptySlot.unless ⟨p.loc, "hash pair", "key"⟩ p.key ++
    EmptySlot.unless ⟨p.loc, "hash pair", "value"⟩ p.value

def Section.gaps (x : Section) : List EmptySlot :=
  EmptySlot.unless ⟨x.loc, "class section", "body"⟩ x.body

def Branch.gaps (node : String) (b : Branch) : List EmptySlot :=
  EmptySlot.unless ⟨b.loc, node, "condition"⟩ b.test ++
    EmptySlot.unless ⟨b.loc, node, "body"⟩ b.body

def Expr.gaps : Expr → List EmptySlot
  | ident .. | nil _ | bool .. | int .. | real .. | string .. | receiver _ | array .. => []
  | hash _ pairs => pairs.flatMap Pair.gaps
  | routine loc _ body => EmptySlot.unless ⟨loc, "routine literal", "body"⟩ body
  | classDef _ _ _ _ _ sections => sections.flatMap Section.gaps
  | package loc _ body => EmptySlot.unless ⟨loc, "package literal", "body"⟩ body
  | paren loc inner =>
    EmptySlot.unless ⟨loc, "parenthesized expression", "inner expression"⟩ inner
  | index loc object place =>
    EmptySlot.unless ⟨loc, "index expression", "object"⟩ object ++
      EmptySlot.unless ⟨loc, "index expression", "index"⟩ place
  | call loc callee _ => EmptySlot.unless ⟨loc, "call expression", "callee"⟩ callee
  | member loc object _ => EmptySlot.unless ⟨loc, "member expression", "object"⟩ object
  | unary loc _ operand => EmptySlot.unless ⟨loc, "unary expression", "operand"⟩ operand
  | binary loc level _ left right =>
    EmptySlot.unless ⟨loc, level.name ++ " expression", "left operand"⟩ left ++
      EmptySlot.unless ⟨loc, level.name ++ " expression", "right operand"⟩ right
  | assign loc target value =>
    EmptySlot.unless ⟨loc, "assignment", "target"⟩ target ++
      EmptySlot.unless ⟨loc, "assignment", "value"⟩ value

def Stmt.gaps : Stmt → List EmptySlot
  | importPath .. | breakLoop _ | nextRound _ | returnValue .. => []
  | expr loc e => EmptySlot.unless ⟨loc, "expression statement", "expression"⟩ e
  | cond loc test body elseifs _ =>
    EmptySlot.unless ⟨loc, "if statement", "condition"⟩ test ++
      (EmptySlot.unless ⟨loc, "if statement", "body"⟩ body ++
        elseifs.flatMap (Branch.gaps "elseif branch"))
  | case loc subject whens _ =>
    EmptySlot.unless ⟨loc, "case statement", "subject"⟩ subject ++
      whens.flatMap (Branch.gaps "when clause")
  | whileLoop loc test body =>
    EmptySlot.unless ⟨loc, "while statement", "condition"⟩ test ++
      EmptySlot.unless ⟨loc, "while statement", "body"⟩ body
  | forLoop loc init test step body =>
    EmptySlot.unless ⟨loc, "for statement", "initializer"⟩ init ++
      (EmptySlot.unless ⟨loc, "for statement", "condition"⟩ test ++
        (EmptySlot.unless ⟨loc, "for statement", "step"⟩ step ++
          EmptySlot.unless ⟨loc, "for statement", "body"⟩ body))
  | foreachLoop loc _ collection body =>
    EmptySlot.unless ⟨loc, "foreach statement", "collection"⟩ collection ++
      EmptySlot.unless ⟨loc, "foreach statement", "body"⟩ body

/-- The required children that the node lacks itself, or a branch, a pair or a section of it. -/
def Node.gaps : Node → List EmptySlot
  | expr e => e.gaps
  | stmt x => x.gaps

theorem EmptySlot.unless_eq_nil {α : Type} {slot : EmptySlot} {o : Option α} :
    slot.unless o = [] ↔ o.isSome = true := by
  cases o <;> simp [EmptySlot.unless]

theorem Branch.gaps_eq_nil {node : String} {b : Branch} : b.gaps node = [] ↔ b.Filled := by
  simp [Branch.gaps, Branch.Filled, EmptySlot.unless_eq_nil]

theorem Expr.gaps_eq_nil {e : Expr} (h : e.Laddered) (h' : e.Filled) : e.gaps = [] := by
  cases e with
  | hash loc pairs => simpa [gaps, Pair.gaps, Filled, EmptySlot.unless_eq_nil] using h'
  | classDef loc name params base includes sections =>
    simpa [gaps, Section.gaps, Filled, EmptySlot.unless_eq_nil] using h'.2
  | routine | package | paren => exact EmptySlot.unless_eq_nil.2 h'
  | index loc object place =>
    obtain ⟨e, rfl, -⟩ := h
    exact List.append_eq_nil_iff.2 ⟨rfl, EmptySlot.unless_eq_nil.2 h'⟩
  | call | member =>
    obtain ⟨e, rfl, -⟩ := h
    rfl
  | unary loc op operand =>
    obtain ⟨-, e, rfl, -⟩ := h
    rfl
  | binary loc level op left right =>
    obtain ⟨-, ⟨e, rfl, -⟩, e', rfl, -⟩ := h
    rfl
  | assign loc target value =>
    obtain ⟨e, rfl, -⟩ := h
    exact List.append_eq_nil_iff.2 ⟨rfl, EmptySlot.unless_eq_nil.2 h'⟩
  | _ => rfl

theorem Stmt.gaps_eq_nil {x : Stmt} (h : x.Filled) : x.gaps = [] := by
  cases x with
  | importPath | breakLoop | nextRound | returnValue => rfl
  | expr => exact EmptySlot.unless_eq_nil.2 h
  | cond loc test body elseifs otherwise =>
    simpa [gaps, Filled, EmptySlot.unless_eq_nil, Branch.gaps_eq_nil] using h
  | case loc subject whens otherwise =>
    obtain ⟨hsubject, -, hwhens⟩ := h
    simpa [gaps, EmptySlot.unless_eq_nil, Branch.gaps_eq_nil] using ⟨hsubject, hwhens⟩
  | whileLoop | forLoop | foreachLoop => simpa [gaps, Filled, EmptySlot.unless_eq_nil] using h

theorem Node.Grammatical.gaps_eq_nil {n : Node} (h : n.Grammatical) : n.gaps = [] := by
  cases n with
  | expr e => exact Expr.gaps_eq_nil h.1 h.2
  | stmt x => exact Stmt.gaps_eq_nil h

def Visit.stmt? : Visit → Option Stmt
  | .stmt x => some x
  | _ => none

def Visit.missing? : Visit → Option EmptySlot
  | .missing slot => some slot
  | _ => none

/-- What can be said of some visits, the children missing from what is visited itself, and the
nodes in it, if it is kept where visits are put together as those of a tree are. -/
structure VisitLaw (P : List Visit → List EmptySlot → List Node → Prop) : Prop where
  nil : P [] [] []
  missing : ∀ slot, P [.missing slot] [slot] []
  quiet : ∀ v : Visit, v.stmt? = none → v.missing? = none → P [v] [] []
  append : ∀ {vs ws own own' ns ms}, P vs own ns → P ws own' ms →
    P (vs ++ ws) (own ++ own') (ns ++ ms)
  expr : ∀ {e : Expr} {vs ns}, P vs e.gaps ns → P vs [] (.expr e :: ns)
  stmt : ∀ {x : Stmt} {vs ns}, P vs x.gaps ns → P (.stmt x :: vs) [] (.stmt x :: ns)

variable {P : List Visit → List EmptySlot → List Node → Prop}

namespace VisitLaw

variable {vs ws : List Visit} {own : List EmptySlot} {ns ms : List Node}

theorem cons (law : VisitLaw P) {v : Visit} (hstmt : v.stmt? = none) (hmissing : v.missing? = none)
    (h : P vs own ns) : P (v :: vs) own ns :=
  law.append (law.quiet v hstmt hmissing) h

/-- What follows lacks no child of its own. -/
theorem append_whole (law : VisitLaw P) (h : P vs own ns) (h' : P ws [] ms) :
    P (vs ++ ws) own (ns ++ ms) := by
  have both := law.append h h'
  rwa [List.append_nil] at both

/-- Visits of names and scopes alone. -/
theorem quiet_all (law : VisitLaw P) (h : ∀ v ∈ vs, v.stmt? = none ∧ v.missing? = none) :
    P vs [] [] := by
  induction vs with
  | nil => exact law.nil
  | cons v vs ih =>
    obtain ⟨⟨hstmt, hmissing⟩, hvs⟩ := List.forall_mem_cons.1 h
    exact law.cons hstmt hmissing (ih hvs)

/-- A scope with its parameters, if it has any, and its body. -/
theorem scope (law : VisitLaw P) (kind : Scope.Kind) (loc : Location) (h : P vs [] ns)
    (h' : P ws own ms) : P (.enter kind loc :: (vs ++ (ws ++ [.leave]))) own (ns ++ ms) := by
  have inside := law.append h (law.append_whole h' (law.quiet .leave rfl rfl))
  rw [List.append_nil] at inside
  exact law.cons rfl rfl inside

end VisitLaw

mutual

/-- By recursion on the tree: the visits of a construct are put together from those of its
parts. -/
theorem Expr.visited (law : VisitLaw P) (e : Expr) : P e.visits [] e.nodes := by
  cases e with
  | ident => exact law.expr (law.quiet _ rfl rfl)
  | nil | bool | int | real | string | receiver => exact law.expr law.nil
  | array loc items => exact law.expr (Expr.visited_list law items)
  | hash loc pairs => exact law.expr (Pair.visited_list law pairs)
  | routine loc params body =>
    exact law.expr
      (law.scope .routine loc (Param.visited_list law params) (Block.visited_slot law _ body))
  | classDef loc name params base includes sections =>
    have scope := law.scope .classDef loc (Param.visited_list law params)
      (Section.visited_list law sections)
    have named : P (includes.map .use) [] [] :=
      law.quiet_all (by simp [Visit.stmt?, Visit.missing?])
    have inside := law.append (Base.visited_option law base) (law.append named scope)
    exact law.expr (law.cons rfl rfl inside)
  | package loc name body =>
    exact law.expr
      (law.cons rfl rfl (law.scope .package loc law.nil (Block.visited_slot law _ body)))
  | paren loc inner => exact law.expr (Expr.visited_slot law _ inner)
  | index loc object place =>
    exact law.expr (law.append (Expr.visited_slot law _ object) (Expr.visited_slot law _ place))
  | call loc callee args =>
    exact law.expr (law.append_whole (Expr.visited_slot law _ callee) (Expr.visited_list law args))
  | member loc object name => exact law.expr (Expr.visited_slot law _ object)
  | unary loc op operand => exact law.expr (Expr.visited_slot law _ operand)
  | binary loc level op left right =>
    exact law.expr (law.append (Expr.visited_slot law _ left) (Expr.visited_slot law _ right))
  | assign loc target value =>
    exact law.expr (law.append (Expr.visited_target law _ target) (Expr.visited_slot law _ value))

theorem Expr.visited_slot (law : VisitLaw P) (slot : EmptySlot) (o : Option Expr) :
    P (Expr.slotVisits slot o) (slot.unless o) (Expr.optionNodes o) := by
  cases o with
  | none => exact law.missing slot
  | some e => exact Expr.visited law e

theorem Expr.visited_option (law : VisitLaw P) (o : Option Expr) :
    P (Expr.optionVisits o) [] (Expr.optionNodes o) := by
  cases o with
  | none => exact law.nil
  | some e => exact Expr.visited law e

theorem Expr.visited_target (law : VisitLaw P) (slot : EmptySlot) (o : Option Expr) :
    P (Expr.targetVisits slot o) (slot.unless o) (Expr.optionNodes o) := by
  cases o with
  | none => exact law.missing slot
  | some e =>
    have h := Expr.visited law e
    cases e with
    | ident loc name => exact law.expr (law.quiet _ rfl rfl)
    | _ => exact h

theorem Expr.visited_list (law : VisitLaw P) (es : List Expr) :
    P (Expr.listVisits es) [] (Expr.listNodes es) := by
  cases es with
  | nil => exact law.nil
  | cons e es => exact law.append (Expr.visited law e) (Expr.visited_list law es)

theorem Pair.visited_list (law : VisitLaw P) (ps : List Pair) :
    P (Pair.listVisits ps) (ps.flatMap Pair.gaps) (Pair.listNodes ps) := by
  cases ps with
  | nil => exact law.nil
  | cons p ps =>
    obtain ⟨loc, key, value⟩ := p
    rw [List.flatMap_cons, Pair.gaps, List.append_assoc]
    exact law.append (Expr.visited_slot law _ key)
      (law.append (Expr.visited_slot law _ value) (Pair.visited_list law ps))

theorem Param.visited (law : VisitLaw P) (p : Param) : P p.visits [] p.nodes := by
  cases p with
  | value loc name default =>
    have param : P [.param ⟨loc, name⟩] [] [] := law.quiet _ rfl rfl
    have both := law.append (Expr.visited_option law default) param
    rwa [List.append_nil (Expr.optionNodes default)] at both
  | output loc name => exact law.quiet _ rfl rfl

theorem Param.visited_list (law : VisitLaw P) (ps : List Param) :
    P (Param.listVisits ps) [] (Param.listNodes ps) := by
  cases ps with
  | nil => exact law.nil
  | cons p ps => exact law.append (Param.visited law p) (Param.visited_list law ps)

theorem Base.visited_option (law : VisitLaw P) (o : Option Base) :
    P (Base.optionVisits o) [] (Base.optionNodes o) := by
  cases o with
  | none => exact law.nil
  | some b =>
    obtain ⟨name, args⟩ := b
    exact law.cons rfl rfl (Expr.visited_list law args)

theorem Section.visited_list (law : VisitLaw P) (xs : List Section) :
    P (Section.listVisits xs) (xs.flatMap Section.gaps) (Section.listNodes xs) := by
  cases xs with
  | nil => exact law.nil
  | cons x xs =>
    obtain ⟨loc, access, body⟩ := x
    exact law.append (Block.visited_slot law _ body) (Section.visited_list law xs)

theorem Block.visited (law : VisitLaw P) (b : Block) : P b.visits [] b.nodes := by
  obtain ⟨loc, stmts⟩ := b
  exact Stmt.visited_list law stmts

theorem Block.visited_slot (law : VisitLaw P) (slot : EmptySlot) (o : Option Block) :
    P (Block.slotVisits slot o) (slot.unless o) (Block.optionNodes o) := by
  cases o with
  | none => exact law.missing slot
  | some b => exact Block.visited law b

theorem Block.visited_option (law : VisitLaw P) (o : Option Block) :
    P (Block.optionVisits o) [] (Block.optionNodes o) := by
  cases o with
  | none => exact law.nil
  | some b => exact Block.visited law b

theorem Stmt.visited (law : VisitLaw P) (x : Stmt) : P (.stmt x :: x.visits) [] x.nodes := by
  cases x with
  | importPath loc path =>
    exact law.stmt (law.quiet_all (by simp [Stmt.visits, Visit.stmt?, Visit.missing?]))
  | expr loc e => exact law.stmt (Expr.visited_slot law _ e)
  | cond loc test body elseifs otherwise =>
    have branches := law.append_whole (Branch.visited_list law "elseif branch" elseifs)
      (Block.visited_option law otherwise)
    exact law.stmt (law.append (Expr.visited_slot law _ test)
      (law.append (Block.visited_slot law _ body) branches))
  | case loc subject whens otherwise =>
    have branches := law.append_whole (Branch.visited_list law "when clause" whens)
      (Block.visited_option law otherwise)
    exact law.stmt (law.append (Expr.visited_slot law _ subject) branches)
  | whileLoop loc test body =>
    exact law.stmt (law.append (Expr.visited_slot law _ test) (Block.visited_slot law _ body))
  | forLoop loc init test step body =>
    exact law.stmt (law.append (Expr.visited_slot law _ init)
      (law.append (Expr.visited_slot law _ test)
        (law.append (Expr.visited_slot law _ step) (Block.visited_slot law _ body))))
  | foreachLoop loc item collection body =>
    exact law.stmt (law.append (Expr.visited_slot law _ collection)
      (law.cons rfl rfl (Block.visited_slot law _ body)))
  | breakLoop | nextRound => exact law.stmt law.nil
  | returnValue loc value => exact law.stmt (Expr.visited_option law value)

theorem Stmt.visited_list (law : VisitLaw P) (xs : List Stmt) :
    P (Stmt.listVisits xs) [] (Stmt.listNodes xs) := by
  cases xs with
  | nil => exact law.nil
  | cons x xs => exact law.append (Stmt.visited law x) (Stmt.visited_list law xs)

theorem Branch.visited_list (law : VisitLaw P) (node : String) (bs : List Branch) :
    P (Branch.listVisits node bs) (bs.flatMap (Branch.gaps node)) (Branch.listNodes bs) := by
  cases bs with
  | nil => exact law.nil
  | cons b bs =>
    obtain ⟨loc, test, body⟩ := b
    rw [List.flatMap_cons, Branch.gaps, List.append_assoc]
    exact law.append (Expr.visited_slot law _ test)
      (law.append (Block.visited_slot law _ body) (Branch.visited_list law node bs))

end

/-- The visits meet the empty slots `own` and the gaps of the nodes `ns`, and no other, each as
often as it is there. -/
structure Meets (vs : List Visit) (own : List EmptySlot) (ns : List Node) : Prop where
  perm : (vs.filterMap Visit.missing?).Perm (own ++ ns.flatMap Node.gaps)

theorem meets_law : VisitLaw Meets where
  nil := ⟨.nil⟩
  missing slot := ⟨.refl [slot]⟩
  quiet v _ hmissing := by
    constructor
    rw [List.filterMap_cons_none hmissing]
    exact .nil
  append {vs ws own own' ns ms} h h' := by
    constructor
    have both := h.perm.append h'.perm
    have swap := List.perm_append_comm_assoc (ns.flatMap Node.gaps) own' (ms.flatMap Node.gaps)
    rw [List.append_assoc] at both
    rw [List.filterMap_append, List.flatMap_append, List.append_assoc]
    exact both.trans (swap.append_left own)
  expr h := ⟨h.perm⟩
  stmt h := ⟨h.perm⟩

/-- The missing children of a tree are the gaps of its nodes. -/
theorem Block.emptySlots_perm (unit : Block) :
    unit.emptySlots.Perm (unit.nodes.flatMap Node.gaps) :=
  (Block.visited meets_law unit).perm

theorem StructureCheck.foldl_visit (vs : List Visit) (c : StructureCheck) :
    vs.foldl visit c =
      ⟨c.missing + (vs.filterMap Visit.missing?).length,
        c.passed && (vs.filterMap Visit.missing?).isEmpty,
        c.news ++ (vs.filterMap Visit.missing?).map EmptySlot.diagnostic⟩ := by
  induction vs generalizing c with
  | nil => simp
  | cons v vs ih =>
    rw [List.foldl_cons, ih]
    cases v with
    | missing slot => simp [visit, Visit.missing?, Nat.add_assoc, Nat.add_comm 1]
    | _ => rfl

/-- The structure check counts and reports the empty slots, and passes if there are none. -/
theorem StructureCheck.run_eq (unit : Block) :
    run unit = ⟨unit.emptySlots.length, unit.emptySlots.isEmpty,
      unit.emptySlots.map EmptySlot.diagnostic⟩ := by
  rw [run, foldl_visit, Nat.zero_add, Bool.true_and, List.nil_append]
  rfl

/-- Without rules a rule check looks for missing children alone. -/
theorem RuleCheck.foldl_visit_nil {σ : Type} (vs : List Visit) (c : RuleCheck σ) :
    vs.foldl (RuleCheck.visit []) c =
      ⟨c.memory, c.passed && (vs.filterMap Visit.missing?).isEmpty,
        c.log.append ((vs.filterMap Visit.missing?).map EmptySlot.diagnostic)⟩ := by
  induction vs generalizing c with
  | nil => simp
  | cons v vs ih =>
    rw [List.foldl_cons, ih]
    cases v with
    | missing slot => simp [RuleCheck.visit, Visit.missing?, Log.report, Log.append_append]
    | _ => rfl

namespace Block

theorem checkStructure_eq (log : Log) (unit : Block) :
    unit.checkStructure log =
      (unit.emptySlots.isEmpty, log.append (unit.emptySlots.map EmptySlot.diagnostic)) := by
  rw [checkStructure, StructureCheck.run_eq]

theorem checkRules_nil {σ : Type} (memory : σ) (log : Log) (unit : Block) :
    unit.checkRules [] memory log =
      ((unit.checkStructure log).1, (unit.checkStructure log).2, memory) := by
  have h := RuleCheck.foldl_visit_nil unit.visits ⟨memory, true, log⟩
  simp only [checkRules, RuleCheck.run, h, Bool.true_and, checkStructure_eq]
  rfl

/-- The rule check without rules, and without the memory that they would have. -/
def checkNoRules (log : Log) (unit : Block) : Bool × Log :=
  let (passed, log, _) := unit.checkRules [] () log
  (passed, log)

/-- The two passes over the structure agree. -/
theorem checkNoRules_eq (log : Log) (unit : Block) :
    unit.checkNoRules log = unit.checkStructure log := by
  simp only [checkNoRules, checkRules_nil]

/-- The structure of a tree without gaps is accepted and nothing is reported of it. -/
theorem checkStructure_of_gaps {unit : Block} (h : ∀ n ∈ unit.nodes, n.gaps = []) (log : Log) :
    unit.checkStructure log = (true, log) := by
  have hslots : unit.emptySlots = [] := by
    have hperm := unit.emptySlots_perm
    rw [List.flatMap_eq_nil_iff.2 h] at hperm
    exact hperm.eq_nil
  simp [checkStructure_eq, hslots, Log.append]

end Block

end LarkCheck
