import LarkCheck.Tree.Nodes

/-!
# The children of a node

The children of a node come in three sorts: the target of an assignment, the
operands of a chain's link, and all others. A node stands before the nodes of its
children, in their order, and there are no others below it.
-/

namespace LarkCheck

/-- All of the nodes satisfy `P`. -/
def AllNodes (P : Node → Prop) (ns : List Node) : Prop := ∀ n ∈ ns, P n

namespace AllNodes

variable {P : Node → Prop} {ns ms : List Node}

@[simp] theorem nil : AllNodes P [] := by
  simp [AllNodes]

@[simp] theorem cons_iff {n : Node} : AllNodes P (n :: ns) ↔ P n ∧ AllNodes P ns := by
  simp [AllNodes]

@[simp] theorem append_iff : AllNodes P (ns ++ ms) ↔ AllNodes P ns ∧ AllNodes P ms := by
  simp only [AllNodes, List.mem_append]
  exact ⟨fun h => ⟨fun n hn => h n (.inl hn), fun n hn => h n (.inr hn)⟩,
    fun h n hn => hn.elim (h.1 n) (h.2 n)⟩

end AllNodes

variable {n : Node}

theorem Expr.mem_listNodes {es : List Expr} : n ∈ Expr.listNodes es ↔ ∃ e ∈ es, n ∈ e.nodes := by
  induction es with
  | nil => simp [Expr.listNodes]
  | cons e es ih => simp [Expr.listNodes, ih]

theorem Pair.mem_listNodes {ps : List Pair} : n ∈ Pair.listNodes ps ↔
    ∃ p ∈ ps, n ∈ Expr.optionNodes p.key ∨ n ∈ Expr.optionNodes p.value := by
  induction ps with
  | nil => simp [Pair.listNodes]
  | cons p ps ih =>
    cases p
    simp [Pair.listNodes, ih, or_assoc]

theorem Param.mem_listNodes {ps : List Param} :
    n ∈ Param.listNodes ps ↔ ∃ p ∈ ps, n ∈ p.nodes := by
  induction ps with
  | nil => simp [Param.listNodes]
  | cons p ps ih => simp [Param.listNodes, ih]

theorem Section.mem_listNodes {xs : List Section} :
    n ∈ Section.listNodes xs ↔ ∃ x ∈ xs, n ∈ Block.optionNodes x.body := by
  induction xs with
  | nil => simp [Section.listNodes]
  | cons x xs ih =>
    cases x
    simp [Section.listNodes, ih]

theorem Stmt.mem_listNodes {xs : List Stmt} : n ∈ Stmt.listNodes xs ↔ ∃ x ∈ xs, n ∈ x.nodes := by
  induction xs with
  | nil => simp [Stmt.listNodes]
  | cons x xs ih => simp [Stmt.listNodes, ih]

theorem Branch.mem_listNodes {bs : List Branch} : n ∈ Branch.listNodes bs ↔
    ∃ b ∈ bs, n ∈ Expr.optionNodes b.test ∨ n ∈ Block.optionNodes b.body := by
  induction bs with
  | nil => simp [Branch.listNodes]
  | cons b bs ih =>
    cases b
    simp [Branch.listNodes, ih, or_assoc]

namespace Node

def ofSlot (slot : Option Expr) : List Node :=
  slot.toList.map .expr

def ofBlock (block : Option Block) : List Node :=
  block.toList.flatMap fun b => b.stmts.map .stmt

def ofParam : Param → List Node
  | .value _ _ default => ofSlot default
  | .output _ _ => []

def ofBranch (b : Branch) : List Node :=
  ofSlot b.test ++ ofBlock b.body

/-- The target of an assignment. -/
def target : Node → List Node
  | expr (.assign _ target _) => ofSlot target
  | _ => []

/-- The object of a postfix access, or the two sides of a binary operator. -/
def operands : Node → List Node
  | expr (.index _ object _) | expr (.call _ object _) | expr (.member _ object _) => ofSlot object
  | expr (.binary _ _ _ left right) => ofSlot left ++ ofSlot right
  | _ => []

/-- The other children, each of which is read behind a guard of nesting. -/
def guarded : Node → List Node
  | expr (.array _ items) => items.map .expr
  | expr (.hash _ pairs) => pairs.flatMap fun p => ofSlot p.key ++ ofSlot p.value
  | expr (.routine _ params body) => params.flatMap ofParam ++ ofBlock body
  | expr (.classDef _ _ params base _ sections) =>
    base.toList.flatMap (fun b => b.args.map .expr) ++
      (params.flatMap ofParam ++ sections.flatMap fun x => ofBlock x.body)
  | expr (.package _ _ body) => ofBlock body
  | expr (.paren _ inner) => ofSlot inner
  | expr (.index _ _ index) => ofSlot index
  | expr (.call _ _ args) => args.map .expr
  | expr (.unary _ _ operand) => ofSlot operand
  | expr (.assign _ _ value) => ofSlot value
  | stmt (.expr _ e) => ofSlot e
  | stmt (.cond _ test body elseifs otherwise) =>
    ofSlot test ++ (ofBlock body ++ (elseifs.flatMap ofBranch ++ ofBlock otherwise))
  | stmt (.case _ subject whens otherwise) =>
    ofSlot subject ++ (whens.flatMap ofBranch ++ ofBlock otherwise)
  | stmt (.whileLoop _ test body) => ofSlot test ++ ofBlock body
  | stmt (.forLoop _ init test step body) =>
    ofSlot init ++ (ofSlot test ++ (ofSlot step ++ ofBlock body))
  | stmt (.foreachLoop _ _ collection body) => ofSlot collection ++ ofBlock body
  | stmt (.returnValue _ value) => ofSlot value
  | _ => []

def children (n : Node) : List Node :=
  n.target ++ (n.operands ++ n.guarded)

/-- The node and all the nodes that it holds. -/
def nodes : Node → List Node
  | expr e => e.nodes
  | stmt x => x.nodes

theorem mem_ofSlot {n : Node} {slot : Option Expr} :
    n ∈ ofSlot slot ↔ ∃ e, slot = some e ∧ .expr e = n := by
  simp [ofSlot]

theorem nodes_ofSlot (slot : Option Expr) :
    (ofSlot slot).flatMap nodes = Expr.optionNodes slot := by
  cases slot <;> simp [ofSlot, Expr.optionNodes, nodes]

theorem nodes_exprs (es : List Expr) :
    (es.map Node.expr).flatMap nodes = Expr.listNodes es := by
  induction es with
  | nil => rfl
  | cons e es ih => simp only [List.map_cons, List.flatMap_cons, ih, Expr.listNodes, nodes]

theorem nodes_stmts (xs : List Stmt) :
    (xs.map Node.stmt).flatMap nodes = Stmt.listNodes xs := by
  induction xs with
  | nil => rfl
  | cons x xs ih => simp only [List.map_cons, List.flatMap_cons, ih, Stmt.listNodes, nodes]

theorem nodes_ofBlock (block : Option Block) :
    (ofBlock block).flatMap nodes = Block.optionNodes block := by
  cases block with
  | none => rfl
  | some b =>
    obtain ⟨loc, stmts⟩ := b
    simp [ofBlock, nodes_stmts, Block.optionNodes, Block.nodes]

theorem nodes_pairs (pairs : List Pair) :
    (pairs.flatMap fun p => ofSlot p.key ++ ofSlot p.value).flatMap nodes =
      Pair.listNodes pairs := by
  induction pairs with
  | nil => rfl
  | cons p pairs ih =>
    obtain ⟨loc, key, value⟩ := p
    simp only [List.flatMap_cons, List.flatMap_append, nodes_ofSlot, ih, Pair.listNodes,
      List.append_assoc]

theorem nodes_params (params : List Param) :
    (params.flatMap ofParam).flatMap nodes = Param.listNodes params := by
  induction params with
  | nil => rfl
  | cons p params ih =>
    cases p with
    | value loc name default =>
      simp only [List.flatMap_cons, List.flatMap_append, ofParam, nodes_ofSlot, ih,
        Param.listNodes, Param.nodes]
    | output loc name =>
      simp only [List.flatMap_cons, ofParam, List.nil_append, ih, Param.listNodes, Param.nodes]

theorem nodes_base (base : Option Base) :
    (base.toList.flatMap fun b => b.args.map Node.expr).flatMap nodes = Base.optionNodes base := by
  cases base with
  | none => rfl
  | some b =>
    obtain ⟨name, args⟩ := b
    simp [nodes_exprs, Base.optionNodes]

theorem nodes_sections (xs : List Section) :
    (xs.flatMap fun x => ofBlock x.body).flatMap nodes = Section.listNodes xs := by
  induction xs with
  | nil => rfl
  | cons x xs ih =>
    obtain ⟨loc, access, body⟩ := x
    simp only [List.flatMap_cons, List.flatMap_append, nodes_ofBlock, ih, Section.listNodes]

theorem nodes_branches (bs : List Branch) :
    (bs.flatMap ofBranch).flatMap nodes = Branch.listNodes bs := by
  induction bs with
  | nil => rfl
  | cons b bs ih =>
    obtain ⟨loc, test, body⟩ := b
    simp only [List.flatMap_cons, List.flatMap_append, ofBranch, nodes_ofSlot, nodes_ofBlock, ih,
      Branch.listNodes, List.append_assoc]

/-- A node stands before those of its children, and there are no others below it. -/
theorem nodes_eq (n : Node) : n.nodes = n :: n.children.flatMap nodes := by
  rcases n with x | e
  · cases x <;> simp only [children, target, operands, guarded, List.nil_append,
      List.flatMap_append, List.flatMap_nil, nodes_ofSlot, nodes_ofBlock, nodes_branches] <;>
      simp only [nodes, Stmt.nodes]
  · cases e <;> simp only [children, target, operands, guarded, List.nil_append, List.append_nil,
      List.flatMap_append, List.flatMap_nil, nodes_ofSlot, nodes_ofBlock, nodes_exprs, nodes_pairs,
      nodes_params, nodes_base, nodes_sections] <;> simp only [nodes, Expr.nodes]

theorem mem_nodes_self (n : Node) : n ∈ n.nodes := by
  simp [nodes_eq n]

theorem nodes_subset {c n : Node} (hc : c ∈ n.children) : c.nodes ⊆ n.nodes := by
  intro m hm
  rw [nodes_eq n]
  exact List.mem_cons_of_mem _ (List.mem_flatMap.2 ⟨c, hc, hm⟩)

end Node

end LarkCheck
