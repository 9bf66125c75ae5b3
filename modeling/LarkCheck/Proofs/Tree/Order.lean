import LarkCheck.Proofs.Tree.Shown

/-!
# The statements of a tree in the order of the text

The nodes of a tree come in the order of its text, with one exception: the arguments
for a base class come before the parameters of the class, which stand in front of them.
So of two statements the first stands in front of the second unless a class literal
swaps them.
-/

namespace LarkCheck

/-- A class literal among the nodes has the one statement in an argument for its base class and the
other in a default of its parameters. -/
def Swaps (ns : List Node) (x y : Stmt) : Prop :=
  ∃ loc name params base includes sections,
    .expr (.classDef loc name params base includes sections) ∈ ns ∧
      .stmt x ∈ Base.optionNodes base ∧ .stmt y ∈ Param.listNodes params

/-- The first statement stands in front of the second, or they are swapped. -/
def Before (ns : List Node) (x y : Stmt) : Prop :=
  x.loc < y.loc ∨ (Swaps ns x y ∧ y.loc < x.loc)

theorem Swaps.mono {ns ms : List Node} {x y : Stmt} (hsub : ns ⊆ ms) (h : Swaps ns x y) :
    Swaps ms x y := by
  obtain ⟨loc, name, params, base, includes, sections, hmem, hx, hy⟩ := h
  exact ⟨loc, name, params, base, includes, sections, hsub hmem, hx, hy⟩

theorem Before.mono {ns ms : List Node} {x y : Stmt} (hsub : ns ⊆ ms) (h : Before ns x y) :
    Before ms x y :=
  h.imp id (And.imp_left (Swaps.mono hsub))

/-- All statements among the one nodes stand in front of those among the others. -/
def InFront (ns ms : List Node) : Prop :=
  ∀ x y, .stmt x ∈ ns → .stmt y ∈ ms → x.loc < y.loc

/-- The parameters of a class literal stand in front of the arguments for its base class. -/
def Node.ParamsFirst : Node → Prop
  | .expr (.classDef _ _ params base _ _) =>
    InFront (Param.listNodes params) (Base.optionNodes base)
  | _ => True

/-- The statements among the nodes come in the order of the text, except where a class literal
swaps them. -/
structure Arranged (ns : List Node) : Prop where
  pairwise : (stmtsOf ns).Pairwise (Before ns)
  paramsFirst : ∀ n ∈ ns, n.ParamsFirst

namespace Arranged

variable {ns ms : List Node}

theorem nil : Arranged [] :=
  ⟨List.Pairwise.nil, nofun⟩

theorem append (h : Arranged ns) (h' : Arranged ms) (hfront : InFront ns ms) :
    Arranged (ns ++ ms) := by
  refine ⟨?_, fun n hn => (List.mem_append.1 hn).elim (h.paramsFirst n) (h'.paramsFirst n)⟩
  rw [stmtsOf_append, List.pairwise_append]
  refine ⟨h.pairwise.imp (Before.mono (List.subset_append_left ns ms)),
    h'.pairwise.imp (Before.mono (List.subset_append_right ns ms)), fun x hx y hy => ?_⟩
  exact .inl (hfront x y (mem_stmtsOf.1 hx) (mem_stmtsOf.1 hy))

theorem expr {e : Expr} (h : Arranged ns) (he : (Node.expr e).ParamsFirst) :
    Arranged (.expr e :: ns) :=
  ⟨h.pairwise.imp (Before.mono (List.subset_cons_self _ _)),
    List.forall_mem_cons.2 ⟨he, h.paramsFirst⟩⟩

theorem stmt {x : Stmt} (h : Arranged ns) (hx : ∀ y, .stmt y ∈ ns → x.loc < y.loc) :
    Arranged (.stmt x :: ns) := by
  refine ⟨List.pairwise_cons.2 ⟨fun y hy => .inl (hx y (mem_stmtsOf.1 hy)), ?_⟩,
    List.forall_mem_cons.2 ⟨trivial, h.paramsFirst⟩⟩
  exact h.pairwise.imp (Before.mono (List.subset_cons_self _ _))

/-- A class literal, of which the parameters were read first. -/
theorem classDef {loc : Location} {name : String} {params : List Param} {base : Option Base}
    {includes : List Name} {sections : List Section}
    (hparams : Arranged (Param.listNodes params)) (hbase : Arranged (Base.optionNodes base))
    (hsections : Arranged (Section.listNodes sections))
    (hfirst : InFront (Param.listNodes params) (Base.optionNodes base))
    (hlast : InFront (Param.listNodes params ++ Base.optionNodes base)
      (Section.listNodes sections)) :
    Arranged (Expr.classDef loc name params base includes sections).nodes := by
  rw [Expr.nodes]
  have hparamsLast : InFront (Param.listNodes params) (Section.listNodes sections) :=
    fun x y hx => hlast x y (List.mem_append_left _ hx)
  have hbaseLast : InFront (Base.optionNodes base) (Section.listNodes sections) :=
    fun x y hx => hlast x y (List.mem_append_right _ hx)
  have hrest := hparams.append hsections hparamsLast
  refine ⟨?_, List.forall_mem_cons.2 ⟨hfirst, ?_⟩⟩
  · change (stmtsOf (Base.optionNodes base ++ _)).Pairwise _
    rw [stmtsOf_append, List.pairwise_append]
    refine ⟨hbase.pairwise.imp (Before.mono ?_), hrest.pairwise.imp (Before.mono ?_),
      fun x hx y hy => ?_⟩
    · exact List.subset_cons_of_subset _ (List.subset_append_left _ _)
    · exact List.subset_cons_of_subset _ (List.subset_append_right _ _)
    · rw [mem_stmtsOf] at hx hy
      rcases List.mem_append.1 hy with hy | hy
      -- here the order of the nodes is not that of the text
      · exact .inr ⟨⟨_, _, _, _, _, _, List.mem_cons_self, hx, hy⟩, hfirst y x hy hx⟩
      · exact .inl (hbaseLast x y hx hy)
  · intro n hn
    rcases List.mem_append.1 hn with hn | hn
    · exact hbase.paramsFirst n hn
    · exact hrest.paramsFirst n hn

/-- Two statements are in the order of the text unless they are swapped, and then they are in the
opposite order. -/
theorem before_iff (h : Arranged ns) {x y : Stmt} (hxy : Before ns x y) :
    (x.loc < y.loc ↔ ¬ Swaps ns x y) ∧ (y.loc < x.loc ↔ Swaps ns x y) := by
  have hswaps : Swaps ns x y → y.loc < x.loc := by
    rintro ⟨_, _, _, _, _, _, hmem, hx, hy⟩
    exact h.paramsFirst _ hmem y x hy hx
  have hasymm : x.loc < y.loc → ¬ y.loc < x.loc := fun hlt hgt =>
    Location.lt_irrefl _ (Location.lt_trans hlt hgt)
  refine ⟨⟨fun hlt hswap => hasymm hlt (hswaps hswap), fun hswap => ?_⟩, fun hgt => ?_, hswaps⟩
  · exact hxy.resolve_right fun hright => hswap hright.1
  · exact (hxy.resolve_left fun hlt => hasymm hlt hgt).1

end Arranged

end LarkCheck
