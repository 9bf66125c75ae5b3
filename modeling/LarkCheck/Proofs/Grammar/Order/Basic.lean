import LarkCheck.Proofs.Grammar.Spans
import LarkCheck.Proofs.Tree.Order

/-!
# Where the statements of a construct stand

The tokens of a text stand one behind the other, and a parser takes them in this order.
So the statements of what it gives stand behind all that was read before it, and in
front of the token that is current when it succeeds. Constructs that are read one after
the other have their statements one behind the other.
-/

namespace LarkCheck

open Token

namespace Parser

variable {α : Type} {s s' s₁ s₂ : State} {lo : Location} {ns ms : List Node}

/-- The tokens from the current one on stand one behind the other, up to the end of the file. -/
structure State.InOrder (s : State) : Prop where
  synced : s.Synced
  pairwise : (s.current :: s.ahead.items.filterMap (·.token)).Pairwise (·.loc < ·.loc)

/-- The counters of a state have nothing to do with its tokens. -/
theorem State.InOrder.of_eq (h : s.InOrder) (hcurrent : s'.current = s.current)
    (hahead : s'.ahead = s.ahead) : s'.InOrder where
  synced := by
    rw [State.Synced, hcurrent, hahead]
    exact h.synced
  pairwise := by
    rw [hcurrent, hahead]
    exact h.pairwise

/-- The statements of the nodes are arranged between the place `lo` and the current token. -/
structure Between (lo : Location) (ns : List Node) (s : State) : Prop where
  inOrder : s.InOrder
  lt_current : lo < s.current.loc
  bounds : ∀ x, .stmt x ∈ ns → lo < x.loc ∧ x.loc < s.current.loc
  arranged : Arranged ns

/-- What was read from `s` to `s'` stands behind all that stands in front of `s`. -/
structure Trails (s : State) (ns : List Node) (s' : State) : Prop where
  inOrder : s'.InOrder
  between : ∀ lo, lo < s.current.loc → Between lo ns s'

theorem Between.of_eq (h : Between lo ns s) (hcurrent : s'.current = s.current)
    (hahead : s'.ahead = s.ahead) : Between lo ns s' where
  inOrder := h.inOrder.of_eq hcurrent hahead
  lt_current := by
    rw [hcurrent]
    exact h.lt_current
  bounds := by
    rw [hcurrent]
    exact h.bounds
  arranged := h.arranged

theorem Between.trails (h : Between s.current.loc ns s') : Trails s ns s' where
  inOrder := h.inOrder
  between _ hlo := {
    inOrder := h.inOrder
    lt_current := Location.lt_trans hlo h.lt_current
    bounds := fun x hx => (h.bounds x hx).imp_left (Location.lt_trans hlo)
    arranged := h.arranged }

theorem Between.inFront (h : Between lo ns s) (h' : Trails s ms s') : InFront ns ms :=
  fun x y hx hy => ((h'.between x.loc (h.bounds x hx).2).bounds y hy).1

theorem Between.append (h : Between lo ns s) (h' : Trails s ms s') :
    Between lo (ns ++ ms) s' := by
  have hlast := h'.between lo h.lt_current
  refine ⟨h'.inOrder, hlast.lt_current, fun x hx => ?_,
    h.arranged.append hlast.arranged (h.inFront h')⟩
  rcases List.mem_append.1 hx with hx | hx
  · obtain ⟨hlo, hcurrent⟩ := h.bounds x hx
    exact ⟨hlo, (h'.between x.loc hcurrent).lt_current⟩
  · exact hlast.bounds x hx

/-- Nothing but tokens was read after the nodes. -/
theorem Between.passed (h : Between lo ns s) (h' : Trails s [] s') : Between lo ns s' := by
  have both := h.append h'
  rwa [List.append_nil] at both

theorem Between.nil (hs : s.InOrder) (hlo : lo < s.current.loc) : Between lo [] s where
  inOrder := hs
  lt_current := hlo
  bounds _ hx := absurd hx List.not_mem_nil
  arranged := .nil

theorem Trails.refl (hs : s.InOrder) : Trails s [] s :=
  ⟨hs, fun _ hlo => .nil hs hlo⟩

theorem Trails.append (h : Trails s ns s₁) (h' : Trails s₁ ms s₂) :
    Trails s (ns ++ ms) s₂ :=
  ⟨h'.inOrder, fun lo hlo => (h.between lo hlo).append h'⟩

theorem Trails.passed (h : Trails s ns s₁) (h' : Trails s₁ [] s₂) : Trails s ns s₂ :=
  ⟨h'.inOrder, fun lo hlo => (h.between lo hlo).passed h'⟩

theorem Between.expr {e : Expr} (h : Between lo ns s) (he : (Node.expr e).ParamsFirst) :
    Between lo (.expr e :: ns) s where
  inOrder := h.inOrder
  lt_current := h.lt_current
  bounds x hx := h.bounds x (by simpa using hx)
  arranged := h.arranged.expr he

/-- A statement stands at its first token, and what it holds behind it. -/
theorem Trails.stmt {x : Stmt} (hx : x.loc = s.current.loc)
    (h : Between s.current.loc ns s') : Trails s (.stmt x :: ns) s' where
  inOrder := h.inOrder
  between lo hlo := by
    have hrest := h.trails.between lo hlo
    refine ⟨h.inOrder, hrest.lt_current, fun y hy => ?_,
      h.arranged.stmt fun y hy => hx ▸ (h.bounds y hy).1⟩
    rcases List.mem_cons.1 hy with hy | hy
    · cases hy
      rw [hx]
      exact ⟨hlo, h.lt_current⟩
    · exact hrest.bounds y hy

/-- A class literal, whose parameters were read before the arguments for its base class. -/
theorem Between.classDef {loc : Location} {name : String} {params : List Param}
    {base : Option Base} {includes : List Name} {sections : List Section}
    (hparams : Between lo (Param.listNodes params) s)
    (hbase : Trails s (Base.optionNodes base) s₁)
    (hsections : Trails s₁ (Section.listNodes sections) s₂) :
    Between lo (Expr.classDef loc name params base includes sections).nodes s₂ := by
  have hhead := hparams.append hbase
  have hall := hhead.append hsections
  refine ⟨hall.inOrder, hall.lt_current, fun x hx => hall.bounds x ?_, ?_⟩
  · simp only [Expr.nodes, List.mem_cons, reduceCtorEq, false_or, List.mem_append] at hx ⊢
    rw [or_assoc]
    exact or_left_comm.1 hx
  · exact .classDef hparams.arranged (hbase.between lo hparams.lt_current).arranged
      (hsections.between lo hhead.lt_current).arranged (hparams.inFront hbase)
      (hhead.inFront hsections)

/-- What the parser gives stands behind the token at which it begins. -/
def Behind (p : Parser α) (nodes : α → List Node) : Prop :=
  ∀ s a s', s.InOrder → p s = .ok a s' → Between s.current.loc (nodes a) s'

/-- What the parser gives stands behind all that stands in front of that token. -/
def Along (p : Parser α) (nodes : α → List Node) : Prop :=
  ∀ s a s', s.InOrder → p s = .ok a s' → Trails s (nodes a) s'

theorem Behind.along {p : Parser α} {nodes : α → List Node} (hp : Behind p nodes) :
    Along p nodes :=
  fun s a s' hs h => (hp s a s' hs h).trails

theorem advance_between {t : Token} (hs : s.InOrder) (hne : s.current.kind ≠ .eof)
    (h : advance s = .ok t s') : t = s.current ∧ Between s.current.loc [] s' := by
  obtain ⟨hsync, hpairwise⟩ := hs
  obtain ⟨ht, hsync', -, r, hitems, htoken, -⟩ := advance_reading hsync hne h
  simp only [hitems, List.filterMap_cons, htoken] at hpairwise
  obtain ⟨hfirst, hrest⟩ := List.pairwise_cons.1 hpairwise
  exact ⟨ht, .nil ⟨hsync', hrest⟩ (hfirst s'.current List.mem_cons_self)⟩

theorem ne_eof_of_isAt {kind : Kind} (hne : kind ≠ .eof) (h : s.isAt kind = true) :
    s.current.kind ≠ .eof := by
  have hk : s.current.kind = kind := by simpa [State.isAt] using h
  rwa [hk]

theorem expect_behind {kind : Kind} (hne : kind ≠ .eof) (code : Diagnostic.Code) :
    Behind (expect kind code) fun _ => [] := by
  intro s t s' hs h
  unfold expect at h
  split at h
  · exact (advance_between hs (ne_eof_of_isAt hne ‹_›) h).2
  · exact absurd h fail_ne_ok

theorem identifier_behind : Behind identifier fun _ => [] := by
  intro s n s' hs h
  unfold identifier at h
  split at h
  · rename_i text hk
    simp only [bind_eq_ok, pure_eq_ok] at h
    obtain ⟨t, s₁, h, rfl, rfl⟩ := h
    exact (advance_between hs (by simp [hk]) h).2
  · exact absurd h fail_ne_ok

theorem after?_along {kind : Kind} {p : Parser α} {nodes : α → List Node} (hne : kind ≠ .eof)
    (hp : Along p nodes) : Along (after? kind p) fun o => o.elim [] nodes := by
  intro s o s' hs h
  unfold after? at h
  split at h
  · simp only [bind_eq_ok, map_eq_ok] at h
    obtain ⟨t, s₁, h₁, a, h₂, rfl⟩ := h
    have r₁ := (advance_between hs (ne_eof_of_isAt hne ‹_›) h₁).2
    exact (r₁.append (hp _ _ _ r₁.inOrder h₂)).trails
  · cases h
    exact .refl hs

/-- The nodes of a list are those of its items, one after the other. -/
structure Lists (nodes : α → List Node) (listNodes : List α → List Node) : Prop where
  nil : listNodes [] = []
  cons : ∀ a as, listNodes (a :: as) = nodes a ++ listNodes as

theorem lists_exprs : Lists Expr.nodes Expr.listNodes :=
  ⟨rfl, fun _ _ => rfl⟩

theorem lists_params : Lists Param.nodes Param.listNodes :=
  ⟨rfl, fun _ _ => rfl⟩

theorem lists_stmts : Lists Stmt.nodes Stmt.listNodes :=
  ⟨rfl, fun _ _ => rfl⟩

theorem lists_sections :
    Lists (fun x : Section => Block.optionNodes x.body) Section.listNodes :=
  ⟨rfl, fun x _ => by cases x; rfl⟩

theorem lists_pairs :
    Lists (fun p : Pair => Expr.optionNodes p.key ++ Expr.optionNodes p.value) Pair.listNodes :=
  ⟨rfl, fun p _ => by cases p; exact (List.append_assoc _ _ _).symm⟩

theorem lists_branches :
    Lists (fun b : Branch => Expr.optionNodes b.test ++ Block.optionNodes b.body)
      Branch.listNodes :=
  ⟨rfl, fun b _ => by cases b; exact (List.append_assoc _ _ _).symm⟩

theorem lists_names : Lists (fun _ : Name => []) fun _ => [] :=
  ⟨rfl, fun _ _ => rfl⟩

section Repetition

variable {item : Parser α} {nodes : α → List Node} {listNodes : List α → List Node}

theorem many_along {more : State → Bool} (hl : Lists nodes listNodes)
    (hitem : ∀ s a s', s.InOrder → more s = true → item s = .ok a s' → Trails s (nodes a) s') :
    Along (many more item) listNodes := by
  intro s as s' hs h
  fun_induction many more item s generalizing as s' with
  | case1 s hm a s₁ ha _ rest s₂ hrest ih =>
    simp only [EStateM.Result.ok.injEq] at h
    obtain ⟨rfl, rfl⟩ := h
    have r := hitem _ _ _ hs hm ha
    rw [hl.cons]
    exact r.append (ih _ _ r.inOrder hrest)
  | case2 => cases h
  | case3 s hm a s₁ ha =>
    simp only [EStateM.Result.ok.injEq] at h
    obtain ⟨rfl, rfl⟩ := h
    rw [hl.cons, hl.nil, List.append_nil]
    exact hitem _ _ _ hs hm ha
  | case4 => cases h
  | case5 s hm =>
    simp only [EStateM.Result.ok.injEq] at h
    obtain ⟨rfl, rfl⟩ := h
    rw [hl.nil]
    exact .refl hs

theorem separated_along (hl : Lists nodes listNodes) (hp : Along item nodes) :
    Along (separated item) listNodes := by
  intro s as s' hs h
  obtain ⟨first, s₁, h₁, h⟩ := bind_eq_ok.1 h
  obtain ⟨rest, s₂, h₂, h⟩ := bind_eq_ok.1 h
  obtain ⟨rfl, rfl⟩ := pure_eq_ok.1 h
  have r₁ := hp _ _ _ hs h₁
  have r₂ := many_along hl (fun s a s' hs hm h => ?_) _ _ _ r₁.inOrder h₂
  · rw [hl.cons]
    exact r₁.append r₂
  · simp only [bind_eq_ok] at h
    obtain ⟨t, s₁, h₁, h₂⟩ := h
    have comma := (advance_between hs (ne_eof_of_isAt (by simp) hm) h₁).2
    exact (comma.append (hp _ _ _ comma.inOrder h₂)).trails

theorem separatedUntil_along (hl : Lists nodes listNodes) (hp : Along item nodes)
    (close : Punctuation) : Along (separatedUntil close item) listNodes := by
  intro s as s' hs h
  unfold separatedUntil at h
  split at h
  · cases h
    rw [hl.nil]
    exact .refl hs
  · exact separated_along hl hp _ _ _ hs h

end Repetition

theorem nested_behind {p : Parser α} {nodes : α → List Node} (hp : Behind p nodes) :
    Behind (nested p) nodes := by
  intro s a s' hs h
  obtain ⟨-, s₁, hrun, rfl⟩ := nested_eq_ok h
  exact (hp s.enter _ _ (hs.of_eq rfl rfl) hrun).of_eq rfl rfl

theorem nested_along {p : Parser α} {nodes : α → List Node} (hp : Along p nodes) :
    Along (nested p) nodes := by
  intro s a s' hs h
  obtain ⟨-, s₁, hrun, rfl⟩ := nested_eq_ok h
  have r := hp s.enter _ _ (hs.of_eq rfl rfl) hrun
  exact ⟨r.inOrder.of_eq rfl rfl, fun lo hlo => (r.between lo hlo).of_eq rfl rfl⟩

theorem chain_behind {p : Parser α} {nodes : α → List Node} (hp : Behind p nodes) :
    Behind (chain p) nodes := by
  intro s a s' hs h
  obtain ⟨s₁, hrun, rfl⟩ := chain_eq_ok h
  have opened : State.InOrder { s with peak := s.level } := hs.of_eq rfl rfl
  exact (hp _ _ _ opened hrun).of_eq rfl rfl

end Parser

end LarkCheck
