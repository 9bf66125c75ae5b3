import LarkCheck.Proofs.Scope.Lookup
import LarkCheck.Proofs.Scope.Visits

/-!
# Undeclared uses

The resolver reports exactly the uses that no binding of the name precedes, in their
own scope or in one around it. On its way it keeps one invariant: it knows a name if
and only if an earlier binding of the name is in scope. A run over the mentions of
one scope touches no scope that was open before but this one, so what is known
around it stays known, and what was bound inside of a closed scope is forgotten.
-/

namespace LarkCheck

variable {earlier os ps : List Occurrence} {here : List Nat} {index : Nat} {x : String}

theorem undeclaredAfter_append (earlier os ps : List Occurrence) :
    undeclaredAfter earlier (os ++ ps) =
      undeclaredAfter earlier os ++ undeclaredAfter (earlier ++ os) ps := by
  induction os generalizing earlier with
  | nil => simp [undeclaredAfter]
  | cons o os ih =>
    have step : earlier ++ o :: os = earlier ++ [o] ++ os := by simp
    simp only [List.cons_append, undeclaredAfter, ih, step]
    split <;> rfl

theorem bound_append :
    Bound (earlier ++ os) here x ↔ Bound earlier here x ∨ Bound os here x := by
  simp only [Bound, List.mem_append, or_and_right, exists_or]

theorem bound_binding {name : Name} :
    Bound (earlier ++ [⟨name, .binding, here⟩]) here x ↔ Bound earlier here x ∨ name.text = x := by
  rw [bound_append]
  simp [Bound]

theorem bound_use {name : Name} :
    Bound (earlier ++ [⟨name, .use, here⟩]) here x ↔ Bound earlier here x := by
  rw [bound_append]
  simp [Bound]

/-- No scope is enclosed by one inside of it. -/
theorem not_cons_suffix {i : Nat} : ¬ i :: here <:+ here := fun h => by
  have := h.length_le
  simp only [List.length_cons] at this
  omega

theorem head_eq_of_suffix {i j : Nat} {scope : List Nat} (hi : i :: here <:+ scope)
    (hj : j :: here <:+ scope) : i = j := by
  have h := List.suffix_of_suffix_length_le hi hj (Nat.le_refl _)
  exact (List.cons.inj (h.eq_of_length rfl)).1

mutual

/-- The occurrences in a mention stand in the scope itself or in the one that the mention opens. -/
theorem Mention.scope_of_mem {here : List Nat} {index : Nat} {m : Mention} {o : Occurrence}
    (ho : o ∈ m.occurrences here index) : o.scope = here ∨ index :: here <:+ o.scope := by
  cases m with
  | use | bind | param =>
    simp only [Mention.occurrences, List.mem_singleton] at ho
    exact Or.inl (by rw [ho])
  | scope kind loc ms => exact Or.inr (Mention.scope_of_mem_list ho)

theorem Mention.scope_of_mem_list {here : List Nat} {index : Nat} {ms : List Mention}
    {o : Occurrence} (ho : o ∈ Mention.listOccurrences here index ms) : here <:+ o.scope := by
  cases ms with
  | nil => simp [Mention.listOccurrences] at ho
  | cons m ms =>
    rcases List.mem_append.1 ho with ho | ho
    · rcases Mention.scope_of_mem ho with h | h
      · exact h ▸ List.suffix_refl _
      · exact (List.suffix_cons _ _).trans h
    · exact Mention.scope_of_mem_list ho

end

namespace Resolver

variable {r r₁ r₂ : Resolver}

/-- From `r` to `r'` no scope that was open before has changed but the current one, and this one
has kept its parent. -/
structure Frame (r r' : Resolver) : Prop where
  current_eq : r'.current = r.current
  size_le : r.tree.size ≤ r'.tree.size
  get?_eq : ∀ i < r.tree.size, i ≠ r.current → r'.tree.get? i = r.tree.get? i
  parent_eq : (r'.tree.get? r.current).bind (·.parent) = (r.tree.get? r.current).bind (·.parent)

theorem Frame.refl (r : Resolver) : Frame r r where
  current_eq := rfl
  size_le := Nat.le_refl _
  get?_eq _ _ _ := rfl
  parent_eq := rfl

theorem Frame.trans (h : Frame r r₁) (h' : Frame r₁ r₂) : Frame r r₂ where
  current_eq := h'.current_eq.trans h.current_eq
  size_le := Nat.le_trans h.size_le h'.size_le
  get?_eq i hi hne := by
    rw [h'.get?_eq i (Nat.lt_of_lt_of_le hi h.size_le) (by rwa [h.current_eq]),
      h.get?_eq i hi hne]
  parent_eq := by
    have := h'.parent_eq
    rw [h.current_eq] at this
    exact this.trans h.parent_eq

theorem Frame.current_lt (h : Frame r r₁) (hlt : r.current < r.tree.size) :
    r₁.current < r₁.tree.size := by
  rw [h.current_eq]
  exact Nat.lt_of_lt_of_le hlt h.size_le

theorem Frame.declare (name : Name) (h : r.current < r.tree.size) : Frame r (r.declare name) where
  current_eq := rfl
  size_le := by simp [Resolver.declare]
  get?_eq i hi hne := ScopeTree.get?_declare_of_ne hne
  parent_eq := by
    obtain ⟨s, hs⟩ := ScopeTree.lt_size_iff.1 h
    simp [Resolver.declare, ScopeTree.get?_declare_self hs, hs]

/-- The resolver stands at an index of the scope `here`, behind the earlier occurrences. It knows
the names that are bound by them there, and none of them is in a scope still to be opened. -/
structure Follows (r : Resolver) (earlier : List Occurrence) (here : List Nat) (index : Nat) :
    Prop where
  current_lt : r.current < r.tree.size
  knows_iff : ∀ x, r.knows x = true ↔ Bound earlier here x
  index_lt : ∀ o ∈ earlier, ∀ j, j :: here <:+ o.scope → j < index

/-- From `r` to `r'` the resolver has gone over the occurrences `os`. -/
structure Passes (r r' : Resolver) (earlier os : List Occurrence) (here : List Nat) (index : Nat) :
    Prop extends Frame r r' where
  follows : r'.Follows (earlier ++ os) here index
  news_eq : r'.news = r.news ++ (undeclaredAfter earlier os).map undeclared

theorem Passes.trans {j : Nat} (h : Passes r r₁ earlier os here index)
    (h' : Passes r₁ r₂ (earlier ++ os) ps here j) : Passes r r₂ earlier (os ++ ps) here j where
  toFrame := h.toFrame.trans h'.toFrame
  follows := by
    rw [← List.append_assoc]
    exact h'.follows
  news_eq := by
    rw [h'.news_eq, h.news_eq, undeclaredAfter_append, List.map_append, List.append_assoc]

/-- An occurrence in the scope itself opens no scope. -/
theorem Follows.index_lt_append (h : r.Follows earlier here index)
    (hos : ∀ o ∈ os, o.scope = here ∨ index :: here <:+ o.scope) :
    ∀ o ∈ earlier ++ os, ∀ j, j :: here <:+ o.scope → j < index + 1 := by
  intro o ho j hj
  rcases List.mem_append.1 ho with ho | ho
  · exact Nat.lt_succ_of_lt (h.index_lt o ho j hj)
  · rcases hos o ho with heq | hindex
    · rw [heq] at hj
      exact absurd hj not_cons_suffix
    · rw [head_eq_of_suffix hj hindex]
      exact Nat.lt_succ_self _

/-- A use or a binding at the current scope keeps the invariant if what is known is what is bound
after it. -/
theorem Follows.mention {o : Occurrence} (h : r.Follows earlier here index) (ho : o.scope = here)
    (hlt : r₁.current < r₁.tree.size)
    (hknows : ∀ x, r₁.knows x = true ↔ Bound (earlier ++ [o]) here x) :
    r₁.Follows (earlier ++ [o]) here (index + 1) where
  current_lt := hlt
  knows_iff := hknows
  index_lt := h.index_lt_append fun p hp => by
    rw [List.mem_singleton] at hp
    exact Or.inl (by rw [hp, ho])

theorem passes_use (name : Name) (h : r.Follows earlier here index) :
    Passes r (r.visit (.use name)) earlier [⟨name, .use, here⟩] here (index + 1) := by
  have hiff : ∀ x, r.knows x = true ↔ Bound (earlier ++ [⟨name, .use, here⟩]) here x := fun x => by
    rw [bound_use, h.knows_iff]
  have follows := h.mention rfl h.current_lt hiff
  simp only [visit]
  split
  · rename_i hknown
    have hbound : Bound earlier here name.text := (h.knows_iff _).1 hknown
    exact ⟨.refl r, follows, by simp [undeclaredAfter, hbound]⟩
  · rename_i hunknown
    have hbound : ¬ Bound earlier here name.text := fun hb => hunknown ((h.knows_iff _).2 hb)
    exact ⟨⟨rfl, Nat.le_refl _, fun _ _ _ => rfl, rfl⟩,
      ⟨h.current_lt, hiff, follows.index_lt⟩, by simp [undeclaredAfter, hbound]⟩

theorem passes_declare (name : Name) (h : r.Follows earlier here index) :
    Passes r (r.declare name) earlier [⟨name, .binding, here⟩] here (index + 1) where
  toFrame := .declare name h.current_lt
  follows := by
    refine h.mention rfl (by simpa [Resolver.declare] using h.current_lt) fun x => ?_
    rw [bound_binding, ← h.knows_iff]
    exact ScopeTree.lookup_declare h.current_lt
  news_eq := by simp [undeclaredAfter, Resolver.declare]

/-- A name that is known already is not declared again, and stays known. -/
theorem passes_bind (name : Name) (h : r.Follows earlier here index) :
    Passes r (r.visit (.bind name)) earlier [⟨name, .binding, here⟩] here (index + 1) := by
  simp only [visit]
  split
  · rename_i hknown
    refine ⟨.refl r, h.mention rfl h.current_lt fun x => ?_, by simp [undeclaredAfter]⟩
    rw [bound_binding, h.knows_iff]
    constructor
    · exact Or.inl
    · rintro (hx | rfl)
      · exact hx
      · exact (h.knows_iff name.text).1 hknown
  · exact passes_declare name h

/-- Just inside a scope nothing is bound but what is bound around it. -/
theorem Follows.enter (kind : Scope.Kind) (loc : Location) (h : r.Follows earlier here index) :
    (r.visit (.enter kind loc)).Follows earlier (index :: here) 0 where
  current_lt := by simp [visit]
  knows_iff x := by
    have hlookup : (r.visit (.enter kind loc)).knows x = r.knows x := by
      simp only [visit, knows, ScopeTree.lookup_openIn h.current_lt]
    rw [hlookup, h.knows_iff]
    constructor
    · rintro ⟨b, hb, hrole, hname, hscope⟩
      exact ⟨b, hb, hrole, hname, hscope.trans (List.suffix_cons _ _)⟩
    · rintro ⟨b, hb, hrole, hname, hscope⟩
      rcases List.suffix_cons_iff.1 hscope with heq | hscope
      · exact absurd (h.index_lt b hb index (heq ▸ List.suffix_refl _)) (Nat.lt_irrefl _)
      · exact ⟨b, hb, hrole, hname, hscope⟩
  index_lt o ho j hj :=
    absurd (h.index_lt o ho index ((List.suffix_cons _ _).trans hj)) (Nat.lt_irrefl _)

section Inside

variable {kind : Scope.Kind} {loc : Location}

/-- Inside of a scope those around it are as they were when it was opened. -/
theorem Frame.get?_inside (h : Frame (r.visit (.enter kind loc)) r₁) {i : Nat}
    (hi : i < r.tree.size) : r₁.tree.get? i = (r.tree.openIn r.current kind loc).get? i :=
  h.get?_eq i (by simp [visit]; omega) (Nat.ne_of_lt hi)

theorem Frame.sameBelow_inside (h : Frame (r.visit (.enter kind loc)) r₁) :
    ScopeTree.SameBelow r.tree.size r.tree r₁.tree :=
  ScopeTree.sameBelow_openIn.trans fun i hi => by rw [h.get?_inside hi]

/-- Behind a scope the resolver is back where it was before. -/
theorem Frame.leave (hlt : r.current < r.tree.size)
    (h : Frame (r.visit (.enter kind loc)) r₁) : Frame r (r₁.visit .leave) where
  current_eq := by
    have hcurrent : r₁.current = r.tree.size := h.current_eq
    have hparent := h.parent_eq
    simp only [visit, ScopeTree.get?_openIn_size hlt] at hparent
    simp [visit, hcurrent, hparent, Scope.opened]
  size_le := by
    have hsize : r.tree.size + 1 ≤ r₁.tree.size := by simpa [visit] using h.size_le
    exact Nat.le_of_succ_le hsize
  get?_eq i hi hne := by
    change r₁.tree.get? i = r.tree.get? i
    rw [h.get?_inside hi, ScopeTree.get?_openIn_of_lt hi, if_neg (Ne.symm hne)]
  parent_eq := by
    change (r₁.tree.get? r.current).bind (·.parent) = (r.tree.get? r.current).bind (·.parent)
    rw [h.get?_inside hlt, ScopeTree.get?_openIn_of_lt hlt, if_pos rfl, Option.bind_map]
    rfl

/-- What is bound inside of a scope is not bound around it. -/
theorem passes_scope (h : r.Follows earlier here index)
    (hos : ∀ o ∈ os, index :: here <:+ o.scope) {j : Nat}
    (hinside : Passes (r.visit (.enter kind loc)) r₁ earlier os (index :: here) j) :
    Passes r (r₁.visit .leave) earlier os here (index + 1) := by
  have frame := hinside.toFrame.leave h.current_lt
  have hindex := h.index_lt_append fun o ho => Or.inr (hos o ho)
  refine ⟨frame, ⟨frame.current_lt h.current_lt, fun x => ?_, hindex⟩, hinside.news_eq⟩
  have hlookup : (r₁.visit .leave).knows x = r.knows x := by
    rw [knows, knows, frame.current_eq,
      hinside.toFrame.sameBelow_inside.lookup_eq h.current_lt]
    rfl
  rw [hlookup, h.knows_iff, bound_append]
  constructor
  · exact Or.inl
  · rintro (hb | ⟨b, hb, -, -, hscope⟩)
    · exact hb
    · exact absurd ((hos b hb).trans hscope) not_cons_suffix

end Inside

mutual

/-- By recursion on the mention: its visits take the resolver over its occurrences. -/
theorem passes_mention (m : Mention) {r : Resolver} {earlier : List Occurrence} {here : List Nat}
    {index : Nat} (h : r.Follows earlier here index) :
    Passes r (m.visits.foldl visit r) earlier (m.occurrences here index) here (index + 1) := by
  cases m with
  | use name => exact passes_use name h
  | bind name => exact passes_bind name h
  | param name => exact passes_declare name h
  | scope kind loc ms =>
    have hinside := passes_mentions ms (h.enter kind loc)
    have hos : ∀ o ∈ Mention.listOccurrences (index :: here) 0 ms, index :: here <:+ o.scope :=
      fun o ho => Mention.scope_of_mem_list ho
    simpa [Mention.visits, Mention.occurrences] using passes_scope h hos hinside

theorem passes_mentions (ms : List Mention) {r : Resolver} {earlier : List Occurrence}
    {here : List Nat} {index : Nat} (h : r.Follows earlier here index) :
    Passes r ((Mention.listVisits ms).foldl visit r) earlier
      (Mention.listOccurrences here index ms) here (index + ms.length) := by
  cases ms with
  | nil =>
    refine ⟨.refl r, ?_, (List.append_nil _).symm⟩
    rw [Mention.listOccurrences, List.append_nil]
    exact h
  | cons m ms =>
    have hm := passes_mention m h
    have hms := passes_mentions ms hm.follows
    rw [Mention.listVisits, List.foldl_append, Mention.listOccurrences]
    have hlength : index + (m :: ms).length = index + 1 + ms.length := by
      simp only [List.length_cons]
      omega
    rw [hlength]
    exact hm.trans hms

end

/-- Before any visit nothing is known. -/
theorem follows_start (loc : Location) : (start loc).Follows [] [] 0 where
  current_lt := by simp [start, ScopeTree.ofUnit, ScopeTree.size, ScopeTree.root]
  knows_iff x := by
    have hget : (ScopeTree.ofUnit loc).get? 0 = some (.opened .unit loc none) := rfl
    simp [start, knows, ScopeTree.root, ScopeTree.lookup_of_get? hget, Scope.opened,
      Scope.declares, Bound]
  index_lt _ ho := absurd ho List.not_mem_nil

/-- Visits that have nothing to do with names leave the resolver as it is. -/
theorem foldl_filter_ofNames (vs : List Visit) (r : Resolver) :
    (vs.filter Visit.ofNames).foldl visit r = vs.foldl visit r := by
  induction vs generalizing r with
  | nil => rfl
  | cons v vs ih =>
    cases v with
    | stmt | missing => exact ih r
    | use | bind | param | enter | leave => exact ih _

/-- A run over a unit passes all its occurrences. -/
theorem passes_run (unit : Block) :
    Passes (start unit.loc) ((start unit.loc).run unit) [] unit.occurrences []
      unit.mentions.length := by
  have h := passes_mentions unit.mentions (follows_start unit.loc)
  rw [← Block.tells unit, foldl_filter_ofNames, Nat.zero_add] at h
  exact h

theorem news_run (unit : Block) :
    ((start unit.loc).run unit).news = unit.undeclaredUses.map undeclared :=
  (passes_run unit).news_eq

end Resolver

/-- Resolving a unit reports its undeclared uses and nothing else, each as an error at its own place
and in visiting order, and it gives the scopes if and only if there are none. -/
theorem resolve_undeclaredUses (log : Log) (unit : Block) :
    (unit.resolve log).2.entries = log.entries ++ unit.undeclaredUses.map (fun name =>
        ⟨.undeclaredIdentifier, .error, name.loc,
          ["`" ++ name.text ++ "` is not declared in this scope"]⟩) ∧
      (unit.resolve log).2.unit = log.unit ∧
      ((unit.resolve log).1.isSome = true ↔ unit.undeclaredUses = []) := by
  simp only [Block.resolve, Resolver.passed_run, Resolver.news_run]
  refine ⟨rfl, rfl, ?_⟩
  cases unit.undeclaredUses with
  | nil => simp
  | cons name names => simp

/-- What a routine binds is unknown after it. -/
example :
    undeclaredAfter [] (Mention.listOccurrences [] 0
      [.scope .routine .start [.bind ⟨.start, "x"⟩, .use ⟨.start, "x"⟩],
       .use ⟨⟨2, 0⟩, "x"⟩]) = [⟨⟨2, 0⟩, "x"⟩] := by
  decide

end LarkCheck
