import LarkCheck.Proofs.Scope.Arena
import LarkCheck.Proofs.Scope.Literals
import LarkCheck.Proofs.Scope.Undeclared

/-!
# The scopes are those of the tree

Resolving opens one scope for every routine, every class and every package, in the
scope of the innermost of them around it, and numbers the scopes as a walk from the
root meets them. On the way through the mentions of a scope, what was opened in it is
walked through from the children that it got.
-/

namespace LarkCheck

namespace ScopeTree

variable {t t' : ScopeTree} {id parent : Nat} {kind : Scope.Kind} {loc : Location} {name : Name}

def outline (t : ScopeTree) : List Heading :=
  t.scopes.toList.map fun s => (s.kind, s.loc, s.parent)

@[simp] theorem length_outline : t.outline.length = t.size := by
  simp [outline, size]

theorem getElem?_outline :
    t.outline[id]? = (t.get? id).map fun s => (s.kind, s.loc, s.parent) := by
  simp [outline, get?]

@[simp] theorem outline_declare : (t.declare id name).outline = t.outline := by
  apply List.ext_getElem?
  intro i
  rw [getElem?_outline, get?_declare, getElem?_outline, Option.map_map]
  congr 1
  funext s
  by_cases h : id = i <;> simp [h]

theorem outline_openIn (h : parent < t.size) :
    (t.openIn parent kind loc).outline = t.outline ++ [(kind, loc, some parent)] := by
  apply List.ext_getElem?
  intro i
  rw [getElem?_outline]
  rcases Nat.lt_trichotomy i t.size with hi | rfl | hi
  · rw [get?_openIn_of_lt hi, List.getElem?_append_left (by rwa [length_outline]),
      getElem?_outline]
    split
    · rw [Option.map_map]
      rfl
    · rfl
  · rw [get?_openIn_size h, List.getElem?_append_right (Nat.le_of_eq length_outline)]
    simp [Scope.opened]
  · rw [get?_eq_none.2 (by rw [size_openIn]; omega), List.getElem?_eq_none (by simp; omega)]
    rfl

def children (t : ScopeTree) (id : Nat) : List Nat :=
  ((t.get? id).map (·.children)).getD []

/-- A walk that still has some scopes to go to: from each it goes on to the children first. -/
inductive Walk (t : ScopeTree) : List Nat → List Nat → Prop
  | done : Walk t [] []
  | step {id : Nat} {s : Scope} {todo met : List Nat} : t.get? id = some s →
    Walk t (s.children ++ todo) met → Walk t (id :: todo) (id :: met)

variable {todo todo' met met' : List Nat}

theorem Walk.append (h : t.Walk todo met) (h' : t.Walk todo' met') :
    t.Walk (todo ++ todo') (met ++ met') := by
  induction h with
  | done => exact h'
  | step hs _ ih =>
    rw [List.append_assoc] at ih
    exact .step hs ih

/-- A walk looks at the children of the scopes that it meets. -/
theorem Walk.congr (h : t.Walk todo met) (hmet : ∀ id ∈ met, t'.get? id = t.get? id) :
    t'.Walk todo met := by
  induction h with
  | done => exact .done
  | @step id s todo met hs _ ih =>
    refine .step ?_ (ih fun i hi => hmet i (.tail _ hi))
    rw [hmet id (.head _), hs]

end ScopeTree

namespace Resolver

variable {r r₁ r₂ : Resolver} {headings headings' : List Heading} {tops tops' : List Nat}

/-- From `r` to `r'` scopes with these headings were opened, and the current scope got some of them
as children, from which a walk meets all of them in their order. -/
structure Opens (r r' : Resolver) (headings : List Heading) (tops : List Nat) : Prop
    extends Frame r r' where
  outline_eq : r'.tree.outline = r.tree.outline ++ headings
  children_eq : r'.tree.children r.current = r.tree.children r.current ++ tops
  walk : r'.tree.Walk tops (List.range' r.tree.size headings.length)

theorem Opens.size_eq (h : Opens r r₁ headings tops) :
    r₁.tree.size = r.tree.size + headings.length := by
  rw [← ScopeTree.length_outline, h.outline_eq, List.length_append, ScopeTree.length_outline]

theorem Opens.refl (r : Resolver) : Opens r r [] [] where
  toFrame := .refl r
  outline_eq := (List.append_nil _).symm
  children_eq := (List.append_nil _).symm
  walk := .done

/-- Those opened first do not change any more. -/
theorem Opens.trans (hlt : r.current < r.tree.size) (h : Opens r r₁ headings tops)
    (h' : Opens r₁ r₂ headings' tops') : Opens r r₂ (headings ++ headings') (tops ++ tops') where
  toFrame := h.toFrame.trans h'.toFrame
  outline_eq := by rw [h'.outline_eq, h.outline_eq, List.append_assoc]
  children_eq := by
    have hchildren := h'.children_eq
    rw [h.current_eq] at hchildren
    rw [hchildren, h.children_eq, List.append_assoc]
  walk := by
    have hfirst : r₂.tree.Walk tops (List.range' r.tree.size headings.length) := by
      refine h.walk.congr fun id hid => h'.get?_eq id ?_ ?_
      · rw [h.size_eq]
        exact (List.mem_range'_1.1 hid).2
      · have hle := (List.mem_range'_1.1 hid).1
        rw [h.current_eq]
        omega
    have hboth := hfirst.append h'.walk
    rwa [h.size_eq, List.range'_append_1, ← List.length_append] at hboth

theorem Opens.declare (name : Name) (hlt : r.current < r.tree.size) :
    Opens r (r.declare name) [] [] where
  toFrame := .declare name hlt
  outline_eq := by simp [Resolver.declare]
  children_eq := by
    obtain ⟨s, hs⟩ := ScopeTree.lt_size_iff.1 hlt
    simp [Resolver.declare, ScopeTree.children, ScopeTree.get?_declare_self hs, hs]
  walk := .done

/-- A scope with what was opened in it. -/
theorem Opens.scope {kind : Scope.Kind} {loc : Location} (hlt : r.current < r.tree.size)
    (h : Opens (r.visit (.enter kind loc)) r₁ headings tops) :
    Opens r (r₁.visit .leave) ((kind, loc, some r.current) :: headings) [r.tree.size] where
  toFrame := h.toFrame.leave hlt
  outline_eq := by
    have houtline := h.outline_eq
    simp only [visit, ScopeTree.outline_openIn hlt, List.append_assoc] at houtline
    exact houtline
  children_eq := by
    have hget := h.toFrame.get?_inside hlt
    obtain ⟨s, hs⟩ := ScopeTree.lt_size_iff.1 hlt
    rw [ScopeTree.get?_openIn_of_lt hlt, if_pos rfl, hs] at hget
    change r₁.tree.children r.current = _
    simp [ScopeTree.children, hget, hs, Scope.addChild]
  walk := by
    have hsize : (r.visit (.enter kind loc)).tree.size = r.tree.size + 1 := ScopeTree.size_openIn
    have hchildren : r₁.tree.children r.tree.size = tops := by
      have hinside := h.children_eq
      simpa [visit, ScopeTree.children, ScopeTree.get?_openIn_size hlt, Scope.opened] using hinside
    have hin : r.tree.size < r₁.tree.size := by
      have hle := h.size_le
      omega
    obtain ⟨s, hs⟩ := ScopeTree.lt_size_iff.1 hin
    have htops : s.children = tops := by simpa [ScopeTree.children, hs] using hchildren
    have hwalk := h.walk
    rw [hsize] at hwalk
    rw [List.length_cons, List.range'_succ]
    refine .step hs ?_
    rwa [List.append_nil, htops]

mutual

/-- By recursion on the mention, as the headings are. -/
theorem opens_mention (m : Mention) {r : Resolver} (hlt : r.current < r.tree.size) :
    ∃ tops, Opens r (m.visits.foldl visit r) (m.headings r.current r.tree.size) tops := by
  cases m with
  | use name =>
    refine ⟨[], ?_⟩
    simp only [Mention.visits, List.foldl_cons, List.foldl_nil, visit]
    split
    · exact .refl r
    · exact ⟨⟨rfl, Nat.le_refl _, fun _ _ _ => rfl, rfl⟩, (List.append_nil _).symm,
        (List.append_nil _).symm, .done⟩
  | bind name =>
    refine ⟨[], ?_⟩
    simp only [Mention.visits, List.foldl_cons, List.foldl_nil, visit]
    split
    · exact .refl r
    · exact .declare name hlt
  | param name => exact ⟨[], .declare name hlt⟩
  | scope kind loc ms =>
    have hinside : (r.visit (.enter kind loc)).current < (r.visit (.enter kind loc)).tree.size := by
      simp [visit]
    obtain ⟨tops, h⟩ := opens_mentions ms hinside
    have hscope := h.scope hlt
    refine ⟨[r.tree.size], ?_⟩
    simpa [Mention.visits, Mention.headings, visit] using hscope

theorem opens_mentions (ms : List Mention) {r : Resolver} (hlt : r.current < r.tree.size) :
    ∃ tops, Opens r ((Mention.listVisits ms).foldl visit r)
      (Mention.listHeadings r.current r.tree.size ms) tops := by
  cases ms with
  | nil => exact ⟨[], .refl r⟩
  | cons m ms =>
    obtain ⟨tops, h⟩ := opens_mention m hlt
    have hlt' : (m.visits.foldl visit r).current < (m.visits.foldl visit r).tree.size := by
      rw [h.current_eq]
      exact Nat.lt_of_lt_of_le hlt h.size_le
    obtain ⟨tops', h'⟩ := opens_mentions ms hlt'
    rw [h.current_eq, h.size_eq] at h'
    rw [Mention.listVisits, List.foldl_append, Mention.listHeadings]
    exact ⟨tops ++ tops', h.trans hlt h'⟩

end

/-- A walk from the root meets everything that was opened since the start. -/
theorem Opens.walk_root {loc : Location} (h : Opens (start loc) r headings tops) :
    r.tree.Walk [ScopeTree.root] (List.range r.tree.size) := by
  have hsize : r.tree.size = headings.length + 1 := by
    rw [h.size_eq, Nat.add_comm]
    rfl
  have hchildren : r.tree.children ScopeTree.root = tops := h.children_eq
  have hin : ScopeTree.root < r.tree.size := hsize ▸ Nat.succ_pos _
  obtain ⟨s, hs⟩ := ScopeTree.lt_size_iff.1 hin
  have htops : s.children = tops := by simpa [ScopeTree.children, hs] using hchildren
  have hwalk : r.tree.Walk tops (List.range' 1 headings.length) := h.walk
  rw [hsize, List.range_eq_range', List.range'_succ]
  refine .step hs ?_
  rwa [List.append_nil, htops]

/-- Several units are visited like one that mentions what they mention. -/
theorem foldl_run (units : List Block) (r : Resolver) :
    units.foldl run r = (Mention.listVisits (units.flatMap Block.mentions)).foldl visit r := by
  induction units generalizing r with
  | nil => rfl
  | cons unit units ih =>
    rw [List.foldl_cons, ih, List.flatMap_cons, Mention.listVisits_append, List.foldl_append, run,
      ← Block.tells unit, foldl_filter_ofNames]

end Resolver

/-- Whatever units a resolver has visited one after the other, it is back in the root of a sound
tree, whose scopes a walk meets in the order of their numbers. Apart from that of the root, they are
the scopes of the literals in the units, each in that of the innermost literal around it. The entry
of a name in a scope is the only one that is listed and its first declaration there. A look-up goes
outward from parent to parent and finds the nearest scope that declares the name. -/
theorem scopes_of_units (loc : Location) (units : List Block) :
    let r := units.foldl Resolver.run (.start loc)
    r.current = ScopeTree.root ∧ r.tree.Sound loc ∧
    r.tree.Walk [ScopeTree.root] (List.range r.tree.size) ∧
    r.tree.outline = (.unit, loc, none) ::
      Mention.listHeadings ScopeTree.root 1 (units.flatMap Block.mentions) ∧
    (r.tree.outline.tail.map fun h => (h.1, h.2.1)).Perm
      ((units.flatMap Block.nodes).filterMap Node.literal?) ∧
    (∀ id s, r.tree.get? id = some s → (s.names.map (·.text)).Nodup ∧
      (∀ x n, s.declaration? x = some n ↔ n ∈ s.names ∧ n.text = x) ∧
      ∀ x, s.declaration? x =
        (((Resolver.start loc).history (units.flatMap Block.visits)).find?
          fun d => d.1 = id ∧ d.2.text = x).map (·.2)) ∧
    (∀ id < r.tree.size, ∃ ids, r.tree.Around id ids ∧
      ∀ x, r.tree.lookup id x = ids.find? (r.tree.declaresAt x)) ∧
    ∀ id, r.tree.size ≤ id → ∀ x, r.tree.lookup id x = none := by
  intro r
  have hvisits : r = (units.flatMap Block.visits).foldl Resolver.visit (.start loc) := by
    rw [List.foldl_flatMap]
    rfl
  have hstanding : r.Standing loc :=
    hvisits ▸ (Resolver.standing_start loc).foldl_visit (units.flatMap Block.visits)
  obtain ⟨tops, h⟩ := Resolver.opens_mentions (units.flatMap Block.mentions)
    (Resolver.standing_start loc).current_lt
  rw [← Resolver.foldl_run] at h
  have houtline : r.tree.outline = (.unit, loc, none) ::
      Mention.listHeadings ScopeTree.root 1 (units.flatMap Block.mentions) := h.outline_eq
  refine ⟨h.current_eq, hstanding.sound, ?_, houtline, ?_, ?_, ?_, ?_⟩
  · exact h.walk_root
  · rw [houtline, List.tail_cons]
    exact Block.holds_units units ScopeTree.root 1
  · intro id s hs
    have hindexed := hstanding.sound.indexed id s hs
    refine ⟨hindexed.nodup, fun x n => hindexed.declaration?_eq_some, fun x => ?_⟩
    have hentry := (Resolver.standing_start loc).recorded?_foldl_visit
      (units.flatMap Block.visits) id x
    rw [← hvisits, ScopeTree.recorded?_eq hs] at hentry
    exact hentry.trans (by rw [Resolver.start, ScopeTree.recorded?_ofUnit, Option.none_or])
  · intro id hid
    obtain ⟨ids, hids⟩ := hstanding.sound.exists_around hid
    exact ⟨ids, hids, fun x => hstanding.sound.lookup_eq_find? hids⟩
  · exact fun id hid x => ScopeTree.lookup_eq_none hid

end LarkCheck
