import LarkCheck.Proofs.Scope.Nesting

/-!
# Names resolve independently

A name that the unit assigns in its first statement is known everywhere in it. Resolving
then goes as it would without that statement, as far as any other name can tell: the
scopes are the same ones with the same other names in them, and of the diagnostics those
for uses of the name are gone. Below the root the name is declared only where it is a
parameter, since whatever else may bind it finds it known.
-/

namespace LarkCheck

namespace Scope

variable {s s' : Scope} {name : Name} {x y : String}

/-- Kind, place, parent and children of a scope with its names other than `x`, in their order. -/
def without (x : String) (s : Scope) : Kind × Location × Option Nat × List Nat × List Name :=
  (s.kind, s.loc, s.parent, s.children, s.names.filter (·.text ≠ x))

theorem names_eq_of_without (h : s.without x = s'.without x) :
    s.names.filter (·.text ≠ x) = s'.names.filter (·.text ≠ x) :=
  congrArg (fun w => w.2.2.2.2) h

theorem parent_eq_of_without (h : s.without x = s'.without x) : s.parent = s'.parent :=
  congrArg (fun w => w.2.2.1) h

/-- The entry of a name is among those that are left without another one. -/
theorem Indexed.declaration?_eq_filter (h : s.Indexed) (hy : y ≠ x) :
    s.declaration? y = (s.names.filter (·.text ≠ x)).find? (·.text = y) := by
  rw [h.declaration?_eq, List.find?_filter]
  congr 1
  funext n
  by_cases hn : n.text = y
  · simp [hn, hy]
  · simp [hn]

theorem Indexed.declares_eq_isSome (h : s.Indexed) :
    s.declares y = (s.declaration? y).isSome := by
  rw [Bool.eq_iff_iff, h.declares_iff, h.declaration?_eq, List.find?_isSome]
  simp

theorem declares_eq_of_without (h : s.Indexed) (h' : s'.Indexed)
    (heq : s.without x = s'.without x) (hy : y ≠ x) : s.declares y = s'.declares y := by
  rw [h.declares_eq_isSome, h'.declares_eq_isSome, h.declaration?_eq_filter hy,
    h'.declaration?_eq_filter hy, names_eq_of_without heq]

theorem without_declare_self : (s.declare name).without name.text = s.without name.text := by
  unfold declare
  split
  · rfl
  · simp [without]

/-- Two scopes that differ in one name only still do after any declaration in both. -/
theorem without_declare (h : s.Indexed) (h' : s'.Indexed) (heq : s.without x = s'.without x) :
    (s.declare name).without x = (s'.declare name).without x := by
  by_cases hname : name.text = x
  · subst hname
    rw [without_declare_self, without_declare_self, heq]
  · have hdeclares := declares_eq_of_without h h' heq hname
    unfold declare
    rw [hdeclares]
    split
    · exact heq
    · simp only [without, List.filter_append, Prod.mk.injEq] at heq ⊢
      obtain ⟨hkind, hloc, hparent, hchildren, hnames⟩ := heq
      exact ⟨hkind, hloc, hparent, hchildren, by rw [hnames]⟩

theorem without_addChild {id : Nat} (heq : s.without x = s'.without x) :
    (s.addChild id).without x = (s'.addChild id).without x := by
  simp only [without, addChild, Prod.mk.injEq] at heq ⊢
  obtain ⟨hkind, hloc, hparent, hchildren, hnames⟩ := heq
  exact ⟨hkind, hloc, hparent, by rw [hchildren], hnames⟩

end Scope

namespace ScopeTree

variable {t t' : ScopeTree} {loc : Location} {id parent : Nat} {name : Name} {x y : String}

/-- All scopes without the name. -/
def without (x : String) (t : ScopeTree) :
    List (Scope.Kind × Location × Option Nat × List Nat × List Name) :=
  t.scopes.toList.map (Scope.without x)

theorem getElem?_without : (t.without x)[id]? = (t.get? id).map (Scope.without x) := by
  simp [without, get?]

theorem get?_eq_of_without (h : t.without x = t'.without x) (id : Nat) :
    (t.get? id).map (Scope.without x) = (t'.get? id).map (Scope.without x) := by
  rw [← getElem?_without, ← getElem?_without, h]

theorem without_eq (h : ∀ id, (t.get? id).map (Scope.without x) =
    (t'.get? id).map (Scope.without x)) : t.without x = t'.without x := by
  apply List.ext_getElem?
  intro id
  rw [getElem?_without, getElem?_without, h]

theorem size_eq_of_without (h : t.without x = t'.without x) : t.size = t'.size := by
  simpa [without, size] using congrArg List.length h

theorem exists_get?_of_without {s : Scope} (h : t.without x = t'.without x)
    (hs : t.get? id = some s) : ∃ s', t'.get? id = some s' ∧ s'.without x = s.without x := by
  have hview := get?_eq_of_without h id
  rw [hs, Option.map_some] at hview
  exact Option.map_eq_some_iff.1 hview.symm

theorem without_declare_self : (t.declare id name).without name.text = t.without name.text := by
  refine without_eq fun i => ?_
  rw [get?_declare, Option.map_map]
  congr 1
  funext s
  by_cases hid : id = i
  · simp [hid, Scope.without_declare_self]
  · simp [hid]

theorem without_declare (hsound : t.Sound loc) (hsound' : t'.Sound loc)
    (h : t.without x = t'.without x) :
    (t.declare id name).without x = (t'.declare id name).without x := by
  refine without_eq fun i => ?_
  have hview := get?_eq_of_without h i
  rw [get?_declare, get?_declare]
  cases hs : t.get? i with
  | none =>
    rw [hs, Option.map_none, eq_comm, Option.map_eq_none_iff] at hview
    rw [hview]
  | some s =>
    obtain ⟨s', hs', heq⟩ := exists_get?_of_without h hs
    rw [hs']
    simp only [Option.map_some]
    split
    · rw [Scope.without_declare (hsound.indexed i s hs) (hsound'.indexed i s' hs') heq.symm]
    · rw [heq]

theorem without_openIn {kind : Scope.Kind} {loc' : Location} (hparent : parent < t.size)
    (h : t.without x = t'.without x) :
    (t.openIn parent kind loc').without x = (t'.openIn parent kind loc').without x := by
  have hsize := size_eq_of_without h
  refine without_eq fun i => ?_
  rcases Nat.lt_trichotomy i t.size with hi | rfl | hi
  · have hview := get?_eq_of_without h i
    rw [get?_openIn_of_lt hi, get?_openIn_of_lt (hsize ▸ hi)]
    split
    · obtain ⟨s, hs⟩ := lt_size_iff.1 hi
      obtain ⟨s', hs', heq⟩ := exists_get?_of_without h hs
      rw [hs, hs', hsize]
      simp only [Option.map_some]
      rw [Scope.without_addChild heq.symm]
    · exact hview
  · rw [get?_openIn_size hparent, hsize, get?_openIn_size (hsize ▸ hparent)]
  · rw [get?_eq_none.2 (by rw [size_openIn]; omega), get?_eq_none.2 (by rw [size_openIn]; omega)]

/-- Where the scopes differ in one name only, a look-up of any other goes the same way. By induction
on the number of the scope: its parent has a smaller one. -/
theorem lookup_eq_of_without (hsound : t.Sound loc) (hsound' : t'.Sound loc)
    (h : t.without x = t'.without x) (hy : y ≠ x) : t.lookup id y = t'.lookup id y := by
  induction id using Nat.strongRecOn with
  | _ id ih =>
    cases hs : t.get? id with
    | none =>
      have hid := get?_eq_none.1 hs
      rw [lookup_eq_none hid, lookup_eq_none (size_eq_of_without h ▸ hid)]
    | some s =>
      obtain ⟨s', hs', heq⟩ := exists_get?_of_without h hs
      have hdeclares := Scope.declares_eq_of_without (hsound.indexed id s hs)
        (hsound'.indexed id s' hs') heq.symm hy
      rw [lookup_of_get? hs, lookup_of_get? hs', hdeclares, Scope.parent_eq_of_without heq]
      congr 2
      funext p
      split
      · rename_i hp
        exact ih p hp
      · rfl

theorem recorded?_eq_of_without (hsound : t.Sound loc) (hsound' : t'.Sound loc)
    (h : t.without x = t'.without x) (hy : y ≠ x) : t.recorded? id y = t'.recorded? id y := by
  cases hs : t.get? id with
  | none =>
    have hid := get?_eq_none.1 hs
    rw [recorded?, hs, recorded?, get?_eq_none.2 (size_eq_of_without h ▸ hid)]
  | some s =>
    obtain ⟨s', hs', heq⟩ := exists_get?_of_without h hs
    rw [recorded?_eq hs, recorded?_eq hs', (hsound.indexed id s hs).declaration?_eq_filter hy,
      (hsound'.indexed id s' hs').declaration?_eq_filter hy, Scope.names_eq_of_without heq]

/-- What the root declares is found from everywhere. By induction on the number of the scope. -/
theorem Sound.isSome_lookup_of_root (h : t.Sound loc) (hroot : (t.recorded? root x).isSome = true)
    (hid : id < t.size) : (t.lookup id x).isSome = true := by
  induction id using Nat.strongRecOn with
  | _ id ih =>
    obtain ⟨s, hs⟩ := lt_size_iff.1 hid
    rw [lookup_of_get? hs]
    split
    · rfl
    · rename_i hnot
      by_cases heq : id = root
      · subst heq
        rw [recorded?_eq hs, ← (h.indexed root s hs).declares_eq_isSome] at hroot
        exact absurd hroot hnot
      · obtain ⟨p, hlt, hp⟩ := h.parent_lt id hid heq
        rw [parent?_eq hs] at hp
        rw [hp, Option.bind_some, if_pos hlt]
        exact ih p hlt (Nat.lt_trans hlt hid)

end ScopeTree

/-- Whether the diagnostic says that a use of `x` is undeclared. -/
def Diagnostic.isUseOf (x : String) (d : Diagnostic) : Bool :=
  d = ⟨.undeclaredIdentifier, .error, d.loc, ["`" ++ x ++ "` is not declared in this scope"]⟩

theorem isUseOf_undeclared {name : Name} {x : String} :
    (undeclared name).isUseOf x = true ↔ name.text = x := by
  have hnotes : "`" ++ name.text ++ "` is not declared in this scope" =
      "`" ++ x ++ "` is not declared in this scope" ↔ name.text = x := by
    rw [String.append_left_inj, String.append_right_inj]
  simp [Diagnostic.isUseOf, undeclared, Diagnostic.of, Diagnostic.Code.severity, hnotes]

namespace Resolver

variable {r r' : Resolver} {loc : Location} {x : String}

/-- The second resolver stands where the first one does, in scopes that differ in `x` only, and `x`
is known to it from the root. -/
structure Apart (loc : Location) (x : String) (r r' : Resolver) : Prop where
  standing : r.Standing loc
  standing' : r'.Standing loc
  current_eq : r'.current = r.current
  without_eq : r'.tree.without x = r.tree.without x
  recorded : (r'.tree.recorded? ScopeTree.root x).isSome = true
  news_eq : r'.news = r.news.filter fun d => ¬ d.isUseOf x

theorem Apart.knows_self (h : Apart loc x r r') : r'.knows x = true :=
  h.standing'.sound.isSome_lookup_of_root h.recorded h.standing'.current_lt

theorem Apart.knows_eq {y : String} (h : Apart loc x r r') (hy : y ≠ x) :
    r'.knows y = r.knows y := by
  rw [knows, knows, h.current_eq,
    ScopeTree.lookup_eq_of_without h.standing'.sound h.standing.sound h.without_eq hy]

/-- What is recorded stays recorded. -/
theorem Apart.recorded_visit (h : Apart loc x r r') (v : Visit) :
    ((r'.visit v).tree.recorded? ScopeTree.root x).isSome = true := by
  rw [h.standing'.recorded?_visit, Option.or_of_isSome h.recorded]
  exact h.recorded

/-- The resolvers stay apart in the name only, whatever they visit. -/
theorem Apart.visit (h : Apart loc x r r') (v : Visit) :
    Apart loc x (r.visit v) (r'.visit v) := by
  have standing := h.standing.visit v
  have standing' := h.standing'.visit v
  have recorded := h.recorded_visit v
  suffices hrest : (r'.visit v).current = (r.visit v).current ∧
      (r'.visit v).tree.without x = (r.visit v).tree.without x ∧
      (r'.visit v).news = (r.visit v).news.filter fun d => ¬ d.isUseOf x from
    ⟨standing, standing', hrest.1, hrest.2.1, recorded, hrest.2.2⟩
  cases v with
  | use name =>
    by_cases hname : name.text = x
    · subst hname
      have hnews :
          r'.news = (r.news ++ [undeclared name]).filter fun d => ¬ d.isUseOf name.text := by
        rw [List.filter_append, ← h.news_eq]
        simp [isUseOf_undeclared.2 rfl]
      simp only [Resolver.visit, h.knows_self, if_true]
      split
      · exact ⟨h.current_eq, h.without_eq, h.news_eq⟩
      · exact ⟨h.current_eq, h.without_eq, hnews⟩
    · have hkept : (undeclared name).isUseOf x = false := by
        rw [← Bool.not_eq_true, isUseOf_undeclared]
        exact hname
      simp only [Resolver.visit, h.knows_eq hname]
      split
      · exact ⟨h.current_eq, h.without_eq, h.news_eq⟩
      · exact ⟨h.current_eq, h.without_eq, by simp [h.news_eq, hkept]⟩
  | bind name =>
    by_cases hname : name.text = x
    · subst hname
      simp only [Resolver.visit, h.knows_self, if_true]
      split
      · exact ⟨h.current_eq, h.without_eq, h.news_eq⟩
      · exact ⟨h.current_eq, h.without_eq.trans ScopeTree.without_declare_self.symm, h.news_eq⟩
    · simp only [Resolver.visit, h.knows_eq hname]
      split
      · exact ⟨h.current_eq, h.without_eq, h.news_eq⟩
      · refine ⟨h.current_eq, ?_, h.news_eq⟩
        simp only [Resolver.declare, h.current_eq]
        exact ScopeTree.without_declare h.standing'.sound h.standing.sound h.without_eq
  | param name =>
    refine ⟨h.current_eq, ?_, h.news_eq⟩
    simp only [Resolver.visit, Resolver.declare, h.current_eq]
    exact ScopeTree.without_declare h.standing'.sound h.standing.sound h.without_eq
  | enter kind loc' =>
    refine ⟨ScopeTree.size_eq_of_without h.without_eq, ?_, h.news_eq⟩
    simp only [Resolver.visit, h.current_eq]
    exact ScopeTree.without_openIn (h.current_eq ▸ h.standing'.current_lt) h.without_eq
  | leave =>
    refine ⟨?_, h.without_eq, h.news_eq⟩
    obtain ⟨s, hs⟩ := ScopeTree.lt_size_iff.1 h.standing.current_lt
    obtain ⟨s', hs', heq⟩ := ScopeTree.exists_get?_of_without h.without_eq.symm hs
    simp [Resolver.visit, h.current_eq, hs, hs', Scope.parent_eq_of_without heq]
  | stmt | missing => exact ⟨h.current_eq, h.without_eq, h.news_eq⟩

theorem Apart.foldl_visit (h : Apart loc x r r') (vs : List Visit) :
    Apart loc x (vs.foldl Resolver.visit r) (vs.foldl Resolver.visit r') := by
  induction vs generalizing r r' with
  | nil => exact h
  | cons v vs ih => exact ih (h.visit v)

/-- A name that is bound before anything else is known at the root from then on. -/
theorem apart_start (loc : Location) (name : Name) :
    Apart loc name.text (start loc) ((start loc).visit (.bind name)) := by
  have hunknown : (start loc).knows name.text = false := by
    rw [← Bool.not_eq_true, (follows_start loc).knows_iff]
    rintro ⟨b, hb, -⟩
    cases hb
  have hvisit : (start loc).visit (.bind name) = (start loc).declare name := by
    simp [Resolver.visit, hunknown]
  have hrecorded : (((start loc).declare name).tree.recorded? ScopeTree.root name.text) =
      some name := by
    rw [Resolver.declare,
      (standing_start loc).sound.recorded?_declare (standing_start loc).current_lt,
      start, ScopeTree.recorded?_ofUnit]
    simp
  refine ⟨standing_start loc, (standing_start loc).visit _, ?_, ?_, ?_, ?_⟩
  · rw [hvisit]
    rfl
  · rw [hvisit]
    exact ScopeTree.without_declare_self
  · rw [hvisit, hrecorded]
    rfl
  · rw [hvisit]
    rfl

/-- What a visit declares as a parameter, and in which scope. -/
def parameter? (r : Resolver) : Visit → Option (Nat × Name)
  | .param name => some (r.current, name)
  | .use _ | .bind _ | .enter _ _ | .leave | .stmt _ | .missing _ => none

/-- All parameters on the way along the visits. -/
def parameters (r : Resolver) : List Visit → List (Nat × Name)
  | [] => []
  | v :: vs => (r.parameter? v).toList ++ (r.visit v).parameters vs

theorem parameters_append (r : Resolver) (vs ws : List Visit) :
    r.parameters (vs ++ ws) = r.parameters vs ++ (vs.foldl visit r).parameters ws := by
  induction vs generalizing r with
  | nil => rfl
  | cons v vs ih =>
    rw [List.cons_append, parameters, parameters, ih, List.foldl_cons, List.append_assoc]

/-- Of a name that is known from the root, nothing but parameters is declared. -/
theorem Apart.find?_history (h : Apart loc x r r') (vs : List Visit) {p : Nat × Name → Bool}
    (hp : ∀ d, p d = true → d.2.text = x) :
    (r'.history vs).find? p = (r'.parameters vs).find? p := by
  induction vs generalizing r r' with
  | nil => rfl
  | cons v vs ih =>
    rw [history, parameters, List.find?_append, List.find?_append, ih (h.visit v)]
    congr 1
    cases v with
    | bind name =>
      simp only [declared, parameter?]
      split
      · rfl
      · rename_i hunknown
        have hother : p (r'.current, name) = false := by
          rw [← Bool.not_eq_true]
          intro hname
          rw [← hp _ hname] at h
          exact hunknown h.knows_self
        simp [hother]
    | use | param | enter | leave | stmt | missing => rfl

end Resolver

namespace Mention

mutual

/-- The parameters in a mention with the numbers of their scopes, which are numbered from `next` on
inside of the scope `around`. -/
def parameters (around next : Nat) : Mention → List (Nat × Name)
  | .use _ | .bind _ => []
  | .param name => [(around, name)]
  | .scope _ _ ms => listParameters next (next + 1) ms

def listParameters (around next : Nat) : List Mention → List (Nat × Name)
  | [] => []
  | m :: ms =>
    m.parameters around next ++
      listParameters around (next + (m.headings around next).length) ms

end

end Mention

namespace Resolver

mutual

/-- By recursion on the mention, as its headings are. -/
theorem parameters_mention (m : Mention) (r : Resolver) :
    r.parameters m.visits = m.parameters r.current r.tree.size := by
  cases m with
  | use | bind | param => rfl
  | scope kind loc ms =>
    have hinside : (r.visit (.enter kind loc)).current < (r.visit (.enter kind loc)).tree.size := by
      simp [visit]
    have h := parameters_mentions ms hinside
    have hsize : (r.visit (.enter kind loc)).tree.size = r.tree.size + 1 := ScopeTree.size_openIn
    rw [hsize] at h
    rw [Mention.visits, parameters, parameters_append, h]
    simp [parameters, parameter?, Mention.parameters, visit]

theorem parameters_mentions (ms : List Mention) {r : Resolver} (hlt : r.current < r.tree.size) :
    r.parameters (Mention.listVisits ms) =
      Mention.listParameters r.current r.tree.size ms := by
  cases ms with
  | nil => rfl
  | cons m ms =>
    obtain ⟨tops, hopens⟩ := opens_mention m hlt
    have hms := parameters_mentions ms (hopens.current_lt hlt)
    rw [hopens.current_eq, hopens.size_eq] at hms
    rw [Mention.listVisits, parameters_append, parameters_mention m r, hms,
      Mention.listParameters]

end

theorem parameters_filter_ofNames (vs : List Visit) (r : Resolver) :
    r.parameters (vs.filter Visit.ofNames) = r.parameters vs := by
  induction vs generalizing r with
  | nil => rfl
  | cons v vs ih =>
    cases v with
    | stmt | missing => exact ih r
    | use | bind | param | enter | leave =>
      rw [List.filter_cons_of_pos rfl, parameters, parameters, ih]

end Resolver

/-- The parameters in a unit, each with the number of its scope. -/
def Block.parameters (unit : Block) : List (Nat × Name) :=
  Mention.listParameters ScopeTree.root 1 unit.mentions

theorem Block.parameters_eq {r : Resolver} (unit : Block) (hcurrent : r.current = ScopeTree.root)
    (hsize : r.tree.size = 1) : r.parameters unit.visits = unit.parameters := by
  have hlt : r.current < r.tree.size := by
    rw [hcurrent, hsize]
    exact Nat.zero_lt_one
  rw [← Resolver.parameters_filter_ofNames, Block.tells unit, Resolver.parameters_mentions _ hlt,
    hcurrent, hsize, Block.parameters]

/-- The statement `x = nil`, its parts at any places. -/
def Stmt.nilTo (name : Name) (loc assignLoc nilLoc : Location) : Stmt :=
  .expr loc (some (.assign assignLoc (some (.ident name.loc name.text)) (some (.nil nilLoc))))

/-- The unit with one more statement in front. -/
def Block.withFirst (stmt : Stmt) (unit : Block) : Block :=
  ⟨unit.loc, stmt :: unit.stmts⟩

theorem Resolver.run_withFirst_nilTo (r : Resolver) (unit : Block) (name : Name)
    (loc assignLoc nilLoc : Location) :
    r.run (unit.withFirst (.nilTo name loc assignLoc nilLoc)) =
      unit.visits.foldl visit (r.visit (.bind name)) := by
  obtain ⟨unitLoc, stmts⟩ := unit
  rfl

/-- With `x = nil` in front, a unit is resolved as without it, apart from `x`. The diagnostics are
the same ones in the same order, less those for uses of `x`. The scopes are the same ones, each with
the same other names and entries. And a scope below the root declares `x` if and only if it has a
parameter of that name, of which the first one is the entry. -/
theorem resolve_withFirst_nilTo (log : Log) (unit : Block) (name : Name)
    (loc assignLoc nilLoc : Location) :
    let unit' := unit.withFirst (.nilTo name loc assignLoc nilLoc)
    let r := (Resolver.start unit.loc).run unit
    let r' := (Resolver.start unit'.loc).run unit'
    (unit.resolve log).2.entries = log.entries ++ r.news ∧
    (unit'.resolve log).2.entries =
      log.entries ++ r.news.filter (fun d => ¬ d.isUseOf name.text) ∧
    (unit.resolve log).2.unit = log.unit ∧ (unit'.resolve log).2.unit = log.unit ∧
    r'.tree.without name.text = r.tree.without name.text ∧
    (∀ id y, y ≠ name.text → r'.tree.recorded? id y = r.tree.recorded? id y) ∧
    ∀ id, id ≠ ScopeTree.root → r'.tree.recorded? id name.text =
      (unit.parameters.find? fun d => d.1 = id ∧ d.2.text = name.text).map (·.2) := by
  intro unit' r r'
  have hfirst := Resolver.apart_start unit.loc name
  have hrun :
      r' = unit.visits.foldl Resolver.visit ((Resolver.start unit.loc).visit (.bind name)) :=
    Resolver.run_withFirst_nilTo _ unit name loc assignLoc nilLoc
  have h : Resolver.Apart unit.loc name.text r r' := hrun ▸ hfirst.foldl_visit unit.visits
  refine ⟨rfl, ?_, rfl, rfl, h.without_eq, fun id y hy => ?_, fun id hid => ?_⟩
  · rw [← h.news_eq]
    rfl
  · exact ScopeTree.recorded?_eq_of_without h.standing'.sound h.standing.sound h.without_eq hy
  · have hsize : ((Resolver.start unit.loc).visit (.bind name)).tree.size = 1 :=
      ScopeTree.size_eq_of_without hfirst.without_eq
    have hempty : ((Resolver.start unit.loc).visit (.bind name)).tree.recorded? id name.text =
        none := by
      rw [ScopeTree.recorded?, ScopeTree.get?_eq_none.2 (hsize ▸ Nat.one_le_iff_ne_zero.2 hid),
        Option.bind_none]
    rw [hrun, hfirst.standing'.recorded?_foldl_visit, hempty, Option.none_or,
      hfirst.find?_history unit.visits (by simp), unit.parameters_eq hfirst.current_eq hsize]

end LarkCheck
