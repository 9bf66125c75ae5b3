import LarkCheck.Proofs.Scope.Lookup
import Mathlib.Data.List.Nodup

/-!
# The scopes hang together

Whatever is visited, the scopes stay a tree: each knows its parent, which was opened
before it, and stands once among the children of its parent and nowhere else. The
names of a scope are different, its index tells the place of each, and the entry of
a name is its first declaration in the scope. So a look-up goes from one scope to the
next around it, ends at the root, and finds the nearest one that declares the name.
-/

namespace LarkCheck

namespace Scope

variable {s : Scope} {name n : Name} {x : String}

@[simp] theorem kind_declare : (s.declare name).kind = s.kind := by
  unfold declare
  split <;> rfl

@[simp] theorem loc_declare : (s.declare name).loc = s.loc := by
  unfold declare
  split <;> rfl

@[simp] theorem children_declare : (s.declare name).children = s.children := by
  unfold declare
  split <;> rfl

/-- No name stands twice among the names, and the index tells the place of each. -/
structure Indexed (s : Scope) : Prop where
  nodup : (s.names.map (·.text)).Nodup
  lookup_eq : ∀ x, s.index.lookup x = s.names.findIdx? (·.text = x)

theorem indexed_opened (kind : Kind) (loc : Location) (parent : Option Nat) :
    (opened kind loc parent).Indexed :=
  ⟨List.nodup_nil, fun _ => rfl⟩

theorem Indexed.declares_iff (h : s.Indexed) : s.declares x = true ↔ ∃ n ∈ s.names, n.text = x := by
  rw [declares, h.lookup_eq, List.findIdx?_isSome, List.any_eq_true]
  simp

theorem Indexed.declaration?_eq (h : s.Indexed) :
    s.declaration? x = s.names.find? (·.text = x) := by
  rw [declaration?, h.lookup_eq, List.find?_eq_bind_findIdx?_getElem?]

/-- The entry of a name is found if and only if it is listed. -/
theorem Indexed.declaration?_eq_some (h : s.Indexed) :
    s.declaration? x = some n ↔ n ∈ s.names ∧ n.text = x := by
  rw [h.declaration?_eq]
  constructor
  · intro hfind
    exact ⟨List.mem_of_find?_eq_some hfind, by simpa using List.find?_some hfind⟩
  · rintro ⟨hmem, rfl⟩
    obtain ⟨m, hfind⟩ : ∃ m, s.names.find? (·.text = n.text) = some m := by
      rw [← Option.isSome_iff_exists, List.find?_isSome]
      exact ⟨n, hmem, by simp⟩
    have htext : m.text = n.text := by simpa using List.find?_some hfind
    rw [hfind, List.inj_on_of_nodup_map h.nodup (List.mem_of_find?_eq_some hfind) hmem htext]

theorem Indexed.declare (h : s.Indexed) (name : Name) : (s.declare name).Indexed := by
  unfold Scope.declare
  split
  · exact h
  · rename_i hnew
    rw [h.declares_iff] at hnew
    have hother : ∀ n ∈ s.names, n.text ≠ name.text := fun n hn heq => hnew ⟨n, hn, heq⟩
    refine ⟨?_, fun x => ?_⟩
    · rw [List.map_append, List.map_singleton, List.nodup_append]
      refine ⟨h.nodup, List.nodup_singleton _, ?_⟩
      intro text htext text' htext' heq
      obtain ⟨n, hn, rfl⟩ := List.mem_map.1 htext
      rw [List.mem_singleton] at htext'
      exact hother n hn (heq.trans htext')
    · rw [List.lookup_cons, List.findIdx?_append, h.lookup_eq]
      by_cases hx : x = name.text
      · subst hx
        have hnone : s.names.findIdx? (·.text = name.text) = none :=
          List.findIdx?_eq_none_iff.2 fun n hn => by simpa using hother n hn
        simp [hnone]
      · simp [beq_false_of_ne hx, Ne.symm hx]

/-- A declaration counts unless there is one before it. -/
theorem Indexed.declaration?_declare (h : s.Indexed) :
    (s.declare name).declaration? x =
      (s.declaration? x).or (if name.text = x then some name else none) := by
  rw [(h.declare name).declaration?_eq, h.declaration?_eq]
  unfold Scope.declare
  split
  · rename_i hold
    obtain ⟨n, hn, htext⟩ := h.declares_iff.1 hold
    split
    · rename_i hx
      have hsome : (s.names.find? (·.text = x)).isSome = true :=
        List.find?_isSome.2 ⟨n, hn, by simp [htext, hx]⟩
      rw [Option.or_of_isSome hsome]
    · rw [Option.or_none]
  · rw [List.find?_append]
    by_cases hx : name.text = x <;> simp [hx]

end Scope

namespace ScopeTree

variable {t : ScopeTree} {s : Scope} {id i parent : Nat} {kind : Scope.Kind} {loc loc' : Location}
  {name : Name} {x : String}

theorem get?_declare :
    (t.declare id name).get? i =
      (t.get? i).map fun s => if id = i then s.declare name else s := by
  by_cases h : id = i
  · subst h
    simp [declare, get?, Array.getElem?_modify]
  · rw [get?_declare_of_ne (Ne.symm h)]
    simp [h]

theorem get?_eq_none : t.get? id = none ↔ t.size ≤ id :=
  Array.getElem?_eq_none_iff

/-- A declaration leaves all of a scope as it is but its names and their index. -/
theorem get?_declare_cases {s' : Scope} (h : (t.declare id name).get? i = some s') :
    ∃ s, t.get? i = some s ∧ s'.children = s.children ∧ (s' = s ∨ s' = s.declare name) := by
  rw [get?_declare] at h
  obtain ⟨s, hs, rfl⟩ := Option.map_eq_some_iff.1 h
  refine ⟨s, hs, ?_⟩
  split
  · exact ⟨Scope.children_declare, .inr rfl⟩
  · exact ⟨rfl, .inl rfl⟩

/-- A scope has got a child, or is as it was, or has just been opened. -/
theorem get?_openIn_cases {s' : Scope} (hparent : parent < t.size)
    (h : (t.openIn parent kind loc).get? i = some s') :
    (∃ s, t.get? i = some s ∧ i = parent ∧ s' = s.addChild t.size) ∨
      (t.get? i = some s' ∧ i ≠ parent) ∨
      (i = t.size ∧ s' = .opened kind loc (some parent)) := by
  have hi : i < t.size + 1 := by
    have hlt := lt_size_iff.2 ⟨s', h⟩
    rwa [size_openIn] at hlt
  rcases Nat.lt_succ_iff_lt_or_eq.1 hi with hi | rfl
  · rw [get?_openIn_of_lt hi] at h
    split at h
    · rename_i heq
      obtain ⟨s, hs, rfl⟩ := Option.map_eq_some_iff.1 h
      exact .inl ⟨s, hs, heq.symm, rfl⟩
    · rename_i hne
      exact .inr (.inl ⟨h, Ne.symm hne⟩)
  · rw [get?_openIn_size hparent] at h
    exact .inr (.inr ⟨rfl, (Option.some.inj h).symm⟩)

def parent? (t : ScopeTree) (id : Nat) : Option Nat :=
  (t.get? id).bind (·.parent)

theorem parent?_eq (h : t.get? id = some s) : t.parent? id = s.parent := by
  rw [parent?, h]
  rfl

@[simp] theorem parent?_declare : (t.declare id name).parent? i = t.parent? i := by
  rw [parent?, get?_declare, parent?, Option.bind_map]
  congr 1
  funext s
  by_cases h : id = i <;> simp [h]

theorem parent?_openIn (h : parent < t.size) :
    (t.openIn parent kind loc).parent? i = if i = t.size then some parent else t.parent? i := by
  rcases Nat.lt_trichotomy i t.size with hi | rfl | hi
  · rw [parent?, get?_openIn_of_lt hi, if_neg (Nat.ne_of_lt hi), parent?]
    split
    · rw [Option.bind_map]
      rfl
    · rfl
  · rw [parent?_eq (get?_openIn_size h), if_pos rfl]
    rfl
  · have hnone : (t.openIn parent kind loc).get? i = none :=
      get?_eq_none.2 (by rw [size_openIn]; omega)
    rw [parent?, hnone, if_neg (Nat.ne_of_gt hi), parent?, get?_eq_none.2 (Nat.le_of_lt hi)]

/-- The first scope is that of the unit and has no parent. Every other scope has been opened after
its parent, and is a child of it, once, and of no other. -/
structure Sound (loc : Location) (t : ScopeTree) : Prop where
  root_eq : ∃ s, t.get? root = some s ∧ s.kind = .unit ∧ s.loc = loc ∧ s.parent = none
  parent_lt : ∀ id < t.size, id ≠ root → ∃ parent < id, t.parent? id = some parent
  mem_children : ∀ id s, t.get? id = some s →
    ∀ child, child ∈ s.children ↔ t.parent? child = some id
  children_nodup : ∀ id s, t.get? id = some s → s.children.Nodup
  indexed : ∀ id s, t.get? id = some s → s.Indexed

theorem sound_ofUnit (loc : Location) : (ofUnit loc).Sound loc := by
  have hget : ∀ id s, (ofUnit loc).get? id = some s →
      id = root ∧ s = .opened .unit loc none := by
    intro id s hs
    have hid : id < 1 := lt_size_iff.2 ⟨s, hs⟩
    obtain rfl : id = root := Nat.lt_one_iff.1 hid
    exact ⟨rfl, (Option.some.inj hs).symm⟩
  refine ⟨⟨_, rfl, rfl, rfl, rfl⟩, ?_, ?_, ?_, ?_⟩
  · intro id hid hroot
    exact absurd (Nat.lt_one_iff.1 hid) hroot
  · intro id s hs child
    obtain ⟨rfl, rfl⟩ := hget id s hs
    constructor
    · intro hmem
      cases hmem
    · intro hparent
      obtain ⟨c, hc, hroot⟩ := Option.bind_eq_some_iff.1 hparent
      obtain ⟨-, rfl⟩ := hget child c hc
      cases hroot
  · intro id s hs
    obtain ⟨-, rfl⟩ := hget id s hs
    exact List.nodup_nil
  · intro id s hs
    obtain ⟨-, rfl⟩ := hget id s hs
    exact Scope.indexed_opened _ _ _

theorem Sound.declare (h : t.Sound loc) (id : Nat) (name : Name) :
    (t.declare id name).Sound loc := by
  refine ⟨?_, ?_, ?_, ?_, ?_⟩
  · obtain ⟨s, hs, hkind, hloc, hparent⟩ := h.root_eq
    rw [get?_declare, hs]
    refine ⟨_, rfl, ?_⟩
    split
    · exact ⟨by simp [hkind], by simp [hloc], by simp [hparent]⟩
    · exact ⟨hkind, hloc, hparent⟩
  · intro i hi hroot
    rw [size_declare] at hi
    rw [parent?_declare]
    exact h.parent_lt i hi hroot
  · intro i s' hs' child
    obtain ⟨s, hs, hchildren, -⟩ := get?_declare_cases hs'
    rw [hchildren, parent?_declare]
    exact h.mem_children i s hs child
  · intro i s' hs'
    obtain ⟨s, hs, hchildren, -⟩ := get?_declare_cases hs'
    rw [hchildren]
    exact h.children_nodup i s hs
  · intro i s' hs'
    obtain ⟨s, hs, -, rfl | rfl⟩ := get?_declare_cases hs'
    · exact h.indexed i s' hs
    · exact (h.indexed i s hs).declare name

/-- Nothing is a child of a scope that is not there. -/
theorem Sound.parent?_lt (h : t.Sound loc) (hparent : t.parent? i = some id) : id < t.size := by
  obtain ⟨s, hs, -⟩ := Option.bind_eq_some_iff.1 hparent
  have hi : i < t.size := lt_size_iff.2 ⟨s, hs⟩
  by_cases hroot : i = root
  · obtain ⟨s, hs, -, -, hnone⟩ := h.root_eq
    rw [hroot, parent?_eq hs, hnone] at hparent
    cases hparent
  · obtain ⟨p, hp, heq⟩ := h.parent_lt i hi hroot
    rw [heq] at hparent
    cases hparent
    omega

theorem Sound.openIn (h : t.Sound loc) (hparent : parent < t.size) (kind : Scope.Kind)
    (loc' : Location) : (t.openIn parent kind loc').Sound loc := by
  have hroot : root < t.size := lt_size_iff.2 (h.root_eq.imp fun _ hs => hs.1)
  have hfresh : t.parent? t.size = none := by
    rw [parent?, get?_eq_none.2 (Nat.le_refl _)]
    rfl
  refine ⟨?_, ?_, ?_, ?_, ?_⟩
  · obtain ⟨s, hs, hkind, hloc, hnone⟩ := h.root_eq
    rw [get?_openIn_of_lt hroot, hs]
    split
    · exact ⟨_, rfl, hkind, hloc, hnone⟩
    · exact ⟨s, rfl, hkind, hloc, hnone⟩
  · intro i hi hne
    rw [size_openIn] at hi
    rw [parent?_openIn hparent]
    split
    · rename_i heq
      exact ⟨parent, heq ▸ hparent, rfl⟩
    · exact h.parent_lt i (by omega) hne
  · intro i s' hs' child
    rw [parent?_openIn hparent]
    rcases get?_openIn_cases hparent hs' with ⟨s, hs, rfl, rfl⟩ | ⟨hs, hne⟩ | ⟨rfl, rfl⟩
    · rw [Scope.addChild, List.mem_append, List.mem_singleton, h.mem_children i s hs]
      by_cases hchild : child = t.size
      · simp [hchild]
      · simp [hchild]
    · rw [h.mem_children i s' hs]
      by_cases hchild : child = t.size
      · simp [hchild, hfresh, Ne.symm hne]
      · simp [hchild]
    · constructor
      · intro hmem
        cases hmem
      · intro hchild
        split at hchild
        · cases hchild
          exact absurd hparent (Nat.lt_irrefl _)
        · exact absurd (h.parent?_lt hchild) (Nat.lt_irrefl _)
  · intro i s' hs'
    rcases get?_openIn_cases hparent hs' with ⟨s, hs, rfl, rfl⟩ | ⟨hs, -⟩ | ⟨rfl, rfl⟩
    · rw [Scope.addChild, List.nodup_append]
      refine ⟨h.children_nodup i s hs, List.nodup_singleton _, ?_⟩
      intro child hchild new hnew heq
      rw [h.mem_children i s hs, heq, List.mem_singleton.1 hnew, hfresh] at hchild
      cases hchild
    · exact h.children_nodup i s' hs
    · exact List.nodup_nil
  · intro i s' hs'
    rcases get?_openIn_cases hparent hs' with ⟨s, hs, -, rfl⟩ | ⟨hs, -⟩ | ⟨-, rfl⟩
    · exact ⟨(h.indexed i s hs).nodup, (h.indexed i s hs).lookup_eq⟩
    · exact h.indexed i s' hs
    · exact Scope.indexed_opened _ _ _

/-- The scopes from one outward, each followed by its parent. -/
inductive Around (t : ScopeTree) : Nat → List Nat → Prop
  | outermost {id : Nat} {s : Scope} : t.get? id = some s → s.parent = none → Around t id [id]
  | inner {id parent : Nat} {s : Scope} {outer : List Nat} : t.get? id = some s →
    s.parent = some parent → Around t parent outer → Around t id (id :: outer)

/-- Whether the scope of this number declares the name itself. -/
def declaresAt (t : ScopeTree) (x : String) (id : Nat) : Bool :=
  (t.get? id).any (·.declares x)

theorem declaresAt_eq (h : t.get? id = some s) : t.declaresAt x id = s.declares x := by
  rw [declaresAt, h]
  rfl

/-- By induction on the number of the scope: its parent has a smaller one. -/
theorem Sound.exists_around (h : t.Sound loc) (hid : id < t.size) : ∃ ids, t.Around id ids := by
  induction id using Nat.strongRecOn with
  | _ id ih =>
    by_cases hroot : id = root
    · obtain ⟨s, hs, -, -, hnone⟩ := h.root_eq
      exact ⟨[id], .outermost (hroot ▸ hs) hnone⟩
    · obtain ⟨s, hs⟩ := lt_size_iff.1 hid
      obtain ⟨parent, hlt, hparent⟩ := h.parent_lt id hid hroot
      obtain ⟨outer, houter⟩ := ih parent hlt (Nat.lt_trans hlt hid)
      rw [parent?_eq hs] at hparent
      exact ⟨id :: outer, .inner hs hparent houter⟩

/-- A look-up finds the first scope on the way outward that declares the name. -/
theorem Sound.lookup_eq_find? (h : t.Sound loc) {ids : List Nat} (hids : t.Around id ids) :
    t.lookup id x = ids.find? (t.declaresAt x) := by
  induction hids with
  | outermost hs hnone =>
    rw [lookup_of_get? hs, List.find?_cons, declaresAt_eq hs, hnone]
    split <;> simp_all
  | @inner id parent s outer hs hparent houter ih =>
    have hid : id < t.size := lt_size_iff.2 ⟨s, hs⟩
    have hroot : id ≠ root := by
      rintro rfl
      obtain ⟨s', hs', -, -, hnone⟩ := h.root_eq
      cases hs.symm.trans hs'
      rw [hnone] at hparent
      cases hparent
    obtain ⟨p, hlt, hp⟩ := h.parent_lt id hid hroot
    rw [parent?_eq hs, hparent] at hp
    cases hp
    rw [lookup_of_get? hs, List.find?_cons, declaresAt_eq hs, hparent, Option.bind_some, if_pos hlt,
      ih]
    split <;> simp_all

theorem lookup_eq_none (hid : t.size ≤ id) : t.lookup id x = none := by
  rw [lookup, get?_eq_none.2 hid]

/-- The entry of a name in the scope of this number. -/
def recorded? (t : ScopeTree) (id : Nat) (x : String) : Option Name :=
  (t.get? id).bind (·.declaration? x)

theorem recorded?_eq (h : t.get? id = some s) : t.recorded? id x = s.declaration? x := by
  rw [recorded?, h]
  rfl

theorem recorded?_ofUnit : (ofUnit loc).recorded? id x = none := by
  cases id with
  | zero => rfl
  | succ id =>
    rw [recorded?, get?_eq_none.2 (Nat.succ_le_succ (Nat.zero_le id))]
    rfl

theorem Sound.recorded?_declare (h : t.Sound loc) (hid : id < t.size) :
    (t.declare id name).recorded? i x =
      (t.recorded? i x).or (if id = i ∧ name.text = x then some name else none) := by
  rw [recorded?, get?_declare, recorded?, Option.bind_map]
  cases hs : t.get? i with
  | none =>
    have hne : id ≠ i := by
      rintro rfl
      obtain ⟨s, hs'⟩ := lt_size_iff.1 hid
      rw [hs] at hs'
      cases hs'
    simp [hne]
  | some s =>
    by_cases heq : id = i
    · simp [heq, (h.indexed i s hs).declaration?_declare]
    · simp [heq]

/-- A scope that has just been opened has no entries, and the others keep theirs. -/
theorem recorded?_openIn (hparent : parent < t.size) :
    (t.openIn parent kind loc).recorded? i x = t.recorded? i x := by
  rcases Nat.lt_trichotomy i t.size with hi | rfl | hi
  · rw [recorded?, get?_openIn_of_lt hi, recorded?]
    split
    · rw [Option.bind_map]
      rfl
    · rfl
  · rw [recorded?_eq (get?_openIn_size hparent), recorded?, get?_eq_none.2 (Nat.le_refl _)]
    rfl
  · have hnone : (t.openIn parent kind loc).get? i = none :=
      get?_eq_none.2 (by rw [size_openIn]; omega)
    rw [recorded?, hnone, recorded?, get?_eq_none.2 (Nat.le_of_lt hi)]

end ScopeTree

namespace Resolver

variable {r : Resolver} {loc : Location}

/-- What a visit declares, and in which scope. -/
def declared (r : Resolver) : Visit → Option (Nat × Name)
  | .bind name => if r.knows name.text then none else some (r.current, name)
  | .param name => some (r.current, name)
  | .use _ | .enter _ _ | .leave | .stmt _ | .missing _ => none

/-- Everything that visits declare, in their order. -/
def history (r : Resolver) : List Visit → List (Nat × Name)
  | [] => []
  | v :: vs => (r.declared v).toList ++ (r.visit v).history vs

/-- The resolver stands in a scope of a sound tree. -/
structure Standing (loc : Location) (r : Resolver) : Prop where
  sound : r.tree.Sound loc
  current_lt : r.current < r.tree.size

theorem standing_start (loc : Location) : (start loc).Standing loc :=
  ⟨ScopeTree.sound_ofUnit loc, Nat.zero_lt_one⟩

theorem Standing.declare (h : r.Standing loc) (name : Name) : (r.declare name).Standing loc :=
  ⟨h.sound.declare r.current name, by simpa [Resolver.declare] using h.current_lt⟩

/-- Every visit leaves the resolver in a scope of a sound tree. -/
theorem Standing.visit (h : r.Standing loc) (v : Visit) : (r.visit v).Standing loc := by
  cases v with
  | use name =>
    simp only [Resolver.visit]
    split
    · exact h
    · exact ⟨h.sound, h.current_lt⟩
  | bind name =>
    simp only [Resolver.visit]
    split
    · exact h
    · exact h.declare name
  | param name => exact h.declare name
  | enter kind loc' =>
    refine ⟨h.sound.openIn h.current_lt kind loc', ?_⟩
    simp [Resolver.visit]
  | leave =>
    refine ⟨h.sound, ?_⟩
    change (r.tree.parent? r.current).getD r.current < r.tree.size
    cases hparent : r.tree.parent? r.current with
    | none => exact h.current_lt
    | some parent => exact h.sound.parent?_lt hparent
  | stmt | missing => exact h

theorem Standing.foldl_visit (h : r.Standing loc) (vs : List Visit) :
    (vs.foldl Resolver.visit r).Standing loc :=
  List.foldlRecOn vs Resolver.visit h fun _ hr v _ => hr.visit v

/-- A visit adds what it declares to the entries, unless the scope has an entry of that name. -/
theorem Standing.recorded?_visit (h : r.Standing loc) (v : Visit) (id : Nat) (x : String) :
    (r.visit v).tree.recorded? id x = (r.tree.recorded? id x).or
      (((r.declared v).toList.find? fun d => d.1 = id ∧ d.2.text = x).map (·.2)) := by
  have hdeclare : ∀ name, (r.declare name).tree.recorded? id x = (r.tree.recorded? id x).or
      (([(r.current, name)].find? fun d => d.1 = id ∧ d.2.text = x).map (·.2)) := by
    intro name
    rw [Resolver.declare, h.sound.recorded?_declare h.current_lt]
    by_cases hname : r.current = id ∧ name.text = x <;> simp [hname]
  cases v with
  | use name =>
    simp only [Resolver.visit, declared]
    split <;> simp
  | bind name =>
    simp only [Resolver.visit, declared]
    split
    · simp
    · exact hdeclare name
  | param name => exact hdeclare name
  | enter kind loc' =>
    simp [Resolver.visit, declared, ScopeTree.recorded?_openIn h.current_lt]
  | leave | stmt | missing => simp [Resolver.visit, declared]

theorem Standing.recorded?_foldl_visit (h : r.Standing loc) (vs : List Visit) (id : Nat)
    (x : String) :
    (vs.foldl Resolver.visit r).tree.recorded? id x = (r.tree.recorded? id x).or
      (((r.history vs).find? fun d => d.1 = id ∧ d.2.text = x).map (·.2)) := by
  induction vs generalizing r with
  | nil => simp [history]
  | cons v vs ih =>
    rw [List.foldl_cons, ih (h.visit v), h.recorded?_visit, history, List.find?_append,
      Option.or_assoc, Option.map_or]

end Resolver

end LarkCheck
