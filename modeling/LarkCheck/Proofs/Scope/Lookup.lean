import LarkCheck.Scope.Resolution

/-!
# Looking up a name

A look-up reads the indexes and the parents of the scopes around the one where it
begins, and these have smaller numbers. So whatever is done to a scope and to those
opened after it, look-ups that begin before it stay as they are.
-/

namespace LarkCheck

namespace Scope

variable {s : Scope} {name : Name} {x : String}

@[simp] theorem parent_declare : (s.declare name).parent = s.parent := by
  unfold declare
  split <;> rfl

theorem declares_declare :
    (s.declare name).declares x = true ↔ s.declares x = true ∨ name.text = x := by
  unfold declare
  split
  · rename_i h
    constructor
    · exact Or.inl
    · rintro (hx | rfl)
      · exact hx
      · exact h
  · rw [declares, List.lookup_cons]
    by_cases hx : x = name.text
    · simp [hx]
    · simp [declares, beq_false_of_ne hx, Ne.symm hx]

end Scope

namespace ScopeTree

variable {t t' t'' : ScopeTree} {s : Scope} {id i n parent : Nat} {kind : Scope.Kind}
  {loc : Location} {name : Name} {x : String}

theorem lt_size_iff : id < t.size ↔ ∃ s, t.get? id = some s := by
  constructor
  · intro h
    exact ⟨_, Array.getElem?_eq_getElem h⟩
  · rintro ⟨s, hs⟩
    exact (Array.getElem?_eq_some_iff.1 hs).1

theorem lookup_of_get? (h : t.get? id = some s) :
    t.lookup id x =
      if s.declares x then some id
      else s.parent.bind fun p => if p < id then t.lookup p x else none := by
  rw [lookup, h]
  simp only
  cases s.parent <;> rfl

theorem lt_size_of_lookup {found : Nat} (h : t.lookup id x = some found) : id < t.size := by
  rw [lt_size_iff, ← Option.isSome_iff_exists, Option.isSome_iff_ne_none]
  intro hs
  rw [lookup, hs] at h
  cases h

/-- In the scopes before `n` a look-up sees no difference. -/
def SameBelow (n : Nat) (t t' : ScopeTree) : Prop :=
  ∀ id < n, (t.get? id).map (fun s => (s.parent, s.index)) =
    (t'.get? id).map (fun s => (s.parent, s.index))

theorem SameBelow.trans (h : SameBelow n t t') (h' : SameBelow n t' t'') : SameBelow n t t'' :=
  fun id hid => (h id hid).trans (h' id hid)

theorem SameBelow.lookup_eq (h : SameBelow n t t') (hid : id < n) :
    t.lookup id x = t'.lookup id x := by
  induction id using Nat.strongRecOn with
  | _ id ih =>
    have hseen := h id hid
    cases hs' : t'.get? id with
    | none =>
      have hs : t.get? id = none := by simpa [hs'] using hseen
      rw [lookup, lookup, hs, hs']
    | some s' =>
      rw [hs'] at hseen
      obtain ⟨s, hs, heq⟩ := Option.map_eq_some_iff.1 hseen
      obtain ⟨hparent, hindex⟩ := Prod.mk.inj heq
      rw [lookup_of_get? hs, lookup_of_get? hs', Scope.declares, Scope.declares, hparent, hindex]
      congr 2
      funext p
      split
      · rename_i hp
        exact ih p hp (Nat.lt_trans hp hid)
      · rfl

@[simp] theorem size_declare : (t.declare id name).size = t.size := by
  simp [declare, size]

theorem get?_declare_self (h : t.get? id = some s) :
    (t.declare id name).get? id = some (s.declare name) := by
  unfold get? at h
  simp [declare, get?, Array.getElem?_modify, h]

theorem get?_declare_of_ne (h : i ≠ id) : (t.declare id name).get? i = t.get? i := by
  simp [declare, get?, Array.getElem?_modify, Ne.symm h]

theorem lookup_declare (h : id < t.size) :
    ((t.declare id name).lookup id x).isSome = true ↔
      (t.lookup id x).isSome = true ∨ name.text = x := by
  obtain ⟨s, hs⟩ := lt_size_iff.1 h
  have same : SameBelow id t (t.declare id name) := fun i hi => by
    rw [get?_declare_of_ne (Nat.ne_of_lt hi)]
  rw [lookup_of_get? hs, lookup_of_get? (get?_declare_self hs), Scope.parent_declare]
  have around : (s.parent.bind fun p => if p < id then (t.declare id name).lookup p x else none) =
      s.parent.bind fun p => if p < id then t.lookup p x else none := by
    congr 1
    funext p
    split
    · rename_i hp
      exact (same.lookup_eq hp).symm
    · rfl
  rw [around]
  by_cases hd : s.declares x = true
  · have hd' : (s.declare name).declares x = true := Scope.declares_declare.2 (Or.inl hd)
    simp [hd, hd']
  · by_cases hx : name.text = x
    · have hd' : (s.declare name).declares x = true := Scope.declares_declare.2 (Or.inr hx)
      simp [hd', hx]
    · have hd' : ¬ (s.declare name).declares x = true := by
        rw [Scope.declares_declare]
        exact fun h => h.elim hd hx
      simp [hd, hd', hx]

/-- To any other name a scope looks the same after a declaration. -/
theorem exists_get?_declare (hs : t.get? id = some s) (hx : i = id → name.text ≠ x) :
    ∃ s', (t.declare i name).get? id = some s' ∧ s'.parent = s.parent ∧
      s'.declares x = s.declares x := by
  by_cases heq : i = id
  · subst heq
    refine ⟨s.declare name, get?_declare_self hs, Scope.parent_declare, ?_⟩
    rw [Bool.eq_iff_iff, Scope.declares_declare]
    exact or_iff_left (hx rfl)
  · exact ⟨s, (get?_declare_of_ne (Ne.symm heq)).trans hs, rfl, rfl⟩

/-- A name that was found is found where it was after a declaration of one that was not visible. By
induction on the number of the scope: its parent has a smaller one. -/
theorem lookup_declare_of_some {found : Nat} (hnew : t.lookup i name.text = none)
    (h : t.lookup id x = some found) : (t.declare i name).lookup id x = some found := by
  induction id using Nat.strongRecOn with
  | _ id ih =>
    have hne : i = id → name.text ≠ x := by
      rintro rfl rfl
      rw [hnew] at h
      cases h
    obtain ⟨s, hs⟩ := lt_size_iff.1 (lt_size_of_lookup h)
    obtain ⟨s', hs', hparent, hdeclares⟩ := exists_get?_declare hs hne
    rw [lookup_of_get? hs] at h
    rw [lookup_of_get? hs', hparent, hdeclares]
    split at h
    · rename_i hd
      rw [if_pos hd, h]
    · rename_i hd
      rw [if_neg hd]
      obtain ⟨p, hp, hfound⟩ := Option.bind_eq_some_iff.1 h
      by_cases hlt : p < id
      · rw [if_pos hlt] at hfound
        rw [hp, Option.bind_some, if_pos hlt]
        exact ih p hlt hfound
      · rw [if_neg hlt] at hfound
        cases hfound

@[simp] theorem size_openIn : (t.openIn parent kind loc).size = t.size + 1 := by
  simp [openIn, size]

theorem get?_openIn_size (h : parent < t.size) :
    (t.openIn parent kind loc).get? t.size = some (.opened kind loc (some parent)) := by
  unfold size at h
  simp only [openIn, get?, size, Array.getElem?_modify, Array.getElem?_push, if_true,
    if_neg (Nat.ne_of_lt h)]

theorem get?_openIn_of_lt (h : i < t.size) :
    (t.openIn parent kind loc).get? i =
      if parent = i then (t.get? i).map (·.addChild t.size) else t.get? i := by
  unfold size at h
  simp only [openIn, get?, Array.getElem?_modify, Array.getElem?_push, if_neg (Nat.ne_of_lt h)]

theorem sameBelow_openIn : SameBelow t.size t (t.openIn parent kind loc) := by
  intro i hi
  rw [get?_openIn_of_lt hi]
  split
  · rw [Option.map_map]
    rfl
  · rfl

/-- A scope that was just opened declares nothing itself. -/
theorem lookup_openIn (h : parent < t.size) :
    (t.openIn parent kind loc).lookup t.size x = t.lookup parent x := by
  rw [lookup_of_get? (get?_openIn_size h)]
  simp only [Scope.opened, Scope.declares, List.lookup_nil, Option.isSome_none,
    Bool.false_eq_true, if_false,
    Option.bind_some, h, if_true]
  exact (sameBelow_openIn.lookup_eq h).symm

end ScopeTree

end LarkCheck
