import LarkCheck.Grammar.Statement
import LarkCheck.Proofs.Scope.Undeclared
import Mathlib.Data.List.Forall2

/-!
# Stable bindings

What a use was found to mean is what it means in the finished scopes. A name becomes
known in a scope only if it is not visible there, which takes no name from anyone,
or as a parameter, and the parameters of a scope are all there before its body is
visited. Until then the scope may be read by the defaults of its parameters only, and
nothing is promised of these.
-/

namespace LarkCheck

namespace ScopeTree

variable {t t' t'' : ScopeTree}

/-- Whatever was found is found in the same scope again. -/
def Keeps (t t' : ScopeTree) : Prop :=
  ∀ id x found, t.lookup id x = some found → t'.lookup id x = some found

theorem Keeps.refl (t : ScopeTree) : t.Keeps t :=
  fun _ _ _ h => h

theorem Keeps.trans (h : t.Keeps t') (h' : t'.Keeps t'') : t.Keeps t'' :=
  fun id x found hfound => h' id x found (h id x found hfound)

theorem SameBelow.keeps (h : SameBelow t.size t t') : t.Keeps t' :=
  fun _ _ _ hfound => (h.lookup_eq (lt_size_of_lookup hfound)).symm.trans hfound

end ScopeTree

/-- The answer is for this use and, if this is in no default, lasts in the scopes `t`. -/
structure Answer.Lasts (t : ScopeTree) (a : Answer) (u : Use) : Prop where
  name_eq : a.name = u.name
  lookup_eq : u.inDefault = false → ∀ id, a.found = some id →
    t.lookup a.scope a.name.text = some id

/-- The answer is for this use in a default, and nothing is promised of it. -/
structure Answer.Loose (a : Answer) (u : Use) : Prop where
  name_eq : a.name = u.name
  inDefault : u.inDefault = true

namespace Answer

variable {a : Answer} {u : Use} {t t' : ScopeTree}

theorem Lasts.mono (h : a.Lasts t u) (hkeeps : t.Keeps t') : a.Lasts t' u where
  name_eq := h.name_eq
  lookup_eq hu id hid := hkeeps _ _ _ (h.lookup_eq hu id hid)

theorem Lasts.defaulted (h : a.Lasts t u) : a.Loose u.defaulted :=
  ⟨h.name_eq, rfl⟩

theorem Loose.lasts (h : a.Loose u) : a.Lasts t u where
  name_eq := h.name_eq
  lookup_eq hu := by
    rw [h.inDefault] at hu
    cases hu

end Answer

namespace Resolver

variable {r r₁ r₂ : Resolver} {as bs : List Answer} {us us' : List Use}

/-- From `r` to `r'` the answers were given for these uses. They last, as do those from before. -/
structure Settled (r r' : Resolver) (as : List Answer) (us : List Use) : Prop
    extends Frame r r' where
  keeps : r.tree.Keeps r'.tree
  lasts : List.Forall₂ (Answer.Lasts r'.tree) as us

/-- From `r` to `r'` the answers were given for these uses, which are in defaults. -/
structure Prepared (r r' : Resolver) (as : List Answer) (us : List Use) : Prop
    extends Frame r r' where
  loose : List.Forall₂ Answer.Loose as us

theorem Settled.refl (r : Resolver) : Settled r r [] [] :=
  ⟨.refl r, .refl r.tree, .nil⟩

theorem Settled.trans (h : Settled r r₁ as us) (h' : Settled r₁ r₂ bs us') :
    Settled r r₂ (as ++ bs) (us ++ us') where
  toFrame := h.toFrame.trans h'.toFrame
  keeps := h.keeps.trans h'.keeps
  lasts := List.rel_append (h.lasts.imp fun _ _ ha => ha.mono h'.keeps) h'.lasts

theorem Prepared.trans (h : Prepared r r₁ as us) (h' : Prepared r₁ r₂ bs us') :
    Prepared r r₂ (as ++ bs) (us ++ us') :=
  ⟨h.toFrame.trans h'.toFrame, List.rel_append h.loose h'.loose⟩

theorem Settled.defaulted (h : Settled r r₁ as us) : Prepared r r₁ as (us.map Use.defaulted) where
  toFrame := h.toFrame
  loose := List.forall₂_map_right_iff.2 (h.lasts.imp fun _ _ ha => ha.defaulted)

/-- What the parameters of a scope may capture is in their defaults. Around the scope nothing
changes. -/
theorem Settled.scope {kind : Scope.Kind} {loc : Location} (hlt : r.current < r.tree.size)
    (h : Prepared (r.visit (.enter kind loc)) r₁ as us) (h' : Settled r₁ r₂ bs us') :
    Settled r (r₂.visit .leave) (as ++ bs) (us ++ us') :=
  have inside := h.toFrame.trans h'.toFrame
  { toFrame := inside.leave hlt
    keeps := inside.sameBelow_inside.keeps
    lasts := List.rel_append (h.loose.imp fun _ _ ha => ha.lasts) h'.lasts }

end Resolver

open Resolver

/-- Wherever the resolver stands, along the visits it settles the uses. -/
def Settles (vs : List Visit) (us : List Use) : Prop :=
  ∀ r : Resolver, r.current < r.tree.size → Settled r (vs.foldl visit r) (r.answers vs) us

def Prepares (vs : List Visit) (us : List Use) : Prop :=
  ∀ r : Resolver, r.current < r.tree.size → Prepared r (vs.foldl visit r) (r.answers vs) us

variable {vs ws : List Visit} {us us' : List Use}

namespace Prepares

theorem param (name : Name) : Prepares [.param name] [] :=
  fun _ hlt => ⟨.declare name hlt, .nil⟩

theorem append (h : Prepares vs us) (h' : Prepares ws us') : Prepares (vs ++ ws) (us ++ us') := by
  intro r hlt
  have hvs := h r hlt
  rw [List.foldl_append, answers_append]
  exact hvs.trans (h' _ (hvs.current_lt hlt))

end Prepares

namespace Settles

theorem nil : Settles [] [] :=
  fun r _ => .refl r

theorem append (h : Settles vs us) (h' : Settles ws us') : Settles (vs ++ ws) (us ++ us') := by
  intro r hlt
  have hvs := h r hlt
  rw [List.foldl_append, answers_append]
  exact hvs.trans (h' _ (hvs.current_lt hlt))

theorem use (name : Name) : Settles [.use name] [name.plain] := by
  intro r _
  have hlasts : Answer.Lasts r.tree ⟨name, r.current, r.tree.lookup r.current name.text⟩
      name.plain :=
    ⟨rfl, fun _ _ hfound => hfound⟩
  change Settled r (r.visit (.use name)) _ _
  simp only [visit]
  split
  · exact ⟨.refl r, .refl r.tree, .cons hlasts .nil⟩
  · exact ⟨⟨rfl, Nat.le_refl _, fun _ _ _ => rfl, rfl⟩, .refl r.tree, .cons hlasts .nil⟩

/-- Only a name that is not visible is declared. -/
theorem bind (name : Name) : Settles [.bind name] [] := by
  intro r hlt
  change Settled r (r.visit (.bind name)) [] []
  simp only [visit]
  split
  · exact .refl r
  · rename_i hunknown
    have hnew : r.tree.lookup r.current name.text = none := by
      simpa [knows] using hunknown
    exact ⟨.declare name hlt, fun _ _ _ => ScopeTree.lookup_declare_of_some hnew, .nil⟩

theorem defaulted (h : Settles vs us) : Prepares vs (us.map Use.defaulted) :=
  fun r hlt => (h r hlt).defaulted

/-- A scope with its parameters, if it has any, and its body. -/
theorem scope (kind : Scope.Kind) (loc : Location) (h : Prepares vs us) (h' : Settles ws us') :
    Settles (.enter kind loc :: (vs ++ (ws ++ [.leave]))) (us ++ us') := by
  intro r hlt
  have hvs := h (r.visit (.enter kind loc)) (by simp [visit])
  have hws := h' _ (hvs.current_lt (by simp [visit]))
  have hscope := Settled.scope hlt hvs hws
  simpa [answers, answer?, answers_append] using hscope

end Settles

/-- Uses are settled wherever they are visited, and for good unless they are in a default. -/
theorem Settles.law : NameLaw (fun vs _ us => Settles vs us) (fun vs _ us => Prepares vs us) where
  nil := .nil
  missing _ := .nil
  stmt h := h
  use := .use
  bind := .bind
  append := .append
  param := .param
  default h := h.defaulted
  join := .append
  scope kind loc _ _ _ _ _ _ h h' := .scope kind loc h h'

/-- Along a unit the resolver gives an answer for each use, in their order. What it has found for a
use that is in no default is what is found in the finished scopes, from the same scope: nothing that
is declared later, wherever it may be, takes its place. -/
theorem bindings_stable (unit : Block) :
    List.Forall₂
      (fun a u => a.name = u.name ∧
        (u.inDefault = false → ∀ id, a.found = some id →
          ((Resolver.start unit.loc).run unit).tree.lookup a.scope a.name.text = some id))
      ((Resolver.start unit.loc).answers unit.visits) unit.uses := by
  have h := unit.named Settles.law (Resolver.start unit.loc) Nat.zero_lt_one
  exact h.lasts.imp fun _ _ ha => ⟨ha.name_eq, ha.lookup_eq⟩

/-- A routine whose second parameter takes the name that the default of the first one uses. -/
def retakenText : List Char :=
  "x = 1\nf = routine(a = x, x) y = x end\ny = f".toList

/-- For each use what was found for it at first and what is found in the finished scopes. -/
def foundTwice (unit : Block) : List (Option Nat × Option Nat) :=
  ((Resolver.start unit.loc).answers unit.visits).map fun a =>
    (a.found, ((Resolver.start unit.loc).run unit).tree.lookup a.scope a.name.text)

/-- The use in the default is the one that comes to mean something else. -/
theorem bindings_stable_retakenText :
    ∃ unit, (parse (.empty "u") retakenText).1 = some unit ∧
      unit.uses.map (·.inDefault) = [true, false, false] ∧
      foundTwice unit = [(some 0, some 1), (some 1, some 1), (some 0, some 0)] ∧
      List.Forall₂
        (fun a u => a.name = u.name ∧
          (u.inDefault = false → ∀ id, a.found = some id →
            ((Resolver.start unit.loc).run unit).tree.lookup a.scope a.name.text = some id))
        ((Resolver.start unit.loc).answers unit.visits) unit.uses := by
  have hread : (parse (.empty "u") retakenText).1.map
      (fun unit => (unit.uses.map (·.inDefault), foundTwice unit)) =
      some ([true, false, false], [(some 0, some 1), (some 1, some 1), (some 0, some 0)]) := by
    decide +kernel
  obtain ⟨unit, h, heq⟩ := Option.map_eq_some_iff.1 hread
  obtain ⟨huses, hfound⟩ := Prod.mk.inj heq
  exact ⟨unit, h, huses, hfound, bindings_stable unit⟩

end LarkCheck
