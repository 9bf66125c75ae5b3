import LarkCheck.Proofs.Tree.Gaps
import Mathlib.Data.List.Forall2

/-!
# The calls of the rules

A rule can note every call on the side, with the verdict that it gave. What it notes
changes nothing: rules that decide alike take a check through the same steps,
whatever else they remember. The notes of a check say that every statement that the
visits begin was shown to all rules one after the other, and that the check passed if
all verdicts were good and no child was missing.
-/

namespace LarkCheck

variable {σ τ : Type}

def Ruling.map (f : τ → σ) (ruling : Ruling τ) : Ruling σ :=
  ⟨ruling.passed, ruling.log, f ruling.memory⟩

/-- The rule decides as the other would with what `f` keeps of the memory. -/
def Rule.Mirrors (f : τ → σ) (rule' : Rule τ) (rule : Rule σ) : Prop :=
  ∀ memory x log, (rule'.judge memory x log).map f = rule.judge (f memory) x log

namespace RuleCheck

variable {f : τ → σ} {rules' : List (Rule τ)} {rules : List (Rule σ)}

def map (f : τ → σ) (c : RuleCheck τ) : RuleCheck σ :=
  ⟨f c.memory, c.passed, c.log⟩

theorem map_apply {rule' : Rule τ} {rule : Rule σ} (h : rule'.Mirrors f rule) (x : Stmt)
    (c : RuleCheck τ) : (apply x c rule').map f = apply x (c.map f) rule := by
  have hruling := h c.memory x c.log
  simp only [apply, map, ← hruling]
  rfl

theorem map_foldl_apply (h : List.Forall₂ (Rule.Mirrors f) rules' rules) (x : Stmt)
    (c : RuleCheck τ) : (rules'.foldl (apply x) c).map f = rules.foldl (apply x) (c.map f) := by
  induction h generalizing c with
  | nil => rfl
  | cons hrule _ ih => rw [List.foldl_cons, List.foldl_cons, ih, map_apply hrule]

theorem map_visit (h : List.Forall₂ (Rule.Mirrors f) rules' rules) (c : RuleCheck τ) (v : Visit) :
    (visit rules' c v).map f = visit rules (c.map f) v := by
  cases v with
  | stmt x => exact map_foldl_apply h x c
  | _ => rfl

theorem map_foldl_visit (h : List.Forall₂ (Rule.Mirrors f) rules' rules) (vs : List Visit)
    (c : RuleCheck τ) :
    (vs.foldl (visit rules') c).map f = vs.foldl (visit rules) (c.map f) := by
  induction vs generalizing c with
  | nil => rfl
  | cons v vs ih => rw [List.foldl_cons, List.foldl_cons, ih, map_visit h]

end RuleCheck

/-- Rules that decide alike give the same verdict and leave the same log. -/
theorem Block.checkRules_map {f : τ → σ} {rules' : List (Rule τ)} {rules : List (Rule σ)}
    (h : List.Forall₂ (Rule.Mirrors f) rules' rules) (memory : τ) (log : Log) (unit : Block) :
    let checked := unit.checkRules rules' memory log
    (checked.1, checked.2.1, f checked.2.2) = unit.checkRules rules (f memory) log := by
  have hrun := RuleCheck.map_foldl_visit h unit.visits ⟨memory, true, log⟩
  exact congrArg (fun c : RuleCheck σ => (c.passed, c.log, c.memory)) hrun

/-- What a rule notes of a call: its own number, the statement and the verdict. -/
structure Call where
  rule : Nat
  stmt : Stmt
  passed : Bool

/-- Which rule was shown which statement. -/
def Call.showing (call : Call) : Nat × Stmt :=
  (call.rule, call.stmt)

def Rule.noting (rule : Rule σ) (number : Nat) : Rule (σ × List Call) where
  judge memory x log :=
    let ruling := rule.judge memory.1 x log
    ⟨ruling.passed, ruling.log, ruling.memory, memory.2 ++ [⟨number, x, ruling.passed⟩]⟩

/-- The rules, numbered from `first`, with notes of all their calls. -/
def notingFrom (first : Nat) (rules : List (Rule σ)) : List (Rule (σ × List Call)) :=
  (rules.zipIdx first).map fun (rule, number) => rule.noting number

def noting (rules : List (Rule σ)) : List (Rule (σ × List Call)) :=
  notingFrom 0 rules

/-- The statement shown to as many rules, one after the other. -/
def showings (first count : Nat) (x : Stmt) : List (Nat × Stmt) :=
  (List.range' first count).map fun number => (number, x)

theorem noting_mirrors (rules : List (Rule σ)) (first : Nat) :
    List.Forall₂ (Rule.Mirrors Prod.fst) (notingFrom first rules) rules := by
  induction rules generalizing first with
  | nil => exact .nil
  | cons rule rules ih => exact .cons (fun _ _ _ => rfl) (ih (first + 1))

namespace RuleCheck

/-- From `c` to `d` calls were noted, in which the rules were shown what `shown` lists, and the
verdict is that of the calls unless a child was missing. -/
structure Notes (c d : RuleCheck (σ × List Call)) (shown : List (Nat × Stmt))
    (complete : Bool) (calls : List Call) : Prop where
  memory_eq : d.memory.2 = c.memory.2 ++ calls
  shown_eq : calls.map Call.showing = shown
  passed_eq : d.passed = (c.passed && (calls.all Call.passed && complete))

variable {c d e : RuleCheck (σ × List Call)} {shown shown' : List (Nat × Stmt)}
  {complete complete' : Bool} {calls calls' : List Call}

theorem Notes.refl (c : RuleCheck (σ × List Call)) : Notes c c [] true [] :=
  ⟨(List.append_nil _).symm, rfl, (Bool.and_true _).symm⟩

theorem Notes.trans (h : Notes c d shown complete calls)
    (h' : Notes d e shown' complete' calls') :
    Notes c e (shown ++ shown') (complete && complete') (calls ++ calls') where
  memory_eq := by rw [h'.memory_eq, h.memory_eq, List.append_assoc]
  shown_eq := by rw [List.map_append, h.shown_eq, h'.shown_eq]
  passed_eq := by
    rw [h'.passed_eq, h.passed_eq, List.all_append]
    ac_rfl

theorem notes_apply (rule : Rule σ) (number : Nat) (x : Stmt) (c : RuleCheck (σ × List Call)) :
    Notes c (apply x c (rule.noting number)) [(number, x)] true
      [⟨number, x, (rule.judge c.memory.1 x c.log).passed⟩] where
  memory_eq := rfl
  shown_eq := rfl
  passed_eq := by simp [apply, Rule.noting]

/-- By recursion on the rules: each is called once. -/
theorem exists_notes_stmt (rules : List (Rule σ)) (first : Nat) (x : Stmt)
    (c : RuleCheck (σ × List Call)) :
    ∃ calls, Notes c ((notingFrom first rules).foldl (apply x) c)
      (showings first rules.length x) true calls := by
  induction rules generalizing first c with
  | nil => exact ⟨[], .refl c⟩
  | cons rule rules ih =>
    obtain ⟨calls, h⟩ := ih (first + 1) (apply x c (rule.noting first))
    exact ⟨_, (notes_apply rule first x c).trans h⟩

theorem exists_notes_visit (rules : List (Rule σ)) (c : RuleCheck (σ × List Call)) (v : Visit) :
    ∃ calls, Notes c (visit (noting rules) c v)
      (v.stmt?.toList.flatMap (showings 0 rules.length)) v.missing?.isNone calls := by
  cases v with
  | stmt x =>
    obtain ⟨calls, h⟩ := exists_notes_stmt rules 0 x c
    refine ⟨calls, ?_⟩
    change Notes c _ ([x].flatMap _) true calls
    rw [List.flatMap_singleton]
    exact h
  | missing slot => exact ⟨[], (List.append_nil _).symm, rfl, by simp [visit, Visit.missing?]⟩
  | _ => exact ⟨[], .refl c⟩

/-- By recursion on the visits: nothing ends a check before its last visit. -/
theorem exists_notes_visits (rules : List (Rule σ)) (vs : List Visit)
    (c : RuleCheck (σ × List Call)) :
    ∃ calls, Notes c (vs.foldl (visit (noting rules)) c)
      ((vs.filterMap Visit.stmt?).flatMap (showings 0 rules.length))
      (vs.filterMap Visit.missing?).isEmpty calls := by
  induction vs generalizing c with
  | nil => exact ⟨[], .refl c⟩
  | cons v vs ih =>
    obtain ⟨calls, h⟩ := exists_notes_visit rules c v
    obtain ⟨calls', h'⟩ := ih (visit (noting rules) c v)
    refine ⟨calls ++ calls', ?_⟩
    have hboth := h.trans h'
    rw [← List.flatMap_append] at hboth
    cases hstmt : v.stmt? <;> cases hmissing : v.missing? <;>
      simpa [hstmt, hmissing] using hboth

end RuleCheck

end LarkCheck
