import LarkCheck.Proofs.Scope.Mention
import LarkCheck.Proofs.Scope.Uses

/-!
# Visits and mentions

The visits of a tree are put together in a few ways, and in the same ways its
mentions and its uses. What is kept in all of these holds of the visits of every tree.
So the visits that have to do with names are those that the mentions stand for: a
pass that follows the visits meets every mention once, in order, and enters and
leaves every scope around what is mentioned in it.
-/

namespace LarkCheck

mutual

/-- The visits that a mention stands for. -/
def Mention.visits : Mention → List Visit
  | .use name => [.use name]
  | .bind name => [.bind name]
  | .param name => [.param name]
  | .scope kind loc mentions => .enter kind loc :: (Mention.listVisits mentions ++ [.leave])

def Mention.listVisits : List Mention → List Visit
  | [] => []
  | m :: ms => m.visits ++ Mention.listVisits ms

end

theorem Mention.listVisits_append (ms ns : List Mention) :
    Mention.listVisits (ms ++ ns) = Mention.listVisits ms ++ Mention.listVisits ns := by
  induction ms with
  | nil => rfl
  | cons m ms ih => simp only [List.cons_append, listVisits, ih, List.append_assoc]

/-- Whether a visit has to do with names. -/
def Visit.ofNames : Visit → Bool
  | .stmt _ | .missing _ => false
  | .use _ | .bind _ | .param _ | .enter _ _ | .leave => true

/-- What can be said of some visits with the mentions and the uses in them, `P` of most and `Q` of
those of parameters, if it is kept where visits are put together as those of a tree are. -/
structure NameLaw (P Q : List Visit → List Mention → List Use → Prop) : Prop where
  nil : P [] [] []
  missing : ∀ slot, P [.missing slot] [] []
  stmt : ∀ {x : Stmt} {vs ms us}, P vs ms us → P (.stmt x :: vs) ms us
  use : ∀ name, P [.use name] [.use name] [name.plain]
  bind : ∀ name, P [.bind name] [.bind name] []
  append : ∀ {vs ws ms ns us us'}, P vs ms us → P ws ns us' → P (vs ++ ws) (ms ++ ns) (us ++ us')
  param : ∀ name, Q [.param name] [.param name] []
  default : ∀ {vs ms us}, P vs ms us → Q vs ms (us.map Use.defaulted)
  join : ∀ {vs ws ms ns us us'}, Q vs ms us → Q ws ns us' → Q (vs ++ ws) (ms ++ ns) (us ++ us')
  scope : ∀ (kind loc) {vs ws ms ns us us'}, Q vs ms us → P ws ns us' →
    P (.enter kind loc :: (vs ++ (ws ++ [.leave]))) [.scope kind loc (ms ++ ns)] (us ++ us')

variable {P Q : List Visit → List Mention → List Use → Prop}

namespace NameLaw

theorem noParams (law : NameLaw P Q) : Q [] [] [] :=
  law.default law.nil

theorem uses (law : NameLaw P Q) (names : List Name) :
    P (names.map .use) (names.map .use) (names.map Name.plain) := by
  induction names with
  | nil => exact law.nil
  | cons name names ih => exact law.append (law.use name) ih

end NameLaw

mutual

/-- By recursion on the tree: the visits of a construct are put together from those of its parts
as its mentions and its uses are. -/
theorem Expr.named (law : NameLaw P Q) (e : Expr) : P e.visits e.mentions e.uses := by
  cases e with
  | ident loc name => exact law.use ⟨loc, name⟩
  | nil | bool | int | real | string | receiver => exact law.nil
  | array loc items => exact Expr.named_list law items
  | hash loc pairs => exact Pair.named_list law pairs
  | routine loc params body =>
    exact law.scope .routine loc (Param.named_list law params) (Block.named_slot law _ body)
  | classDef loc name params base includes sections =>
    have scope := law.scope .classDef loc (Param.named_list law params)
      (Section.named_list law sections)
    have taken := law.append (Base.named_option law base) (law.append (law.uses includes) scope)
    exact law.append (law.bind ⟨loc, name⟩) taken
  | package loc name body =>
    exact law.append (law.bind ⟨loc, name⟩)
      (law.scope .package loc law.noParams (Block.named_slot law _ body))
  | paren loc inner => exact Expr.named_slot law _ inner
  | index loc object index =>
    exact law.append (Expr.named_slot law _ object) (Expr.named_slot law _ index)
  | call loc callee args =>
    exact law.append (Expr.named_slot law _ callee) (Expr.named_list law args)
  | member loc object name => exact Expr.named_slot law _ object
  | unary loc op operand => exact Expr.named_slot law _ operand
  | binary loc level op left right =>
    exact law.append (Expr.named_slot law _ left) (Expr.named_slot law _ right)
  | assign loc target value =>
    exact law.append (Expr.named_target law _ target) (Expr.named_slot law _ value)

theorem Expr.named_slot (law : NameLaw P Q) (slot : EmptySlot) (o : Option Expr) :
    P (Expr.slotVisits slot o) (Expr.optionMentions o) (Expr.optionUses o) := by
  cases o with
  | none => exact law.missing slot
  | some e => exact Expr.named law e

theorem Expr.named_option (law : NameLaw P Q) (o : Option Expr) :
    P (Expr.optionVisits o) (Expr.optionMentions o) (Expr.optionUses o) := by
  cases o with
  | none => exact law.nil
  | some e => exact Expr.named law e

/-- A bare name is bound, any other target is visited like an expression that is read. -/
theorem Expr.named_target (law : NameLaw P Q) (slot : EmptySlot) (o : Option Expr) :
    P (Expr.targetVisits slot o) (Expr.targetMentions o) (Expr.targetUses o) := by
  cases o with
  | none => exact law.missing slot
  | some e =>
    have h := Expr.named law e
    cases e with
    | ident loc name => exact law.bind ⟨loc, name⟩
    | _ => exact h

theorem Expr.named_list (law : NameLaw P Q) (es : List Expr) :
    P (Expr.listVisits es) (Expr.listMentions es) (Expr.listUses es) := by
  cases es with
  | nil => exact law.nil
  | cons e es => exact law.append (Expr.named law e) (Expr.named_list law es)

theorem Pair.named_list (law : NameLaw P Q) (ps : List Pair) :
    P (Pair.listVisits ps) (Pair.listMentions ps) (Pair.listUses ps) := by
  cases ps with
  | nil => exact law.nil
  | cons p ps =>
    obtain ⟨loc, key, value⟩ := p
    exact law.append (Expr.named_slot law _ key)
      (law.append (Expr.named_slot law _ value) (Pair.named_list law ps))

theorem Param.named (law : NameLaw P Q) (p : Param) : Q p.visits p.mentions p.uses := by
  cases p with
  | value loc name default =>
    have h := law.join (law.default (Expr.named_option law default)) (law.param ⟨loc, name⟩)
    rwa [List.append_nil] at h
  | output loc name => exact law.param ⟨loc, name⟩

theorem Param.named_list (law : NameLaw P Q) (ps : List Param) :
    Q (Param.listVisits ps) (Param.listMentions ps) (Param.listUses ps) := by
  cases ps with
  | nil => exact law.noParams
  | cons p ps => exact law.join (Param.named law p) (Param.named_list law ps)

theorem Base.named_option (law : NameLaw P Q) (o : Option Base) :
    P (Base.optionVisits o) (Base.optionMentions o) (Base.optionUses o) := by
  cases o with
  | none => exact law.nil
  | some b =>
    obtain ⟨name, args⟩ := b
    exact law.append (law.use name) (Expr.named_list law args)

theorem Section.named_list (law : NameLaw P Q) (xs : List Section) :
    P (Section.listVisits xs) (Section.listMentions xs) (Section.listUses xs) := by
  cases xs with
  | nil => exact law.nil
  | cons x xs =>
    obtain ⟨loc, access, body⟩ := x
    exact law.append (Block.named_slot law _ body) (Section.named_list law xs)

theorem Block.named (law : NameLaw P Q) (b : Block) : P b.visits b.mentions b.uses := by
  obtain ⟨loc, stmts⟩ := b
  exact Stmt.named_list law stmts

theorem Block.named_slot (law : NameLaw P Q) (slot : EmptySlot) (o : Option Block) :
    P (Block.slotVisits slot o) (Block.optionMentions o) (Block.optionUses o) := by
  cases o with
  | none => exact law.missing slot
  | some b => exact Block.named law b

theorem Block.named_option (law : NameLaw P Q) (o : Option Block) :
    P (Block.optionVisits o) (Block.optionMentions o) (Block.optionUses o) := by
  cases o with
  | none => exact law.nil
  | some b => exact Block.named law b

theorem Stmt.named (law : NameLaw P Q) (x : Stmt) : P x.visits x.mentions x.uses := by
  cases x with
  | importPath loc path =>
    unfold Stmt.visits Stmt.mentions Stmt.uses
    cases path.getLast? with
    | none => exact law.nil
    | some name => exact law.bind ⟨loc, name⟩
  | expr loc e => exact Expr.named_slot law _ e
  | cond loc test body elseifs otherwise =>
    exact law.append (Expr.named_slot law _ test) (law.append (Block.named_slot law _ body)
      (law.append (Branch.named_list law _ elseifs) (Block.named_option law otherwise)))
  | case loc subject whens otherwise =>
    exact law.append (Expr.named_slot law _ subject)
      (law.append (Branch.named_list law _ whens) (Block.named_option law otherwise))
  | whileLoop loc test body =>
    exact law.append (Expr.named_slot law _ test) (Block.named_slot law _ body)
  | forLoop loc init test step body =>
    exact law.append (Expr.named_slot law _ init) (law.append (Expr.named_slot law _ test)
      (law.append (Expr.named_slot law _ step) (Block.named_slot law _ body)))
  | foreachLoop loc item collection body =>
    exact law.append (Expr.named_slot law _ collection)
      (law.append (law.bind item) (Block.named_slot law _ body))
  | breakLoop | nextRound => exact law.nil
  | returnValue loc value => exact Expr.named_option law value

theorem Stmt.named_list (law : NameLaw P Q) (xs : List Stmt) :
    P (Stmt.listVisits xs) (Stmt.listMentions xs) (Stmt.listUses xs) := by
  cases xs with
  | nil => exact law.nil
  | cons x xs => exact law.stmt (law.append (Stmt.named law x) (Stmt.named_list law xs))

theorem Branch.named_list (law : NameLaw P Q) (node : String) (bs : List Branch) :
    P (Branch.listVisits node bs) (Branch.listMentions bs) (Branch.listUses bs) := by
  cases bs with
  | nil => exact law.nil
  | cons b bs =>
    obtain ⟨loc, test, body⟩ := b
    exact law.append (Expr.named_slot law _ test)
      (law.append (Block.named_slot law _ body) (Branch.named_list law node bs))

end

/-- Of names, the visits tell what the mentions say. -/
def Tells (vs : List Visit) (ms : List Mention) : Prop :=
  vs.filter Visit.ofNames = Mention.listVisits ms

namespace Tells

variable {vs ws : List Visit} {ms ns : List Mention}

theorem append (h : Tells vs ms) (h' : Tells ws ns) : Tells (vs ++ ws) (ms ++ ns) := by
  unfold Tells at *
  rw [List.filter_append, h, h', Mention.listVisits_append]

/-- A scope with its parameters, if it has any, and its body. -/
theorem scope (kind : Scope.Kind) (loc : Location) (h : Tells vs ms) (h' : Tells ws ns) :
    Tells (.enter kind loc :: (vs ++ (ws ++ [.leave]))) [.scope kind loc (ms ++ ns)] := by
  have inside := h.append h'
  unfold Tells at *
  rw [List.filter_cons_of_pos rfl, ← List.append_assoc, List.filter_append, inside]
  simp [Mention.listVisits, Mention.visits, Visit.ofNames]

/-- Parameters are visited like anything else. -/
theorem law : NameLaw (fun vs ms _ => Tells vs ms) (fun vs ms _ => Tells vs ms) where
  nil := rfl
  missing _ := rfl
  stmt h := h
  use _ := rfl
  bind _ := rfl
  append h h' := h.append h'
  param _ := rfl
  default h := h
  join h h' := h.append h'
  scope kind loc _ _ _ _ _ _ h h' := scope kind loc h h'

end Tells

theorem Block.tells (b : Block) : Tells b.visits b.mentions :=
  b.named Tells.law

end LarkCheck
