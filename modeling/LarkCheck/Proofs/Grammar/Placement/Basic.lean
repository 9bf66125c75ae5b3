import LarkCheck.Proofs.Grammar.Yield
import LarkCheck.Proofs.Tree.Placed

/-!
# Parsers give nodes at their tokens

A parser that succeeds has taken the tokens of what it gives, so the next parser finds
the tokens past those pieces. A list that is read item by item is placed if each of its
items is.
-/

namespace LarkCheck

open Token Piece LarkCheck.Parser

namespace Parser

variable {α : Type} {s s' s₀ : State} {ps : List Piece} {w : Weight}

/-- What the parser gives is placed at the tokens from the current one on. -/
def Places (p : Parser α) (placed : α → List Token → Prop) : Prop :=
  ∀ s a s', s.Ready → p s = .ok a s' → placed a s.tokens

theorem past_of_suffix (hsuffix : s'.tokens <:+ s.tokens)
    (hkinds : s.kinds = ps.map (·.kind) ++ s'.kinds) : s'.tokens = past ps s.tokens := by
  obtain ⟨taken, htaken⟩ := hsuffix
  have hlength : taken.length = ps.length := by
    have hsum := congrArg List.length hkinds
    simp only [State.kinds, ← htaken, List.map_append, List.length_append, List.length_map] at hsum
    omega
  rw [past, ← htaken, ← hlength, List.drop_left]

theorem Spans.past_eq (h : Spans s ps w s') : s'.tokens = past ps s.tokens :=
  past_of_suffix h.suffix h.kinds_eq

theorem Chained.past_eq (h : Chained s₀ ps w s) : s.tokens = past ps s₀.tokens :=
  past_of_suffix h.suffix h.kinds_eq

/-- What was read stands at the token that was current before. -/
theorem Spans.stands (h : Spans s ps w s') : Stands s.current.loc ps s.tokens :=
  ⟨rfl, s'.kinds, h.kinds_eq.symm⟩

theorem identifier_stands {n : Name} (hs : s.Ready) (h : identifier s = .ok n s') :
    Stands n.loc [name n.text] s.tokens := by
  have r := identifier_spans hs h
  unfold identifier at h
  split at h
  · simp only [bind_eq_ok, pure_eq_ok] at h
    obtain ⟨t, s₁, h, rfl, rfl⟩ := h
    obtain rfl := advance_fst h
    exact r.stands
  · exact absurd h fail_ne_ok

/-- A list is placed item by item, each past the ones before it. -/
structure PlacesEach (pieces : α → List Piece) (placed : α → List Token → Prop)
    (placedList : List α → List Token → Prop) : Prop where
  nil : ∀ ts, placedList [] ts
  cons : ∀ {a as ts}, placed a ts → placedList as (past (pieces a) ts) → placedList (a :: as) ts

theorem placesEach_exprs :
    PlacesEach (fun e => Expr.pieces e ++ [mark .comma]) Expr.Placed Expr.PlacedList :=
  ⟨fun _ => trivial, fun h h' => ⟨h, h'⟩⟩

theorem placesEach_pairs :
    PlacesEach (fun p => Pair.pieces p ++ [mark .comma]) Pair.Placed Pair.PlacedList :=
  ⟨fun _ => trivial, fun h h' => ⟨h, h'⟩⟩

theorem placesEach_params :
    PlacesEach (fun p => Param.pieces p ++ [mark .comma]) Param.Placed Param.PlacedList :=
  ⟨fun _ => trivial, fun h h' => ⟨h, h'⟩⟩

theorem placesEach_names : PlacesEach (fun n : Name => [name n.text] ++ [mark .comma])
    (fun n => Stands n.loc [name n.text]) Name.PlacedList :=
  ⟨fun _ => trivial, fun h h' => ⟨h, h'⟩⟩

theorem placesEach_sections : PlacesEach
    (fun x : Section => word x.access.keyword :: Block.slotPieces x.body)
    (fun x ts => x.Placed (past [word x.access.keyword] ts)) Section.PlacedFurther :=
  ⟨fun _ => trivial, fun h h' => ⟨h, h'⟩⟩

theorem placesEach_stmts : PlacesEach Stmt.pieces Stmt.Placed Stmt.PlacedList :=
  ⟨fun _ => trivial, fun h h' => ⟨h, h'⟩⟩

theorem placesEach_elseifs : PlacesEach
    (fun b : Branch => word .elseifKw :: (Expr.slotPieces b.test ++ Block.slotPieces b.body))
    Branch.PlacedElseif Branch.PlacedElseifs :=
  ⟨fun _ => trivial, fun h h' => ⟨h, h'⟩⟩

theorem placesEach_whens : PlacesEach
    (fun b : Branch =>
      word .whenKw :: (Expr.slotPieces b.test ++ word .thenKw :: Block.slotPieces b.body))
    Branch.PlacedWhen Branch.PlacedWhens :=
  ⟨fun _ => trivial, fun h h' => ⟨h, h'⟩⟩

section Repetition

variable {item : Parser α} {pieces : α → List Piece} {weight : α → Weight}
  {placed : α → List Token → Prop} {placedList : List α → List Token → Prop}

theorem many_places {more : State → Bool} (hl : PlacesEach pieces placed placedList)
    (hitem : ∀ s a s', s.Ready → more s = true → item s = .ok a s' →
      (∃ w, Spans s (pieces a) w s') ∧ placed a s.tokens) :
    Places (many more item) placedList := by
  intro s as s' hs h
  fun_induction many more item s generalizing as s' with
  | case1 s hm a s₁ ha _ rest s₂ hrest ih =>
    simp only [EStateM.Result.ok.injEq] at h
    obtain ⟨rfl, rfl⟩ := h
    obtain ⟨⟨w, r⟩, hplaced⟩ := hitem _ _ _ hs hm ha
    have hfurther := ih _ _ r.ready hrest
    rw [r.past_eq] at hfurther
    exact hl.cons hplaced hfurther
  | case2 => cases h
  | case3 s hm a s₁ ha =>
    simp only [EStateM.Result.ok.injEq] at h
    obtain ⟨rfl, rfl⟩ := h
    exact hl.cons (hitem _ _ _ hs hm ha).2 (hl.nil _)
  | case4 => cases h
  | case5 s hm =>
    simp only [EStateM.Result.ok.injEq] at h
    obtain ⟨rfl, rfl⟩ := h
    exact hl.nil _

/-- The items after the first one, each with the comma before it. -/
theorem PlacesEach.further
    (hl : PlacesEach (fun a => pieces a ++ [mark .comma]) placed placedList) :
    PlacesEach (fun a => mark .comma :: pieces a) (fun a ts => placed a (past [mark .comma] ts))
      (fun as ts => placedList as (past [mark .comma] ts)) where
  nil _ := hl.nil _
  cons {a as ts} ha has := by
    refine hl.cons ha ?_
    rw [← past_append] at has ⊢
    simpa using has

theorem separated_places (hl : PlacesEach (fun a => pieces a ++ [mark .comma]) placed placedList)
    (hr : Reads item pieces weight) (hp : Places item placed) :
    Places (separated item) placedList := by
  intro s as s' hs h
  obtain ⟨first, s₁, h₁, h⟩ := bind_eq_ok.1 h
  obtain ⟨rest, s₂, h₂, h⟩ := bind_eq_ok.1 h
  obtain ⟨rfl, rfl⟩ := pure_eq_ok.1 h
  have r₁ := hr _ _ _ hs h₁
  have hrest := many_places hl.further (fun s a s' hs hm h => ?_) _ _ _ r₁.ready h₂
  · refine hl.cons (hp _ _ _ hs h₁) ?_
    rwa [past_append, ← r₁.past_eq]
  · obtain ⟨t, s₁, h₁, h₂⟩ := bind_eq_ok.1 h
    have comma := (advance_spans hs (by simpa [State.isAt] using hm) (by simp) h₁).2
    have r := hr _ _ _ comma.ready h₂
    have hplaced := hp _ _ _ comma.ready h₂
    rw [comma.past_eq] at hplaced
    exact ⟨⟨_, comma.trans r⟩, hplaced⟩

theorem separatedUntil_places
    (hl : PlacesEach (fun a => pieces a ++ [mark .comma]) placed placedList)
    (hr : Reads item pieces weight) (hp : Places item placed) (close : Punctuation) :
    Places (separatedUntil close item) placedList := by
  intro s as s' hs h
  unfold separatedUntil at h
  split at h
  · cases h
    exact hl.nil _
  · exact separated_places hl hr hp _ _ _ hs h

end Repetition

theorem nested_places {p : Parser α} {placed : α → List Token → Prop} (hp : Places p placed) :
    Places (nested p) placed := by
  intro s a s' hs h
  obtain ⟨hguard, s₁, hrun, -⟩ := nested_eq_ok h
  exact hp s.enter _ _ ⟨hs.toBounded.enter hguard, hs.synced⟩ hrun

theorem after?_places {kind : Kind} {p : Parser α} {placed : α → List Token → Prop}
    (hne : kind ≠ .eof) (hp : Places p placed) {o : Option α} (hs : s.Ready)
    (h : after? kind p s = .ok o s') :
    o = none ∨ ∃ a, o = some a ∧ placed a (past [.free kind] s.tokens) := by
  unfold after? at h
  split at h
  · rename_i hk
    simp only [bind_eq_ok, map_eq_ok] at h
    obtain ⟨t, s₁, h₁, a, h₂, rfl⟩ := h
    have r := (advance_spans hs (by simpa [State.isAt] using hk) hne h₁).2
    exact .inr ⟨a, rfl, r.past_eq ▸ hp _ _ _ r.ready h₂⟩
  · cases h
    exact .inl rfl

end Parser

end LarkCheck
