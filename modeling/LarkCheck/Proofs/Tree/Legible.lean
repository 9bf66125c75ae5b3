import LarkCheck.Grammar.Expression
import LarkCheck.Proofs.Tree.Erase
import LarkCheck.Proofs.Tree.Readable

/-!
# Legible trees

A tree is legible if its names have the shape of names and its reals are finite. The
atoms of its form are then words that keep to themselves, and what an atom stands for can
be told from its text.
-/

namespace LarkCheck

open Token Piece

/-- Whether a token can be told from its text in a form. -/
@[simp] def Token.Kind.Legible : Kind → Prop
  | .ident text => IsName text
  | .real value => value.isFinite = true
  | _ => True

/-- All of the tokens are legible. -/
def Piece.Legible (ps : List Piece) : Prop :=
  ∀ p ∈ ps, p.kind.Legible

namespace Piece

@[simp] theorem legible_nil : Legible [] :=
  nofun

@[simp] theorem legible_cons {p : Piece} {ps : List Piece} :
    Legible (p :: ps) ↔ p.kind.Legible ∧ Legible ps :=
  List.forall_mem_cons

@[simp] theorem legible_append {ps qs : List Piece} :
    Legible (ps ++ qs) ↔ Legible ps ∧ Legible qs :=
  List.forall_mem_append

@[simp] theorem legible_lead {spacing : Spacing} {ps : List Piece} :
    Legible (lead spacing ps) ↔ Legible ps := by
  cases ps <;> simp [lead]

end Piece

theorem Expr.legible_listPieces {es : List Expr} :
    Legible (Expr.listPieces es) ↔ Legible (Expr.furtherPieces es) := by
  cases es <;> simp [Expr.listPieces, Expr.furtherPieces]

theorem Pair.legible_listPieces {ps : List Pair} :
    Legible (Pair.listPieces ps) ↔ Legible (Pair.furtherPieces ps) := by
  cases ps <;> simp [Pair.listPieces, Pair.furtherPieces]

theorem Param.legible_listPieces {ps : List Param} :
    Legible (Param.listPieces ps) ↔ Legible (Param.furtherPieces ps) := by
  cases ps <;> simp [Param.listPieces, Param.furtherPieces]

theorem Section.legible_listPieces {xs : List Section} :
    Legible (Section.listPieces xs) ↔ Legible (Section.furtherPieces xs) := by
  rcases xs with _ | ⟨⟨_, _, _⟩, _⟩ <;> simp [Section.listPieces, Section.furtherPieces]

namespace Form

/-- What the lexer would begin to read at the atom. -/
def opening? (text : String) : Option Opening :=
  text.toList.head?.bind Token.opening?

theorem opening?_of_isName {text : String} (h : IsName text) : opening? text = some .word := by
  obtain ⟨⟨first, rest, htext, hfirst, -⟩, -⟩ := h
  simp [opening?, htext, opening?_of_beginsWord hfirst]

theorem opening?_keyword (kw : Keyword) : opening? kw.spelling = some .word := by
  cases kw <;> decide

theorem opening?_quoted (value : String) : opening? (Text.quoted value) = some .string := by
  rw [opening?, toList_quoted]
  rfl

/-- Begins with a digit or a minus sign. -/
def IsNumeric (text : String) : Prop :=
  opening? text = some .number ∨ opening? text = some (.symbol (.operator .minus))

theorem isNumeric_of_head {text : String} {first : Char} {rest : List Char}
    (htext : text.toList = first :: rest) (h : isDigit first = true ∨ first = '-') :
    IsNumeric text := by
  rcases h with h | rfl
  · exact .inl (by simp [opening?, htext, opening?_of_isDigit h])
  · exact .inr (by rw [opening?, htext]; rfl)

theorem toList_toString_int_cons (value : Int) : ∃ first rest,
    (toString value).toList = first :: rest ∧ (isDigit first = true ∨ first = '-') ∧
      ∀ c ∈ rest, isDigit c = true := by
  rw [toList_toString_int]
  have hdigits : ∀ c ∈ Nat.toDigits 10 value.natAbs, isDigit c = true :=
    fun _ => isDigit_of_mem_toDigits
  split
  · exact ⟨'-', _, rfl, .inr rfl, hdigits⟩
  · obtain ⟨first, rest, heq⟩ :=
      List.exists_cons_of_ne_nil (@Nat.toDigits_ne_nil value.natAbs 10)
    rw [heq] at hdigits
    exact ⟨first, rest, heq, .inl (hdigits first List.mem_cons_self),
      fun c hc => hdigits c (List.mem_cons_of_mem _ hc)⟩

theorem isNumeric_int (value : Int) : IsNumeric (toString value) := by
  obtain ⟨first, rest, htext, hfirst, -⟩ := toList_toString_int_cons value
  exact isNumeric_of_head htext hfirst

theorem isNumeric_real {value : Double} (h : value.isFinite = true) : IsNumeric value.text := by
  obtain ⟨⟨first, rest, htext, hfirst⟩, -⟩ := Double.text_shape h
  exact isNumeric_of_head htext hfirst

/-- An integer has neither a point nor an `e`. -/
theorem toString_int_ne_text (value : Int) {real : Double} (h : real.isFinite = true) :
    toString value ≠ real.text := by
  intro heq
  obtain ⟨first, rest, htext, hfirst, hrest⟩ := toList_toString_int_cons value
  obtain ⟨-, -, hmarked⟩ := Double.text_shape h
  rw [← heq, htext] at hmarked
  have hmem : ∀ {c : Char}, isDigit c = false → c ≠ '-' → c ∉ first :: rest := by
    intro c hc hminus hmem
    rcases List.mem_cons.1 hmem with rfl | hmem
    · rcases hfirst with hfirst | hfirst
      · rw [hc] at hfirst
        cases hfirst
      · exact hminus hfirst
    · rw [hrest c hmem] at hc
      cases hc
  exact hmarked.elim (hmem (by decide) (by decide)) (hmem (by decide) (by decide))

theorem isMark_eq_false {p : Char → Bool} (hp : [' ', '(', ')', '"', '\n'].all (!p ·) = true)
    {c : Char} (hc : p c = true) : isMark c = false := by
  rw [Bool.eq_false_iff]
  intro hmark
  have hmem : c ∈ [' ', '(', ')', '"', '\n'] := by
    simpa [isMark, or_assoc] using hmark
  have hnot := List.all_eq_true.1 hp c hmem
  simp [hc] at hnot

theorem isMark_of_continuesWord {c : Char} (h : continuesWord c = true) : isMark c = false :=
  isMark_eq_false (by decide) h

theorem isBare_of_isName {text : String} (h : IsName text) : IsBare text := by
  obtain ⟨⟨first, rest, htext, hfirst, hrest⟩, -⟩ := h
  rw [IsBare, htext]
  exact List.forall_mem_cons.2 ⟨isMark_of_continuesWord (continuesWord_of_beginsWord hfirst),
    fun c hc => isMark_of_continuesWord (hrest c hc)⟩

theorem isBare_int (value : Int) : IsBare (toString value) := by
  obtain ⟨first, rest, htext, hfirst, hrest⟩ := toList_toString_int_cons value
  have hdigit : ∀ {c : Char}, isDigit c = true → isMark c = false := isMark_eq_false (by decide)
  rw [IsBare, htext]
  refine List.forall_mem_cons.2 ⟨?_, fun c hc => hdigit (hrest c hc)⟩
  rcases hfirst with hfirst | rfl
  · exact hdigit hfirst
  · rfl

theorem isBare_real {value : Double} (h : value.isFinite = true) : IsBare value.text := by
  intro c hc
  rcases (Double.text_shape h).2.1 c hc with hdigit | hmem
  · exact isMark_eq_false (p := isDigit) (by decide) hdigit
  · exact isMark_eq_false (p := fun c => ['.', '-', 'e'].contains c) (by decide)
      (by simpa using hmem)

theorem mem_intercalate {sep : List Char} {parts : List (List Char)} {c : Char}
    (h : c ∈ sep.intercalate parts) : c ∈ sep ∨ ∃ part ∈ parts, c ∈ part := by
  induction parts with
  | nil => cases h
  | cons part parts ih =>
    cases parts with
    | nil => exact .inr ⟨part, List.mem_cons_self, by simpa using h⟩
    | cons next parts =>
      rw [List.intercalate_cons_cons, List.append_assoc] at h
      rcases List.mem_append.1 h with hpart | h
      · exact .inr ⟨part, List.mem_cons_self, hpart⟩
      rcases List.mem_append.1 h with hsep | h
      · exact .inl hsep
      · exact (ih h).imp_right fun ⟨part, hpart, hc⟩ => ⟨part, List.mem_cons_of_mem _ hpart, hc⟩

theorem isBare_path {path : List String} (h : ∀ text ∈ path, IsName text) :
    IsBare (".".intercalate path) := by
  intro c hc
  rw [String.toList_intercalate] at hc
  rcases mem_intercalate hc with hpoint | ⟨part, hpart, hc⟩
  · rw [List.mem_singleton.1 hpoint]
    rfl
  · obtain ⟨text, htext, rfl⟩ := List.mem_map.1 hpart
    exact isBare_of_isName (h text htext) c hc

theorem point_notMem_of_isName {text : String} (h : IsName text) : '.' ∉ text.toList := by
  obtain ⟨⟨first, rest, htext, hfirst, hrest⟩, -⟩ := h
  rw [htext]
  intro hmem
  have hpoint : continuesWord '.' = true := by
    rcases List.mem_cons.1 hmem with heq | hmem
    · exact heq ▸ continuesWord_of_beginsWord hfirst
    · exact hrest _ hmem
  cases hpoint

theorem splitOn_path {path : List String} (h : ∀ text ∈ path, IsName text) (hne : path ≠ []) :
    (".".intercalate path).toList.splitOn '.' = path.map String.toList := by
  rw [String.toList_intercalate]
  refine List.splitOn_intercalate '.' (fun part hpart => ?_) (by simpa using hne)
  obtain ⟨text, htext, rfl⟩ := List.mem_map.1 hpart
  exact point_notMem_of_isName (h text htext)

/-- The names of a path can be told from its text. -/
theorem path_injective {path path' : List String} (h : ∀ text ∈ path, IsName text)
    (h' : ∀ text ∈ path', IsName text) (heq : ".".intercalate path = ".".intercalate path') :
    path = path' := by
  -- a path of no names has no text, and any other has the text of a name in it
  have hempty : ∀ {first : String} {path : List String}, (∀ text ∈ first :: path, IsName text) →
      "" ≠ ".".intercalate (first :: path) := by
    intro first path h heq
    have hsplit := splitOn_path h (List.cons_ne_nil _ _)
    rw [← heq] at hsplit
    obtain ⟨⟨c, rest, htext, -⟩, -⟩ := h first List.mem_cons_self
    rw [List.map_cons, htext] at hsplit
    cases hsplit
  cases path with
  | nil =>
    cases path' with
    | nil => rfl
    | cons => exact absurd heq (hempty h')
  | cons text path =>
    cases path' with
    | nil => exact absurd heq.symm (hempty h)
    | cons =>
      have hsplit := splitOn_path h (List.cons_ne_nil _ _)
      rw [heq, splitOn_path h' (List.cons_ne_nil _ _)] at hsplit
      exact (List.map_injective_iff.2 fun _ _ => String.toList_inj.1) hsplit.symm

/-- The expression without a place that an atom stands for, with the sort of the atom. -/
inductive AtomOf : Opening → Expr → String → Prop
  | name {text : String} : IsName text → AtomOf .word (.ident .start text) text
  | reserved {kw : Keyword} {e : Expr} : Parser.atom? .start (Kind.ofKeyword kw) = some e →
    AtomOf .word e kw.spelling
  | int (value : Int) : AtomOf .number (.int .start value) (toString value)
  | real {value : Double} : value.isFinite = true → AtomOf .number (.real .start value) value.text
  | string (value : String) : AtomOf .string (.string .start value) (Text.quoted value)

variable {sort sort' : Opening} {e e' : Expr} {text text' : String}

theorem AtomOf.opening (h : AtomOf sort e text) : opening? text = some sort ∨
    sort = .number ∧ opening? text = some (.symbol (.operator .minus)) := by
  cases h with
  | name hname => exact .inl (opening?_of_isName hname)
  | reserved => exact .inl (opening?_keyword _)
  | int value => exact (isNumeric_int value).imp_right fun h => ⟨rfl, h⟩
  | real hfinite => exact (isNumeric_real hfinite).imp_right fun h => ⟨rfl, h⟩
  | string value => exact .inl (opening?_quoted value)

theorem AtomOf.sort_ne_symbol (h : AtomOf sort e text) (kind : Kind) : sort ≠ .symbol kind := by
  cases h <;> exact nofun

/-- The sort of an atom is told by its first character. -/
theorem AtomOf.sort_eq (h : AtomOf sort e text) (h' : AtomOf sort' e' text) : sort = sort' := by
  have hsymbol := h.sort_ne_symbol
  have hsymbol' := h'.sort_ne_symbol
  rcases h.opening with hopen | ⟨rfl, hopen⟩ <;> rcases h'.opening with hopen' | ⟨rfl, hopen'⟩ <;>
    rw [hopen] at hopen' <;> cases hopen'
  · rfl
  · exact absurd rfl (hsymbol _)
  · exact absurd rfl (hsymbol' _)

/-- What an atom stands for is told by its text. -/
theorem AtomOf.eq (h : AtomOf sort e text) (h' : AtomOf sort e' text') (heq : text = text') :
    e = e' := by
  cases h with
  | name hname =>
    cases h' with
    | name => rw [heq]
    | reserved => exact absurd heq.symm (hname.2 _)
  | @reserved kw _ hkw =>
    cases h' with
    | name hname => exact absurd heq (hname.2 _)
    | @reserved kw' _ hkw' =>
      have hsame : kw = kw' := by
        revert heq
        cases kw <;> cases kw' <;> decide
      rw [hsame, hkw'] at hkw
      exact Option.some.inj hkw.symm
  | int value =>
    cases h' with
    | int => rw [toString_int_injective heq]
    | real hfinite => exact absurd heq (toString_int_ne_text value hfinite)
  | real hfinite =>
    cases h' with
    | int value => exact absurd heq.symm (toString_int_ne_text value hfinite)
    | real hfinite' => rw [Double.text_injective hfinite hfinite' heq]
  | string value =>
    cases h' with
    | string value' =>
      rw [← String.toList_inj, toList_quoted, toList_quoted] at heq
      rw [(Text.quotedChars_append_inj (congrArg (· ++ []) heq)).1]

end Form

open Form

/-- A legible expression whose form is an atom is what the atom stands for. -/
theorem Expr.atomOf_of_form {e : Expr} {text : String} (he : Legible e.pieces)
    (h : e.form = .atom text) : ∃ sort, AtomOf sort e.erase text := by
  cases e with
  | ident _ name =>
    cases h
    exact ⟨_, .name (he _ List.mem_cons_self)⟩
  | nil =>
    cases h
    exact ⟨_, @AtomOf.reserved .nilKw _ rfl⟩
  | bool _ value =>
    cases h
    cases value with
    | false => exact ⟨_, @AtomOf.reserved .falseKw _ rfl⟩
    | true => exact ⟨_, @AtomOf.reserved .trueKw _ rfl⟩
  | receiver =>
    cases h
    exact ⟨_, @AtomOf.reserved .thisKw _ rfl⟩
  | int _ value =>
    cases h
    exact ⟨_, .int value⟩
  | real _ value =>
    cases h
    exact ⟨_, .real (he _ List.mem_cons_self)⟩
  | string _ value =>
    cases h
    exact ⟨_, .string value⟩
  | _ => cases h

theorem Expr.erase_eq_of_atom {e e' : Expr} {text : String} (he : Legible e.pieces)
    (he' : Legible e'.pieces) (h : e.form = .atom text) (h' : e'.form = .atom text) :
    e.erase = e'.erase := by
  obtain ⟨sort, hatom⟩ := e.atomOf_of_form he h
  obtain ⟨sort', hatom'⟩ := e'.atomOf_of_form he' h'
  obtain rfl := hatom.sort_eq hatom'
  exact hatom.eq hatom' rfl

end LarkCheck
