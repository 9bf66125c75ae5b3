import LarkCheck.Proofs.Grammar.Yield
import LarkCheck.Proofs.Token.Lexicon
import LarkCheck.Proofs.Token.Scans
import LarkCheck.Proofs.Tree.Recover

/-!
# A dump tells the unit

The names of an accepted text have the shape of names, so its tree is legible if its reals
are finite. Each top-level statement then has one line of the dump to itself, and the lines
tell the unit up to its places.
-/

namespace LarkCheck

open Token Piece Form

namespace Token

variable {c : Cursor} {text : String}

theorem isName_of_wordKind {first : Char} {rest : List Char} (hfirst : beginsWord first = true)
    (hrest : ∀ c ∈ rest, continuesWord c = true) (h : wordKind (first :: rest) = .ident text) :
    IsName text := by
  by_cases hreserved : ∃ kw : Keyword, kw.spelling.toList = first :: rest
  · obtain ⟨kw, hkw⟩ := hreserved
    rw [← hkw, wordKind_spelling] at h
    cases kw <;> cases h
  · have hkw : ∀ kw : Keyword, kw.spelling.toList ≠ first :: rest :=
      fun kw hkw => hreserved ⟨kw, hkw⟩
    rw [wordKind_name hfirst hrest hkw] at h
    rw [← Kind.ident.inj h]
    exact isName_ofList hfirst hrest hkw

theorem isName_of_readLexeme {first : Char} {tail : List Char} {opening : Opening}
    (hc : c.rest = first :: tail) (hopening : opening? first = some opening)
    (h : (readLexeme opening c).kind = some (.ident text)) : IsName text := by
  cases opening with
  | string =>
    simp only [readLexeme, readString] at h
    split at h <;> cases h
  | number =>
    simp only [readLexeme, readNumber] at h
    split at h
    · cases h
    · split at h <;> cases h
  | word =>
    have hfirst := opening?_eq_word hopening
    have htake : c.rest.takeWhile continuesWord = first :: tail.takeWhile continuesWord := by
      rw [hc, List.takeWhile_cons_of_pos (continuesWord_of_beginsWord hfirst)]
    simp only [readLexeme, readWord, htake, Option.some.injEq] at h
    exact isName_of_wordKind hfirst (List.all_eq_true.1 List.all_takeWhile) h
  | symbol single =>
    have hsingle : single ≠ .ident text := by
      rcases opening?_eq_symbol hopening with ⟨op, rfl⟩ | ⟨mark, rfl⟩ <;> simp
    simp only [readLexeme, readSymbol] at h
    split at h
    · split at h
      · cases h
      · exact absurd (Option.some.inj h) hsingle
    · exact absurd (Option.some.inj h) hsingle

theorem isName_of_read {token : Token} (h : c.read.1.token = some token)
    (hkind : token.kind = .ident text) : IsName text := by
  cases hopening : c.gap.opening with
  | none =>
    rw [read_of_none hopening] at h
    rw [← Option.some.inj h] at hkind
    cases hkind
  | some opening =>
    obtain ⟨first, tail, hrest, hfirst⟩ :=
      (gapFrom_rest false c.rest c.offset c.loc).2 opening hopening
    rw [read_of_some hopening] at h
    obtain ⟨kind, hlexeme, rfl⟩ := Option.map_eq_some_iff.1 h
    exact isName_of_readLexeme hrest hfirst (hlexeme.trans (congrArg some hkind))

/-- Every name that the lexer gives has the shape of a name. -/
theorem isName_of_mem_readings {r : Reading} {token : Token} (hr : r ∈ readings c)
    (h : r.token = some token) (hkind : token.kind = .ident text) : IsName text := by
  fun_induction readings c with
  | case1 c ih =>
    rcases List.mem_cons.1 hr with rfl | hr
    · exact isName_of_read h hkind
    · by_cases heof : c.read.1.isEof = true
      · simp [heof] at hr
      · simp only [heof, dif_neg, Bool.false_eq_true, not_false_eq_true] at hr
        exact ih heof hr

end Token

theorem isName_of_lex {log log' : Log} {text : List Char} {tokens : List Token}
    (h : lex log text = (some tokens, log')) {token : Token} (htoken : token ∈ tokens)
    {name : String} (hkind : token.kind = .ident name) : IsName name := by
  simp only [lex, Prod.mk.injEq] at h
  obtain ⟨h, -⟩ := h
  split at h
  · cases h
  · rw [← Option.some.inj h] at htoken
    obtain ⟨r, hr, hread⟩ := List.mem_filterMap.1 htoken
    exact isName_of_mem_readings hr hread hkind

theorem legible_of_parse {log : Log} {text : List Char} {unit : Block}
    (h : (parse log text).1 = some unit)
    (hfinite : ∀ value, .real value ∈ unit.yield → value.isFinite = true) :
    Legible unit.pieces := by
  obtain ⟨tokens, hlex, hkinds⟩ := lex_of_parse h
  intro p hp
  have hyield : p.kind ∈ unit.yield := List.mem_map_of_mem hp
  cases hkind : p.kind with
  | ident name =>
    have hmem : p.kind ∈ tokens.map (·.kind) := by
      rw [hkinds]
      exact List.mem_append_left _ hyield
    obtain ⟨token, htoken, hsame⟩ := List.mem_map.1 hmem
    exact isName_of_lex hlex htoken (hsame.trans hkind)
  | real value => exact hfinite value (hkind ▸ hyield)
  | _ => trivial

/-- The lines of a text; one without characters has none. -/
def Text.linesOf (text : String) : List (List Char) :=
  if text = "" then [] else text.toList.splitOn '\n'

theorem Stmt.legible_listPieces {xs : List Stmt} :
    Legible (Stmt.listPieces xs) ↔ ∀ x ∈ xs, Legible x.pieces := by
  induction xs with
  | nil => simp [Stmt.listPieces]
  | cons x xs ih => simp [Stmt.listPieces, ih]

theorem Expr.chars_form_ne_nil {e : Expr} (he : Legible e.pieces) : e.form.chars ≠ [] := by
  cases hform : e.form with
  | list items => cases items <;> simp [chars]
  | atom text =>
    obtain ⟨sort, hatom⟩ := e.atomOf_of_form he hform
    intro htext
    have hopen : Form.opening? text = none := by
      rw [Form.opening?, show text.toList = [] from htext]
      rfl
    rcases hatom.opening with h | ⟨-, h⟩ <;> rw [hopen] at h <;> cases h

/-- No line of a dump is empty. -/
theorem Stmt.chars_form_ne_nil {x : Stmt} (hx : Legible x.pieces) : x.form.chars ≠ [] := by
  cases x with
  | expr _ e =>
    cases e with
    | none => simp [Stmt.form, Expr.slotForm, missing, chars]
    | some e => exact Expr.chars_form_ne_nil hx
  | returnValue _ value => cases value <;> simp [Stmt.form, tagged, chars]
  | _ => simp [Stmt.form, tagged, chars]

theorem Block.pieces_eq (b : Block) : b.pieces = Stmt.listPieces b.stmts := by
  cases b
  rfl

theorem Block.form_eq (b : Block) : b.form = tagged "block" (Stmt.listForms b.stmts) := by
  cases b
  rfl

theorem Block.toList_dump (unit : Block) :
    unit.dump.toList = ['\n'].intercalate (unit.stmts.map (·.form.chars)) := by
  rw [Block.dump, String.toList_intercalate, List.map_map]
  simp [Function.comp_def, Form.text]

/-- The lines of a dump are the texts of the top-level statements. -/
theorem Block.linesOf_dump {unit : Block} (h : Legible unit.pieces) :
    Text.linesOf unit.dump = unit.stmts.map (·.form.chars) := by
  rw [Block.pieces_eq, Stmt.legible_listPieces] at h
  cases hstmts : unit.stmts with
  | nil => simp [Block.dump, hstmts, Text.linesOf]
  | cons x xs =>
    have hsplit : unit.dump.toList.splitOn '\n' = unit.stmts.map (·.form.chars) := by
      rw [toList_dump]
      refine List.splitOn_intercalate '\n' (fun line hline => ?_) (by simp [hstmts])
      obtain ⟨stmt, hstmt, rfl⟩ := List.mem_map.1 hline
      exact newline_notMem_chars (Stmt.clean_form (h stmt hstmt))
    have hne : unit.dump ≠ "" := by
      intro hempty
      rw [hempty, hstmts] at hsplit
      have hx := Stmt.chars_form_ne_nil (h x (by rw [hstmts]; exact List.mem_cons_self))
      exact hx (List.cons.inj hsplit).1.symm
    rw [Text.linesOf, if_neg hne, hsplit, hstmts]

theorem Stmt.listForms_eq_of_lines : ∀ {xs xs' : List Stmt}, (∀ x ∈ xs, Legible x.pieces) →
    (∀ x ∈ xs', Legible x.pieces) → xs.map (·.form.chars) = xs'.map (·.form.chars) →
    Stmt.listForms xs = Stmt.listForms xs'
  | [], [], _, _, _ => rfl
  | [], _ :: _, _, _, h => nomatch h
  | _ :: _, [], _, _, h => nomatch h
  | x :: xs, x' :: xs', hx, hx', h => by
    obtain ⟨hx, hxs⟩ := List.forall_mem_cons.1 hx
    obtain ⟨hx', hxs'⟩ := List.forall_mem_cons.1 hx'
    obtain ⟨hhead, htail⟩ := List.cons.inj h
    rw [Stmt.listForms, Stmt.listForms,
      eq_of_chars (Stmt.clean_form hx) (Stmt.clean_form hx') hhead,
      listForms_eq_of_lines hxs hxs' htail]

theorem Block.erase_eq_of_dump {unit unit' : Block} (h : Legible unit.pieces)
    (h' : Legible unit'.pieces) (hdump : unit.dump = unit'.dump) : unit.erase = unit'.erase := by
  have hlines := congrArg Text.linesOf hdump
  rw [linesOf_dump h, linesOf_dump h'] at hlines
  refine Block.erase_eq_of_form h h' ?_
  rw [pieces_eq, Stmt.legible_listPieces] at h h'
  rw [form_eq, form_eq, Stmt.listForms_eq_of_lines h h' hlines]

/-- The dump of an accepted text with finite reals has one line for each top-level statement,
and no other such tree has the same dump. -/
theorem dump_of_parse {log log' : Log} {text text' : List Char} {unit unit' : Block}
    (h : (parse log text).1 = some unit) (h' : (parse log' text').1 = some unit')
    (hfinite : ∀ value, .real value ∈ unit.yield → value.isFinite = true)
    (hfinite' : ∀ value, .real value ∈ unit'.yield → value.isFinite = true) :
    Text.linesOf unit.dump = unit.stmts.map (·.form.text.toList) ∧
      (∀ stmt ∈ unit.stmts, '\n' ∉ stmt.form.text.toList) ∧
      (unit.dump = unit'.dump → unit.erase = unit'.erase) := by
  have hlegible := legible_of_parse h hfinite
  have htext : ∀ form : Form, form.text.toList = form.chars := fun _ => String.toList_ofList
  simp only [htext]
  refine ⟨Block.linesOf_dump hlegible, fun stmt hstmt => ?_,
    Block.erase_eq_of_dump hlegible (legible_of_parse h' hfinite')⟩
  rw [Block.pieces_eq, Stmt.legible_listPieces] at hlegible
  exact newline_notMem_chars (Stmt.clean_form (hlegible stmt hstmt))

theorem dump_of_parse_layout :
    ∃ unit unit',
      (parse (.empty "u") "x = [1, \"a\\n\"]\nf(x).g".toList).1 = some unit ∧
      (parse (.empty "v") "x =\n  [1,\"a\\n\"]  # twice\nf( x ).g\n".toList).1 = some unit' ∧
      Text.linesOf unit.dump = unit.stmts.map (·.form.text.toList) ∧
      unit.dump = unit'.dump ∧ unit.erase = unit'.erase := by
  have hread : ∀ log text, ((parse log text).1.map fun unit => (unit.yield, unit.dump)) = some
      ([.ident "x", .operator .assign, .punctuation .lbracket, .int 1, .punctuation .comma,
        .string "a\n", .punctuation .rbracket, .ident "f", .punctuation .lparen, .ident "x",
        .punctuation .rparen, .punctuation .dot, .ident "g"],
        "(assign x (array 1 \"a\\n\"))\n(member (call f x) g)") →
      ∃ unit, (parse log text).1 = some unit ∧
        (∀ value, .real value ∈ unit.yield → value.isFinite = true) ∧
        unit.dump = "(assign x (array 1 \"a\\n\"))\n(member (call f x) g)" := by
    intro log text h
    obtain ⟨unit, hresult, hunit⟩ := Option.map_eq_some_iff.1 h
    obtain ⟨hyield, hdump⟩ := Prod.mk.inj hunit
    exact ⟨unit, hresult, by simp [hyield], hdump⟩
  obtain ⟨unit, h, hfinite, hdump⟩ :=
    hread (.empty "u") "x = [1, \"a\\n\"]\nf(x).g".toList (by decide +kernel)
  obtain ⟨unit', h', hfinite', hdump'⟩ :=
    hread (.empty "v") "x =\n  [1,\"a\\n\"]  # twice\nf( x ).g\n".toList (by decide +kernel)
  have hsame := hdump.trans hdump'.symm
  obtain ⟨hlines, -, herase⟩ := dump_of_parse h h' hfinite hfinite'
  exact ⟨unit, unit', h, h', hlines, hsame, herase hsame⟩

end LarkCheck
