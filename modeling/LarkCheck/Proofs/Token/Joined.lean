import LarkCheck.Proofs.Token.Layout

/-!
# Lexing undoes spelling

Tokens that can be written are spelled one after the other, with white space between
any two of them. The text lexes to these tokens and the end of the file, and nothing
is reported: the tables for writing a token and those for reading it are inverse, and
no lexeme goes on into the white space after it.
-/

namespace LarkCheck

open Token

/-- The spellings of tokens, any two of them with white space between. -/
inductive Joined : List Kind → List Char → Prop
  | nil : Joined [] []
  | single (kind : Kind) : Joined [kind] kind.spelling
  | cons {kind next : Kind} {kinds : List Kind} {white text : List Char} (hne : white ≠ [])
    (hwhite : white.all isWhite = true) (h : Joined (next :: kinds) text) :
    Joined (kind :: next :: kinds) (kind.spelling ++ (white ++ text))

/-- Tokens may be joined by the same white space everywhere. -/
theorem joined_intercalate {white : List Char} (hne : white ≠ [])
    (hwhite : white.all isWhite = true) (kinds : List Kind) :
    Joined kinds (white.intercalate (kinds.map Kind.spelling)) := by
  induction kinds with
  | nil => exact .nil
  | cons kind kinds ih =>
    cases kinds with
    | nil => simpa using Joined.single kind
    | cons next kinds =>
      have h : Joined (kind :: next :: kinds) _ := .cons hne hwhite ih
      simpa [List.intercalate, List.append_assoc] using h

namespace Token

theorem ended_white {white : List Char} (hne : white ≠ []) (hwhite : white.all isWhite = true)
    (text : List Char) : Ended (white ++ text) := by
  obtain ⟨c, white, rfl⟩ := List.exists_cons_of_ne_nil hne
  rintro _ ⟨⟩
  exact (Bool.and_eq_true_iff.1 hwhite).1

/-- After white space the readings of joined tokens give them one after the other, without a
report. -/
theorem readings_joined {kinds : List Kind} {text : List Char} (h : Joined kinds text)
    (hkinds : ∀ kind ∈ kinds, kind.Writable) {white : List Char} (hwhite : white.all isWhite = true)
    (offset : Nat) (loc : Location) :
    ∃ tokens : List Token, readings ⟨white ++ text, offset, loc⟩ = tokens.map (⟨[], some ·⟩) ∧
      tokens.map (·.kind) = kinds ++ [.eof] := by
  have last : ∀ {white : List Char}, white.all isWhite = true → ∀ offset loc,
      ∃ tokens : List Token, readings ⟨white, offset, loc⟩ = tokens.map (⟨[], some ·⟩) ∧
        tokens.map (·.kind) = [.eof] := fun hwhite offset loc =>
    ⟨[⟨.eof, _⟩], readings_white hwhite offset loc, rfl⟩
  induction h generalizing white offset loc with
  | nil => simpa using last hwhite offset loc
  | single kind =>
    have hended : Ended [] := nofun
    obtain ⟨offset', loc', heq, -⟩ :=
      readings_spelling (hkinds kind List.mem_cons_self) hwhite hended offset loc
    obtain ⟨tokens, hreadings, htokens⟩ := last (List.all_nil : [].all isWhite = true) offset' loc'
    rw [List.append_nil, hreadings] at heq
    exact ⟨⟨kind, _⟩ :: tokens, heq, congrArg (kind :: ·) htokens⟩
  | @cons kind next kinds between text hne hbetween _ ih =>
    obtain ⟨hkind, hrest⟩ := List.forall_mem_cons.1 hkinds
    obtain ⟨offset', loc', heq, -⟩ :=
      readings_spelling hkind hwhite (ended_white hne hbetween text) offset loc
    obtain ⟨tokens, hreadings, htokens⟩ := ih hrest hbetween offset' loc'
    rw [hreadings] at heq
    exact ⟨⟨kind, _⟩ :: tokens, heq, congrArg (kind :: ·) htokens⟩

end Token

/-- Joined tokens lex to themselves and the end of the file, and nothing is reported. -/
theorem lex_of_joined {kinds : List Kind} {text : List Char}
    (hkinds : ∀ kind ∈ kinds, kind.Writable) (h : Joined kinds text) (log : Log) :
    ∃ tokens, lex log text = (some tokens, log) ∧ tokens.map (·.kind) = kinds ++ [.eof] := by
  have hwhite : [].all isWhite = true := List.all_nil
  obtain ⟨tokens, hreadings, htokens⟩ := readings_joined h hkinds hwhite 0 .start
  rw [List.nil_append] at hreadings
  refine ⟨tokens, ?_, htokens⟩
  have hnews : (readings (.start text)).flatMap (·.news) = [] := by
    simp [Cursor.start, hreadings, List.flatMap_map]
  have hgiven : (readings (.start text)).filterMap (·.token) = tokens := by
    rw [Cursor.start, hreadings, List.filterMap_map]
    exact List.filterMap_some
  simp [lex, hnews, hgiven, Log.append]

/-- Symbols of which one begins the other, the greatest integer, and a string of quotes,
backslashes, controls and line separators. -/
def spelledKinds : List Kind :=
  [.operator .less, .operator .lessEqual, .operator .assign, .punctuation .dot,
    .int 9223372036854775807, .keyword .endKw, .ident "end_", .bool true, .nil,
    .string "\"\\\n\r\x00\u2028\u0085'"]

def spelledText : List Char :=
  ("<\u0085 <=\u0085 =\u0085 .\u0085 9223372036854775807\u0085 end\u0085 end_\u0085 true\u0085 " ++
    "nil\u0085 \"\\\"\\\\\\n\\r\\0\u2028\u0085'\"").toList

theorem lex_of_joined_spelledText :
    (∀ kind ∈ spelledKinds, kind.Writable) ∧ Joined spelledKinds spelledText ∧
      ∃ tokens, lex (.empty "u") spelledText = (some tokens, .empty "u") ∧
        tokens.map (·.kind) = spelledKinds ++ [.eof] := by
  have writable : ∀ kind ∈ spelledKinds, kind.Writable := by decide +kernel
  have joined : Joined spelledKinds spelledText := by
    have htext : ['\u0085', ' '].intercalate (spelledKinds.map Kind.spelling) = spelledText := by
      decide +kernel
    rw [← htext]
    exact joined_intercalate (by decide) (by decide) spelledKinds
  exact ⟨writable, joined, lex_of_joined writable joined _⟩

end LarkCheck
