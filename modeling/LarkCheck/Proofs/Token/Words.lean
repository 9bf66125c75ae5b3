import LarkCheck.Proofs.Token.LongestMatch

/-!
# Reserved words

A word is looked up among the reserved words of its length only, and a word with a
digit or an underscore is not looked up at all. Nothing is missed by this: the answer is
that of comparing the word with every reserved word, one after the other.
-/

namespace LarkCheck

namespace Keyword

/-- The first of all reserved words with this spelling. -/
def search? (word : String) : Option Keyword :=
  all.find? fun kw => kw.spelling == word

variable {word : String} {kw : Keyword}

theorem search?_spelling (kw : Keyword) : search? kw.spelling = some kw := by
  cases kw <;> decide

theorem search?_eq_some_iff : search? word = some kw ↔ kw.spelling = word := by
  constructor
  · intro h
    simpa using List.find?_some h
  · rintro rfl
    exact search?_spelling kw

theorem spelling_injective {kw kw' : Keyword} (h : kw.spelling = kw'.spelling) : kw = kw' := by
  have hfound := search?_spelling kw
  rw [h, search?_spelling kw'] at hfound
  exact (Option.some.inj hfound).symm

theorem length_spelling (kw : Keyword) :
    minLength ≤ kw.spelling.length ∧ kw.spelling.length ≤ maxLength := by
  cases kw <;> decide

theorem ofSpelling?_eq_some_iff : ofSpelling? word = some kw ↔ kw.spelling = word := by
  unfold ofSpelling?
  constructor
  · intro h
    split at h
    · simpa using List.find?_some h
    · cases h
  · rintro rfl
    rw [if_pos (length_spelling kw)]
    cases hfind : (ofLength kw.spelling.length).find? fun kw' => kw'.spelling == kw.spelling with
    | none =>
      have hother := List.find?_eq_none.1 hfind kw (mem_ofLength_spelling kw)
      simp at hother
    | some kw' =>
      have hspelling := List.find?_some hfind
      rw [spelling_injective (beq_iff_eq.1 hspelling)]

theorem ofSpelling?_eq_search? (word : String) : ofSpelling? word = search? word := by
  apply Option.ext
  intro kw
  rw [ofSpelling?_eq_some_iff, search?_eq_some_iff]

/-- What has a digit or an underscore is not reserved. -/
theorem all_isLetter_spelling (kw : Keyword) : kw.spelling.toList.all Token.isLetter = true := by
  cases kw <;> decide

end Keyword

namespace Token

/-- The kinds that reserved words have: `true`, `false` and `nil` are values. -/
inductive Kind.Reserved : Kind → Prop
  | keyword (kw : Keyword) : Kind.Reserved (.keyword kw)
  | bool (value : Bool) : Kind.Reserved (.bool value)
  | nil : Kind.Reserved .nil

theorem reserved_ofKeyword (kw : Keyword) : (Kind.ofKeyword kw).Reserved := by
  cases kw <;> constructor

theorem wordKind_of_search?_eq_some {word : List Char} {kw : Keyword}
    (h : Keyword.search? (String.ofList word) = some kw) : wordKind word = .ofKeyword kw := by
  have hword : word = kw.spelling.toList := by
    rw [Keyword.search?_eq_some_iff.1 h, String.toList_ofList]
  have hletters : word.all isLetter = true := by
    rw [hword]
    exact Keyword.all_isLetter_spelling kw
  rw [wordKind, if_pos hletters, Keyword.ofSpelling?_eq_search?, h]

theorem wordKind_of_search?_eq_none {word : List Char}
    (h : Keyword.search? (String.ofList word) = none) :
    wordKind word = .ident (String.ofList word) := by
  rw [wordKind, Keyword.ofSpelling?_eq_search?, h, ite_self]

/-- Reading a word is comparing it with all reserved words, and the look-up by length is too. -/
theorem readWord_search :
    (∀ word : String, Keyword.ofSpelling? word = Keyword.search? word) ∧
    ∀ (c : Cursor) (first : Char) (rest more : List Char), c.rest = first :: rest ++ more →
      beginsWord first = true → (∀ d ∈ rest, continuesWord d = true) →
      (∀ d ∈ more.head?, continuesWord d = false) →
      ∃ kind, readWord c = ⟨some kind, [], ⟨more, c.offset + (first :: rest).length,
          c.loc.advance (first :: rest).length⟩⟩ ∧
        c.read = (⟨[], some ⟨kind, c.loc⟩⟩, (readWord c).after) ∧
        (kind.Reserved ↔ ∃ kw, Keyword.search? (String.ofList (first :: rest)) = some kw) ∧
        (∀ kw, Keyword.search? (String.ofList (first :: rest)) = some kw → Registered kw kind) ∧
        (Keyword.search? (String.ofList (first :: rest)) = none →
          kind = .ident (String.ofList (first :: rest))) := by
  constructor
  · exact Keyword.ofSpelling?_eq_search?
  intro c first rest more hc hfirst hrest hmore
  have hword : ∀ d ∈ first :: rest, continuesWord d = true :=
    List.forall_mem_cons.2 ⟨continuesWord_of_beginsWord hfirst, hrest⟩
  have hread : readWord c = ⟨some (wordKind (first :: rest)), [], ⟨more,
      c.offset + (first :: rest).length, c.loc.advance (first :: rest).length⟩⟩ := by
    have htake : c.rest.takeWhile continuesWord = first :: rest := by
      rw [hc, takeWhile_append_of_stops hword hmore]
    rw [readWord, htake, Cursor.pass, hc, List.drop_left]
  refine ⟨wordKind (first :: rest), hread, ?_, ?_, ?_, ?_⟩
  · rw [read_of_opening hc (opening?_of_beginsWord hfirst), readLexeme, hread]
    rfl
  · constructor
    · intro hreserved
      cases hsearch : Keyword.search? (String.ofList (first :: rest)) with
      | some kw => exact ⟨kw, rfl⟩
      | none =>
        rw [wordKind_of_search?_eq_none hsearch] at hreserved
        cases hreserved
    · rintro ⟨kw, hkw⟩
      rw [wordKind_of_search?_eq_some hkw]
      exact reserved_ofKeyword kw
  · exact fun kw hkw => registered_iff.2 (wordKind_of_search?_eq_some hkw).symm
  · exact wordKind_of_search?_eq_none

/-- A reserved word of the greatest length, and a name that only begins as one. -/
theorem readWord_search_foreach :
    (readWord (.start "foreach(".toList)).kind = some (.keyword .foreachKw) ∧
      (readWord (.start "for_each(".toList)).kind = some (.ident "for_each") := by
  have hstop : ∀ d ∈ ['('].head?, continuesWord d = false := by
    rintro _ ⟨⟩
    rfl
  constructor
  · obtain ⟨kind, hread, -, -, hsome, -⟩ := readWord_search.2 (.start "foreach(".toList) 'f'
      "oreach".toList ['('] rfl (by decide) (List.all_eq_true.1 (by decide)) hstop
    have hkind := registered_iff.1 (hsome .foreachKw (Keyword.search?_spelling .foreachKw))
    rw [hread, ← hkind]
    rfl
  · obtain ⟨kind, hread, -, -, -, hnone⟩ := readWord_search.2 (.start "for_each(".toList) 'f'
      "or_each".toList ['('] rfl (by decide) (List.all_eq_true.1 (by decide)) hstop
    rw [hread, hnone (by decide)]
    rfl

end Token

end LarkCheck
