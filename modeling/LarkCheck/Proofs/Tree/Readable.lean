import LarkCheck.Proofs.Decimal.Numeral
import LarkCheck.Tree.Form

/-!
# Forms can be read

The text of a form tells the form if each of its atoms is a bare word or a quoted string.
A bare word ends at a blank or a parenthesis, a quoted string at its second quote, and a
list at the parenthesis that closes it. Such a text has one line.
-/

namespace LarkCheck

open Token

namespace Text

variable {value value' : String} {rest rest' : List Char}

/-- The lexer reads a quoted string back, so it can be told what was quoted. -/
theorem quotedChars_append_inj
    (h : quotedChars value.toList ++ rest = quotedChars value'.toList ++ rest') :
    value = value' ∧ rest = rest' := by
  have hread := @readString_quotedChars rest value 0 .start
  rw [h, readString_quotedChars] at hread
  simp only [Lexeme.mk.injEq, Option.some.injEq, Kind.string.injEq, Cursor.mk.injEq] at hread
  exact ⟨hread.1.symm, hread.2.2.1.symm⟩

theorem newline_notMem_quotedChars (value : List Char) : '\n' ∉ quotedChars value := by
  simp only [quotedChars, List.mem_cons, List.mem_append, List.mem_flatMap, List.not_mem_nil,
    or_false, not_or, not_exists, not_and]
  refine ⟨by decide, fun c _ hmem => ?_, by decide⟩
  unfold quotedChar at hmem
  split at hmem
  · rename_i letter hletter
    have hback := unescape?_escapeOf? hletter
    rcases List.mem_cons.1 hmem with heq | hmem
    · exact absurd heq (by decide)
    · rw [← List.mem_singleton.1 hmem] at hback
      exact absurd hback (by simp [unescape?])
  · rename_i hplain
    rw [← List.mem_singleton.1 hmem] at hplain
    exact absurd hplain (by decide)

end Text

namespace Form

/-- Stands in no bare word. -/
def isMark (c : Char) : Bool :=
  c = ' ' || c = '(' || c = ')' || c = '"' || c = '\n'

def IsBare (text : String) : Prop :=
  ∀ c ∈ text.toList, isMark c = false

/-- An atom is a bare word or a quoted string. -/
def CleanText (text : String) : Prop :=
  IsBare text ∨ ∃ value, text = Text.quoted value

mutual

/-- All atoms are clean, and no list is empty. -/
def Clean : Form → Prop
  | atom text => CleanText text
  | list [] => False
  | list (head :: items) => head.Clean ∧ CleanItems items

def CleanItems : List Form → Prop
  | [] => True
  | item :: items => item.Clean ∧ CleanItems items

end

/-- What can follow a form. -/
def Follows (rest : List Char) : Prop :=
  ∀ c ∈ rest.head?, c = ' ' ∨ c = ')'

variable {text text' : String} {rest rest' : List Char}

theorem Follows.stops (h : Follows rest) : ∀ c ∈ rest.head?, (!isMark c) = false := by
  intro c hc
  rcases h c hc with rfl | rfl <;> rfl

theorem IsBare.append_inj (h : IsBare text) (h' : IsBare text') (hrest : Follows rest)
    (hrest' : Follows rest') (heq : text.toList ++ rest = text'.toList ++ rest') :
    text = text' ∧ rest = rest' := by
  have hruns := append_inj_of_stops (p := fun c => !isMark c) (fun c hc => by simp [h c hc])
    (fun c hc => by simp [h' c hc]) hrest.stops hrest'.stops heq
  exact ⟨String.toList_inj.1 hruns.1, hruns.2⟩

/-- A bare word with what follows it begins with neither an opening parenthesis nor a quote. -/
theorem IsBare.append_ne_cons (h : IsBare text) (hrest : Follows rest) {c : Char}
    (hc : c = '(' ∨ c = '"') (more : List Char) : text.toList ++ rest ≠ c :: more := by
  intro heq
  cases htext : text.toList with
  | nil =>
    rw [htext, List.nil_append] at heq
    have hfollows := hrest c (by rw [heq]; rfl)
    rcases hc with rfl | rfl <;> simp at hfollows
  | cons d chars =>
    rw [htext] at heq
    have hmark := h d (by rw [htext]; exact List.mem_cons_self)
    rw [(List.cons.inj heq).1] at hmark
    rcases hc with rfl | rfl <;> cases hmark

theorem toList_quoted (value : String) :
    (Text.quoted value).toList = Text.quotedChars value.toList :=
  String.toList_ofList

theorem CleanText.append_inj (h : CleanText text) (h' : CleanText text') (hrest : Follows rest)
    (hrest' : Follows rest') (heq : text.toList ++ rest = text'.toList ++ rest') :
    text = text' ∧ rest = rest' := by
  rcases h with hbare | ⟨value, rfl⟩
  · rcases h' with hbare' | ⟨value', rfl⟩
    · exact hbare.append_inj hbare' hrest hrest' heq
    · rw [toList_quoted] at heq
      exact absurd heq (hbare.append_ne_cons hrest (.inr rfl) _)
  · rcases h' with hbare' | ⟨value', rfl⟩
    · rw [toList_quoted] at heq
      exact absurd heq.symm (hbare'.append_ne_cons hrest' (.inr rfl) _)
    · rw [toList_quoted, toList_quoted] at heq
      obtain ⟨rfl, hrests⟩ := Text.quotedChars_append_inj heq
      exact ⟨rfl, hrests⟩

/-- An atom with what follows it does not begin like a list. -/
theorem CleanText.append_ne_paren (h : CleanText text) (hrest : Follows rest)
    (more : List Char) : text.toList ++ rest ≠ '(' :: more := by
  rcases h with hbare | ⟨value, rfl⟩
  · exact hbare.append_ne_cons hrest (.inl rfl) more
  · rw [toList_quoted]
    intro heq
    exact absurd (List.cons.inj heq).1 (by decide)

theorem follows_itemsChars (items : List Form) (rest : List Char) :
    Follows (itemsChars items ++ ')' :: rest) := by
  intro c hc
  cases items with
  | nil => exact .inr (by simpa [itemsChars] using hc.symm)
  | cons item items => exact .inl (by simpa [itemsChars] using hc.symm)

theorem chars_list (head : Form) (items : List Form) (rest : List Char) :
    (list (head :: items)).chars ++ rest =
      '(' :: (head.chars ++ (itemsChars items ++ ')' :: rest)) := by
  simp [chars]

mutual

/-- A text begins with the characters of one form only. -/
theorem chars_append_inj : ∀ {f g : Form} {rest rest' : List Char}, f.Clean → g.Clean →
    Follows rest → Follows rest' → f.chars ++ rest = g.chars ++ rest' → f = g ∧ rest = rest'
  | atom text, atom text', rest, rest', hf, hg, hrest, hrest', h => by
    simp only [Clean] at hf hg
    obtain ⟨rfl, hrests⟩ := hf.append_inj hg hrest hrest' h
    exact ⟨rfl, hrests⟩
  | atom text, list (head :: items), rest, rest', hf, _, hrest, _, h => by
    simp only [Clean] at hf
    rw [chars_list] at h
    exact absurd h (hf.append_ne_paren hrest _)
  | list (head :: items), atom text, rest, rest', _, hg, _, hrest', h => by
    simp only [Clean] at hg
    rw [chars_list] at h
    exact absurd h.symm (hg.append_ne_paren hrest' _)
  | list (head :: items), list (head' :: items'), rest, rest', hf, hg, _, _, h => by
    simp only [Clean] at hf hg
    rw [chars_list, chars_list] at h
    obtain ⟨rfl, hitems⟩ := chars_append_inj hf.1 hg.1 (follows_itemsChars _ _)
      (follows_itemsChars _ _) (List.cons.inj h).2
    obtain ⟨rfl, hrests⟩ := itemsChars_append_inj hf.2 hg.2 hitems
    exact ⟨rfl, hrests⟩

theorem itemsChars_append_inj : ∀ {fs gs : List Form} {rest rest' : List Char}, CleanItems fs →
    CleanItems gs → itemsChars fs ++ ')' :: rest = itemsChars gs ++ ')' :: rest' →
    fs = gs ∧ rest = rest'
  | [], [], _, _, _, _, h => ⟨rfl, (List.cons.inj h).2⟩
  | [], _ :: _, _, _, _, _, h => absurd (List.cons.inj h).1 (by decide)
  | _ :: _, [], _, _, _, _, h => absurd (List.cons.inj h).1 (by decide)
  | f :: fs, g :: gs, rest, rest', hf, hg, h => by
    simp only [CleanItems] at hf hg
    simp only [itemsChars, List.cons_append, List.append_assoc, List.cons.injEq, true_and] at h
    obtain ⟨rfl, hitems⟩ := chars_append_inj hf.1 hg.1 (follows_itemsChars _ _)
      (follows_itemsChars _ _) h
    obtain ⟨rfl, hrests⟩ := itemsChars_append_inj hf.2 hg.2 hitems
    exact ⟨rfl, hrests⟩

end

/-- Different forms have different texts. -/
theorem eq_of_chars {f g : Form} (hf : f.Clean) (hg : g.Clean) (h : f.chars = g.chars) : f = g := by
  have hnil : Follows [] := nofun
  exact (chars_append_inj hf hg hnil hnil (by rw [h])).1

theorem CleanText.newline_notMem (h : CleanText text) : '\n' ∉ text.toList := by
  rcases h with hbare | ⟨value, rfl⟩
  · exact fun hmem => absurd (hbare _ hmem) (by decide)
  · rw [toList_quoted]
    exact Text.newline_notMem_quotedChars _

mutual

/-- The text of a form has one line. -/
theorem newline_notMem_chars : ∀ {f : Form}, f.Clean → '\n' ∉ f.chars
  | atom text, h => by
    simp only [Clean] at h
    exact h.newline_notMem
  | list (head :: items), h => by
    simp only [Clean] at h
    have hhead := newline_notMem_chars h.1
    have hitems := newline_notMem_itemsChars h.2
    simp [chars, hhead, hitems]

theorem newline_notMem_itemsChars : ∀ {items : List Form}, CleanItems items →
    '\n' ∉ itemsChars items
  | [], _ => List.not_mem_nil
  | item :: items, h => by
    simp only [CleanItems] at h
    have hitem := newline_notMem_chars h.1
    have hitems := newline_notMem_itemsChars h.2
    simp [itemsChars, hitem, hitems]

end

end Form

end LarkCheck
