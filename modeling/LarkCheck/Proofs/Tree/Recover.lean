import LarkCheck.Proofs.Tree.Forms

/-!
# Trees are told by their forms

The name at the head of a list tells the construct, and the optional and repeated parts of a
construct begin with names of their own. A legible tree is told by its form up to its places.
-/

namespace LarkCheck

open Token Piece Form

namespace Form

@[simp] theorem tagged_inj {tag tag' : String} {items items' : List Form} :
    tagged tag items = tagged tag' items' ↔ tag = tag' ∧ items = items' := by
  simp [tagged]

@[simp] theorem tagged_ne_atom {tag text : String} {items : List Form} :
    tagged tag items ≠ atom text := by
  simp [tagged]

@[simp] theorem atom_ne_tagged {tag text : String} {items : List Form} :
    atom text ≠ tagged tag items := by
  simp [tagged]

/-- Whether the form is a list that begins with this name. -/
def hasTag (tag : String) : Form → Bool
  | list (atom head :: _) => head = tag
  | _ => false

@[simp] theorem hasTag_tagged (tag tag' : String) (items : List Form) :
    (tagged tag' items).hasTag tag = decide (tag' = tag) := rfl

end Form

theorem Level.name_injective {l m : Level} (h : l.name = m.name) : l = m := by
  revert h
  cases l <;> cases m <;> decide

theorem Access.word_injective {a b : Access} (h : a.word = b.word) : a = b := by
  revert h
  cases a <;> cases b <;> decide

theorem Branch.hasTag_of_mem {tag : String} {bs : List Branch} :
    ∀ f ∈ Branch.listForms tag bs, f.hasTag tag = true := by
  induction bs with
  | nil => nofun
  | cons b bs ih =>
    obtain ⟨_, test, body⟩ := b
    exact List.forall_mem_cons.2 ⟨by simp, ih⟩

theorem Block.hasTag_elseForms {tag : String} (htag : "else" ≠ tag) (b : Option Block) :
    ∀ f ∈ (Block.elseForms b).head?, f.hasTag tag = false := by
  cases b <;> simp [Block.elseForms, htag]

/-- Branches end where the last block begins. -/
theorem Branch.listForms_append_inj {tag : String} (htag : "else" ≠ tag) {bs bs' : List Branch}
    {b b' : Option Block} (h : Branch.listForms tag bs ++ Block.elseForms b =
      Branch.listForms tag bs' ++ Block.elseForms b') :
    Branch.listForms tag bs = Branch.listForms tag bs' ∧ Block.elseForms b = Block.elseForms b' :=
  append_inj_of_stops Branch.hasTag_of_mem Branch.hasTag_of_mem
    (Block.hasTag_elseForms htag b) (Block.hasTag_elseForms htag b') h

theorem Section.hasTag_listForms {tag : String} (htag : ∀ access : Access, access.word ≠ tag)
    (xs : List Section) : ∀ f ∈ (Section.listForms xs).head?, f.hasTag tag = false := by
  rcases xs with _ | ⟨⟨_, access, _⟩, _⟩ <;> simp [Section.listForms, htag]

/-- The base class, the included names and the sections of a class are told apart. -/
theorem Section.classForms_inj {b b' : Option Base} {names names' : List Name}
    {xs xs' : List Section}
    (h : Base.optionForms b ++ includeForms names ++ Section.listForms xs =
      Base.optionForms b' ++ includeForms names' ++ Section.listForms xs') :
    Base.optionForms b = Base.optionForms b' ∧ includeForms names = includeForms names' ∧
      Section.listForms xs = Section.listForms xs' := by
  have hbase : ∀ b : Option Base, ∀ f ∈ Base.optionForms b, f.hasTag "base" = true := by
    rintro (_ | ⟨_, _⟩) <;> simp [Base.optionForms]
  have hinclude : ∀ names : List Name, ∀ f ∈ includeForms names, f.hasTag "include" = true := by
    rintro (_ | _) <;> simp [includeForms]
  have hrest : ∀ (names : List Name) (xs : List Section),
      ∀ f ∈ (includeForms names ++ Section.listForms xs).head?, f.hasTag "base" = false := by
    rintro (_ | ⟨n, names⟩) xs
    · exact Section.hasTag_listForms (by rintro (_ | _) <;> decide) xs
    · simp [includeForms]
  rw [List.append_assoc, List.append_assoc] at h
  obtain ⟨hbases, h⟩ := append_inj_of_stops (hbase b) (hbase b') (hrest names xs)
    (hrest names' xs') h
  have hsection := @Section.hasTag_listForms "include" (by rintro (_ | _) <;> decide)
  exact ⟨hbases, append_inj_of_stops (hinclude names) (hinclude names') (hsection xs)
    (hsection xs') h⟩

theorem map_erase_eq_of_includeForms {names names' : List Name}
    (h : includeForms names = includeForms names') :
    names.map Name.erase = names'.map Name.erase := by
  have htexts : names.map (·.text) = names'.map (·.text) := by
    unfold includeForms at h
    split at h <;> split at h
    · rename_i hnil hnil'
      rw [List.isEmpty_iff.1 hnil, List.isEmpty_iff.1 hnil']
    · cases h
    · cases h
    · simp only [List.cons.injEq, tagged_inj, true_and, and_true] at h
      have hinj : Function.Injective Form.atom := fun _ _ => Form.atom.inj
      exact List.map_injective_iff.2 hinj (by simpa [Function.comp_def] using h)
  have herase : ∀ names : List Name,
      names.map Name.erase = (names.map (·.text)).map (Name.mk .start) := fun _ => by
    simp [Function.comp_def, Name.erase]
  rw [herase, htexts, ← herase]

theorem Level.name_ne {tag : String} (h : tag ∉ Level.all.map Level.name) (level : Level) :
    level.name ≠ tag := by
  rintro rfl
  exact h (List.mem_map_of_mem (by cases level <;> decide))

theorem Level.ne_name {tag : String} (h : tag ∉ Level.all.map Level.name) (level : Level) :
    tag ≠ level.name :=
  (Level.name_ne h level).symm

theorem Expr.form_ne_missing {e : Expr} (he : Legible e.pieces) : e.form ≠ missing := by
  intro h
  obtain ⟨sort, hatom⟩ := e.atomOf_of_form he h
  rcases hatom.opening with hopen | ⟨-, hopen⟩
  · exact hatom.sort_ne_symbol (.operator .less) (Option.some.inj hopen).symm
  · cases hopen

/-- The names at the heads of statements that are not expressions. -/
def Form.stmtTags : List String :=
  ["import", "if", "case", "while", "for", "foreach", "break", "next", "return"]

theorem Expr.slotForm_ne_tagged {e : Option Expr} {tag : String} {items : List Form}
    (htag : tag ∈ stmtTags) : Expr.slotForm e ≠ tagged tag items := by
  intro h
  rcases e with _ | e
  · cases h
  · cases e with
    | binary _ level =>
      obtain ⟨rfl, -⟩ := tagged_inj.1 h
      revert htag
      cases level <;> decide
    | array | hash | routine | classDef | package | paren | index | call | member | unary
    | assign =>
      obtain ⟨rfl, -⟩ := tagged_inj.1 h
      exact absurd htag (by decide)
    | _ => cases h

theorem Expr.tagged_ne_slotForm {e : Option Expr} {tag : String} {items : List Form}
    (htag : tag ∈ stmtTags) : tagged tag items ≠ Expr.slotForm e :=
  (Expr.slotForm_ne_tagged htag).symm

-- The recursion is on the first tree. The second is taken apart at each construct: a different
-- one has another name at its head, and the same one gives equal forms of the parts.
mutual

theorem Expr.erase_eq_of_form : ∀ {e e' : Expr}, Legible e.pieces → Legible e'.pieces →
    e.form = e'.form → e.erase = e'.erase
  | .ident _ _, _, he, he', h => Expr.erase_eq_of_atom he he' rfl h.symm
  | .nil _, _, he, he', h => Expr.erase_eq_of_atom he he' rfl h.symm
  | .bool _ _, _, he, he', h => Expr.erase_eq_of_atom he he' rfl h.symm
  | .int _ _, _, he, he', h => Expr.erase_eq_of_atom he he' rfl h.symm
  | .real _ _, _, he, he', h => Expr.erase_eq_of_atom he he' rfl h.symm
  | .string _ _, _, he, he', h => Expr.erase_eq_of_atom he he' rfl h.symm
  | .receiver _, _, he, he', h => Expr.erase_eq_of_atom he he' rfl h.symm
  | .array _ items, e', he, he', h => by
    cases e' with
    | array _ items' =>
      simp only [Expr.pieces, legible_cons, legible_append, Expr.legible_listPieces] at he he'
      obtain ⟨-, h⟩ := tagged_inj.1 h
      rw [Expr.erase, Expr.erase, Expr.eraseList_eq_of_forms he.2.1 he'.2.1 h]
    | _ => simp (disch := decide) [Expr.form, Level.ne_name] at h
  | .hash _ pairs, e', he, he', h => by
    cases e' with
    | hash _ pairs' =>
      simp only [Expr.pieces, legible_cons, legible_append, Pair.legible_listPieces] at he he'
      obtain ⟨-, h⟩ := tagged_inj.1 h
      rw [Expr.erase, Expr.erase, Pair.eraseList_eq_of_forms he.2.1 he'.2.1 h]
    | _ => simp (disch := decide) [Expr.form, Level.ne_name] at h
  | .routine _ params body, e', he, he', h => by
    cases e' with
    | routine _ params' body' =>
      simp only [Expr.pieces, legible_cons, legible_append, Param.legible_listPieces] at he he'
      simp only [Expr.form, tagged_inj, List.cons.injEq, and_true, true_and] at h
      rw [Expr.erase, Expr.erase, Param.eraseList_eq_of_forms he.2.2.1 he'.2.2.1 h.1,
        Block.eraseSlot_eq_of_form he.2.2.2.2.1 he'.2.2.2.2.1 h.2]
    | _ => simp (disch := decide) [Expr.form, Level.ne_name] at h
  | .classDef _ name params base includes sections, e', he, he', h => by
    cases e' with
    | classDef _ name' params' base' includes' sections' =>
      simp only [Expr.pieces, legible_cons, legible_append, Param.legible_listPieces,
        Section.legible_listPieces] at he he'
      obtain ⟨-, -, -, hparams, -, hbase, -, hsections, -⟩ := he
      obtain ⟨-, -, -, hparams', -, hbase', -, hsections', -⟩ := he'
      simp only [Expr.form, tagged_inj, List.cons.injEq, atom.injEq, true_and] at h
      obtain ⟨rfl, h, hrest⟩ := h
      obtain ⟨hb, hi, hs⟩ := Section.classForms_inj hrest
      rw [Expr.erase, Expr.erase, Param.eraseList_eq_of_forms hparams hparams' h,
        Base.eraseOption_eq_of_forms hbase hbase' hb, map_erase_eq_of_includeForms hi,
        Section.eraseList_eq_of_forms hsections hsections' hs]
    | _ => simp (disch := decide) [Expr.form, Level.ne_name] at h
  | .package _ name body, e', he, he', h => by
    cases e' with
    | package _ name' body' =>
      simp only [Expr.pieces, legible_cons, legible_append] at he he'
      simp only [Expr.form, tagged_inj, List.cons.injEq, atom.injEq, and_true, true_and] at h
      rw [Expr.erase, Expr.erase, h.1, Block.eraseSlot_eq_of_form he.2.2.1 he'.2.2.1 h.2]
    | _ => simp (disch := decide) [Expr.form, Level.ne_name] at h
  | .paren _ inner, e', he, he', h => by
    cases e' with
    | paren _ inner' =>
      simp only [Expr.pieces, legible_cons, legible_append] at he he'
      simp only [Expr.form, tagged_inj, List.cons.injEq, and_true, true_and] at h
      rw [Expr.erase, Expr.erase, Expr.eraseSlot_eq_of_form he.2.1 he'.2.1 h]
    | _ => simp (disch := decide) [Expr.form, Level.ne_name] at h
  | .index _ object index, e', he, he', h => by
    cases e' with
    | index _ object' index' =>
      simp only [Expr.pieces, legible_cons, legible_append] at he he'
      simp only [Expr.form, tagged_inj, List.cons.injEq, and_true, true_and] at h
      rw [Expr.erase, Expr.erase, Expr.eraseSlot_eq_of_form he.1 he'.1 h.1,
        Expr.eraseSlot_eq_of_form he.2.2.1 he'.2.2.1 h.2]
    | _ => simp (disch := decide) [Expr.form, Level.ne_name] at h
  | .call _ callee args, e', he, he', h => by
    cases e' with
    | call _ callee' args' =>
      simp only [Expr.pieces, legible_cons, legible_append, Expr.legible_listPieces] at he he'
      simp only [Expr.form, tagged_inj, List.cons.injEq, true_and] at h
      rw [Expr.erase, Expr.erase, Expr.eraseSlot_eq_of_form he.1 he'.1 h.1,
        Expr.eraseList_eq_of_forms he.2.2.1 he'.2.2.1 h.2]
    | _ => simp (disch := decide) [Expr.form, Level.ne_name] at h
  | .member _ object name, e', he, he', h => by
    cases e' with
    | member _ object' name' =>
      simp only [Expr.pieces, legible_cons, legible_append] at he he'
      simp only [Expr.form, tagged_inj, List.cons.injEq, atom.injEq, and_true, true_and] at h
      rw [Expr.erase, Expr.erase, Expr.eraseSlot_eq_of_form he.1 he'.1 h.1, h.2]
    | _ => simp (disch := decide) [Expr.form, Level.ne_name] at h
  | .unary _ op operand, e', he, he', h => by
    cases e' with
    | unary _ op' operand' =>
      simp only [Expr.pieces, legible_cons] at he he'
      simp only [Expr.form, tagged_inj, List.cons.injEq, atom.injEq, and_true, true_and] at h
      rw [Expr.erase, Expr.erase, Operator.spelling_injective h.1,
        Expr.eraseSlot_eq_of_form he.2 he'.2 h.2]
    | _ => simp (disch := decide) [Expr.form, Level.ne_name] at h
  | .binary _ level op left right, e', he, he', h => by
    cases e' with
    | binary _ level' op' left' right' =>
      simp only [Expr.pieces, legible_cons, legible_append] at he he'
      simp only [Expr.form, tagged_inj, List.cons.injEq, atom.injEq, and_true] at h
      obtain ⟨hlevel, hop, hleft, hright⟩ := h
      rw [Expr.erase, Expr.erase, Level.name_injective hlevel, Operator.spelling_injective hop,
        Expr.eraseSlot_eq_of_form he.1 he'.1 hleft,
        Expr.eraseSlot_eq_of_form he.2.2 he'.2.2 hright]
    | _ => simp (disch := decide) [Expr.form, Level.name_ne] at h
  | .assign _ target value, e', he, he', h => by
    cases e' with
    | assign _ target' value' =>
      simp only [Expr.pieces, legible_cons, legible_append] at he he'
      simp only [Expr.form, tagged_inj, List.cons.injEq, and_true, true_and] at h
      rw [Expr.erase, Expr.erase, Expr.eraseSlot_eq_of_form he.1 he'.1 h.1,
        Expr.eraseSlot_eq_of_form he.2.2 he'.2.2 h.2]
    | _ => simp (disch := decide) [Expr.form, Level.ne_name] at h
termination_by structural e => e

theorem Expr.eraseSlot_eq_of_form : ∀ {e e' : Option Expr}, Legible (Expr.slotPieces e) →
    Legible (Expr.slotPieces e') → Expr.slotForm e = Expr.slotForm e' →
    Expr.eraseSlot e = Expr.eraseSlot e'
  | none, none, _, _, _ => rfl
  | none, some _, _, he', h => absurd h.symm (Expr.form_ne_missing he')
  | some _, none, he, _, h => absurd h (Expr.form_ne_missing he)
  | some _, some _, he, he', h => congrArg some (Expr.erase_eq_of_form he he' h)
termination_by structural e => e

theorem Expr.eraseList_eq_of_forms : ∀ {es es' : List Expr}, Legible (Expr.furtherPieces es) →
    Legible (Expr.furtherPieces es') → Expr.listForms es = Expr.listForms es' →
    Expr.eraseList es = Expr.eraseList es'
  | [], [], _, _, _ => rfl
  | [], _ :: _, _, _, h => nomatch h
  | _ :: _, [], _, _, h => nomatch h
  | e :: es, e' :: es', he, he', h => by
    simp only [Expr.furtherPieces, legible_cons, legible_append] at he he'
    obtain ⟨hhead, htail⟩ := List.cons.inj h
    rw [Expr.eraseList, Expr.eraseList, Expr.erase_eq_of_form he.2.1 he'.2.1 hhead,
      Expr.eraseList_eq_of_forms he.2.2 he'.2.2 htail]
termination_by structural es => es

theorem Pair.eraseList_eq_of_forms : ∀ {ps ps' : List Pair}, Legible (Pair.furtherPieces ps) →
    Legible (Pair.furtherPieces ps') → Pair.listForms ps = Pair.listForms ps' →
    Pair.eraseList ps = Pair.eraseList ps'
  | [], [], _, _, _ => rfl
  | [], ⟨_, _, _⟩ :: _, _, _, h => nomatch h
  | ⟨_, _, _⟩ :: _, [], _, _, h => nomatch h
  | ⟨_, key, value⟩ :: ps, ⟨_, key', value'⟩ :: ps', he, he', h => by
    simp only [Pair.furtherPieces, Pair.pieces, legible_cons, legible_append] at he he'
    simp only [Pair.listForms, tagged_inj, List.cons.injEq, and_true, true_and] at h
    obtain ⟨⟨hkey, hvalue⟩, htail⟩ := h
    rw [Pair.eraseList, Pair.eraseList, Pair.erase, Pair.erase,
      Expr.eraseSlot_eq_of_form he.2.1.1 he'.2.1.1 hkey,
      Expr.eraseSlot_eq_of_form he.2.1.2.2 he'.2.1.2.2 hvalue,
      Pair.eraseList_eq_of_forms he.2.2 he'.2.2 htail]
termination_by structural ps => ps

theorem Param.erase_eq_of_form : ∀ {p p' : Param}, Legible p.pieces → Legible p'.pieces →
    p.form = p'.form → p.erase = p'.erase
  | .value _ _ none, .value _ _ none, _, _, h => by
    rw [Param.erase, Param.erase, Form.atom.inj h]
  | .value _ _ none, .value _ _ (some _), _, _, h => absurd h atom_ne_tagged
  | .value _ _ none, .output _ _, _, _, h => absurd h atom_ne_tagged
  | .value _ _ (some _), .value _ _ none, _, _, h => absurd h tagged_ne_atom
  | .value _ _ (some default), .value _ _ (some default'), he, he', h => by
    simp only [Param.pieces, legible_cons] at he he'
    simp only [Param.form, tagged_inj, List.cons.injEq, atom.injEq, and_true, true_and] at h
    rw [Param.erase, Param.erase, h.1, Expr.eraseSlot, Expr.eraseSlot,
      Expr.erase_eq_of_form he.2.2 he'.2.2 h.2]
  | .value _ _ (some _), .output _ _, _, _, h => absurd (tagged_inj.1 h).1 (by decide)
  | .output _ _, .value _ _ none, _, _, h => absurd h tagged_ne_atom
  | .output _ _, .value _ _ (some _), _, _, h => absurd (tagged_inj.1 h).1 (by decide)
  | .output _ _, .output _ _, _, _, h => by
    simp only [Param.form, tagged_inj, List.cons.injEq, atom.injEq, and_true, true_and] at h
    rw [Param.erase, Param.erase, h]
termination_by structural p => p

theorem Param.eraseList_eq_of_forms : ∀ {ps ps' : List Param}, Legible (Param.furtherPieces ps) →
    Legible (Param.furtherPieces ps') → Param.listForms ps = Param.listForms ps' →
    Param.eraseList ps = Param.eraseList ps'
  | [], [], _, _, _ => rfl
  | [], _ :: _, _, _, h => nomatch h
  | _ :: _, [], _, _, h => nomatch h
  | p :: ps, p' :: ps', he, he', h => by
    simp only [Param.furtherPieces, legible_cons, legible_append] at he he'
    obtain ⟨hhead, htail⟩ := List.cons.inj h
    rw [Param.eraseList, Param.eraseList, Param.erase_eq_of_form he.2.1 he'.2.1 hhead,
      Param.eraseList_eq_of_forms he.2.2 he'.2.2 htail]
termination_by structural ps => ps

theorem Base.eraseOption_eq_of_forms : ∀ {b b' : Option Base}, Legible (Base.optionPieces b) →
    Legible (Base.optionPieces b') → Base.optionForms b = Base.optionForms b' →
    Base.eraseOption b = Base.eraseOption b'
  | none, none, _, _, _ => rfl
  | none, some ⟨_, _⟩, _, _, h => nomatch h
  | some ⟨_, _⟩, none, _, _, h => nomatch h
  | some ⟨⟨_, base⟩, args⟩, some ⟨⟨_, base'⟩, args'⟩, he, he', h => by
    simp only [Base.optionPieces, legible_cons, legible_append, Expr.legible_listPieces] at he he'
    simp only [Base.optionForms, tagged_inj, List.cons.injEq, atom.injEq, and_true,
      true_and] at h
    obtain ⟨rfl, hargs⟩ := h
    rw [Base.eraseOption, Base.eraseOption, Base.erase, Base.erase,
      Expr.eraseList_eq_of_forms he.2.2.2.1 he'.2.2.2.1 hargs]
    rfl
termination_by structural b => b

theorem Section.eraseList_eq_of_forms : ∀ {xs xs' : List Section},
    Legible (Section.furtherPieces xs) → Legible (Section.furtherPieces xs') →
    Section.listForms xs = Section.listForms xs' → Section.eraseList xs = Section.eraseList xs'
  | [], [], _, _, _ => rfl
  | [], ⟨_, _, _⟩ :: _, _, _, h => nomatch h
  | ⟨_, _, _⟩ :: _, [], _, _, h => nomatch h
  | ⟨_, access, body⟩ :: xs, ⟨_, access', body'⟩ :: xs', he, he', h => by
    simp only [Section.furtherPieces, legible_cons, legible_append] at he he'
    simp only [Section.listForms, tagged_inj, List.cons.injEq, and_true] at h
    obtain ⟨⟨haccess, hbody⟩, htail⟩ := h
    rw [Section.eraseList, Section.eraseList, Section.erase, Section.erase,
      Access.word_injective haccess, Block.eraseSlot_eq_of_form he.2.1 he'.2.1 hbody,
      Section.eraseList_eq_of_forms he.2.2 he'.2.2 htail]
termination_by structural xs => xs

theorem Block.erase_eq_of_form : ∀ {b b' : Block}, Legible b.pieces → Legible b'.pieces →
    b.form = b'.form → b.erase = b'.erase
  | ⟨_, stmts⟩, ⟨_, stmts'⟩, he, he', h => by
    obtain ⟨-, h⟩ := tagged_inj.1 h
    rw [Block.erase, Block.erase, Stmt.eraseList_eq_of_forms he he' h]
termination_by structural b => b

theorem Block.eraseSlot_eq_of_form : ∀ {b b' : Option Block}, Legible (Block.slotPieces b) →
    Legible (Block.slotPieces b') → Block.slotForm b = Block.slotForm b' →
    Block.eraseSlot b = Block.eraseSlot b'
  | none, none, _, _, _ => rfl
  | none, some ⟨_, _⟩, _, _, h => nomatch h
  | some ⟨_, _⟩, none, _, _, h => nomatch h
  | some _, some _, he, he', h => congrArg some (Block.erase_eq_of_form he he' h)
termination_by structural b => b

theorem Block.eraseSlot_eq_of_elseForms : ∀ {b b' : Option Block}, Legible (Block.elsePieces b) →
    Legible (Block.elsePieces b') → Block.elseForms b = Block.elseForms b' →
    Block.eraseSlot b = Block.eraseSlot b'
  | none, none, _, _, _ => rfl
  | none, some _, _, _, h => nomatch h
  | some _, none, _, _, h => nomatch h
  | some b, some b', he, he', h => by
    simp only [Block.elsePieces, legible_cons] at he he'
    simp only [Block.elseForms, tagged_inj, List.cons.injEq, and_true, true_and] at h
    rw [Block.eraseSlot, Block.eraseSlot, Block.erase_eq_of_form he.2 he'.2 h]
termination_by structural b => b

theorem Stmt.erase_eq_of_form : ∀ {x x' : Stmt}, Legible x.pieces → Legible x'.pieces →
    x.form = x'.form → x.erase = x'.erase
  | .importPath _ path, x', he, he', h => by
    cases x' with
    | importPath _ path' =>
      simp only [Stmt.pieces, legible_cons] at he he'
      simp only [Stmt.form, tagged_inj, List.cons.injEq, atom.injEq, and_true, true_and] at h
      rw [Stmt.erase, Stmt.erase, path_injective (isName_of_legible_path he.2)
        (isName_of_legible_path he'.2) h]
    | returnValue _ value => cases value <;> simp [Stmt.form] at h
    | _ => simp (disch := decide) [Stmt.form, Expr.tagged_ne_slotForm] at h
  | .expr _ e, x', he, he', h => by
    cases x' with
    | expr _ e' => rw [Stmt.erase, Stmt.erase, Expr.eraseSlot_eq_of_form he he' h]
    | returnValue _ value => cases value <;> exact absurd h (Expr.slotForm_ne_tagged (by decide))
    | _ => exact absurd h (Expr.slotForm_ne_tagged (by decide))
  | .cond _ test body elseifs otherwise, x', he, he', h => by
    cases x' with
    | cond _ test' body' elseifs' otherwise' =>
      simp only [Stmt.pieces, legible_cons, legible_append] at he he'
      obtain ⟨-, htest, hbody, helseifs, helse, -⟩ := he
      obtain ⟨-, htest', hbody', helseifs', helse', -⟩ := he'
      simp only [Stmt.form, tagged_inj, List.cons.injEq, true_and] at h
      obtain ⟨ht, hb, hrest⟩ := h
      obtain ⟨hbranches, hlast⟩ := Branch.listForms_append_inj (by decide) hrest
      rw [Stmt.erase, Stmt.erase, Expr.eraseSlot_eq_of_form htest htest' ht,
        Block.eraseSlot_eq_of_form hbody hbody' hb,
        Branch.eraseList_eq_of_elseifs helseifs helseifs' hbranches,
        Block.eraseSlot_eq_of_elseForms helse helse' hlast]
    | returnValue _ value => cases value <;> simp [Stmt.form] at h
    | _ => simp (disch := decide) [Stmt.form, Expr.tagged_ne_slotForm] at h
  | .case _ subject whens otherwise, x', he, he', h => by
    cases x' with
    | case _ subject' whens' otherwise' =>
      simp only [Stmt.pieces, legible_cons, legible_append] at he he'
      obtain ⟨-, hsubject, hwhens, helse, -⟩ := he
      obtain ⟨-, hsubject', hwhens', helse', -⟩ := he'
      simp only [Stmt.form, tagged_inj, List.cons.injEq, true_and] at h
      obtain ⟨hs, hrest⟩ := h
      obtain ⟨hbranches, hlast⟩ := Branch.listForms_append_inj (by decide) hrest
      rw [Stmt.erase, Stmt.erase, Expr.eraseSlot_eq_of_form hsubject hsubject' hs,
        Branch.eraseList_eq_of_whens hwhens hwhens' hbranches,
        Block.eraseSlot_eq_of_elseForms helse helse' hlast]
    | returnValue _ value => cases value <;> simp [Stmt.form] at h
    | _ => simp (disch := decide) [Stmt.form, Expr.tagged_ne_slotForm] at h
  | .whileLoop _ test body, x', he, he', h => by
    cases x' with
    | whileLoop _ test' body' =>
      simp only [Stmt.pieces, legible_cons, legible_append] at he he'
      simp only [Stmt.form, tagged_inj, List.cons.injEq, and_true, true_and] at h
      rw [Stmt.erase, Stmt.erase, Expr.eraseSlot_eq_of_form he.2.1 he'.2.1 h.1,
        Block.eraseSlot_eq_of_form he.2.2.2.1 he'.2.2.2.1 h.2]
    | returnValue _ value => cases value <;> simp [Stmt.form] at h
    | _ => simp (disch := decide) [Stmt.form, Expr.tagged_ne_slotForm] at h
  | .forLoop _ init test step body, x', he, he', h => by
    cases x' with
    | forLoop _ init' test' step' body' =>
      simp only [Stmt.pieces, legible_cons, legible_append] at he he'
      obtain ⟨-, hinit, -, htest, -, hstep, -, hbody, -⟩ := he
      obtain ⟨-, hinit', -, htest', -, hstep', -, hbody', -⟩ := he'
      simp only [Stmt.form, tagged_inj, List.cons.injEq, and_true, true_and] at h
      obtain ⟨hi, ht, hs, hb⟩ := h
      rw [Stmt.erase, Stmt.erase, Expr.eraseSlot_eq_of_form hinit hinit' hi,
        Expr.eraseSlot_eq_of_form htest htest' ht, Expr.eraseSlot_eq_of_form hstep hstep' hs,
        Block.eraseSlot_eq_of_form hbody hbody' hb]
    | returnValue _ value => cases value <;> simp [Stmt.form] at h
    | _ => simp (disch := decide) [Stmt.form, Expr.tagged_ne_slotForm] at h
  | .foreachLoop _ item collection body, x', he, he', h => by
    cases x' with
    | foreachLoop _ item' collection' body' =>
      simp only [Stmt.pieces, legible_cons, legible_append] at he he'
      obtain ⟨-, -, -, hcollection, -, hbody, -⟩ := he
      obtain ⟨-, -, -, hcollection', -, hbody', -⟩ := he'
      simp only [Stmt.form, tagged_inj, List.cons.injEq, atom.injEq, and_true, true_and] at h
      obtain ⟨hi, hc, hb⟩ := h
      rw [Stmt.erase, Stmt.erase, Name.erase, Name.erase, hi,
        Expr.eraseSlot_eq_of_form hcollection hcollection' hc,
        Block.eraseSlot_eq_of_form hbody hbody' hb]
    | returnValue _ value => cases value <;> simp [Stmt.form] at h
    | _ => simp (disch := decide) [Stmt.form, Expr.tagged_ne_slotForm] at h
  | .breakLoop _, x', _, _, h => by
    cases x' with
    | breakLoop => rfl
    | returnValue _ value => cases value <;> simp [Stmt.form] at h
    | _ => simp (disch := decide) [Stmt.form, Expr.tagged_ne_slotForm] at h
  | .nextRound _, x', _, _, h => by
    cases x' with
    | nextRound => rfl
    | returnValue _ value => cases value <;> simp [Stmt.form] at h
    | _ => simp (disch := decide) [Stmt.form, Expr.tagged_ne_slotForm] at h
  | .returnValue _ none, x', _, _, h => by
    cases x' with
    | returnValue _ value =>
      cases value with
      | none => rfl
      | some => simp [Stmt.form] at h
    | _ => simp (disch := decide) [Stmt.form, Expr.tagged_ne_slotForm] at h
  | .returnValue _ (some value), x', he, he', h => by
    cases x' with
    | returnValue _ value' =>
      cases value' with
      | none => simp [Stmt.form] at h
      | some value' =>
        simp only [Stmt.pieces, legible_cons, legible_lead] at he he'
        simp only [Stmt.form, tagged_inj, List.cons.injEq, and_true, true_and] at h
        rw [Stmt.erase, Stmt.erase, Expr.eraseSlot, Expr.eraseSlot,
          Expr.erase_eq_of_form he.2 he'.2 h]
    | _ => simp (disch := decide) [Stmt.form, Expr.tagged_ne_slotForm] at h
termination_by structural x => x

theorem Stmt.eraseList_eq_of_forms : ∀ {xs xs' : List Stmt}, Legible (Stmt.listPieces xs) →
    Legible (Stmt.listPieces xs') → Stmt.listForms xs = Stmt.listForms xs' →
    Stmt.eraseList xs = Stmt.eraseList xs'
  | [], [], _, _, _ => rfl
  | [], _ :: _, _, _, h => nomatch h
  | _ :: _, [], _, _, h => nomatch h
  | x :: xs, x' :: xs', he, he', h => by
    simp only [Stmt.listPieces, legible_append, legible_lead] at he he'
    obtain ⟨hhead, htail⟩ := List.cons.inj h
    rw [Stmt.eraseList, Stmt.eraseList, Stmt.erase_eq_of_form he.1 he'.1 hhead,
      Stmt.eraseList_eq_of_forms he.2 he'.2 htail]
termination_by structural xs => xs

theorem Branch.eraseList_eq_of_elseifs : ∀ {bs bs' : List Branch},
    Legible (Branch.elseifPieces bs) → Legible (Branch.elseifPieces bs') →
    Branch.listForms "elseif" bs = Branch.listForms "elseif" bs' →
    Branch.eraseList bs = Branch.eraseList bs'
  | [], [], _, _, _ => rfl
  | [], ⟨_, _, _⟩ :: _, _, _, h => nomatch h
  | ⟨_, _, _⟩ :: _, [], _, _, h => nomatch h
  | ⟨_, test, body⟩ :: bs, ⟨_, test', body'⟩ :: bs', he, he', h => by
    simp only [Branch.elseifPieces, legible_cons, legible_append] at he he'
    simp only [Branch.listForms, tagged_inj, List.cons.injEq, and_true, true_and] at h
    obtain ⟨⟨ht, hb⟩, htail⟩ := h
    rw [Branch.eraseList, Branch.eraseList, Branch.erase, Branch.erase,
      Expr.eraseSlot_eq_of_form he.2.1 he'.2.1 ht,
      Block.eraseSlot_eq_of_form he.2.2.1 he'.2.2.1 hb,
      Branch.eraseList_eq_of_elseifs he.2.2.2 he'.2.2.2 htail]
termination_by structural bs => bs

theorem Branch.eraseList_eq_of_whens : ∀ {bs bs' : List Branch},
    Legible (Branch.whenPieces bs) → Legible (Branch.whenPieces bs') →
    Branch.listForms "when" bs = Branch.listForms "when" bs' →
    Branch.eraseList bs = Branch.eraseList bs'
  | [], [], _, _, _ => rfl
  | [], ⟨_, _, _⟩ :: _, _, _, h => nomatch h
  | ⟨_, _, _⟩ :: _, [], _, _, h => nomatch h
  | ⟨_, test, body⟩ :: bs, ⟨_, test', body'⟩ :: bs', he, he', h => by
    simp only [Branch.whenPieces, legible_cons, legible_append] at he he'
    simp only [Branch.listForms, tagged_inj, List.cons.injEq, and_true, true_and] at h
    obtain ⟨⟨ht, hb⟩, htail⟩ := h
    rw [Branch.eraseList, Branch.eraseList, Branch.erase, Branch.erase,
      Expr.eraseSlot_eq_of_form he.2.1 he'.2.1 ht,
      Block.eraseSlot_eq_of_form he.2.2.2.1 he'.2.2.2.1 hb,
      Branch.eraseList_eq_of_whens he.2.2.2.2 he'.2.2.2.2 htail]
termination_by structural bs => bs

end

end LarkCheck
