import LarkCheck.Proofs.CommandLine.Interleaving
import LarkCheck.Proofs.Grammar.Yield
import LarkCheck.Proofs.Report.Gapless

/-!
# One stage shown, and all stages run

The three options that show a stage leave out what comes after it, and the scopes
are shown without the checks that stand between. A unit that was parsed passes these
checks and nothing is reported by them. So what an option says of a file is what the
report on the file says.
-/

namespace LarkCheck

/-- The checks after the resolution of names change nothing for a unit that was parsed. -/
theorem analyze_of_parse {log log' : Log} {text : List Char} {unit : Block}
    (h : parse log text = (some unit, log')) :
    analyze log' unit =
      match unit.resolve log' with
      | (none, log'') => (.error .resolution, log'')
      | (some scopes, log'') => (.ok ⟨unit, scopes⟩, log'') := by
  have hgaps : ∀ n ∈ unit.nodes, n.gaps = [] := fun n hn =>
    (grammatical_of_parse (congrArg Prod.fst h) hn).gaps_eq_nil
  unfold analyze
  rcases unit.resolve log' with ⟨scopes?, log''⟩
  cases scopes? with
  | none => rfl
  | some scopes => simp only [Block.checkRules_nil, Block.checkStructure_of_gaps hgaps]

/-- Nobody parses a text that the lexer rejects. -/
theorem lex_isSome_of_parse {log : Log} {text : List Char}
    (h : (parse log text).1.isSome = true) : (Token.lex log text).1.isSome = true := by
  obtain ⟨unit, hunit⟩ := Option.isSome_iff_exists.1 h
  obtain ⟨s, hrun, herror, -⟩ := parse_fst_eq_some hunit
  obtain ⟨-, hnews, -, -⟩ := Parser.unit_spans (Token.endsOnce_readings _) hrun
  rw [hnews] at herror
  simp [Token.lex, herror]

namespace CommandLine

open Source (Files)

section Shown

variable {files : Files} {path : String} {text : List Char}

theorem showStage_succeeded {α : Type} (hload : Source.load files path = .ok text)
    (stage : Log → List Char → Option α × Log) (present : α → Output) :
    (showStage files path stage present).succeeded = (stage (.empty path) text).1.isSome := by
  simp only [showStage, hload]
  rcases stage (.empty path) text with ⟨value?, log⟩
  cases value? <;> rfl

theorem showStage_message {α : Type} (hload : Source.load files path = .ok text)
    (stage : Log → List Char → Option α × Log) (present : α → Output)
    (hfailed : (showStage files path stage present).succeeded = false) :
    (showStage files path stage present).message =
      some (stage (.empty path) text).2.render := by
  rw [showStage_succeeded hload] at hfailed
  simp only [showStage, hload]
  rcases hstage : stage (.empty path) text with ⟨value?, log⟩
  rw [hstage] at hfailed
  cases value? with
  | none => rfl
  | some value => cases hfailed

/-- A unit passes every stage if its scopes can be shown, and what is reported is the same. -/
theorem scopesOf_eq_compile (name : String) (text : List Char) :
    (scopesOf (.empty name) text).1.isSome = (compile name text).succeeded ∧
      (scopesOf (.empty name) text).2 = (compile name text).log := by
  unfold scopesOf compile
  rcases hparse : parse (.empty name) text with ⟨unit?, log⟩
  cases unit? with
  | none => exact ⟨rfl, rfl⟩
  | some unit =>
    simp only [analyze_of_parse hparse]
    rcases unit.resolve log with ⟨scopes?, log'⟩
    cases scopes? <;> exact ⟨rfl, rfl⟩

/-- A unit fails in parsing if its tree cannot be shown, and then nothing else is reported. -/
theorem parse_isSome_iff_compile (name : String) (text : List Char) :
    ((parse (.empty name) text).1.isSome = false ↔
        (compile name text).failedStage? = some .parse) ∧
      ((parse (.empty name) text).1.isSome = false →
        (parse (.empty name) text).2 = (compile name text).log) := by
  unfold compile
  rcases hparse : parse (.empty name) text with ⟨unit?, log⟩
  cases unit? with
  | none => exact ⟨⟨fun _ => rfl, fun _ => rfl⟩, fun _ => rfl⟩
  | some unit =>
    simp only [analyze_of_parse hparse]
    rcases unit.resolve log with ⟨scopes?, log'⟩
    cases scopes? <;> simp [Report.failedStage?]

/-- What an option shows of a file that can be loaded agrees with the report on it: the scopes are
shown just when the file compiles, the tree just when parsing is not what failed, and the tokens
whenever the tree is. The message of a failure is the text of the whole report. -/
theorem shown_agrees (hload : Source.load files path = .ok text) {workers : Nat}
    (hworkers : 0 < workers) :
    compileFile files path = .ok (compile path text) ∧
    (showScopes files path).succeeded = (compileFiles workers files [path]).succeeded ∧
    ((showTree files path).succeeded = false ↔
      (compile path text).failedStage? = some .parse) ∧
    ((showTree files path).succeeded = true → (showTokens files path).succeeded = true) ∧
    ((showTree files path).succeeded = false →
      (showTree files path).message = some (compile path text).log.render) ∧
    ((showScopes files path).succeeded = false →
      (showScopes files path).message = some (compile path text).log.render) := by
  have hcompile : compileFile files path = .ok (compile path text) := by
    rw [compileFile, hload]
    rfl
  obtain ⟨hscopes, hscopesLog⟩ := scopesOf_eq_compile path text
  obtain ⟨htree, htreeLog⟩ := parse_isSome_iff_compile path text
  refine ⟨hcompile, ?_, ?_, ?_, ?_, ?_⟩
  · rw [compileFiles_singleton_succeeded hworkers, hcompile, showScopes,
      showStage_succeeded hload, hscopes]
    rfl
  · rw [showTree, showStage_succeeded hload]
    exact htree
  · rw [showTree, showTokens, showStage_succeeded hload, showStage_succeeded hload]
    exact lex_isSome_of_parse
  · intro hfailed
    rw [showTree, showStage_message hload _ _ hfailed]
    rw [showTree, showStage_succeeded hload] at hfailed
    rw [htreeLog hfailed]
  · intro hfailed
    rw [showScopes, showStage_message hload _ _ hfailed, hscopesLog]

end Shown

/-- Under every path the same use of a name that is declared nowhere. -/
def useFiles : Files :=
  fun _ => .file [121, 61, 120]

theorem shown_agrees_useFiles :
    Source.load useFiles "u" = .ok ['y', '=', 'x'] ∧
      (showTree useFiles "u").succeeded = true ∧ (showTokens useFiles "u").succeeded = true ∧
      (showScopes useFiles "u").succeeded = false ∧
      (compileFiles 1 useFiles ["u"]).succeeded = false ∧
      (showScopes useFiles "u").message = some (compile "u" ['y', '=', 'x']).log.render := by
  have hload : Source.load useFiles "u" = .ok ['y', '=', 'x'] := by decide +kernel
  have htree : (showTree useFiles "u").succeeded = true := by decide +kernel
  have hscopes : (showScopes useFiles "u").succeeded = false := by decide +kernel
  obtain ⟨-, hall, -, htokens, -, hmessage⟩ := shown_agrees hload Nat.zero_lt_one
  exact ⟨hload, htree, htokens htree, hscopes, hall.symm.trans hscopes, hmessage hscopes⟩

end CommandLine

end LarkCheck
