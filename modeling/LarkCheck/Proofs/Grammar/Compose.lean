import LarkCheck.Proofs.Grammar.Follow
import LarkCheck.Proofs.Grammar.Nodes
import LarkCheck.Proofs.Grammar.Twin.Unit
import LarkCheck.Proofs.Token.Scans

/-!
# One unit after another

A unit that goes on on a new line with the text of another has the statements of
both, those of the second moved down, and reports what the two report. The parser
reads the last statement of the first in front of another token than before, but this
token stands on a later line and does not continue an expression; and it begins the
statements of the second with the counters that it had at the start.
-/

namespace LarkCheck

open Token

namespace Parser

variable {s s' t t' : State} {xs : List Stmt} {unit : Block}

/-- The statements of a unit. -/
def stmts : Parser (List Stmt) :=
  many (fun s => !s.current.kind.endsBlock) (Nested.ofLevels maxNesting).stmt

theorem body_eq_ok : body s = .ok unit s' ↔
    ∃ xs, stmts s = .ok xs s' ∧ s'.current.kind = .eof ∧ unit = ⟨s.current.loc, xs⟩ := by
  have hblock : block (.ofLevels maxNesting) =
      (current >>= fun first => stmts >>= fun xs => pure ⟨first.loc, xs⟩ : Parser Block) := rfl
  rw [body, hblock, bind_eq_ok]
  constructor
  · rintro ⟨b, s₁, hb, h⟩
    rw [current_bind] at hb
    obtain ⟨xs, s₂, hxs, hb⟩ := bind_eq_ok.1 hb
    obtain ⟨rfl, rfl⟩ := pure_eq_ok.1 hb
    rw [current_bind] at h
    split at h
    · obtain ⟨rfl, rfl⟩ := pure_eq_ok.1 h
      exact ⟨xs, hxs, ‹_›, rfl⟩
    · exact absurd h fail_ne_ok
  · rintro ⟨xs, hxs, heof, rfl⟩
    refine ⟨⟨s.current.loc, xs⟩, s', ?_, ?_⟩
    · rw [current_bind, bind_of_ok hxs]
      rfl
    · rw [current_bind, if_pos heof]
      rfl

theorem bind_eq_bind {α β : Type} {p q : Parser α} {s t : State} (g : α → Parser β)
    (h : p s = q t) : (p >>= g) s = (q >>= g) t := by
  change EStateM.bind p g s = EStateM.bind q g t
  rw [EStateM.bind, EStateM.bind, h]

/-- Behind some tokens there stand those that stood there, or else the next one on a later line. -/
theorem Passed.exists_next {zs ws : List Token} {k : Token} (h : Passed s ws s')
    (rest : List (Option Token)) (hlater : ∀ z ∈ zs, z.loc.line < k.loc.line)
    (hk : k.kind.Ending) : ∃ k' rest', ws.map some ++ some k :: rest = some k' :: rest' ∧
      Follows id Token.Kind.Ending zs s.current k' := by
  cases ws with
  | nil => exact ⟨k, rest, rfl, .inr ⟨hlater, hk⟩⟩
  | cons w ws => exact ⟨w, _, rfl, .inl h.head_eq.symm⟩

/-- Statements are read again in front of a token on a later line, and then further ones. -/
theorem stmts_again (hs : s.Sound) (h : stmts s = .ok xs s') : ∃ ws, Passed s ws s' ∧ s'.Sound ∧
    ∀ {t : State} {k : Token} {rest : List (Option Token)}, Abreast false s t →
      t.pending = ws.map some ++ some k :: rest → (∀ w ∈ ws, w.loc.line < k.loc.line) →
      k.kind.Ending → ∃ t', Abreast false s' t' ∧ t'.pending = some k :: rest ∧
        stmts t = (do let ys ← stmts; return xs ++ ys) t' := by
  induction hsize : s.ahead.size using Nat.strongRecOn generalizing s xs with
  | ind size ih =>
    subst hsize
    cases hend : s.current.kind.endsBlock with
    | true =>
      have hnil : stmts s = .ok [] s := stmts_stop hend
      cases hnil.symm.trans h
      exact ⟨[], .refl _, hs, fun {t k rest} hab ht _ _ =>
        ⟨t, hab, ht, (congrFun (bind_pure stmts) t).symm⟩⟩
    | false =>
      have hmore : ∀ {t : State}, t.current = s.current → (!t.current.kind.endsBlock) = true :=
        fun ht => by rw [ht, hend]; rfl
      have hrun : Twin id false s (Nested.ofLevels maxNesting).stmt
          (Nested.ofLevels maxNesting).stmt Token.Kind.Ending true [.nil] :=
        (Nested.twins_ofLevels (fun _ _ => Iff.rfl) _).stmt hs
      have hstmt := hrun.marked (List.cons_ne_nil _ _)
      rw [stmts, many_eq_bind (hmore rfl)] at h
      obtain ⟨⟨x, grew⟩, s₁, hx, hrest⟩ := bind_eq_ok.1 h
      obtain ⟨zs, hne, hzs⟩ := hstmt.ok hx
      replace hne := hne (List.cons_ne_nil _ _)
      have hsize : s₁.ahead.size < s.ahead.size := hzs.passed.size_lt hne
      obtain ⟨-, rfl⟩ := marked_eq_ok.1 hx
      rw [manyMore, if_pos (by simpa using hsize)] at hrest
      obtain ⟨ys, s₂, hys, hrest⟩ := bind_eq_ok.1 hrest
      obtain ⟨rfl, rfl⟩ := pure_eq_ok.1 hrest
      obtain ⟨ws, hws, hs', hagain⟩ := ih _ hsize hzs.sound hys rfl
      refine ⟨zs ++ ws, hzs.passed.trans hws, hs', fun {t k rest} hab ht hlater hk => ?_⟩
      rw [List.map_append, List.append_assoc] at ht
      obtain ⟨k', rest', heq, hfollows⟩ := hws.exists_next rest
        (fun z hz => hlater z (List.mem_append_left _ hz)) hk
      rw [heq] at ht
      have hzs' : zs = move id zs := (List.map_id zs).symm
      rw [hzs'] at ht
      obtain ⟨b, t₁, hb, hab₁, ht₁, hsame⟩ := hzs.again hab ht hfollows
      obtain rfl : b = (x, true) := by
        rw [hsame (.inr rfl), decide_eq_true hsize]
        exact congrArg (·, true) (Stmt.move_id x)
      rw [← heq] at ht₁
      obtain ⟨t', hab', ht', heq'⟩ := hagain hab₁ ht₁
        (fun w hw => hlater w (List.mem_append_right _ hw)) hk
      refine ⟨t', hab', ht', ?_⟩
      have hcurrent : t.current = s.current := hzs.passed.current_move_of_ne hne ht
      rw [stmts, many_eq_bind (hmore hcurrent), bind_of_ok hb]
      refine (bind_eq_bind _ heq').trans ?_
      simp only [bind_assoc, pure_bind]
      rfl

/-- What the readings of an accepted text are like, and how it was accepted. -/
structure Accepts (text : List Char) (unit : Block) (s s' : State) : Prop where
  opens : Opens (readings (.start text)) s
  run : body s = .ok unit s'
  isSome : ∀ r ∈ readings (.start text), r.token.isSome = true
  clean : ∀ r ∈ readings (.start text), ∀ d ∈ r.news, d.isError = false
  grammatical : AllNodes Node.Grammatical unit.nodes

variable {name : String} {text : List Char} {log : Log}

theorem accepts_of_parse (h : parse (.empty name) text = (some unit, log)) :
    (∃ s s', Accepts text unit s s') ∧
      log = ⟨name, (readings (.start text)).flatMap (·.news)⟩ := by
  have hunit : (parse (.empty name) text).1 = some unit := congrArg Prod.fst h
  obtain ⟨s', hrun, hclean, hlog⟩ := parse_fst_eq_some hunit
  obtain ⟨-, hnews, -⟩ := unit_spans (endsOnce_readings _) hrun
  rw [hnews] at hclean hlog
  have clean : ∀ r ∈ readings (.start text), ∀ d ∈ r.news, d.isError = false := by
    intro r hr d hd
    simpa using List.any_eq_false.1 hclean d (List.mem_flatMap.2 ⟨r, hr, hd⟩)
  have isSome : ∀ r ∈ readings (.start text), r.token.isSome = true := by
    intro r hr
    cases hsome : r.token.isSome with
    | true => rfl
    | false =>
      have hexplains := explains_of_mem_readings hr
      rw [hsome] at hexplains
      obtain ⟨before, d, hnews, -, -, herror⟩ := hexplains.last_malformed
      rw [clean r hr d (by simp [hnews])] at herror
      cases herror
  refine ⟨?_, ?_⟩
  · obtain ⟨s, hopens⟩ := exists_opens_of_isSome (readings_ne_nil _) isSome
    rw [hopens.unit_eq] at hrun
    exact ⟨s, s', hopens, hrun, isSome, clean, fun _ => grammatical_of_parse hunit⟩
  · rw [h] at hlog
    exact hlog

theorem parse_of_run (h : Parser.unit (.start (readings (.start text))) = .ok unit s)
    (hclean : ∀ r ∈ readings (.start text), ∀ d ∈ r.news, d.isError = false) :
    parse (.empty name) text =
      (some unit, ⟨name, (readings (.start text)).flatMap (·.news)⟩) := by
  obtain ⟨-, hnews, -⟩ := unit_spans (endsOnce_readings _) h
  have herror : s.news.any Diagnostic.isError = false := by
    rw [hnews, List.any_eq_false]
    intro d hd
    obtain ⟨r, hr, hd⟩ := List.mem_flatMap.1 hd
    simp [hclean r hr d hd]
  simp only [parse, h, Log.errorCount_lt_append, herror]
  rw [hnews]
  rfl

/-- The first token of an accepted text ends an expression before it, if it is not one of those
that may go on with it. -/
theorem Accepts.ending (h : Accepts text unit s s') (hjoins : s.current.kind.joins = false) :
    s.current.kind.Ending := by
  obtain ⟨t, hrun⟩ := h.opens.run
  obtain ⟨-, htokens, -⟩ := advance_start (endsOnce_readings _) hrun
  have hunit := h.run
  rw [← h.opens.unit_eq] at hunit
  obtain ⟨hyield, -⟩ := unit_spans (endsOnce_readings _) hunit
  have hkinds : s.kinds = unit.yield ++ [.eof] := by rw [State.kinds, htokens, hyield]
  have hgrammatical := h.grammatical
  obtain ⟨loc, xs⟩ := unit
  cases xs with
  | nil =>
    have heof : s.current.kind = .eof := (List.cons.inj hkinds).1
    rw [heof]
    exact ⟨rfl, by simp⟩
  | cons x xs =>
    obtain ⟨p, ps, heq, hp⟩ := Stmt.head_pieces (AllNodes.append_iff.1 hgrammatical).1
    have hkind : s.current.kind = p.kind := by
      simp only [Block.yield, Block.pieces, Stmt.listPieces, heq] at hkinds
      exact (List.cons.inj hkinds).1
    rw [hkind] at hjoins ⊢
    exact ⟨continues_of_startsStatement hp hjoins, ne_of_startsStatement hp rfl⟩

theorem pending_of_eof (hs : s.Sound) (heof : s.current.kind = .eof) :
    s.pending = [some s.current] := by
  have hsynced := hs.synced
  rw [State.Synced, if_pos heof] at hsynced
  rw [State.pending, hsynced]
  rfl

theorem Accepts.sound (h : Accepts text unit s s') : s.Sound :=
  h.opens.sound (endsOnce_readings _) fun _ => explains_of_mem_readings

/-- The statements leave the counters as they are. -/
theorem Accepts.steady (h : Accepts text unit s s') (hrun : stmts s = .ok xs t) :
    t.depth = s.depth ∧ t.level = s.level := by
  obtain ⟨_, hadvance⟩ := h.opens.run
  obtain ⟨hready, -⟩ := advance_start (endsOnce_readings _) hadvance
  have hblock : block (.ofLevels maxNesting) s = .ok ⟨s.current.loc, xs⟩ t := by
    change (current >>= fun first => stmts >>= fun xs => pure ⟨first.loc, xs⟩ : Parser Block) s = _
    rw [current_bind, bind_of_ok hrun]
    rfl
  have hspans := block_spans (Nested.reads_ofLevels _) _ _ _ hready hblock
  exact ⟨hspans.depth_eq, hspans.level_eq⟩

theorem flatMap_news_move (f : Location → Location) (rs : List Reading) :
    (move f rs).flatMap (·.news) = move f (rs.flatMap (·.news)) := by
  simp [move, List.flatMap_map, List.map_flatMap]

theorem map_token_move (f : Location → Location) (rs : List Reading) :
    (move f rs).map (·.token) = (rs.map (·.token)).map (move f) := by
  simp [move]

end Parser

open LarkCheck.Parser

variable {a b : List Char} {init : List Reading} {last : Reading} {unitA unitB : Block}
  {s s' t t' : State}

/-- The tokens before the end of the first text are those that its statements took. -/
theorem Token.Joins.taken_eq (h : Joins a b init last) (ha : Accepts a unitA s s') {ws : List Token}
    (hws : Passed s ws s') (hs' : s'.Sound) (heof : s'.current.kind = .eof) :
    ws.map some = init.map (·.token) := by
  have hpending : ws.map some ++ [some s'.current] = init.map (·.token) ++ [last.token] := by
    rw [← pending_of_eof hs' heof, ← hws, ha.opens.pending, h.first_eq, List.map_append]
    rfl
  exact (List.append_inj' hpending rfl).1

/-- The first token of the second text stands below all that. -/
theorem Token.Joins.line_lt (h : Joins a b init last) (hb : Accepts b unitB t t') {ws : List Token}
    (hws : ws.map some = init.map (·.token)) :
    ∀ w ∈ ws, w.loc.line < (move (Location.down (endLine a)) t.current).loc.line := by
  intro w hw
  have hmem : some w ∈ init.map (·.token) := hws ▸ List.mem_map_of_mem hw
  obtain ⟨r, hr, htoken⟩ := List.mem_map.1 hmem
  have hle := h.line_le r hr w htoken
  have hfirst : 1 ≤ t.current.loc.line := by
    rw [loc_of_read hb.opens.read_eq]
    exact le_line_gap (.start b)
  change w.loc.line < t.current.loc.line + endLine a
  omega

/-- The run on both texts goes through the statements of the first and then through those of the
second. -/
theorem Token.Joins.unit_eq (h : Joins a b init last) (ha : Accepts a unitA s s')
    (hb : Accepts b unitB t t') (hjoins : t.current.kind.joins = false) :
    ∃ unit u, Parser.unit (.start (readings (.start (a ++ '\n' :: b)))) = .ok unit u ∧
      unit.stmts = unitA.stmts ++ move (Location.down (endLine a)) unitB.stmts := by
  obtain ⟨xs, hxs, heof, rfl⟩ := body_eq_ok.1 ha.run
  obtain ⟨ys, hys, heof', rfl⟩ := body_eq_ok.1 hb.run
  obtain ⟨ws, hws, hs', hagain⟩ := stmts_again ha.sound hxs
  have htaken := h.taken_eq ha hws hs' heof
  have hline := h.line_lt hb htaken
  have hjoined := h.joined_eq
  generalize hf : Location.down (endLine a) = f at hline hjoined ⊢
  have hkeep : KeepsLines f := by
    intro l l'
    rw [← hf]
    exact Nat.add_right_cancel_iff
  obtain ⟨u₁, hopens⟩ : ∃ u, Opens (init ++ move f (readings (.start b))) u := by
    refine exists_opens_of_isSome ?_ fun r hr => ?_
    · simp [move, readings_ne_nil]
    · rcases List.mem_append.1 hr with hr | hr
      · exact ha.isSome r (by simp [h.first_eq, hr])
      · obtain ⟨r, hmem, rfl⟩ := List.mem_map.1 hr
        exact Option.isSome_map.trans (hb.isSome r hmem)
  have hpending : u₁.pending =
      ws.map some ++ some (move f t.current) :: move f (t.ahead.items.map (·.token)) := by
    rw [hopens.pending, List.map_append, map_token_move, ← hb.opens.pending, htaken]
    rfl
  obtain ⟨u₂, hab, hu₂, hrun⟩ :=
    hagain (ha.opens.abreast hopens) hpending hline (hb.ending hjoins)
  have hstmts : Part f false 0 false stmts Token.Kind.Closing true [] :=
    .stmts (Nested.twins_ofLevels hkeep _)
  obtain ⟨zs, -, hzs⟩ := (hstmts.twin hb.sound).ok hys
  have hab' : Abreast false t u₂ := by
    obtain ⟨hdepth, hlevel⟩ := ha.steady hxs
    have hstart := @Opens.abreast false _ _ _ _ ha.opens hb.opens
    refine ⟨?_, ?_, nofun⟩
    · rw [hab.depth_eq, hdepth, hstart.depth_eq]
    · rw [hab.level_eq, hlevel, hstart.level_eq]
  have hu₂' : u₂.pending = (move f zs).map some ++ some (move f t'.current) :: [] := by
    have hall : u₂.pending = move f t.pending := hu₂
    rw [hall, hzs.passed, pending_of_eof hzs.sound heof']
    simp [move]
  obtain ⟨u₃, hrun', -, hu₃⟩ := hzs.same hab' hu₂'
  have heof₃ : u₃.current.kind = .eof := by
    rw [current_of_pending hu₃]
    exact heof'
  replace hrun' : stmts u₂ = .ok (move f ys) u₃ := hrun'
  have hboth : stmts u₁ = .ok (xs ++ move f ys) u₃ := by
    rw [hrun, bind_of_ok hrun']
    rfl
  refine ⟨⟨u₁.current.loc, xs ++ move f ys⟩, u₃, ?_, rfl⟩
  rw [hjoined, hopens.unit_eq]
  exact body_eq_ok.2 ⟨_, hboth, heof₃, rfl⟩

/-- A text that goes on on a new line with another one is accepted, if both are and the second
does not begin with a token that would go on with an expression before it. It has the statements
of both, those of the second moved down by the lines of the first, and the warnings of both. -/
theorem parse_append {name : String} {a b : List Char} {unitA unitB : Block} {logA logB : Log}
    (ha : parse (.empty name) a = (some unitA, logA))
    (hb : parse (.empty name) b = (some unitB, logB))
    (hjoins : ∀ token, (Cursor.start b).read.1.token = some token → token.kind.joins = false) :
    ∃ unit, parse (.empty name) (a ++ '\n' :: b) =
        (some unit, ⟨name, logA.entries ++ move (Location.down (endLine a)) logB.entries⟩) ∧
      unit.stmts = unitA.stmts ++ move (Location.down (endLine a)) unitB.stmts := by
  obtain ⟨⟨s, s', ha'⟩, rfl⟩ := accepts_of_parse ha
  obtain ⟨⟨t, t', hb'⟩, rfl⟩ := accepts_of_parse hb
  obtain ⟨init, last, h⟩ := exists_joins (fun r hr => ⟨ha'.isSome r hr, ha'.clean r hr⟩) hb'.isSome
  obtain ⟨unit, u, hunit, hstmts⟩ := h.unit_eq ha' hb' (hjoins _ hb'.opens.read_eq)
  refine ⟨unit, ?_, hstmts⟩
  have hclean : ∀ r ∈ readings (.start (a ++ '\n' :: b)), ∀ d ∈ r.news, d.isError = false := by
    intro r hr d hd
    rw [h.joined_eq] at hr
    rcases List.mem_append.1 hr with hr | hr
    · exact ha'.clean r (by simp [h.first_eq, hr]) d hd
    · obtain ⟨r, hmem, rfl⟩ := List.mem_map.1 hr
      obtain ⟨d, hmem', rfl⟩ := List.mem_map.1 hd
      exact hb'.clean r hmem d hmem'
  rw [parse_of_run hunit hclean, h.joined_eq, h.first_eq, List.flatMap_append,
    List.flatMap_append, flatMap_news_move]
  simp [h.last_news]

/-- An assignment with a comment after it, and a conditional, each with an unknown escape. -/
def firstText : List Char :=
  "x = \"\\q\" # one".toList

def secondText : List Char :=
  "if x\n  y = \"\\z\"\nend".toList

theorem parse_append_firstText : ∃ unitA unitB unit,
    (parse (.empty "u") firstText).1 = some unitA ∧
      (parse (.empty "u") secondText).1 = some unitB ∧
      (parse (.empty "u") (firstText ++ '\n' :: secondText)).1 = some unit ∧
      unit.stmts = unitA.stmts ++ move (Location.down 1) unitB.stmts ∧
      (parse (.empty "u") (firstText ++ '\n' :: secondText)).2.entries.map (·.loc) =
        [⟨1, 5⟩, ⟨3, 7⟩] := by
  have acceptedA : (parse (.empty "u") firstText).1.isSome = true := by decide +kernel
  have acceptedB : (parse (.empty "u") secondText).1.isSome = true := by decide +kernel
  obtain ⟨unitA, ha⟩ := Option.isSome_iff_exists.1 acceptedA
  obtain ⟨unitB, hb⟩ := Option.isSome_iff_exists.1 acceptedB
  have hfirst : (Cursor.start secondText).read.1.token.all (fun token => !token.kind.joins) := by
    decide +kernel
  have hline : endLine firstText = 1 := by decide +kernel
  have hA : (parse (.empty "u") firstText).2.entries.map (·.loc) = [⟨1, 5⟩] := by decide +kernel
  have hB : (parse (.empty "u") secondText).2.entries.map (·.loc) = [⟨2, 7⟩] := by decide +kernel
  obtain ⟨unit, hparse, hstmts⟩ :=
    @parse_append "u" _ _ _ _ _ _ (Prod.ext ha rfl) (Prod.ext hb rfl) fun token htoken => by
      rw [htoken] at hfirst
      simpa using hfirst
  rw [hline] at hparse hstmts
  refine ⟨unitA, unitB, unit, ha, hb, by rw [hparse], hstmts, ?_⟩
  have hmoved : (move (Location.down 1) (parse (.empty "u") secondText).2.entries).map (·.loc) =
      ((parse (.empty "u") secondText).2.entries.map (·.loc)).map (Location.down 1) := by
    simp [move]
  rw [hparse, List.map_append, hA, hmoved, hB]
  rfl

end LarkCheck
