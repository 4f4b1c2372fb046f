import RSource.Proofs.Concatenation
import RSource.Proofs.Enclosure
import RSource.Proofs.Nesting
import RSource.Proofs.RoundTrip

/-!
# A source between braces

The statements of an accepted source are those of the block that the source is between braces,
unless they are nested too deeply there.

* `Enclosure.ofBraced` — a text as it stands between braces on lines of their own.
* `reads_braced` — the block is derived with one more level of nesting.
* `parseFeed_of_levels` — what is derived with more levels than the limit is parsed, or refused as
  too deep.
* `parse_braced` — **between braces a source is a block of the same statements**, one line further
  down.
-/

namespace RSource

open Grammar

/-- A text between braces on lines of their own. -/
def braced (text : List Char) : List Char := '{' :: '\n' :: (text ++ ['\n', '}'])

/-! ## The tokens between the braces -/

theorem shifted_of_forall₂ {f : Location → Location} {d : Nat} {ts us : List Token}
    (h : List.Forall₂ (Reader.Shifted f id d) ts us) : us = ts.map (Token.shifted f d) := by
  induction h with
  | nil => rfl
  | @cons t u ts us htu h ih =>
      obtain ⟨kind, lexeme, loc, offset⟩ := t
      obtain ⟨kind', lexeme', loc', offset'⟩ := u
      obtain ⟨⟨hk, hl, hloc⟩, hoff⟩ := htu
      simp only [id] at hk hl hloc hoff
      rw [List.map_cons, ← ih, Token.shifted, hk, hl, hloc, hoff]

/-- The place where the second line starts, behind a brace. -/
def behindBrace : Cursor := Cursor.start.advance ['{', '\n']

/-- What a text between braces holds behind the opening brace and its line feed: the tokens of the
text one line further down, a line feed, the closing brace and the end of the input. -/
theorem exists_enclosure {text : List Char} {ts : List Token} {k : Cursor}
    (h : Reader.Reaches (.ofText text) ts ⟨k, []⟩) :
    ∃ W : Enclosure, W.move = .down 1 ∧ (∃ eof, W.ending = .ok eof) ∧
      W.brace.loc = ⟨3 + UInt32.ofNat (text.count '\n'), 1⟩ ∧
      (Reader.mk behindBrace (text ++ ['\n', '}'])).remaining =
        ((Reader.ofText text).remaining.1.map W.token ++ W.tail, W.ending) := by
  obtain ⟨read, lines, hread, hcursor, hlines, hlength, hrem⟩ := Reader.remaining_cut h 0 ['}']
  obtain ⟨l, rfl⟩ := List.length_eq_one_iff.mp hlength
  have hl : l.kind = .newline := hlines l (List.mem_singleton_self l)
  rw [List.append_nil] at hread
  subst hread
  have htext := congrArg Prod.fst (Reader.remaining_of_reaches_end h)
  -- The brace and the end of the input stand on the line behind the text.
  let c : Cursor := k.advance ['\n']
  let b : Token := ⟨.rbrace, "\x7d", c.loc, c.offset⟩
  have hbrace : Reader.remaining ⟨c, ['}']⟩ = ([b], .ok (Reader.eofAt (c.step '}'))) := by
    have hn : Reader.next ⟨c, ['}']⟩ = .ok (b, ⟨c.step '}', []⟩) := rfl
    rw [Reader.remaining_ok hn, if_neg (by simp [b]), if_neg (by simp [b]), Reader.remaining_nil]
  have hall : (Reader.ofText (text ++ ['\n', '}'])).remaining =
      (withoutComments ts ++ [l, b], .ok (Reader.eofAt (c.step '}'))) := by
    have hrem := hrem.trans (congrArg (fun x => (withoutComments ts ++ ([l] ++ x.1), x.2)) hbrace)
    exact hrem
  generalize hr : (⟨behindBrace, text ++ ['\n', '}']⟩ : Reader) = r
  obtain ⟨hshift, hend⟩ :
      List.Forall₂ (Reader.Shifted (.down 1) id 2) (Reader.ofText (text ++ ['\n', '}'])).remaining.1
          r.remaining.1 ∧
        SameEnd (.down 1) id (Reader.ofText (text ++ ['\n', '}'])).remaining.2 r.remaining.2 := by
    subst hr
    exact Reader.remaining_shift (fun l l' c hl => by rw [Location.down_step, hl]; rfl) rfl rfl rfl
  have htokens := shifted_of_forall₂ hshift
  rw [hall, List.map_append] at htokens
  rw [hall] at hend
  have hspelled : ∀ t ∈ [l, b].map (Token.shifted (.down 1) 2), t.IsSpelled := by
    intro t ht
    apply r.remaining_spelled t
    rw [htokens]
    exact List.mem_append_right _ ht
  let W : Enclosure :=
    { move := .down 1
      shift := 2
      line := l.shifted (.down 1) 2
      brace := b.shifted (.down 1) 2
      ending := r.remaining.2
      line_kind := hl
      brace_kind := rfl
      line_spelled := hspelled _ (by simp)
      brace_spelled := hspelled _ (by simp)
      ending_eof := r.remaining_ending }
  refine ⟨W, rfl, ?_, ?_, ?_⟩
  · show ∃ eof, r.remaining.2 = .ok eof
    generalize r.remaining.2 = e at hend
    cases hend
    exact ⟨_, rfl⟩
  · show Location.down 1 c.loc = _
    have hline : k.loc.line = 1 + UInt32.ofNat (text.count '\n') := by
      rw [show k = Cursor.start.advance text from hcursor, Cursor.loc_advance,
        Location.advance_line]
      rfl
    have hc : c.loc = ⟨k.loc.line + 1, 1⟩ := rfl
    rw [hc, Location.down, hline]
    generalize UInt32.ofNat (text.count '\n') = n
    rw [UInt32.add_comm 1 n, UInt32.add_assoc, UInt32.add_assoc, UInt32.add_comm 3]
    rfl
  · rw [htext]
    exact Prod.ext htokens rfl

/-! ## The block -/

/-- The statements of a source as the block between braces, closed at a place. -/
def blockOf (es : List Expression) (close : Location) : Expression :=
  .term .start (.mk (.block .start (relocateExpressions (.down 1) es) close) [])

/-- Where the tokens of a source end, the closing brace stands behind a line feed. -/
theorem Enclosure.reads_end (W : Enclosure) {E : ExprReads} {s : Tape} (hnil : s.tokens = [])
    (hl : s.layouts = []) :
    ∃ r : Tape, ReadsStatements E .rbrace (W.tape s) [] r ∧ r.tokens = [W.brace] ∧
      r.ending = W.ending ∧ r.layouts = [.lined] := by
  have htokens : (W.tape s).tokens = [W.line, W.brace] := by simp [tape, hnil, tail]
  have hlayouts : (W.tape s).layouts = [.lined] := by simp [tape, hl]
  have hfree : (W.tape s).isFree = false := by rw [Tape.isFree, hlayouts]; rfl
  have hfront : (W.tape s).front = .ok W.line := by
    rw [Tape.front_of_lined hfree]
    exact Tape.head_cons htokens
  have hpast : (W.tape s).past.tokens = [W.brace] := by
    rw [Tape.past_of_lined hfree, Tape.tail_tokens, htokens]
    rfl
  have hface : (W.tape s).past.Faces W.brace := Tape.faces_of_cons hpast (by simp [W.brace_kind])
  refine ⟨(W.tape s).past, ?_, hpast, by rw [Tape.past_ending]; rfl, ?_⟩
  · refine .skip hfront (by rw [W.line_kind]; rfl) ?_
    exact .stop hface.front W.brace_kind (by rw [W.brace_kind]; rfl)
  · rw [Tape.past_layouts, hlayouts]

/-- What is derived from a text is the block between braces, with one more level of nesting. -/
theorem reads_braced {levels : Nat} {text : List Char} {ts : List Token} {k : Cursor}
    {es : List Expression} {s' : Tape} (hr : Reader.Reaches (.ofText text) ts ⟨k, []⟩)
    (h : ReadsStatements (ReadsExpression levels) .eof (Feed.ofText text).tape es s') :
    ∃ r, ReadsStatements (ReadsExpression (levels + 1)) .eof (Feed.ofText (braced text)).tape
      [blockOf es ⟨3 + UInt32.ofNat (text.count '\n'), 1⟩] r := by
  obtain ⟨W, hmove, ⟨eof, heof⟩, hclose, hrem⟩ := exists_enclosure hr
  let lb : Token := ⟨.lbrace, "\x7b", .start, 0⟩
  let nl : Token := ⟨.newline, "\n", ⟨1, 2⟩, 1⟩
  generalize hT : (Feed.ofText text).tape = T at h
  have hTl : T.layouts = [] := by rw [← hT]; rfl
  -- The tokens of the source between the braces, behind the opening one and its line feed.
  have hbraced : (Reader.ofText (braced text)).remaining =
      (lb :: nl :: (W.tape T).tokens, W.ending) := by
    have hn : (Reader.ofText (braced text)).next =
        .ok (lb, ⟨Cursor.start.advance ['{'], '\n' :: (text ++ ['\n', '}'])⟩) := rfl
    have hn' : Reader.next ⟨Cursor.start.advance ['{'], '\n' :: (text ++ ['\n', '}'])⟩ =
        .ok (nl, ⟨behindBrace, text ++ ['\n', '}']⟩) := rfl
    rw [Reader.remaining_ok hn, if_neg (by simp [lb]), if_neg (by simp [lb]),
      Reader.remaining_ok hn', if_neg (by simp [nl]), if_neg (by simp [nl]), hrem, ← hT]
    rfl
  generalize hS : (Feed.ofText (braced text)).tape = S
  have htokens : S.tokens = lb :: nl :: (W.tape T).tokens := by
    rw [← hS]
    exact congrArg Prod.fst hbraced
  have hending : S.ending = W.ending := by
    rw [← hS]
    exact congrArg Prod.snd hbraced
  have hlayouts : S.layouts = [] := by rw [← hS]; rfl
  -- Behind the opening brace the statements of the source are derived up to the closing one.
  have hfront : S.Faces lb := Tape.faces_of_cons htokens (by simp [lb])
  have hstatements : ∃ r : Tape, ReadsStatements (ReadsExpression levels) .rbrace
      (S.past.enter .lined) (relocateExpressions (.down 1) es) r ∧ r.tokens = [W.brace] ∧
      r.ending = W.ending ∧ r.layouts = [.lined] := by
    obtain ⟨t, ht, hk⟩ := h.ends
    have hl' : s'.layouts = [] := (h.spans (covers_readsExpression levels)).layouts.trans hTl
    have hfree : s'.isFree = false := by rw [Tape.isFree, hl']; rfl
    rw [Tape.front_of_lined hfree] at ht
    obtain ⟨r, hend, hr⟩ := W.reads_end (Tape.tokens_of_end ht hk) hl'
    have hinner := h.enclose (replays_readsExpression levels) (encloses_readsExpression W levels)
      (Or.inl rfl) hend
    rw [hmove] at hinner
    refine ⟨r, ?_, hr⟩
    have hin : (S.past.enter .lined).tokens = nl :: (W.tape T).tokens := by
      rw [Tape.enter_tokens, hfront.past, Tape.tail_tokens, htokens]
      rfl
    have hlined : (S.past.enter .lined).shown = S.past.enter .lined := Tape.shown_of_lined rfl
    have hpast : (S.past.enter .lined).past = W.tape T := by
      rw [Tape.past, hlined]
      refine Tape.ext ?_ ?_ ?_
      · rw [Tape.tail_tokens, hin]
        rfl
      · rw [Tape.tail_ending, Tape.enter_ending, Tape.past_ending, hending]
        rfl
      · simp [hlayouts, Enclosure.tape, hTl]
    refine .skip (t := nl) ?_ rfl (by rwa [hpast])
    rw [Tape.front, hlined]
    exact Tape.head_cons hin
  obtain ⟨r, hinner, hrt, hre, hrl⟩ := hstatements
  have hbrace : r.Faces W.brace := Tape.faces_of_cons hrt (by simp [W.brace_kind])
  have hoperand := ReadsOperand.block hfront.front rfl hinner hbrace.front W.brace_kind
  -- Behind the closing brace the input ends.
  have heofk : eof.kind = .eof := W.ending_eof eof heof
  have hlast : r.past.leave.front = .ok eof := by
    have hnil : r.past.leave.tokens = [] := by
      rw [Tape.leave_tokens, hbrace.past, Tape.tail_tokens, hrt]
      rfl
    have hface : r.past.leave.Faces eof := by
      refine ⟨?_, by simp [heofk]⟩
      rw [Tape.head_nil hnil, Tape.leave_ending, Tape.past_ending, hre, heof]
    exact hface.front
  have hterm : ReadsTerm (ReadsExpression levels) S (.mk _ []) r.past.leave :=
    .mk hoperand (.stop hlast (by rw [heofk]; rfl))
  have hexpr : ReadsExpression (levels + 1) 0 S
      (blockOf es ⟨3 + UInt32.ofNat (text.count '\n'), 1⟩) r.past.leave := by
    rw [hclose] at hterm
    refine ReadsLevel.mk hfront.front (.term rfl (by simp [lb]) hterm) ?_
    exact .stop hlast (by rw [heofk]; rfl) (by simp [heofk, Power.ofKind?])
  refine ⟨r.past.leave, ?_⟩
  refine .more hfront.front rfl (by simp [lb]) (by simp [lb]) hexpr hlast (by rw [heofk]; rfl) ?_
  exact .stop hlast heofk (by rw [heofk]; rfl)

/-! ## The limit on nesting -/

theorem innerExpressions_le {es : List Expression} {n : Nat} (h : ∀ e ∈ es, e.nest ≤ n) :
    innerExpressions es ≤ n := by
  induction es with
  | nil => exact Nat.zero_le n
  | cons e es ih =>
      exact Nat.max_le.mpr ⟨h e (List.mem_cons_self ..),
        ih fun x hx => h x (List.mem_cons_of_mem _ hx)⟩

/-- What is derived with more levels than the limit is parsed, or refused as too deep. -/
theorem parseFeed_of_levels {levels : Nat} {s : Feed} {s' : Tape} {es : List Expression}
    (hle : maxNesting ≤ levels)
    (h : ReadsStatements (ReadsExpression levels) .eof s.tape es s') :
    (∃ loc, parseFeed s = .error (.tooDeep loc)) ∨ parseFeed s = .ok ⟨es⟩ := by
  have hshort : s.tape.Within (s.reader.rest.length + 1) :=
    Nat.lt_succ_of_le s.reader.length_remaining
  have hplay := h.play (covers_readsExpression levels) (plays_readsExpression _ _) hshort hshort
  rw [Parse.play_tape] at hplay
  have hdeepens := (composes_deepens (s.reader.rest.length + 1)
    fun m => deepens_expression (s.reader.rest.length + 1) m hle).statements .eof
  rw [parseFeed_play, Parse.play_tape]
  rcases hdeepens.run s with ⟨loc, hdeep⟩ | hsame
  · refine Or.inl ⟨loc, ?_⟩
    rw [hdeep]
    rfl
  · refine Or.inr ?_
    rw [← hsame, hplay]
    rfl

/-- **Between braces a source is a block of the same statements**, one line further down, in their
order, and nothing stands behind it; unless one of them is nested as deep as the limit allows, which
may be too deep there. -/
theorem parse_braced {bytes : List UInt8} {p : Program} (h : parse bytes = .ok p) :
    (∃ loc, parse (123 :: 10 :: (bytes ++ [10, 125])) = .error (.tooDeep loc)) ∧
        (∃ e ∈ p.statements, e.nest = maxNesting) ∨
      parse (123 :: 10 :: (bytes ++ [10, 125])) =
        .ok ⟨[.term ⟨1, 1⟩ (.mk (.block ⟨1, 1⟩ (p.relocate (.down 1)).statements
          ⟨3 + UInt32.ofNat (bytes.count 10), 1⟩) [])]⟩ := by
  obtain ⟨text, s', htext, -, hreads⟩ := readsProgram_of_parse h
  obtain ⟨text', us, htext', hlex, -⟩ := fits_of_parse h
  rw [htext] at htext'
  cases htext'
  have hlex' : lex bytes = .ok us := by rwa [lex, htext]
  obtain ⟨text', vs, k, htext', -, hr⟩ := Reader.reaches_of_lex hlex'
  rw [htext] at htext'
  cases htext'
  have hbytes := decodeSource_iff.mp htext
  have hparse : parse (123 :: 10 :: (bytes ++ [10, 125])) = parseFeed (.ofText (braced text)) := by
    have hdecode : decodeSource (123 :: 10 :: (bytes ++ [10, 125])) = .ok (braced text) := by
      rw [decodeSource_iff, hbytes, braced, List.flatMap_cons, List.flatMap_cons,
        List.flatMap_append]
      rfl
    rw [parse, hdecode]
    rfl
  have hcount : bytes.count 10 = text.count '\n' := by rw [hbytes, Utf8.count_newline]
  rw [hparse, hcount]
  by_cases hdeep : ∃ e ∈ p.statements, e.nest = maxNesting
  · obtain ⟨r, hblock⟩ := reads_braced hr hreads
    rcases parseFeed_of_levels (Nat.le_succ maxNesting) hblock with hrefused | haccepted
    · exact Or.inl ⟨hrefused, hdeep⟩
    · exact Or.inr haccepted
  · -- One level of nesting is left for the block.
    have hle : ∀ e ∈ p.statements, e.nest ≤ maxNesting - 1 := by
      intro e he
      have hne : e.nest ≠ maxNesting := fun heq => hdeep ⟨e, he, heq⟩
      have := nest_le_of_parse h e he
      omega
    have hshallow : ReadsStatements (ReadsExpression (maxNesting - 1)) .eof
        (Feed.ofText text).tape p.statements s' :=
      hreads.relevel (fun he hn => he.relevel hn) (innerExpressions_le hle)
    obtain ⟨r, hblock⟩ := reads_braced hr hshallow
    exact Or.inr (parseFeed_of_reads hblock)

/-- A condition ends at its line feed between braces too, although an `else` on the next line would
go on with it there. -/
theorem parse_braced_of_condition :
    let p : Program := ⟨[.term ⟨1, 1⟩ (.mk (.ifThen ⟨1, 1⟩
      (.term ⟨1, 5⟩ (.mk (.identifier ⟨⟨1, 5⟩, "a", false⟩) []))
      (.term ⟨1, 8⟩ (.mk (.identifier ⟨⟨1, 8⟩, "b", false⟩) []))) []),
      .term ⟨2, 1⟩ (.mk (.identifier ⟨⟨2, 1⟩, "c", false⟩) [])]⟩
    let bytes := "if (a) b\nc # d".toUTF8.data.toList
    parse bytes = .ok p ∧
      ((∃ loc, parse (123 :: 10 :: (bytes ++ [10, 125])) = .error (.tooDeep loc)) ∧
          (∃ e ∈ p.statements, e.nest = maxNesting) ∨
        parse (123 :: 10 :: (bytes ++ [10, 125])) =
          .ok ⟨[.term ⟨1, 1⟩ (.mk (.block ⟨1, 1⟩ (p.relocate (.down 1)).statements
            ⟨3 + UInt32.ofNat (bytes.count 10), 1⟩) [])]⟩) := by
  intro p bytes
  have hparse : parse bytes = .ok p := by rfl
  exact ⟨hparse, parse_braced hparse⟩

end RSource
