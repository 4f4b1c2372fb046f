import RSource.Proofs.Dangling
import RSource.Proofs.LineBreaks
import RSource.Proofs.RebreakingExpression
import RSource.Proofs.Splicing

/-!
# Where an `else` stands

In an accepted source an `else` belongs to the nearest condition in front of it that is open. In
brackets it may stand on any line below its branch, outside all brackets only on the same one.

* `Rebroken.refl`, `Rebroken.prepend` — tokens in front of those with other line feeds.
* `opened_of_else` — **an `else` behind a line feed stands in brackets**.
* `reflows_before_else` — an `else` and what follows it, read from another place.
* `play_rebroken`, `parse_of_reflows` — the statements with other line feeds there, and a text that
  is read like them.
* `accepted_of_else` — a text with other line feeds in front of an `else` is accepted.
* `Branches` — what is to be said of the conditions of a source.
* `branches_of_parse` — **what every accepted source has of it**.
-/

namespace RSource

/-! ## Tokens in front -/

/-- The brackets that are open behind some tokens. -/
abbrev openBehind (ts : List Token) : List Bracket := (Scope.start.run (ts.map (·.kind))).opened

theorem openBehind_withoutComments (ts : List Token) :
    openBehind (withoutComments ts) = openBehind ts :=
  congrArg Scope.opened (Scope.run_withoutComments .start ts)

/-- Line feeds open and close nothing. -/
theorem openBehind_lines {ts lines : List Token} (hl : ∀ l ∈ lines, l.kind = .newline) :
    openBehind (ts ++ lines) = openBehind ts := by
  rw [openBehind, List.map_append, Scope.run_append]
  exact congrArg Scope.opened (Scope.run_newlines _ (by simpa using hl))

theorem Rebroken.refl (c : Scope) (ts : List Token) : Rebroken True c ts ts := by
  induction ts generalizing c with
  | nil => exact .nil trivial
  | cons t ts ih => exact .step (ih _)

/-- The same tokens may be put in front of both. -/
theorem Rebroken.prepend {ends : Prop} {c : Scope} {front ts us : List Token}
    (h : Rebroken ends (c.run (front.map (·.kind))) ts us) :
    Rebroken ends c (front ++ ts) (front ++ us) := by
  induction front generalizing c with
  | nil => exact h
  | cons t front ih => exact .step (ih h)

/-- Where the tokens may not end, some are left. -/
theorem Rebroken.ne_nil {c : Scope} {ts us : List Token} (h : Rebroken False c ts us) :
    ts ≠ [] := by
  cases h with
  | nil h => exact h.elim
  | step => exact List.cons_ne_nil _ _
  | clause | wall => exact List.append_ne_nil_of_right_ne_nil _ (List.cons_ne_nil _ _)

/-! ## An `else` outside brackets -/

/-- **An `else` behind a line feed stands in brackets**: outside them nothing would go on with
it. -/
theorem opened_of_else {s s' : Tape} {es : List Expression} {front rest : List Token}
    {l x : Token}
    (h : Grammar.ReadsStatements (Grammar.ReadsExpression maxNesting) .eof s es s')
    (hs : s.layouts = []) (htokens : s.tokens = front ++ l :: x :: rest) (hl : l.kind = .newline)
    (hx : x.kind = .elseWord) : openBehind front ≠ [] := by
  intro ho
  have hline : ∀ m ∈ [l], m.kind = .newline := by simpa using hl
  have hwall : Rebroken False (Scope.start.run (front.map (·.kind))) (l :: x :: rest)
      (l :: x :: rest) := .wall ho hline (List.cons_ne_nil _ _) hx
  have haligned : Abreast False [] s s := by
    refine ⟨hs, hs, rfl, ?_⟩
    rw [htokens]
    exact hwall.prepend
  obtain ⟨r', -, hafter⟩ := h.rebreak (Grammar.replays_readsExpression maxNesting)
    (Grammar.rebreaks_readsExpression False maxNesting) (by decide) haligned
  -- At the end of the source no token is left, not even one behind the wall.
  obtain ⟨t, ht, hk⟩ := h.ends
  rw [Tape.front_of_lined hafter.isFree.1] at ht
  exact hafter.tokens.ne_nil (Tape.tokens_of_end ht hk)

/-! ## An `else` in brackets -/

/-- What adjoins a token is decided in front of an `else`. -/
theorem adjoins_before_else {t x y : Token} {ts us vs : List Token} (hx : x.kind = .elseWord)
    (hy : y.kind = .elseWord) : Adjoins t (ts ++ x :: us) ↔ Adjoins t (ts ++ y :: vs) := by
  induction ts with
  | nil =>
      rw [List.nil_append, List.nil_append, adjoins_cons (by simp [hx]),
        adjoins_cons (by simp [hy]), hx, hy]
      simp
  | cons u ts ih =>
      by_cases hu : u.kind = .newline
      · have hdrop : ∀ ws, dropLineFeeds (u :: ts ++ ws) = dropLineFeeds (ts ++ ws) := by
          intro ws
          simp [dropLineFeeds, hu]
        unfold Adjoins at ih ⊢
        rwa [hdrop, hdrop]
      · exact (adjoins_cons hu).trans (adjoins_cons hu).symm

/-- The same tokens in front of an `else` are read alike, whatever place that is read from. -/
theorem reflows_before_else {P : Pairing} (hsame : P.left = P.right) {c : Scope}
    {front ts us : List Token} {x y : Token} (hx : x.kind = .elseWord) (hy : y.kind = .elseWord)
    (h : ∀ c, P.Reflows c (x :: ts) (y :: us)) :
    P.Reflows c (front ++ x :: ts) (front ++ y :: us) := by
  induction front generalizing c with
  | nil => exact h c
  | cons t front ih =>
      exact .cons ⟨rfl, rfl, by rw [hsame]⟩ (fun _ => adjoins_before_else hx hy) ih

/-- The statements of an accepted text are played again where other line feeds stand in front of an
`else`. -/
theorem play_rebroken {text : List Char} {p : Program} {s : Tape} {n : Nat}
    (hp : parseText text = .ok p) (hs : Abreast True [] (Feed.ofText text).tape s)
    (hn : s.Within n) :
    ∃ s', (Grammar.statements (Grammar.expression n maxNesting) .eof n).play s =
      .ok (p.statements, s') := by
  obtain ⟨_, hreads⟩ := Grammar.readsProgram_of_parseFeed hp
  obtain ⟨s', hagain, -⟩ := hreads.rebreak (Grammar.replays_readsExpression maxNesting)
    (Grammar.rebreaks_readsExpression True maxNesting) (by decide) hs
  exact ⟨s', hagain.play (Grammar.covers_readsExpression maxNesting)
    (Grammar.plays_readsExpression n maxNesting) hn hn⟩

/-- What is played on a tape is parsed of a text that is read alike, places apart. -/
theorem parse_of_reflows {text : List Char} {es : List Expression} {s s' : Tape} {n : Nat}
    (hplay : (Grammar.statements (Grammar.expression n maxNesting) .eof n).play s = .ok (es, s'))
    (hn : s.Within n) (hl : s.layouts = [])
    (hend : SameEnd Location.toStart Location.toStart s.ending (Reader.ofText text).remaining.2)
    (h : (Pairing.between _ _ _ _ hend).Reflows .start s.tokens (Reader.ofText text).remaining.1) :
    ∃ q, parseText text = .ok q ∧ q.erase = Program.erase ⟨es⟩ := by
  have hr := (Feed.ofText text).within_tape (Nat.lt_succ_self _)
  have hmatch := Grammar.matches_statements
    (Grammar.pairs_expression (Pairing.between _ _ _ _ hend) _ _ maxNesting) .eof
    (fun ho => ho.lenient) ⟨hl, rfl, rfl, rfl, h.ahead true⟩ hn hr hn hr
  rw [hplay] at hmatch
  obtain ⟨fs, _, hfs, hsame, -⟩ := Grammar.matches_ok hmatch
  refine ⟨⟨fs⟩, ?_, ?_⟩
  · rw [parseText, parseFeed_play, hfs]
    rfl
  · rw [← Program.relocate_toStart, ← Program.relocate_toStart]
    exact congrArg Program.mk hsame.symm

/-- A text whose tokens are those of an accepted one, but for the line feeds in front of an `else`
in brackets, is accepted with the same tree, places apart. -/
theorem accepted_of_else {text text' : List Char} {front lines lines' : List Token}
    {r r' after : Reader} {x : Token} {p : Program} (hp : parseText text = .ok p)
    (h : (Reader.ofText text).remaining = (front ++ (lines ++ r.remaining.1), r.remaining.2))
    (h' : (Reader.ofText text').remaining = (front ++ (lines' ++ r'.remaining.1), r'.remaining.2))
    (hrest : r'.rest = r.rest) (hn : r.next = .ok (x, after)) (hk : x.kind = .elseWord)
    (hl : ∀ l ∈ lines, l.kind = .newline) (hl' : ∀ l ∈ lines', l.kind = .newline)
    (ho : openBehind front ≠ []) :
    ∃ q, parseText text' = .ok q ∧ q.erase = p.erase := by
  obtain ⟨htwin, hclose, hend⟩ := Reader.remaining_elsewhere hrest
  have hx : r.remaining.1 = x :: after.remaining.1 := by
    rw [Reader.remaining_of_next hn (by simp [hk]) (by simp [hk])]
  obtain ⟨y, us, hxy, -, hy⟩ := List.forall₂_cons_left_iff.mp (hx ▸ htwin)
  -- The tokens of the first text with the line feeds of the second one.
  have hspelled : ∀ t ∈ front ++ (lines' ++ r.remaining.1), t.IsSpelled := by
    intro t ht
    rcases List.mem_append.mp ht with ht | ht
    · exact (Reader.ofText text).remaining_spelled t (by simp [h, ht])
    · rcases List.mem_append.mp ht with ht | ht
      · exact (Reader.ofText text').remaining_spelled t (by simp [h', ht])
      · exact r.remaining_spelled t ht
  let s : Tape := ⟨front ++ (lines' ++ r.remaining.1), r.remaining.2, [], hspelled,
    r.remaining_ending⟩
  have hs : s.tokens = front ++ (lines' ++ r.remaining.1) := rfl
  have haligned : Abreast True [] (Feed.ofText text).tape s := by
    refine ⟨rfl, rfl, (congrArg Prod.snd h).symm, ?_⟩
    have htokens : (Feed.ofText text).tape.tokens = front ++ (lines ++ r.remaining.1) :=
      congrArg Prod.fst h
    rw [htokens, hs, hx]
    exact (Rebroken.clause ho hl hl' hk (.refl _ _)).prepend
  obtain ⟨s', hplay⟩ := play_rebroken hp haligned (Nat.lt_succ_self _)
  have hend' : SameEnd Location.toStart Location.toStart s.ending
      (Reader.ofText text').remaining.2 := by
    rw [h']
    exact hend
  refine parse_of_reflows hplay (Nat.lt_succ_self _) rfl hend' ?_
  have htail := reflows_of_twins (P := .between _ _ _ _ hend') htwin hclose
    r.remaining_offsets.2 r'.remaining_offsets.2 fun _ => rfl
  have htokens : (Reader.ofText text').remaining.1 = front ++ (lines' ++ r'.remaining.1) :=
    congrArg Prod.fst h'
  rw [hx, hy] at htail
  rw [hs, htokens, hx, hy, ← List.append_assoc, ← List.append_assoc]
  exact reflows_before_else rfl hk (hxy.kind.trans hk) htail

/-! ## Sources -/

section Accepted

variable {bytes : List UInt8} {text : List Char} {p : Program} {front lines : List Token}
  {t x : Token} {r r₁ after after₁ : Reader}

/-- Line feeds in front of an `else` in brackets change nothing. -/
theorem accepted_of_line_feeds (htext : decodeSource bytes = .ok text)
    (hp : parseText text = .ok p) (h : Reader.Reaches (.ofText text) front r)
    (hn : r.next = .ok (x, after)) (hk : x.kind = .elseWord) (ho : openBehind front ≠ [])
    (n : Nat) :
    ∃ q, parse (splice bytes x.offset x.offset (List.replicate n '\n')) = .ok q ∧
      q.erase = p.erase := by
  cases n with
  | zero =>
      refine ⟨p, ?_, rfl⟩
      rw [splice, List.replicate_zero, List.flatMap_nil, List.append_nil, List.take_append_drop,
        parse, htext]
      exact hp
  | succ n =>
      obtain ⟨read, lines, hread, hcursor, hlines, -, hright⟩ :=
        Reader.remaining_cut h.past_blanks n r.skipBlanks.rest
      have hoffset : x.offset = (read.flatMap String.utf8EncodeChar).length := by
        rw [Reader.offset_of_next hn, hcursor, Cursor.offset_start_advance]
      have hleft : (Reader.ofText text).remaining = (withoutComments front ++
          ([] ++ r.skipBlanks.remaining.1), r.skipBlanks.remaining.2) :=
        Reader.remaining_of_reaches h.past_blanks
      have hgap : decodeSource bytes = .ok (read ++ ([] ++ r.skipBlanks.rest)) := hread ▸ htext
      have hnone : x.offset = x.offset + (([] : List Char).flatMap String.utf8EncodeChar).length :=
        rfl
      rw [parse, decodeSource_splice hgap hoffset hnone]
      exact accepted_of_else hp hleft hright rfl ((Reader.next_skipBlanks r).trans hn) hk (by simp)
        hlines (by rwa [openBehind_withoutComments])

/-- Nor do blanks in the place of line feeds between an `else` in brackets and the token in front of
them. -/
theorem accepted_of_blanks (htext : decodeSource bytes = .ok text) (hp : parseText text = .ok p)
    (h : Reader.Reaches (.ofText text) front r₁) (ht : r₁.next = .ok (t, after₁))
    (he : t.kind ≠ .eof) (hc : t.kind ≠ .comment) (hl : Reader.Reaches after₁ lines r)
    (hlines : ∀ l ∈ lines, l.kind = .newline) (hn : r.next = .ok (x, after))
    (hk : x.kind = .elseWord) (ho : openBehind (front ++ t :: lines) ≠ []) {sp : List Char}
    (hsp : ∀ c ∈ sp, isBlank c = true) (hne : sp ≠ []) :
    ∃ q, parse (splice bytes t.stop x.offset sp) = .ok q ∧ q.erase = p.erase := by
  obtain ⟨read, gap, hread, hcursor, hcursor', hright⟩ :=
    Reader.remaining_joined h ht he hc hl.past_blanks hsp hne
  have hstart : t.stop = (read.flatMap String.utf8EncodeChar).length := by
    rw [Reader.stop_of_next ht, hcursor, Cursor.offset_start_advance]
  have hstop : x.offset = t.stop + (gap.flatMap String.utf8EncodeChar).length := by
    rw [Reader.offset_of_next hn, Reader.stop_of_next ht, hcursor', Cursor.offset_advance]
  have hleft : (Reader.ofText text).remaining = (withoutComments (front ++ [t]) ++
      (lines ++ r.skipBlanks.remaining.1), r.skipBlanks.remaining.2) := by
    have hto := h.trans (.step ht he (.here after₁)) (by simp)
    rw [Reader.remaining_of_reaches hto, Reader.remaining_of_reaches hl.past_blanks,
      Reader.withoutComments_lines hlines]
  have hnone : ∀ l ∈ ([] : List Token), l.kind = .newline := fun l hl => by cases hl
  generalize hr' : (⟨after₁.cursor.advance sp, r.skipBlanks.rest⟩ : Reader) = r' at hright
  have hrest : r'.rest = r.skipBlanks.rest := by rw [← hr']
  rw [← List.nil_append r'.remaining.1] at hright
  rw [parse, decodeSource_splice (hread ▸ htext) hstart hstop sp]
  have hopen : openBehind (withoutComments (front ++ [t])) ≠ [] := by
    rwa [openBehind_withoutComments, ← openBehind_lines hlines, List.append_assoc]
  exact accepted_of_else hp hleft hright hrest ((Reader.next_skipBlanks r).trans hn) hk hlines hnone
    hopen

end Accepted

/-- What is to be said of the conditions of a source, its tokens and its tree. -/
structure Branches (bytes : List UInt8) (ts : List Token) (p : Program) : Prop where
  /-- No branch in front of an `else` ends in a condition without one. -/
  nearest : ∀ e ∈ p.expressions, ∀ t ∈ e.terms, t.IsClosed
  /-- An `else` behind a line feed stands in brackets. -/
  opened : ∀ front l x rest, withoutComments ts = front ++ l :: x :: rest → l.kind = .newline →
    x.kind = .elseWord → openBehind front ≠ []
  /-- In brackets line feeds may be put in front of an `else`. -/
  broken : ∀ front x rest, ts = front ++ x :: rest → x.kind = .elseWord → openBehind front ≠ [] →
    ∀ n, ∃ q, parse (splice bytes x.offset x.offset (List.replicate n '\n')) = .ok q ∧
      q.erase = p.erase
  /-- There blanks may stand in the place of the line feeds in front of it, if no comment stands in
  front of these. -/
  joined : ∀ front t lines x rest, ts = front ++ t :: (lines ++ x :: rest) → t.kind ≠ .comment →
    (∀ l ∈ lines, l.kind = .newline) → x.kind = .elseWord → openBehind (front ++ t :: lines) ≠ [] →
    ∀ sp, sp ≠ [] → (∀ c ∈ sp, isBlank c = true) →
      ∃ q, parse (splice bytes t.stop x.offset sp) = .ok q ∧ q.erase = p.erase

/-- What stands in front of the last element. -/
theorem exists_before_last {α : Type} {us front rest : List α} {x z : α}
    (h : us ++ [z] = front ++ x :: rest) (hne : x ≠ z) : ∃ rest', us = front ++ x :: rest' := by
  rcases List.eq_nil_or_concat rest with rfl | ⟨rest', y, rfl⟩
  · obtain ⟨-, hz⟩ := List.append_inj' h rfl
    exact absurd (List.singleton_inj.mp hz).symm hne
  · rw [List.concat_eq_append, ← List.cons_append, ← List.append_assoc] at h
    exact ⟨rest', (List.append_inj' h rfl).1⟩

/-- **An `else` of an accepted source belongs to the nearest condition that is open; outside
brackets it stands on the line of its branch, and in brackets on any line below.** -/
theorem branches_of_parse {bytes : List UInt8} {p : Program} (h : parse bytes = .ok p) :
    ∃ ts, lex bytes = .ok ts ∧ Branches bytes ts p := by
  obtain ⟨text, us, k, s', htext, hp, hlex, hreaches, htokens, hs⟩ := reads_of_parse h
  have hword {x : Token} (hk : x.kind = .elseWord) : x ≠ Reader.eofAt k := by
    rintro rfl
    cases hk
  refine ⟨_, hlex, hs.not_dangles, ?_, ?_, ?_⟩
  · intro front l x rest hsplit hl hk
    have heof : withoutComments (us ++ [Reader.eofAt k]) = withoutComments us ++ [Reader.eofAt k] :=
      List.filter_append ..
    have hall : withoutComments us ++ [Reader.eofAt k] = (front ++ [l]) ++ x :: rest := by
      rw [← heof, hsplit, List.append_assoc]
      rfl
    obtain ⟨rest', hrest⟩ := exists_before_last hall (hword hk)
    rw [hrest, List.append_assoc] at htokens
    exact opened_of_else hs rfl htokens hl hk
  · intro front x rest hsplit hk ho n
    obtain ⟨rest', rfl⟩ := exists_before_last hsplit (hword hk)
    obtain ⟨r, after, hto, hn, -, -⟩ := hreaches.split
    exact accepted_of_line_feeds htext hp hto hn hk ho n
  · intro front t lines x rest hsplit hc hlines hk ho sp hne hsp
    have hall : us ++ [Reader.eofAt k] = (front ++ t :: lines) ++ x :: rest := by
      rw [hsplit, List.append_assoc]
      rfl
    obtain ⟨rest', rfl⟩ := exists_before_last hall (hword hk)
    rw [List.append_assoc] at hreaches
    obtain ⟨r₁, after₁, hto, ht, he, hbehind⟩ := hreaches.split
    obtain ⟨r, after, hto', hn, -, -⟩ := hbehind.split
    exact accepted_of_blanks htext hp hto ht he hc hto' hlines hn hk ho hsp hne

/-- The `else` on the second line belongs to the inner condition, and may stand on the first one. -/
theorem branches_of_parse_of_block :
    let p : Program := ⟨[.term ⟨1, 1⟩ (.mk (.block ⟨1, 1⟩ [.term ⟨1, 3⟩ (.mk (.ifThen ⟨1, 3⟩
      (.term ⟨1, 7⟩ (.mk (.identifier ⟨⟨1, 7⟩, "a", false⟩) []))
      (.term ⟨1, 10⟩ (.mk (.ifElse ⟨1, 10⟩
        (.term ⟨1, 14⟩ (.mk (.identifier ⟨⟨1, 14⟩, "b", false⟩) []))
        (.term ⟨1, 17⟩ (.mk (.identifier ⟨⟨1, 17⟩, "c", false⟩) []))
        (.term ⟨2, 6⟩ (.mk (.identifier ⟨⟨2, 6⟩, "d", false⟩) []))) []))) [])] ⟨2, 8⟩) [])]⟩
    parse "\x7b if (a) if (b) c\nelse d \x7d".toUTF8.data.toList = .ok p ∧
      ∃ q, parse "\x7b if (a) if (b) c else d \x7d".toUTF8.data.toList = .ok q ∧
        q.erase = p.erase := by
  intro p
  have hparse : parse "\x7b if (a) if (b) c\nelse d \x7d".toUTF8.data.toList = .ok p := by rfl
  obtain ⟨ts, hlex, hbranches⟩ := branches_of_parse hparse
  have hts : lex "\x7b if (a) if (b) c\nelse d \x7d".toUTF8.data.toList = .ok
      ([⟨.lbrace, "\x7b", ⟨1, 1⟩, 0⟩, ⟨.ifWord, "if", ⟨1, 3⟩, 2⟩, ⟨.lparen, "(", ⟨1, 6⟩, 5⟩,
        ⟨.ident, "a", ⟨1, 7⟩, 6⟩, ⟨.rparen, ")", ⟨1, 8⟩, 7⟩, ⟨.ifWord, "if", ⟨1, 10⟩, 9⟩,
        ⟨.lparen, "(", ⟨1, 13⟩, 12⟩, ⟨.ident, "b", ⟨1, 14⟩, 13⟩, ⟨.rparen, ")", ⟨1, 15⟩, 14⟩] ++
        ⟨.ident, "c", ⟨1, 17⟩, 16⟩ :: ([⟨.newline, "\n", ⟨1, 18⟩, 17⟩] ++
          ⟨.elseWord, "else", ⟨2, 1⟩, 18⟩ :: [⟨.ident, "d", ⟨2, 6⟩, 23⟩,
            ⟨.rbrace, "\x7d", ⟨2, 8⟩, 25⟩, ⟨.eof, "", ⟨2, 9⟩, 26⟩])) := by rfl
  rw [hlex] at hts
  cases hts
  refine ⟨hparse, hbranches.joined _ _ _ _ _ rfl (by decide) (by simp) rfl (by decide) [' ']
    (List.cons_ne_nil _ _) fun c hc => ?_⟩
  rw [List.mem_singleton.mp hc]
  rfl

end RSource
