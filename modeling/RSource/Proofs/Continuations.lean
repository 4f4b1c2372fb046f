import RSource.Proofs.LineBreaks
import RSource.Proofs.Offsets
import RSource.Proofs.Refusal
import RSource.Proofs.Uncommented

/-!
# What would have been accepted

A syntax error lists what would have been accepted instead of the token at which it is reported, and
so it is: the source goes on with any of it.

* `Continuation.IsWritten` — how a continuation is written.
* `continued` — a source that goes on with a continuation instead of a token.
* `AcceptedToEnd` — a source that is accepted, or refused at its end alone.
* `Adjoining`, `exists_adjoining` — a source in which the second of two brackets adjoins the first,
  beside one in which line feeds stand between them.
* `accepted_of_spaced`, `accepted_of_adjoining` — a continuation behind a space, and the second of
  two brackets behind the first.
* `continuations_accepted` — **what a syntax error expects is accepted**.
-/

namespace RSource

/-! ## Continuations -/

/-- How a continuation is written: a token by its spelling, a name for an identifier or an
expression, and a semicolon at the end of a statement. -/
def Continuation.IsWritten : Continuation → List Char → Prop
  | token kind, w => w = kind.label.toList
  | expression, w | identifier, w => Lexeme.Spells .ident w ∨ Lexeme.Spells .quotedIdent w
  | statementEnd, w => w = [';']

/-- What is written is read as one token, which the continuation accepts. -/
structure Continuation.Writes (x : Continuation) (w : List Char) (k : TokenKind) : Prop where
  accepts : x.Accepts k
  spells : Lexeme.Spells k w
  ne_comment : k ≠ .comment
  ne_eof : k ≠ .eof
  plain : k ≠ .newline ∧ k ≠ .elseWord ∧ k ≠ .eqAssign
  bracket : k = .rbracket → x = .token .rbracket

theorem TokenKind.spells_label {k : TokenKind} (h : k.isExpected = true) :
    Lexeme.Spells k k.label.toList := by
  cases k with
  | inWord | lparen | rparen | rbrace | rbracket | comma =>
      exact ⟨fun c hc => by cases hc; rfl, [], by rfl⟩
  | _ => cases h

theorem Continuation.exists_writes {x : Continuation} {w : List Char} (h : x.IsExpected)
    (hw : x.IsWritten w) : ∃ k, x.Writes w k := by
  have hname (x : Continuation) (hx : ∀ k, x.Accepts k ↔ k = .ident ∨ k = .quotedIdent)
      (hw : Lexeme.Spells .ident w ∨ Lexeme.Spells .quotedIdent w) : ∃ k, x.Writes w k := by
    rcases hw with hw | hw
    · exact ⟨.ident, (hx _).mpr (Or.inl rfl), hw, by decide, by decide, by decide, by simp⟩
    · exact ⟨.quotedIdent, (hx _).mpr (Or.inr rfl), hw, by decide, by decide, by decide, by simp⟩
  cases x with
  | token k =>
      obtain rfl : w = k.label.toList := hw
      have hne := TokenKind.ne_of_isExpected h
      refine ⟨k, rfl, k.spells_label h, ?_, hne.1, hne.2, fun hk => by rw [hk]⟩
      rintro rfl
      cases h
  | expression => exact hname _ (fun _ => Iff.rfl) hw
  | identifier => exact hname _ (fun _ => Iff.rfl) hw
  | statementEnd =>
      obtain rfl : w = [';'] := hw
      have hspells : Lexeme.Spells .semicolon [';'] := ⟨fun c hc => by cases hc; rfl, [], by rfl⟩
      exact ⟨.semicolon, rfl, hspells, by decide, by decide, by decide, by simp⟩

/-! ## Sources that go on -/

/-- The tokens that are neither comments nor line feeds. -/
def visible (ts : List Token) : List Token := (withoutComments ts).filter (·.kind ≠ .newline)

/-- Whether the last token is the first of the two brackets that close an element subscript. -/
def halfCloses (ts : List Token) : Bool :=
  (visible ts).getLast?.any (·.kind == .rbracket) &&
    (Scope.start.run (ts.map (·.kind))).opened.head? == some .half

/-- The source without its comments, which goes on with a continuation instead of a token: behind a
space, but for the second of the two brackets that close an element subscript, which adjoins the
first. -/
def continued (bytes : List UInt8) (ts : List Token) (t : Token) (x : Continuation)
    (w : List Char) : List UInt8 :=
  if x = .token .rbracket ∧ halfCloses ts = true then
    uncommented ts (bytes.take (((visible ts).getLast?.map Token.stop).getD 0)) ++
      w.flatMap String.utf8EncodeChar
  else uncommented ts (bytes.take t.offset) ++ 32 :: w.flatMap String.utf8EncodeChar

/-- The source is accepted, or it is at its end that it is refused. -/
inductive AcceptedToEnd (bytes : List UInt8) : Prop where
  | accepted (p : Program) (h : parse bytes = .ok p)
  | unexpected (x : List Continuation)
      (h : parse bytes = .error (.unexpected ⟨.eof, "", .ofBytes bytes, x⟩))
  | tooDeep (h : parse bytes = .error (.tooDeep (.ofBytes bytes)))

theorem acceptedToEnd_of_endsWell {text : List Char} {y : Except Error (Program × Tape)}
    (h : Parse.EndsWell (Reader.eofAt (Cursor.start.advance text)) y)
    (hy : parseText text = y.map Prod.fst) :
    AcceptedToEnd (text.flatMap String.utf8EncodeChar) := by
  have hparse : parse (text.flatMap String.utf8EncodeChar) = y.map Prod.fst := by
    rw [parse, decodeSource_iff.mpr rfl]
    exact hy
  have hloc : (Cursor.start.advance text).loc =
      .ofBytes (text.flatMap String.utf8EncodeChar) := by
    rw [Cursor.loc_advance, Location.ofBytes_encode]
    rfl
  cases h with
  | ok y => exact .accepted y.1 hparse
  | unexpected x => exact .unexpected x (by rw [← hloc]; exact hparse)
  | tooDeep => exact .tooDeep (by rw [← hloc]; exact hparse)

/-! ## Reading what goes on -/

namespace Reader

variable {r r' after : Reader} {t : Token} {ts : List Token} {text kept w z : List Char}

/-- A word at the end is read as its token. -/
theorem remaining_word {kind : TokenKind} (h : Lexeme.Spells kind w) (hc : kind ≠ .comment)
    (he : kind ≠ .eof) (k : Cursor) :
    remaining ⟨k, w⟩ = ([⟨kind, String.ofList w, k.loc, k.offset⟩], .ok (eofAt (k.advance w))) := by
  have hscan := h.respace hc he Lexeme.Gap.nil
  have hnone : ∀ c ∈ ([] : List Char), isBlank c = true := fun c hc => by cases hc
  have hn := next_of_scan (r := ⟨k, w⟩) (by simp) hnone (h.visible_append he []) hscan
  rw [remaining_of_next hn hc he, Cursor.advance_nil, remaining_nil]

/-- The bytes of what is kept of a text. Comments behind it do not matter. -/
theorem Strips.uncommented {all : List Token} (hs : Strips (.ofText text) ts r kept)
    (hall : ∀ i < r.cursor.offset, all.any (·.hides i) = ts.any (·.hides i)) :
    uncommented all ((text.flatMap String.utf8EncodeChar).take r.cursor.offset) =
      kept.flatMap String.utf8EncodeChar := by
  obtain ⟨read, hread, hcursor, hkept⟩ := hs.outside (fun i _ hi => hall i hi)
  rw [show text = read ++ r.rest from hread, hcursor, List.flatMap_append]
  rw [show (Reader.ofText text).cursor = .start from rfl, Cursor.offset_start_advance,
    List.take_left]
  exact hkept

/-- Behind a closing bracket that adjoins it, a reader has passed it. -/
theorem Strips.concat (h : Strips r ts r' kept) (hn : r'.next = .ok (t, after))
    (he : t.kind ≠ .eof) (hc : t.kind ≠ .comment) (hb : Lexeme.blanks r'.rest = []) :
    Strips r (ts ++ [t]) after (kept ++ t.lexeme.toList) := by
  induction h with
  | here r =>
      have hs := Strips.token hn he hc (.here after)
      rwa [hb, List.append_nil] at hs
  | blanks r =>
      have hs := Strips.token ((next_skipBlanks r).symm.trans hn) he hc (.here after)
      rwa [List.append_nil] at hs
  | token hn' he' hc' hs ih =>
      rw [List.append_assoc, List.append_assoc]
      exact .token hn' he' hc' (ih hn hb)
  | comment hn' hc' hs ih =>
      rw [List.append_assoc]
      exact .comment hn' hc' (ih hn hb)

end Reader

theorem visible_append (ts us : List Token) : visible (ts ++ us) = visible ts ++ visible us := by
  simp [visible, withoutComments]

/-- Behind the last visible token stand comments and line feeds. -/
theorem exists_last_visible {ts : List Token} {b : Token} (h : (visible ts).getLast? = some b) :
    ∃ front back, ts = front ++ b :: back ∧ visible back = [] ∧ b.kind ≠ .comment ∧
      b.kind ≠ .newline := by
  induction ts using List.reverseRecOn with
  | nil => cases h
  | append_singleton ts a ih =>
      rw [visible_append] at h
      by_cases ha : a.kind ≠ .comment ∧ a.kind ≠ .newline
      · have hone : visible [a] = [a] := by simp [visible, withoutComments, ha]
        rw [hone, List.getLast?_concat] at h
        cases h
        exact ⟨ts, [], rfl, rfl, ha.1, ha.2⟩
      · have hnone : visible [a] = [] := by
          simp only [visible, withoutComments]
          simp only [ne_eq, not_and_or, not_not] at ha
          rcases ha with ha | ha <;> simp [ha]
        rw [hnone, List.append_nil] at h
        obtain ⟨front, back, rfl, hback, hb⟩ := ih h
        refine ⟨front, back ++ [a], by simp, ?_, hb⟩
        rw [visible_append, hback, hnone]
        rfl

/-- The last visible tokens of two sources go together. -/
theorem lastVisible_fst {ps : List (Token × Token)} {ts : List Token}
    (h : ps.map (·.1) = withoutComments ts) :
    (lastVisible ps).map (·.1) = (visible ts).getLast? := by
  rw [lastVisible, ← List.getLast?_map, visible, ← h, List.filter_map]
  rfl

/-! ## Continuations behind a space -/

section Continued

variable {text : List Char} {ts : List Token} {r after : Reader} {t : Token}
  {xs : List Continuation} {x : Continuation} {w : List Char} {k : TokenKind}

/-- The tape that goes on is no longer than the first one allows. -/
theorem within_of_reaches (hr : Reader.Reaches (.ofText text) ts r) {s : Tape} {us : List Token}
    {u : Token} (hs : s.tokens = us ++ [u]) (hl : us.length = (withoutComments ts).length) :
    s.Within (text.length + 2) := by
  have hlength := Reader.length_remaining (.ofText text)
  rw [Reader.remaining_of_reaches hr, List.length_append] at hlength
  rw [Tape.Within, hs, List.length_append, List.length_singleton, hl]
  have : (Reader.ofText text).rest.length = text.length := rfl
  omega

/-- **A continuation behind a space is accepted.** -/
theorem accepted_of_spaced (hr : Reader.Reaches (.ofText text) ts r) (hn : r.next = .ok (t, after))
    (hrefusal : Refusal (text.length + 2) (Feed.tape (.ofText text)) (withoutComments ts) t xs)
    (hx : x ∈ xs) (hw : x.Writes w k)
    (hhalf : ¬ (x = .token .rbracket ∧ halfCloses ts = true)) :
    AcceptedToEnd (uncommented ts ((text.flatMap String.utf8EncodeChar).take t.offset) ++
      32 :: w.flatMap String.utf8EncodeChar) := by
  obtain ⟨kept, hs⟩ := hr.past_blanks.exists_strips
  have hkept := hs.uncommented (fun _ _ => rfl)
  rw [← Reader.offset_of_next hn] at hkept
  obtain ⟨ps, hps, hremaining⟩ := hs.stripped (Lexeme.Gap.cons_space w).boundary .start
  have hspace : Reader.remaining ⟨Cursor.start.advance kept, ' ' :: w⟩ =
      Reader.remaining ⟨(Cursor.start.advance kept).advance [' '], w⟩ := by
    show Reader.remaining ⟨_, [' '] ++ w⟩ = _
    exact Reader.remaining_blanks (List.forall_mem_singleton.mpr rfl) _ _
  rw [hspace, Reader.remaining_word hw.spells hw.ne_comment hw.ne_eof, ← Cursor.advance_append,
    ← Cursor.advance_append, List.append_assoc] at hremaining
  generalize hu : (⟨k, String.ofList w, _, _⟩ : Token) = u at hremaining
  have hkind : u.kind = k := by rw [← hu]
  have htokens : (Feed.tape (.ofText (kept ++ ' ' :: w))).tokens = ps.map (·.2) ++ [u] :=
    congrArg Prod.fst hremaining
  have hwithin := within_of_reaches hr htokens
    (by rw [← hps.before, List.length_map, List.length_map])
  have hgood := hrefusal.next rfl
    (Feed.within_tape (.ofText text) (Nat.lt_add_of_pos_right (by decide)))
    ⟨hps.before, hps.like, hps.alongside, rfl, htokens, Or.inl ⟨[], rfl⟩⟩ hwithin
    (congrArg Prod.snd hremaining) (by rw [hkind]; exact hw.plain)
    ⟨x, hx, by rw [hkind]; exact hw.accepts⟩ fun hclose hhead p hp hp' => ?_
  · have haccepted := acceptedToEnd_of_endsWell hgood (parseText_play hwithin)
    rwa [List.flatMap_append, ← hkept] at haccepted
  · -- A bracket that closes the other half would have to adjoin the first one.
    have hlast : (visible ts).getLast? = some p.1 := by
      rw [← lastVisible_fst hps.before, Option.mem_def.mp hp]
      rfl
    rw [Scope.run_withoutComments] at hhead
    refine absurd ⟨hw.bracket (hkind.symm.trans hclose), ?_⟩ hhalf
    rw [halfCloses, hlast, hhead]
    simp [hp']

/-! ## The second of two brackets -/

/-- A closing bracket is read whatever follows it. -/
theorem remaining_rbracket (k : Cursor) (cs : List Char) :
    Reader.remaining ⟨k, ']' :: cs⟩ =
      (⟨.rbracket, "]", k.loc, k.offset⟩ :: (Reader.remaining ⟨k.step ']', cs⟩).1,
        (Reader.remaining ⟨k.step ']', cs⟩).2) := by
  have hnone : ∀ c ∈ ([] : List Char), isBlank c = true := fun c hc => by cases hc
  have hvisible : ∀ c ∈ ([']'] ++ cs).head?, isBlank c = false := fun c hc => by
    cases hc
    decide
  have hn : Reader.next ⟨k, ']' :: cs⟩ =
      .ok (⟨.rbracket, "]", k.loc, k.offset⟩, ⟨k.step ']', cs⟩) :=
    Reader.next_of_scan (r := ⟨k, ']' :: cs⟩) (w := [']']) rfl hnone hvisible
      (Lexeme.scan_rbracket cs)
  exact Reader.remaining_of_next hn (by simp) (by simp)

/-- Behind the first bracket the second one is read right behind it. -/
theorem exists_stripped_bracket {front : List Token} {b : Token}
    (hr : Reader.Reaches (.ofText text) front r) (hn : r.next = .ok (b, after))
    (hb : b.kind = .rbracket) :
    ∃ kept qs b' u, Reader.Strips (.ofText text) (front ++ [b]) after kept ∧
      Reader.Stripped (.ofText text) 0 (front ++ [b]) (qs ++ [(b, b')]) ∧
      (Reader.ofText (kept ++ [']'])).remaining = (qs.map (·.2) ++ [b', u],
        .ok (Reader.eofAt (Cursor.start.advance (kept ++ [']'])))) ∧
      u.kind = .rbracket ∧ u.offset = b'.offset + 1 := by
  have hlexeme : b.lexeme.toList = [']'] := by
    have hspells := Reader.spells_of_next hn
    rw [hb] at hspells
    have hlabel := hspells.eq_label (by decide) (by decide) (by decide) (by decide)
    rw [String.ofList_toList] at hlabel
    rw [hlabel]
    rfl
  obtain ⟨kept, hs⟩ := hr.past_blanks.exists_strips
  have hs' := hs.concat ((Reader.next_skipBlanks r).trans hn) (by rw [hb]; decide)
    (by rw [hb]; decide) (Reader.afterBlanks_idem r.rest).1
  rw [hlexeme] at hs'
  obtain ⟨ps, hps, hread⟩ := hs'.stripped (Lexeme.Boundary.cons_rbracket []) .start
  obtain ⟨ps₀, -, hread₀⟩ := hs.stripped (Lexeme.Boundary.cons_rbracket [']']) .start
  rw [remaining_rbracket, Reader.remaining_nil] at hread
  rw [remaining_rbracket, remaining_rbracket, Reader.remaining_nil] at hread₀
  -- What has been kept ends with the first bracket, so it is read right before the second one.
  have hsame := congrArg Prod.fst hread
  rw [List.append_assoc, List.singleton_append, hread₀, ← List.singleton_append,
    ← List.append_assoc] at hsame
  obtain ⟨hlast, -⟩ := List.append_inj' hsame rfl
  rcases List.eq_nil_or_concat ps with rfl | ⟨qs, q, rfl⟩
  · simp at hlast
  · have hbefore := hps.before
    rw [List.concat_eq_append] at hlast hps hread
    rw [List.map_append] at hlast
    obtain ⟨-, hq⟩ := List.append_inj' hlast rfl
    have hfirst : withoutComments (front ++ [b]) = withoutComments front ++ [b] := by
      simp [withoutComments, hb]
    rw [List.concat_eq_append, List.map_append, hfirst] at hbefore
    obtain ⟨-, hqb⟩ := List.append_inj' hbefore rfl
    obtain ⟨b', rfl⟩ : ∃ b', q = (b, b') := ⟨q.2, by rw [← List.singleton_inj.mp hqb]⟩
    refine ⟨_, qs, b', ⟨.rbracket, "]", (Cursor.start.advance (kept ++ [']'])).loc,
      (Cursor.start.advance (kept ++ [']'])).offset⟩, hs', hps, ?_, rfl, ?_⟩
    · refine hread.trans ?_
      rw [List.map_append, List.append_assoc, Cursor.advance_append _ (kept ++ [']']) [']']]
      rfl
    · have hoffset : (Cursor.start.advance kept).offset = b'.offset :=
        congrArg Token.offset (List.singleton_inj.mp hq)
      rw [← hoffset, Cursor.advance_append]
      rfl

/-- A token that is no line feed decides what adjoins the ones before it. -/
theorem adjoins_append_cons {t v : Token} (us : List Token) {ts ts' : List Token}
    (hv : v.kind ≠ .newline) : Adjoins t (us ++ v :: ts) ↔ Adjoins t (us ++ v :: ts') := by
  induction us with
  | nil => exact (adjoins_cons hv).trans (adjoins_cons hv).symm
  | cons u us ih =>
      by_cases hu : u.kind = .newline
      · have hdrop (vs : List Token) : Adjoins t (u :: vs) ↔ Adjoins t vs := by
          simp [Adjoins, dropLineFeeds, hu]
        exact ((hdrop _).trans ih).trans (hdrop _).symm
      · exact (adjoins_cons hu).trans (adjoins_cons hu).symm

/-- Line feeds behind the first bracket do not matter. -/
theorem reflows_of_lines {P : Pairing} (hsame : P.left = P.right) (hstop : ∀ c, P.stops c [])
    {lines : List Token} {b u : Token} (hb : b.kind ≠ .newline)
    (hl : ∀ l ∈ lines, l.kind = .newline) (us : List Token) {c : Scope}
    (hfree : ((c.run (us.map (·.kind))).step b.kind).isFree = true) :
    P.Reflows c (us ++ [b, u]) (us ++ b :: (lines ++ [u])) := by
  have hself (t : Token) : P.Twins t t := ⟨rfl, rfl, by rw [hsame]⟩
  induction us generalizing c with
  | nil =>
      refine .step (hself b) (fun _ => ?_) hl (Or.inr (Or.inr hfree))
        (.cons (hself u) (fun _ => Iff.rfl) (.stop (hstop _)))
      rw [Adjoins, Adjoins, Pairing.dropLineFeeds_append hl]
  | cons t us ih =>
      exact .cons (hself t) (fun _ => adjoins_append_cons us hb) (ih hfree)

/-- A tape with line feeds put behind the first bracket comes to the same. -/
theorem exists_play_of_lines {s : Tape} {us lines : List Token} {b u : Token} {n : Nat}
    (hs : s.layouts = []) (htokens : s.tokens = us ++ [b, u]) (hb : b.kind ≠ .newline)
    (hl : ∀ l ∈ lines, l.kind = .newline) (hspelled : ∀ l ∈ lines, l.IsSpelled)
    (hfree : ((Scope.start.run (us.map (·.kind))).step b.kind).isFree = true)
    (hn : us.length + lines.length + 2 < n) :
    ∃ s' : Tape, s'.tokens = us ++ b :: (lines ++ [u]) ∧ s'.layouts = [] ∧ s'.ending = s.ending ∧
      s.Within n ∧ s'.Within n ∧
      ((Grammar.program n).play s).map Prod.fst = ((Grammar.program n).play s').map Prod.fst := by
  have hspelled' : ∀ v ∈ us ++ b :: (lines ++ [u]), v.IsSpelled := by
    intro v hv
    by_cases hmem : v ∈ lines
    · exact hspelled v hmem
    · refine s.spelled v ?_
      rw [htokens]
      simp only [List.mem_append, List.mem_cons, List.not_mem_nil, or_false] at hv ⊢
      tauto
  have hw : s.Within n := by
    rw [Tape.Within, htokens, List.length_append]
    simp only [List.length_cons, List.length_nil]
    omega
  have hw' : (us ++ b :: (lines ++ [u])).length < n := by
    simp only [List.length_append, List.length_cons, List.length_nil]
    omega
  refine ⟨⟨_, s.ending, [], hspelled', s.ending_eof⟩, rfl, rfl, rfl, hw, hw', ?_⟩
  have hreflows : (Pairing.between id id s.ending s.ending (SameEnd.refl id s.ending)).Reflows
      .start (us ++ [b, u]) (us ++ b :: (lines ++ [u])) :=
    reflows_of_lines rfl (fun _ => rfl) hb hl us hfree
  rw [← htokens] at hreflows
  exact hreflows.play hs rfl hw hw'

/-- Line feeds may be added behind tokens that are like the given ones. -/
theorem Beside.behind_lines {pre lines us : List Token} {ps : List (Token × Token)} {s : Tape}
    {u : Token} (hbefore : ps.map (·.1) = pre) (hlike : ∀ p ∈ ps, Like p.1 p.2)
    (halong : ps.Pairwise Alongside) (hl : ∀ l ∈ lines, l.kind = .newline)
    (hs : s.layouts = []) (htokens : s.tokens = ps.map (·.2) ++ (lines ++ us))
    (hheads : Heads us s.ending u) :
    Beside (pre ++ lines) (ps ++ lines.map fun l => (l, l)) s us u ∧
      lastVisible (ps ++ lines.map fun l => (l, l)) = lastVisible ps := by
  have hnone {p q : Token × Token} (hq : q ∈ lines.map fun l => (l, l)) : Alongside p q := by
    obtain ⟨l, hmem, rfl⟩ := List.mem_map.mp hq
    intro hk
    rw [hl l hmem] at hk
    cases hk
  refine ⟨⟨?_, ?_, ?_, hs, ?_, hheads⟩, ?_⟩
  · rw [List.map_append, hbefore, List.map_map]
    simp [Function.comp_def]
  · intro p hp
    rcases List.mem_append.mp hp with hp | hp
    · exact hlike p hp
    · obtain ⟨l, -, rfl⟩ := List.mem_map.mp hp
      exact ⟨rfl, rfl, rfl⟩
  · refine List.pairwise_append.mpr ⟨halong, ?_, fun p _ q hq => hnone hq⟩
    exact List.pairwise_iff_forall_sublist.mpr fun h => hnone (h.subset (by simp))
  · rw [htokens, List.map_append, List.map_map, List.append_assoc]
    simp [Function.comp_def]
  · have hfilter : (lines.map fun l => (l, l)).filter (·.1.kind ≠ .newline) = [] := by
      refine List.filter_eq_nil_iff.mpr fun p hp => ?_
      obtain ⟨l, hmem, rfl⟩ := List.mem_map.mp hp
      simp [hl l hmem]
    rw [lastVisible, lastVisible, List.filter_append, hfilter, List.append_nil]

/-- What is kept of a text up to a token, whatever comments stand behind it. -/
theorem uncommented_of_split {front back : List Token} {b : Token} {kept : List Char}
    (hs : Reader.Strips (.ofText text) (front ++ [b]) after kept)
    (hstop : after.cursor.offset = b.stop) (hback : Reader.Reaches after back r) :
    uncommented (front ++ b :: back) ((text.flatMap String.utf8EncodeChar).take b.stop) =
      kept.flatMap String.utf8EncodeChar := by
  rw [← hstop]
  refine hs.uncommented fun i hi => ?_
  have hnone : back.any (·.hides i) = false := by
    refine List.any_eq_false.mpr fun v hv => ?_
    have := hback.offsets.1 v hv
    simp only [Token.hides, Bool.and_eq_true, decide_eq_true_eq, not_and]
    omega
  rw [List.any_append, List.any_append, List.any_cons, List.any_cons, hnone, List.any_nil]

theorem Scope.isFree_of_half {c : Scope} (h : c.opened.head? = some .half) : c.isFree = true := by
  simp [isFree, layouts, h, Bracket.layout]

/-- The scope behind the last visible token. -/
theorem run_split {front back : List Token} {b : Token}
    (hback : ∀ l ∈ withoutComments back, l.kind = .newline) (c : Scope) :
    c.run ((front ++ b :: back).map (·.kind)) = (c.run (front.map (·.kind))).step b.kind := by
  have hlines : (c.run ((front ++ [b]).map (·.kind))).run (back.map (·.kind)) =
      c.run ((front ++ [b]).map (·.kind)) := by
    rw [← Scope.run_withoutComments]
    exact Scope.run_newlines _ (List.forall_mem_map.mpr hback)
  rw [← List.singleton_append, ← List.append_assoc, List.map_append, Scope.run_append, hlines,
    List.map_append, Scope.run_append]
  rfl

/-- Behind the first of the two brackets line feeds are ignored where the tokens are read again. -/
theorem Reader.Stripped.isFree {front back : List Token} {b b' : Token}
    {qs : List (Token × Token)} {n : Nat}
    (h : Reader.Stripped r n (front ++ [b]) (qs ++ [(b, b')]))
    (hback : ∀ l ∈ withoutComments back, l.kind = .newline)
    (hhead : (Scope.start.run ((front ++ b :: back).map (·.kind))).opened.head? = some .half) :
    ((Scope.start.run ((qs.map (·.2)).map (·.kind))).step b'.kind).isFree = true := by
  have hkinds : ((qs ++ [(b, b')]).map (·.2)).map (·.kind) =
      (withoutComments (front ++ [b])).map (·.kind) := by
    rw [← h.before, List.map_map, List.map_map]
    exact List.map_congr_left fun p hp => (h.like p hp).kind
  have hrun : (Scope.start.run ((qs.map (·.2)).map (·.kind))).step b'.kind =
      Scope.start.run ((front ++ b :: back).map (·.kind)) := by
    calc (Scope.start.run ((qs.map (·.2)).map (·.kind))).step b'.kind
        = Scope.start.run (((qs ++ [(b, b')]).map (·.2)).map (·.kind)) := by
          rw [List.map_append, List.map_append, Scope.run_append]
          rfl
      _ = Scope.start.run ((front ++ [b]).map (·.kind)) := by
          rw [hkinds, Scope.run_withoutComments]
      _ = Scope.start.run ((front ++ b :: back).map (·.kind)) := by
          rw [run_split hback, List.map_append, Scope.run_append]
          rfl
  rw [hrun]
  exact Scope.isFree_of_half hhead

/-- A tape on which the second bracket stands behind the line feeds that follow the first, and which
comes to the same as the source in which it adjoins the first. -/
structure Adjoining (text kept : List Char) (ts : List Token) (ps : List (Token × Token)) (s : Tape)
    (u : Token) : Prop where
  beside : Beside (withoutComments ts) ps s [u] u
  within : s.Within (text.length + 2)
  ending : s.ending = .ok (Reader.eofAt (Cursor.start.advance (kept ++ [']'])))
  kind : u.kind = .rbracket
  adjoins : ∀ p ∈ lastVisible ps, u.offset = p.2.offset + 1
  play : parseText (kept ++ [']']) = ((Grammar.program (text.length + 2)).play s).map Prod.fst

theorem exists_adjoining {front back : List Token} {b : Token}
    (hr : Reader.Reaches (.ofText text) (front ++ b :: back) r) (hb : b.kind = .rbracket)
    (hback : ∀ l ∈ withoutComments back, l.kind = .newline)
    (hhead : (Scope.start.run ((front ++ b :: back).map (·.kind))).opened.head? = some .half) :
    ∃ kept ps s u, Adjoining text kept (front ++ b :: back) ps s u ∧
      uncommented (front ++ b :: back) ((text.flatMap String.utf8EncodeChar).take b.stop) =
        kept.flatMap String.utf8EncodeChar := by
  obtain ⟨r₁, after, h₁, hn, -, h₂⟩ := hr.split
  obtain ⟨kept, qs, b', u, hs, hps, hread, hu, hoffset⟩ := exists_stripped_bracket h₁ hn hb
  have hall : withoutComments (front ++ b :: back) =
      withoutComments (front ++ [b]) ++ withoutComments back := by
    rw [← List.singleton_append, ← List.append_assoc]
    exact List.filter_append ..
  have htokens : (Reader.ofText text).remaining.1 =
      withoutComments (front ++ b :: back) ++ r.remaining.1 :=
    congrArg Prod.fst (Reader.remaining_of_reaches hr)
  have hline : b'.kind ≠ .newline := by
    rw [(hps.like (b, b') (by simp)).kind, hb]
    decide
  have hlength : qs.length + 1 + (withoutComments back).length ≤ text.length := by
    have hle := Reader.length_remaining (.ofText text)
    rw [htokens, hall, ← hps.before] at hle
    simp only [List.length_append, List.length_map, List.length_cons, List.length_nil] at hle
    exact Nat.le_trans (Nat.le_add_right _ _) hle
  have hspelled : ∀ l ∈ withoutComments back, l.IsSpelled := by
    intro l hl
    refine (Reader.ofText text).remaining_spelled l ?_
    rw [htokens, hall]
    exact List.mem_append_left _ (List.mem_append_right _ hl)
  obtain ⟨s, hs', hlayouts, hending, hw', hw, hplay⟩ := exists_play_of_lines
    (s := Feed.tape (.ofText (kept ++ [']']))) (n := text.length + 2) rfl
    (congrArg Prod.fst hread) hline hback hspelled (hps.isFree hback hhead)
    (by rw [List.length_map]; omega)
  obtain ⟨hbeside, hvisible⟩ := Beside.behind_lines (s := s) hps.before hps.like hps.alongside
    hback hlayouts (by rw [hs', List.map_append, List.append_assoc]; rfl) (Or.inl ⟨[], rfl⟩)
  rw [← hall] at hbeside
  refine ⟨kept, _, s, u, ⟨hbeside, hw, hending.trans (congrArg Prod.snd hread), hu, ?_,
    (parseText_play hw').trans hplay⟩, uncommented_of_split hs (Reader.next_offset hn).2 h₂⟩
  intro p hp
  rw [hvisible, lastVisible, List.filter_append, List.filter_cons_of_pos (by simp [hb]),
    List.filter_nil, List.getLast?_concat] at hp
  cases hp
  exact hoffset

/-- **The second of the two brackets that close an element subscript is accepted** right behind the
first. -/
theorem accepted_of_adjoining (hr : Reader.Reaches (.ofText text) ts r)
    (hrefusal : Refusal (text.length + 2) (Feed.tape (.ofText text)) (withoutComments ts) t xs)
    (hx : .token .rbracket ∈ xs) (hhalf : halfCloses ts = true) :
    AcceptedToEnd (uncommented ts ((text.flatMap String.utf8EncodeChar).take
      (((visible ts).getLast?.map Token.stop).getD 0)) ++ [']'].flatMap String.utf8EncodeChar) := by
  simp only [halfCloses, Bool.and_eq_true, beq_iff_eq, Option.any_eq_true] at hhalf
  obtain ⟨⟨b, hlast, hb⟩, hhead⟩ := hhalf
  obtain ⟨front, back, rfl, hback, -, -⟩ := exists_last_visible hlast
  have hlines : ∀ l ∈ withoutComments back, l.kind = .newline := by
    simpa using List.filter_eq_nil_iff.mp hback
  obtain ⟨kept, ps, s, u, h, hkept⟩ := exists_adjoining hr hb hlines hhead
  have hgood := hrefusal.next rfl
    (Feed.within_tape (.ofText text) (Nat.lt_add_of_pos_right (by decide)))
    h.beside h.within h.ending (by rw [h.kind]; decide) ⟨_, hx, h.kind⟩
    fun _ _ p hp _ => h.adjoins p hp
  have haccepted := acceptedToEnd_of_endsWell hgood h.play
  rw [hlast]
  rwa [List.flatMap_append, ← hkept] at haccepted

end Continued

/-- **What a syntax error expects is accepted**: with any of it written instead of the token at
which the error is reported, the source without its comments is accepted, or refused at its end
alone. -/
theorem continuations_accepted {bytes : List UInt8} {e : SyntaxError}
    (h : parse bytes = .error (.unexpected e)) :
    ∃ ts t, RefusedAt bytes ts t e ∧ ∀ x ∈ e.expected, ∀ w, x.IsWritten w →
      AcceptedToEnd (continued bytes ts t x w) := by
  obtain ⟨text, ts, r, t, after, htext, hr, hn, -, he, hrefusal⟩ := exists_refusal_of_parse h
  have hprecedes : Precedes bytes ts t := ⟨text, r, after, htext, hr, hn⟩
  refine ⟨ts, t, hprecedes.refusedAt he, fun x hx w hw => ?_⟩
  have husual := hrefusal.usual rfl
    (Feed.within_tape (.ofText text) (Nat.lt_add_of_pos_right (by decide)))
  obtain ⟨k, hwrites⟩ := Continuation.exists_writes (husual.1 x hx) hw
  rw [decodeSource_iff.mp htext, continued]
  split
  · rename_i hclose
    obtain ⟨rfl, hhalf⟩ := hclose
    obtain rfl : w = [']'] := hw
    exact accepted_of_adjoining hr hrefusal hx hhalf
  · rename_i hopen
    exact accepted_of_spaced hr hn hrefusal hx hwrites hopen

/-- A subscript of which one bracket has been closed is accepted once the other is, right behind. -/
theorem continuations_accepted_of_element :
    let source := "x[[i] # y\n ]".toUTF8.data.toList
    let e : SyntaxError := ⟨.rbracket, "]", ⟨2, 2⟩, [.token .rbracket]⟩
    parse source = .error (.unexpected e) ∧ AcceptedToEnd "x[[i]]".toUTF8.data.toList := by
  intro source e
  have hparse : parse source = .error (.unexpected e) := by rfl
  have hlex : lex source = .ok
      ([⟨.ident, "x", ⟨1, 1⟩, 0⟩, ⟨.lbracket2, "[[", ⟨1, 2⟩, 1⟩, ⟨.ident, "i", ⟨1, 4⟩, 3⟩,
          ⟨.rbracket, "]", ⟨1, 5⟩, 4⟩, ⟨.comment, "# y", ⟨1, 7⟩, 6⟩,
          ⟨.newline, "\n", ⟨1, 10⟩, 9⟩] ++
        ⟨.rbracket, "]", ⟨2, 2⟩, 11⟩ :: [⟨.eof, "", ⟨2, 3⟩, 12⟩]) := by rfl
  obtain ⟨ts, t, hrefused, haccepted⟩ := continuations_accepted hparse
  obtain ⟨rfl, rfl⟩ := hrefused.unique (by decide) _ _ (.of_lex hlex) rfl
  exact ⟨hparse, haccepted (.token .rbracket) (List.mem_singleton_self _) [']'] rfl⟩

end RSource
