import RSource.Proofs.Anchors
import RSource.Proofs.Partition
import RSource.Proofs.Probes

/-!
# Tokens between marks

Strings, quoted names and special operators stand between two equal marks, and a comment stands
between its mark and the end of its line. What stands inside is free, but for the closing mark.

* `Enclosed` — what may stand between the marks of a string or a quoted name.
* `InLine` — what may stand between the marks of a special operator.
* `Lexeme.untilClose_eq_some_iff` — the closing mark is the first that is not behind a backslash.
* `ReadsBetween` — a probe reads what stands between two marks, if there is a second one.
* `DelimitedTokens`, `delimited_tokens` — **what is read at each of the marks**, and that nothing
  inside such a token starts another one.
-/

namespace RSource

/-- What may stand between two marks: other characters than the mark and the backslash, and
backslashes each with the character behind it. -/
inductive Enclosed (mark : Char) : List Char → Prop where
  | nil : Enclosed mark []
  | plain {c : Char} {cs : List Char} (hm : c ≠ mark) (hb : c ≠ '\\') (h : Enclosed mark cs) :
      Enclosed mark (c :: cs)
  | pair (c : Char) {cs : List Char} (h : Enclosed mark cs) : Enclosed mark ('\\' :: c :: cs)

/-- What may stand between two percent signs: a part of a line without a percent sign. -/
def InLine (u : List Char) : Prop := ∀ c ∈ u, c ≠ '%' ∧ c ≠ '\n'

/-- `u` stands at the front of some characters, between two marks. -/
def StandsBetween (mark : Char) (rest u : List Char) : Prop := mark :: (u ++ [mark]) <+: rest

theorem standsBetween_iff {mark : Char} {cs u : List Char} :
    StandsBetween mark (mark :: cs) u ↔ ∃ behind, cs = u ++ mark :: behind := by
  rw [StandsBetween, List.cons_prefix_cons]
  constructor
  · rintro ⟨-, behind, rfl⟩
    exact ⟨behind, by rw [List.append_assoc, List.singleton_append]⟩
  · rintro ⟨behind, rfl⟩
    exact ⟨rfl, behind, by rw [List.append_assoc, List.singleton_append]⟩

/-! ## Where a token ends -/

namespace Lexeme

variable {mark : Char} {cs u text rest : List Char}

/-- What is enclosed is passed up to the mark behind it. -/
theorem untilClose_of_enclosed (hm : mark ≠ '\\') (h : Enclosed mark u) (rest : List Char) :
    untilClose mark false (u ++ mark :: rest) = some (u ++ [mark], rest) := by
  have hback : ('\\' == mark) = false := by simpa using Ne.symm hm
  induction h with
  | nil => simp [untilClose]
  | @plain c cs hc hb h ih =>
      have hc : (c == mark) = false := by simpa using hc
      have hb : (c == '\\') = false := by simpa using hb
      simp [untilClose, hc, hb, ih]
  | @pair c cs h ih => simp [untilClose, hback, ih]

/-- What is passed up to a closing mark is enclosed. Behind a backslash it is enclosed together with
the backslash. -/
theorem enclosed_of_untilClose {escaped : Bool}
    (h : untilClose mark escaped cs = some (text, rest)) :
    ∃ u, text = u ++ [mark] ∧ Enclosed mark (if escaped then '\\' :: u else u) := by
  induction cs generalizing escaped text with
  | nil => cases h
  | cons c cs ih =>
      rw [untilClose] at h
      split at h
      · rename_i hclose
        cases h
        simp only [Bool.and_eq_true, Bool.not_eq_true', beq_iff_eq] at hclose
        obtain ⟨rfl, rfl⟩ := hclose
        exact ⟨[], rfl, .nil⟩
      · rename_i hopen
        split at h
        · cases h
        · rename_i heq
          cases h
          obtain ⟨u, rfl, hu⟩ := ih heq
          refine ⟨c :: u, rfl, ?_⟩
          cases escaped with
          | true => exact .pair c hu
          | false =>
              simp only [Bool.not_false, Bool.true_and, beq_iff_eq] at hopen hu
              split at hu
              · rename_i hc
                subst hc
                exact hu
              · rename_i hc
                exact .plain hopen hc hu

/-- **The closing mark is the first that is not behind a backslash.** -/
theorem untilClose_eq_some_iff (hm : mark ≠ '\\') :
    untilClose mark false cs = some (text, rest) ↔
      ∃ u, Enclosed mark u ∧ text = u ++ [mark] ∧ cs = u ++ mark :: rest := by
  constructor
  · intro h
    obtain ⟨u, htext, hu⟩ := enclosed_of_untilClose h
    refine ⟨u, hu, htext, ?_⟩
    rw [← untilClose_split h, htext, List.append_assoc, List.singleton_append]
  · rintro ⟨u, hu, rfl, rfl⟩
    exact untilClose_of_enclosed hm hu rest

theorem isSpecialChar_iff {c : Char} : isSpecialChar c = true ↔ c ≠ '%' ∧ c ≠ '\n' := by
  simp [isSpecialChar]

/-- **A special operator ends at the next percent sign of its line.** -/
theorem dropWhile_isSpecialChar_iff :
    cs.dropWhile isSpecialChar = '%' :: rest ↔ ∃ u, InLine u ∧ cs = u ++ '%' :: rest := by
  constructor
  · intro h
    refine ⟨cs.takeWhile isSpecialChar, fun c hc => ?_, ?_⟩
    · exact isSpecialChar_iff.mp (List.mem_takeWhile_imp hc)
    · rw [← h, List.takeWhile_append_dropWhile]
  · rintro ⟨u, hu, rfl⟩
    rw [List.dropWhile_append_of_pos fun c hc => isSpecialChar_iff.mpr (hu c hc)]
    rfl

/-! ## What is read at a mark -/

theorem scan_string (hm : mark = '\x22' ∨ mark = '\x27') :
    scan (mark :: cs) = delimited .str .unterminatedString mark cs := by
  rcases hm with rfl | rfl <;> simp [scan, lead]

theorem scan_quotedIdent :
    scan ('\x60' :: cs) = delimited .quotedIdent .unterminatedQuotedIdent '\x60' cs := by
  simp [scan, lead]

theorem scan_special : scan ('%' :: cs) = specialOp cs := by
  simp [scan, lead]

theorem scan_comment : scan ('#' :: cs) = .ok (comment ('#' :: cs)) := by
  simp [scan, lead]

/-- Reading at a mark finds a text inside with the closing mark behind it, or there is none. -/
inductive FindsInside (inside : List Char → Prop) (kind : TokenKind) (fault : LexFault)
    (mark : Char) (cs : List Char) : Prop where
  | token (u rest : List Char) (hu : inside u) (hcs : cs = u ++ mark :: rest)
      (hscan : scan (mark :: cs) = .ok ⟨kind, mark :: (u ++ [mark]), rest⟩)
      (hunique : ∀ v rest', inside v → cs = v ++ mark :: rest' → v = u)
  | fault (hnone : ∀ u rest, inside u → cs ≠ u ++ mark :: rest)
      (hscan : scan (mark :: cs) = .error fault)

theorem findsInside_delimited {kind : TokenKind} {fault : LexFault} (hm : mark ≠ '\\')
    (hscan : scan (mark :: cs) = delimited kind fault mark cs) :
    FindsInside (Enclosed mark) kind fault mark cs := by
  cases h : untilClose mark false cs with
  | none =>
      rw [delimited, h] at hscan
      refine .fault (fun u rest hu hcs => ?_) hscan
      rw [hcs, untilClose_of_enclosed hm hu] at h
      cases h
  | some p =>
      obtain ⟨body, rest⟩ := p
      obtain ⟨u, hu, rfl, hcs⟩ := (untilClose_eq_some_iff hm).mp h
      rw [delimited, h] at hscan
      refine .token u rest hu hcs hscan fun v rest' hv hcs' => ?_
      rw [hcs', untilClose_of_enclosed hm hv] at h
      simp only [Option.some.injEq, Prod.mk.injEq] at h
      exact List.append_cancel_right h.1

theorem findsInside_special :
    FindsInside InLine .special .unterminatedSpecialOp '%' cs := by
  have hscan : scan ('%' :: cs) = specialOp cs := scan_special
  rw [specialOp] at hscan
  split at hscan
  · rename_i rest hrest
    obtain ⟨u, hu, hcs⟩ := dropWhile_isSpecialChar_iff.mp hrest
    have htake {v rest' : List Char} (hv : InLine v) (hcs' : cs = v ++ '%' :: rest') :
        cs.takeWhile isSpecialChar = v := by
      rw [hcs', List.takeWhile_append_of_pos fun c hc => isSpecialChar_iff.mpr (hv c hc)]
      exact List.append_nil v
    rw [htake hu hcs] at hscan
    exact .token u rest hu hcs hscan fun v rest' hv hcs' => (htake hv hcs').symm.trans (htake hu hcs)
  · rename_i hnone
    exact .fault (fun u rest hu hcs => hnone rest (dropWhile_isSpecialChar_iff.mpr ⟨u, hu, hcs⟩)) hscan

end Lexeme

/-! ## Probes -/

/-- A probe that starts at a mark reads the token that reaches to the closing mark. What stands
between the two is one text at most, and where there is none the probe is refused. -/
structure ReadsBetween (text : List Char) (k start : Cursor) (mark : Char) (rest : List Char)
    (inside : List Char → Prop) (kind : TokenKind) (fault : LexFault) : Prop where
  unique : ∀ u v, inside u → inside v → StandsBetween mark rest u → StandsBetween mark rest v →
    u = v
  token : ∀ u, inside u ∧ StandsBetween mark rest u ↔ tokenAt? text k = some (.ok
    (⟨kind, String.ofList (mark :: (u ++ [mark])), start.loc, start.offset⟩,
      start.advance (mark :: (u ++ [mark]))))
  fault : tokenAt? text k = some (.error ⟨fault, start.loc⟩) ↔
    ¬ ∃ u, inside u ∧ StandsBetween mark rest u

theorem ProbeStarts.readsBetween {text cs : List Char} {k start : Cursor} {mark : Char}
    {inside : List Char → Prop} {kind : TokenKind} {fault : LexFault}
    (h : ProbeStarts text k start (mark :: cs))
    (hfinds : Lexeme.FindsInside inside kind fault mark cs) :
    ReadsBetween text k start mark (mark :: cs) inside kind fault := by
  cases hfinds with
  | token u rest hu hcs hscan hunique =>
      have hread := h.tokenAt_ok hscan
      have hu' : StandsBetween mark (mark :: cs) u := standsBetween_iff.mpr ⟨rest, hcs⟩
      have hall : ∀ v, inside v → StandsBetween mark (mark :: cs) v → v = u := by
        intro v hv hstands
        obtain ⟨rest', hcs'⟩ := standsBetween_iff.mp hstands
        exact hunique v rest' hv hcs'
      refine ⟨fun v w hv hw hv' hw' => (hall v hv hv').trans (hall w hw hw').symm,
        fun v => ⟨?_, fun hv => ?_⟩, fun hfault => ?_, fun hnone => absurd ⟨u, hu, hu'⟩ hnone⟩
      · rintro ⟨hv, hstands⟩
        rw [hall v hv hstands]
        exact hread
      · rw [hread] at hv
        simp only [Option.some.injEq, Except.ok.injEq, Prod.mk.injEq, Token.mk.injEq] at hv
        have hlexeme := String.ofList_injective hv.1.2.1
        rw [List.cons.injEq] at hlexeme
        rw [← List.append_cancel_right hlexeme.2]
        exact ⟨hu, hu'⟩
      · rw [hread] at hfault
        cases hfault
  | fault hnone hscan =>
      have hread := h.tokenAt_error hscan
      have hall : ∀ v, inside v → ¬ StandsBetween mark (mark :: cs) v := by
        intro v hv hstands
        obtain ⟨rest, hcs⟩ := standsBetween_iff.mp hstands
        exact hnone v rest hv hcs
      refine ⟨fun v w hv hw hv' hw' => absurd hv' (hall v hv), fun v => ⟨?_, fun hv => ?_⟩,
        fun _ => ?_, fun _ => hread⟩
      · rintro ⟨hv, hstands⟩
        exact absurd hstands (hall v hv)
      · rw [hread] at hv
        cases hv
      · rintro ⟨v, hv, hstands⟩
        exact hall v hv hstands

/-- A backslash takes the mark behind it along, and itself too. -/
example : tokenAt? "'it\\'s\\\\' # 'x".toList ⟨0, ⟨1, 1⟩⟩ =
    some (.ok (⟨.str, "'it\\'s\\\\'", ⟨1, 1⟩, 0⟩, ⟨9, ⟨1, 10⟩⟩)) := by decide +kernel

/-- A line has a second percent sign exactly where a special operator is closed. -/
theorem exists_inLine_iff {cs : List Char} :
    (∃ u, InLine u ∧ StandsBetween '%' ('%' :: cs) u) ↔ '%' ∈ cs.takeWhile (· != '\n') := by
  constructor
  · rintro ⟨u, hu, hstands⟩
    obtain ⟨rest, rfl⟩ := standsBetween_iff.mp hstands
    have hline : ∀ c ∈ u, (c != '\n') = true := fun c hc => by simpa using (hu c hc).2
    rw [List.takeWhile_append_of_pos hline]
    simp
  · intro hmem
    by_contra hnone
    refine Lexeme.percent_not_mem (fun rest hrest => hnone ?_) hmem
    obtain ⟨u, hu, hcs⟩ := Lexeme.dropWhile_isSpecialChar_iff.mp hrest
    exact ⟨u, hu, standsBetween_iff.mpr ⟨rest, hcs⟩⟩

/-- A comment reaches to the end of its line. -/
theorem ProbeStarts.comment {text cs : List Char} {k start : Cursor}
    (h : ProbeStarts text k start ('#' :: cs)) :
    ∃ line behind, '#' :: cs = line ++ behind ∧ '\n' ∉ line ∧ (∀ c ∈ behind.head?, c = '\n') ∧
      tokenAt? text k = some (.ok
        (⟨.comment, String.ofList line, start.loc, start.offset⟩, start.advance line)) := by
  refine ⟨('#' :: cs).takeWhile (· != '\n'), ('#' :: cs).dropWhile (· != '\n'),
    List.takeWhile_append_dropWhile.symm, fun hmem => ?_, fun c hc => ?_,
    h.tokenAt_ok Lexeme.scan_comment⟩
  · have hne := List.mem_takeWhile_imp hmem
    simp at hne
  · simpa using Lexeme.comment_rest ('#' :: cs) c hc

/-! ## All tokens of a text -/

/-- Where reading stands that has passed some tokens, the last of them has ended. -/
theorem Reader.Reaches.stop_le {text : List Char} {ts : List Token} {r : Reader}
    (h : Reaches (.ofText text) ts r) : ∀ t ∈ ts, t.stop ≤ r.cursor.offset := by
  obtain ⟨read, hread, hlaid⟩ := h.laid
  obtain ⟨read', htext, hcursor⟩ := h.standsIn (standsIn_ofText text)
  have heq : read = read' := List.append_cancel_right (hread.symm.trans htext)
  intro t ht
  have hle := hlaid.stop_le t ht
  rw [hcursor, Cursor.offset_start_advance, ← heq]
  simpa [ofText, Cursor.start] using hle

/-- No token starts inside another one. -/
theorem Reader.Reaches.apart {text : List Char} {ts : List Token} {r : Reader}
    (h : Reaches (.ofText text) ts r) :
    ∀ t ∈ ts, ∀ u ∈ ts, ¬ (t.offset < u.offset ∧ u.offset < t.stop) := by
  obtain ⟨read, -, hlaid⟩ := h.laid
  have hbehind := hlaid.ascending
  refine fun t ht u hu => List.Pairwise.forall_of_forall_of_flip
    (R := fun t u => ¬ (t.offset < u.offset ∧ u.offset < t.stop)) ?_ ?_ ?_ ht hu
  · intro t _
    omega
  · exact hbehind.imp fun hle => by omega
  · refine hbehind.imp fun {u t} hle => ?_
    have hstop : u.offset ≤ u.stop := Nat.le_add_right _ _
    simp only [flip]
    omega

/-- What is read at the marks of a text: strings and quoted names up to the next mark that is not
taken along by a backslash, special operators up to the next percent sign of the line, comments up
to the end of the line. -/
structure DelimitedTokens (text : List Char) : Prop where
  string : ∀ k start mark behind, mark = '\x22' ∨ mark = '\x27' →
    ProbeStarts text k start (mark :: behind) →
    ReadsBetween text k start mark (mark :: behind) (Enclosed mark) .str .unterminatedString
  quotedIdent : ∀ k start behind, ProbeStarts text k start ('\x60' :: behind) →
    ReadsBetween text k start '\x60' ('\x60' :: behind) (Enclosed '\x60') .quotedIdent
      .unterminatedQuotedIdent
  special : ∀ k start behind, ProbeStarts text k start ('%' :: behind) →
    ReadsBetween text k start '%' ('%' :: behind) InLine .special .unterminatedSpecialOp ∧
    (tokenAt? text k = some (.error ⟨.unterminatedSpecialOp, start.loc⟩) ↔
      '%' ∉ behind.takeWhile (· != '\n'))
  comment : ∀ k start behind, ProbeStarts text k start ('#' :: behind) →
    ∃ line rest, '#' :: behind = line ++ rest ∧ '\n' ∉ line ∧ (∀ c ∈ rest.head?, c = '\n') ∧
      tokenAt? text k = some (.ok
        (⟨.comment, String.ofList line, start.loc, start.offset⟩, start.advance line))
  /-- Reading from the start of the text goes on behind each token, so none starts inside another,
  and neither does the place where reading stands. -/
  apart : ∀ ts r, Reader.Reaches (.ofText text) ts r → ∀ t ∈ ts, t.stop ≤ r.cursor.offset ∧
    ∀ u ∈ ts, ¬ (t.offset < u.offset ∧ u.offset < t.stop)

/-- **Tokens between marks end at the first mark that closes them**, or are refused if there is
none, wherever in a text they are probed; and nothing inside them starts another token. -/
theorem delimited_tokens (text : List Char) : DelimitedTokens text where
  string k start mark behind hm h := by
    refine h.readsBetween (Lexeme.findsInside_delimited ?_ (Lexeme.scan_string hm))
    rcases hm with rfl | rfl <;> decide
  quotedIdent k start behind h :=
    h.readsBetween (Lexeme.findsInside_delimited (by decide) Lexeme.scan_quotedIdent)
  special k start behind h := by
    have hreads := h.readsBetween Lexeme.findsInside_special
    exact ⟨hreads, by rw [hreads.fault, exists_inLine_iff]⟩
  comment k start behind h := h.comment
  apart ts r h t ht := ⟨h.stop_le t ht, h.apart t ht⟩

end RSource
