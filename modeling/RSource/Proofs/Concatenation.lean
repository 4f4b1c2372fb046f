import RSource.Proofs.Balance
import RSource.Proofs.Cutting

/-!
# One source behind another

A line feed outside all brackets ends all that a parse knows of what stands before it.

* `Location.down` — a place so many lines further down.
* `Pairing.extended` — a source beside one that goes on behind it with a line feed.
* `parseFeed_of_extended` — an accepted source is read first, and then what follows it.
* `play_of_shifted` — the same text in another place comes to the same elsewhere.
* `parse_append` — **two sources with a line feed between them hold the statements of both**.
-/

namespace RSource

/-- The place so many lines further down. -/
def Location.down (k : Nat) (l : Location) : Location := ⟨l.line + UInt32.ofNat k, l.col⟩

theorem Location.down_step (k : Nat) (l : Location) (c : Char) :
    (l.step c).down k = (l.down k).step c := by
  unfold step
  split
  · simp only [down, UInt32.add_assoc, UInt32.add_comm 1]
  · rfl

/-- A source beside one that goes on behind it, outside all brackets, with a line feed. -/
def Pairing.extended (eof : Token) (e : Except LexError Token) (l : Token) (us : List Token)
    (hl : l.kind = .newline) : Pairing where
  left := id
  right := id
  leftEnd := .ok eof
  rightEnd := e
  stops c vs := c.opened = [] ∧ vs = l :: us
  lenient := True
  ends h := Or.inr ⟨h.1, ⟨eof, rfl⟩, ⟨l, us, h.2, hl⟩, trivial⟩

/-- The tokens of an accepted source are read before those of a source that goes on behind it. -/
theorem reflows_of_extended {r r₁ : Reader} {eof l : Token} {us : List Token}
    {e : Except LexError Token} {p : Program} (h : parseFeed ⟨r₁, []⟩ = .ok p)
    (hl : l.kind = .newline) (hr : r.remaining.1 = r₁.remaining.1 ++ l :: us) :
    (Pairing.extended eof e l us hl).Reflows .start r₁.remaining.1 r.remaining.1 := by
  let P := Pairing.extended eof e l us hl
  have hasc := r₁.remaining_offsets.2
  have hasc' := r.remaining_offsets.2
  rw [hr] at hasc'
  have hstop : P.stops (Scope.start.run (r₁.remaining.1.map (·.kind))) (l :: us) := by
    rw [run_of_parseFeed h]
    exact ⟨rfl, rfl⟩
  have hreflows : P.Reflows .start (r₁.remaining.1 ++ []) (r₁.remaining.1 ++ l :: us) :=
    .prepend rfl (.stop hstop)
      (fun t _ ht => iff_of_false (not_adjoins_nil t) (not_adjoins_of_ascending ht hl))
      (by simpa using hasc) hasc'
  rwa [List.append_nil, ← hr] at hreflows

/-- An accepted source is read first, and then what follows it. -/
theorem parseFeed_of_extended {r r₁ : Reader} (r₂ : Reader) {eof l : Token} {p : Program}
    (h : parseFeed ⟨r₁, []⟩ = .ok p) (hend : r₁.remaining.2 = .ok eof) (hl : l.kind = .newline)
    (hr : r.remaining.1 = r₁.remaining.1 ++ l :: r₂.remaining.1)
    (hr' : r.remaining.2 = r₂.remaining.2) :
    ∃ m, (Feed.tape ⟨r₂, []⟩).Within m ∧ (Feed.tape ⟨r₂, []⟩).Within (r.rest.length + 1) ∧
      parseFeed ⟨r, []⟩ =
        ((Grammar.statements (Grammar.expression (r.rest.length + 1) maxNesting) .eof m).play
          (Feed.tape ⟨r₂, []⟩)).map fun x => ⟨p.statements ++ x.1⟩ := by
  let P := Pairing.extended eof r₂.remaining.2 l r₂.remaining.1 hl
  obtain ⟨s', hplay⟩ := play_of_parseFeed h
  have hw := Feed.within_tape ⟨r₁, []⟩ (Nat.lt_succ_self _)
  have hw' := Feed.within_tape ⟨r, []⟩ (Nat.lt_succ_self _)
  obtain ⟨es, s, m, hes, ⟨-, hstop⟩, hlayouts, hending, hb, hm, heq⟩ :=
    Grammar.play_statements_continue (P := P)
      (Grammar.pairs_expression P _ (r.rest.length + 1) maxNesting)
      ⟨rfl, rfl, hend, hr', (reflows_of_extended h hl hr).ahead true⟩ hw hw' hw hw' hplay
  have hes : es = p.statements := by
    have hid : relocateExpressions id p.statements = relocateExpressions id es := hes
    rw [relocateExpressions_id, relocateExpressions_id] at hid
    exact hid.symm
  have hlength : s.tokens.length = 1 + (Feed.tape ⟨r₂, []⟩).tokens.length := by
    rw [hstop, List.length_cons, Nat.add_comm]
    rfl
  unfold Tape.Within at hb hm
  obtain ⟨m, rfl⟩ := Nat.exists_eq_add_of_le (show 1 ≤ m by omega)
  refine ⟨m, ?_, ?_, ?_⟩
  · unfold Tape.Within
    omega
  · unfold Tape.Within
    omega
  · have hfree : s.isFree = false := by
      rw [Tape.isFree, hlayouts]
      rfl
    have hlines := Grammar.play_statements_lines
      (Grammar.expression (r.rest.length + 1) maxNesting) .eof (n := m) hfree
      (show s.tokens = [l] ++ (Feed.tape ⟨r₂, []⟩).tokens from hstop) (by simpa using hl) rfl
      hending.symm hlayouts.symm
    rw [List.length_singleton] at hlines
    rw [parseFeed_play, heq, hlines, hes]
    generalize Parse.play _ (Feed.tape ⟨r₂, []⟩) = x
    cases x <;> rfl

/-- The same text in another place comes to the same elsewhere, whatever bounds its lists. -/
theorem play_of_shifted {f : Location → Location} {d b m : Nat} {r r' : Reader}
    (hshift : List.Forall₂ (Reader.Shifted f id d) r.remaining.1 r'.remaining.1)
    (hend : SameEnd f id r.remaining.2 r'.remaining.2) (hb : (Feed.tape ⟨r', []⟩).Within b)
    (hm : (Feed.tape ⟨r', []⟩).Within m) :
    ((Grammar.statements (Grammar.expression b maxNesting) .eof m).play
        (Feed.tape ⟨r', []⟩)).map (fun x => Program.mk x.1) =
      relocateOutcome f (parseFeed ⟨r, []⟩) := by
  let P := Pairing.between f id _ _ hend
  have hw := Feed.within_tape ⟨r, []⟩ (Nat.lt_succ_self _)
  have hreflows := reflows_of_shifted (P := P) hshift (fun _ => rfl) .start
  have hmatch := Grammar.matches_statements
    (Grammar.pairs_expression P (r.rest.length + 1) b maxNesting) .eof (fun ho => ho.lenient)
    ⟨rfl, rfl, rfl, rfl, hreflows.ahead true⟩ hw hb hw hm
  rw [parseFeed_play]
  generalize Parse.play _ (Feed.tape ⟨r, []⟩) = x at hmatch
  generalize Parse.play _ (Feed.tape ⟨r', []⟩) = y at hmatch
  cases hmatch with
  | ok hes =>
      have hid := hes.trans (relocateExpressions_id _)
      exact congrArg (fun es => Except.ok (Program.mk es)) hid.symm
  | error he =>
      have hid := he.trans (Error.relocate_id _)
      exact congrArg Except.error hid.symm
  | waived hl => exact absurd hl id

/-- A text behind a text with a line feed between them. -/
theorem parseText_append {text₁ text₂ : List Char} {ts : List Token} {k : Cursor} {p : Program}
    (h : parseText text₁ = .ok p) (hr : Reader.Reaches (.ofText text₁) ts ⟨k, []⟩) :
    parseText (text₁ ++ '\n' :: text₂) =
      match parseText text₂ with
      | .ok q => .ok ⟨p.statements ++
          (q.relocate (.down (1 + text₁.count '\n'))).statements⟩
      | .error e => .error (e.relocate (.down (1 + text₁.count '\n'))) := by
  obtain ⟨read, lines, hread, hcursor, hlines, hlength, hrem⟩ := Reader.remaining_cut hr 0 text₂
  obtain ⟨l, rfl⟩ := List.length_eq_one_iff.mp hlength
  rw [List.append_nil] at hread
  subst hread
  generalize hr₂ : (⟨k.advance (List.replicate (0 + 1) '\n'), text₂⟩ : Reader) = r₂ at hrem
  have hrem : (Reader.ofText (text₁ ++ '\n' :: text₂)).remaining =
      (withoutComments ts ++ l :: r₂.remaining.1, r₂.remaining.2) := hrem
  have hend := Reader.remaining_of_reaches_end hr
  obtain ⟨m, hm, hb, heq⟩ := parseFeed_of_extended r₂ (r := .ofText (text₁ ++ '\n' :: text₂)) h
    (congrArg Prod.snd hend) (hlines l (List.mem_singleton_self l)) (by rw [hend, hrem])
    (by rw [hrem])
  -- The second text starts on the line behind those of the first.
  have hloc : Location.down (1 + text₁.count '\n') .start = r₂.cursor.loc := by
    have hline : k.loc.line = Location.start.line + UInt32.ofNat (text₁.count '\n') := by
      rw [show k = Cursor.start.advance text₁ from hcursor, Cursor.loc_advance,
        Location.advance_line]
      rfl
    rw [← hr₂, Cursor.loc_advance, Location.down, UInt32.ofNat_add,
      UInt32.add_comm (UInt32.ofNat 1), ← UInt32.add_assoc, ← hline]
    rfl
  have hrest : r₂.rest = (Reader.ofText text₂).rest := by
    rw [← hr₂]
    rfl
  have hoff : r₂.cursor.offset = (Reader.ofText text₂).cursor.offset + r₂.cursor.offset :=
    (Nat.zero_add _).symm
  obtain ⟨hshift, hsame⟩ := Reader.remaining_shift (f := .down (1 + text₁.count '\n')) (g := id)
    (fun l l' c hl => by rw [Location.down_step, hl]; rfl) hrest hoff hloc
  have hplay := play_of_shifted hshift hsame hb hm
  rw [parseText, Feed.ofText, heq]
  rw [show parseText text₂ = parseFeed ⟨.ofText text₂, []⟩ from rfl]
  generalize Parse.play _ (Feed.tape ⟨r₂, []⟩) = x at hplay
  generalize parseFeed ⟨.ofText text₂, []⟩ = y at hplay
  cases x with
  | error e =>
      cases y with
      | error e' => exact hplay
      | ok q => cases hplay
  | ok x =>
      cases y with
      | error e' => cases hplay
      | ok q =>
          have hq := Except.ok.inj hplay
          refine congrArg Except.ok (congrArg Program.mk ?_)
          exact congrArg (fun q : Program => p.statements ++ q.statements) hq

/-- A program stands where its first statement does. -/
theorem Program.loc_eq (p : Program) :
    p.loc = (p.statements.head?.map Expression.loc).getD .start := by
  rw [loc]
  cases p.statements <;> rfl

/-- **Two sources with a line feed between them hold the statements of both**, those of the second
so many lines further down, and stand where the first of these does; and if the second is refused,
both together are refused for the same reason, so many lines further down. -/
theorem parse_append {bytes₁ bytes₂ : List UInt8} {text₂ : List Char} {p : Program}
    (h : parse bytes₁ = .ok p) (h₂ : decodeSource bytes₂ = .ok text₂) :
    (parse (bytes₁ ++ 10 :: bytes₂) =
      match parse bytes₂ with
      | .ok q => .ok ⟨p.statements ++
          (q.relocate (.down (1 + bytes₁.count 10))).statements⟩
      | .error e => .error (e.relocate (.down (1 + bytes₁.count 10)))) ∧
    ∀ q, parse (bytes₁ ++ 10 :: bytes₂) = .ok q →
      q.loc = (q.statements.head?.map Expression.loc).getD .start := by
  obtain ⟨text₁, ts, htext, hlex, -⟩ := fits_of_parse h
  have hlex₁ : lex bytes₁ = .ok ts := by rwa [lex, htext]
  obtain ⟨_, us, k, htext', -, hr⟩ := Reader.reaches_of_lex hlex₁
  rw [htext] at htext'
  cases htext'
  have hp : parseText text₁ = .ok p := by rwa [parse, htext] at h
  have hdecode : decodeSource (bytes₁ ++ 10 :: bytes₂) = .ok (text₁ ++ '\n' :: text₂) := by
    rw [decodeSource_iff.mp htext, decodeSource_iff.mp h₂, decodeSource_iff, List.flatMap_append,
      List.flatMap_cons]
    rfl
  have hcount : bytes₁.count 10 = text₁.count '\n' := by
    rw [decodeSource_iff.mp htext, Utf8.count_newline]
  refine ⟨?_, fun q _ => q.loc_eq⟩
  rw [parse, hdecode, parse, h₂, hcount]
  exact parseText_append hp hr

/-- An `else` on the next line does not go on with a condition outside all brackets: it is refused
there as it is on its own. -/
theorem parse_append_of_else :
    let p : Program := ⟨[.term ⟨1, 1⟩ (.mk (.ifThen ⟨1, 1⟩
      (.term ⟨1, 5⟩ (.mk (.identifier ⟨⟨1, 5⟩, "a", false⟩) []))
      (.term ⟨1, 8⟩ (.mk (.identifier ⟨⟨1, 8⟩, "b", false⟩) []))) [])]⟩
    parse "if (a) b".toUTF8.data.toList = .ok p ∧
      parse ("if (a) b".toUTF8.data.toList ++ 10 :: "else c".toUTF8.data.toList) =
        .error (.unexpected ⟨.elseWord, "else", ⟨2, 1⟩, [.expression]⟩) := by
  intro p
  have hparse : parse "if (a) b".toUTF8.data.toList = .ok p := by rfl
  have hdecode : decodeSource "else c".toUTF8.data.toList = .ok "else c".toList := by rfl
  refine ⟨hparse, ?_⟩
  obtain ⟨happend, -⟩ := parse_append hparse hdecode
  rw [happend]
  rfl

end RSource
