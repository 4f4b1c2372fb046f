import RSource.Proofs.Completeness
import RSource.Proofs.Encoding
import RSource.Proofs.ReplayExpression
import RSource.Proofs.Yield

/-!
# Printing and parsing again

* `Program.source` — the text of a program as the bytes of a source.
* `parseFeed_of_reads` — statements that are derived up to the end of the input are parsed.
* `parse_source` — **the text of an accepted program is accepted, and its tree differs in places
  alone**.
-/

namespace RSource

open Grammar

/-- The text of a program as the bytes of a source. -/
def Program.source (p : Program) : List UInt8 := p.render.toUTF8.data.toList

theorem Program.decodeSource_source (p : Program) :
    decodeSource p.source = .ok (Item.chars false p.items) := by
  have hbytes : p.source = (Item.chars false p.items).flatMap String.utf8EncodeChar := by
    simp [source, render, List.utf8Encode]
  rw [decodeSource, hbytes, Utf8.decode_encode]

/-- Statements that are derived up to the end of the input are parsed. -/
theorem parseFeed_of_reads {s : Feed} {s' : Tape} {es : List Expression}
    (h : ReadsStatements (ReadsExpression maxNesting) .eof s.tape es s') :
    parseFeed s = .ok ⟨es⟩ := by
  have hshort : s.tape.Within (s.reader.rest.length + 1) :=
    Nat.lt_succ_of_le s.reader.length_remaining
  have hstatements := h.play (covers_readsExpression maxNesting) (plays_readsExpression _ _)
    hshort hshort
  have hplay : (program (s.reader.rest.length + 1)).play s.tape = .ok (⟨es⟩, s') :=
    Parse.play_bind_ok.mpr ⟨es, s', hstatements, rfl⟩
  rw [Parse.play_tape] at hplay
  rw [parseFeed]
  cases hrun : (program (s.reader.rest.length + 1)).run s with
  | error e =>
      rw [hrun] at hplay
      cases hplay
  | ok r =>
      rw [hrun] at hplay
      simp only [Except.map, Except.ok.injEq, Prod.mk.injEq] at hplay
      simp only [hplay.1]

/-- The statements of a program are written without the node around them. -/
theorem Written.statements {p : Program} {s s' : Tape} (h : Written p.items s s') :
    Written (statementItems p.statements) s s' := by
  unfold Program.items at h
  split at h
  · rename_i hnil
    rwa [hnil]
  · exact h.unmark

/-- The tokens of the text of some items write the items, and then the input ends. -/
theorem written_of_chars {is : List Item} (hs : ∀ i ∈ is, i.IsSpelled) :
    ∃ s' eof, Written is (Feed.ofText (Item.chars false is)).tape s' ∧ s'.Faces eof ∧
      eof.kind = .eof := by
  obtain ⟨ts, eof, hrem, hw⟩ := remaining_of_chars hs
    (show (Reader.ofText (Item.chars false is)).rest = _ from rfl)
  have htokens : (Feed.ofText (Item.chars false is)).tape.tokens = ts := congrArg Prod.fst hrem
  have hending : (Feed.ofText (Item.chars false is)).tape.ending = .ok eof :=
    congrArg Prod.snd hrem
  generalize (Feed.ofText (Item.chars false is)).tape = s at htokens hending
  have heof : eof.kind = .eof := s.ending_eof eof hending
  refine ⟨s.cut [] List.nil_suffix, eof, ⟨rfl, rfl, ts, ?_, hw⟩, ⟨hending, by simp [heof]⟩, heof⟩
  exact htokens.trans (List.append_nil ts).symm

/-- **The text of an accepted program is accepted**, and its tree is that of the program but for
the places. -/
theorem parse_source {bytes : List UInt8} {p : Program} (h : parse bytes = .ok p) :
    ∃ q, parse p.source = .ok q ∧ q.erase = p.erase := by
  obtain ⟨_, _, -, -, hfits, hspelled⟩ := fits_of_parse h
  obtain ⟨_, s', -, -, hreads⟩ := readsProgram_of_parse h
  obtain ⟨s₂', eof, hwritten, hfaces, heof⟩ := written_of_chars (hfits.isSpelled hspelled)
  have hl : (Feed.ofText (Item.chars false p.items)).tape.layouts = [] := rfl
  obtain ⟨es, hes, herase⟩ := hreads.replay (covers_readsExpression maxNesting)
    (tied_readsExpression maxNesting) (replays_readsExpression maxNesting) (by simp) rfl hl
    hwritten.statements hfaces heof
  refine ⟨⟨es⟩, ?_, congrArg Program.mk herase⟩
  rw [parse, p.decodeSource_source]
  exact parseFeed_of_reads hes

/-- An `else` that stands on a line of its own in braces is written behind its branch. -/
theorem parse_source_of_else :
    let p : Program := ⟨[.term ⟨1, 1⟩ (.mk (.block ⟨1, 1⟩ [.term ⟨1, 3⟩ (.mk (.ifElse ⟨1, 3⟩
      (.term ⟨1, 7⟩ (.mk (.identifier ⟨⟨1, 7⟩, "a", false⟩) []))
      (.term ⟨1, 10⟩ (.mk (.identifier ⟨⟨1, 10⟩, "b", false⟩) []))
      (.term ⟨2, 6⟩ (.mk (.identifier ⟨⟨2, 6⟩, "c", false⟩) []))) [])] ⟨2, 8⟩) [])]⟩
    parse "\x7b if (a) b\nelse c \x7d".toUTF8.data.toList = .ok p ∧
      ∃ q, parse p.source = .ok q ∧ q.erase = p.erase :=
  ⟨by rfl, parse_source (show parse "\x7b if (a) b\nelse c \x7d".toUTF8.data.toList = _ by rfl)⟩

end RSource
