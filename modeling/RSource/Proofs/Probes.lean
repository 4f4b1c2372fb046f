import RSource.Proofs.Standing

/-!
# Probes of a text

A probe of a text at a cursor passes the blanks that stand there and reads the token behind them.
The cursor may stand at any place between characters, and its line and column are taken as they are.

* `fromOffset?_eq_some_iff` — the offsets at which a part of a text is left.
* `ProbeStarts` — where a probe starts to read, and what is left there.
* `ProbeStarts.tokenAt` — **a probe reads the token at the place where it starts**.
* `exists_probeStarts` — every probe between characters starts somewhere.
-/

namespace RSource

/-- A part of a text is left at the offset where the bytes in front of it end. -/
theorem fromOffset?_eq_some_iff {n : Nat} {text rest : List Char} :
    fromOffset? n text = some rest ↔
      ∃ before, text = before ++ rest ∧ n = (before.flatMap String.utf8EncodeChar).length := by
  constructor
  · intro h
    fun_induction fromOffset? n text with
    | case1 => cases h; exact ⟨[], rfl, rfl⟩
    | case2 => cases h
    | case3 n c cs hle ih =>
        obtain ⟨before, rfl, hlength⟩ := ih h
        refine ⟨c :: before, rfl, ?_⟩
        rw [List.flatMap_cons, List.length_append, String.length_utf8EncodeChar]
        omega
    | case4 => cases h
  · rintro ⟨before, rfl, rfl⟩
    exact fromOffset?_append before rest

/-- What follows a part of a text is given by the number of its bytes. -/
theorem rest_eq_of_length {before before' rest rest' : List Char}
    (h : before ++ rest = before' ++ rest')
    (hlength : (before.flatMap String.utf8EncodeChar).length =
      (before'.flatMap String.utf8EncodeChar).length) : rest = rest' := by
  have hrest := fromOffset?_append before rest
  rw [h, hlength, fromOffset?_append] at hrest
  exact (Option.some.inj hrest).symm

/-- A probe of the text at the cursor `k` passes the blanks there and starts to read at a cursor
behind them, where some characters are left. -/
inductive ProbeStarts (text : List Char) (k : Cursor) : Cursor → List Char → Prop where
  | mk (before gap rest : List Char) (htext : text = before ++ (gap ++ rest))
      (hoffset : k.offset = (before.flatMap String.utf8EncodeChar).length)
      (hgap : ∀ c ∈ gap, isBlank c = true) (hrest : ∀ c ∈ rest.head?, isBlank c = false) :
      ProbeStarts text k (k.advance gap) rest

variable {text rest : List Char} {k start : Cursor}

/-- **A probe reads the token at the place where it starts.** -/
theorem ProbeStarts.tokenAt (h : ProbeStarts text k start rest) :
    tokenAt? text k =
      some ((Reader.mk start rest).read.map fun p => (p.1, p.2.cursor)) := by
  obtain ⟨before, gap, rest, htext, hoffset, hgap, hrest⟩ := h
  obtain ⟨hblanks, hafter⟩ := Lexeme.blanks_append hgap hrest
  have hskip : (Reader.mk k (gap ++ rest)).skipBlanks = ⟨k.advance gap, rest⟩ := by
    rw [Reader.skipBlanks, hblanks, hafter]
  rw [tokenAt?, fromOffset?_eq_some_iff.mpr ⟨before, htext, hoffset⟩]
  simp only [Reader.next, hskip]
  cases (Reader.mk (k.advance gap) rest).read <;> rfl

theorem ProbeStarts.tokenAt_ok (h : ProbeStarts text k start rest) {l : Lexeme}
    (hl : Lexeme.scan rest = .ok l) :
    tokenAt? text k = some (.ok (⟨l.kind, String.ofList l.text, start.loc, start.offset⟩,
      start.advance l.text)) := by
  rw [h.tokenAt, Reader.read, hl]
  rfl

theorem ProbeStarts.tokenAt_error (h : ProbeStarts text k start rest) {fault : LexFault}
    (hl : Lexeme.scan rest = .error fault) :
    tokenAt? text k = some (.error ⟨fault, start.loc⟩) := by
  rw [h.tokenAt, Reader.read, hl]
  rfl

/-- Every probe between characters starts somewhere. -/
theorem exists_probeStarts {x : Except LexError (Token × Cursor)}
    (h : tokenAt? text k = some x) : ∃ start rest, ProbeStarts text k start rest := by
  rw [tokenAt?] at h
  split at h
  · cases h
  · rename_i left hleft
    obtain ⟨before, htext, hoffset⟩ := fromOffset?_eq_some_iff.mp hleft
    refine ⟨_, _, .mk before (Lexeme.blanks left) (Lexeme.afterBlanks left) ?_ hoffset
      (fun _ => List.mem_takeWhile_imp) fun c hc => ?_⟩
    · rw [Lexeme.blanks_append_afterBlanks]
      exact htext
    · have hd := List.head?_dropWhile_not isBlank left
      rw [← Lexeme.afterBlanks, hc] at hd
      simpa using hd

/-- The bytes in front of where a probe starts are as many as its offset. -/
theorem ProbeStarts.split (h : ProbeStarts text k start rest) :
    ∃ before, text = before ++ rest ∧
      start.offset = (before.flatMap String.utf8EncodeChar).length := by
  obtain ⟨before, gap, rest, htext, hoffset, -, -⟩ := h
  refine ⟨before ++ gap, by rw [htext, List.append_assoc], ?_⟩
  rw [Cursor.offset_advance, hoffset, List.flatMap_append, List.length_append]

end RSource
