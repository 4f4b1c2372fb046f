import RSource.Proofs.Probes

/-!
# Reading at another place

A probe knows of its text what follows its cursor, and of the cursor's line and column nothing but
what it adds to them.

* `Location.Fits` — no line and no column passes 32 bits while some characters are passed.
* `Location.Moved` — a place that moves with the place where reading starts: its column does so on
  the first line alone.
* `Location.moved_advance` — **places move with the place from which they are counted**.
* `Lexeme.scanned` — the characters up to the end of the token that is read.
* `FoundAlike` — two results that differ in their places alone.
* `token_translates` — **a probe finds the same token wherever it starts to count**.
-/

namespace RSource

/-! ## Places -/

namespace Location

/-- No line and no column passes 32 bits while some characters are passed. -/
def Fits : Location → List Char → Prop
  | _, [] => True
  | l, c :: cs =>
      (if c = '\n' then l.line.toNat + 1 < UInt32.size else l.col.toNat + 1 < UInt32.size) ∧
        Fits (l.step c) cs

instance Fits.decide : (l : Location) → (cs : List Char) → Decidable (l.Fits cs)
  | _, [] => inferInstanceAs (Decidable True)
  | l, c :: cs =>
      have := Fits.decide (l.step c) cs
      inferInstanceAs (Decidable (_ ∧ (l.step c).Fits cs))

/-- `q` is to `m` as `p` is to `l`: no lines come between that do not come between those, and on the
line of `l` it is as many columns further right. Behind that line columns are counted anew. -/
structure Moved (l m p q : Location) : Prop where
  le : l.line ≤ p.line
  line : (q.line.toNat : Int) - p.line.toNat = m.line.toNat - l.line.toNat
  col : (q.col.toNat : Int) - p.col.toNat =
    if p.line = l.line then (m.col.toNat : Int) - l.col.toNat else 0

theorem Fits.append {l : Location} {cs ds : List Char} :
    l.Fits (cs ++ ds) ↔ l.Fits cs ∧ (l.advance cs).Fits ds := by
  induction cs generalizing l with
  | nil => exact (and_iff_right trivial).symm
  | cons c cs ih =>
      rw [List.cons_append, Fits, Fits, ih, and_assoc]
      rfl

/-- Where they fit, lines are counted without a bound. -/
theorem Fits.line_advance {l : Location} {cs : List Char} (h : l.Fits cs) :
    (l.advance cs).line.toNat = l.line.toNat + cs.count '\n' := by
  induction cs generalizing l with
  | nil => rfl
  | cons c cs ih =>
      obtain ⟨hstep, hrest⟩ := h
      have hadvance : l.advance (c :: cs) = (l.step c).advance cs := rfl
      rw [hadvance, ih hrest]
      by_cases hc : c = '\n'
      · subst hc
        rw [if_pos rfl] at hstep
        have hline : (l.line + 1).toNat = l.line.toNat + 1 := by
          rw [UInt32.toNat_add, UInt32.toNat_one, Nat.mod_eq_of_lt hstep]
        rw [step, if_pos rfl, List.count_cons_self, hline]
        omega
      · rw [step, if_neg hc, List.count_cons_of_ne hc]

/-- Where they fit and no line feed is passed, columns are. -/
theorem Fits.col_advance {l : Location} {cs : List Char} (h : l.Fits cs) (hcs : '\n' ∉ cs) :
    (l.advance cs).col.toNat = l.col.toNat + cs.length := by
  induction cs generalizing l with
  | nil => rfl
  | cons c cs ih =>
      obtain ⟨hstep, hrest⟩ := h
      obtain ⟨hc, hcs⟩ := not_or.mp (mt List.mem_cons.mpr hcs)
      have hadvance : l.advance (c :: cs) = (l.step c).advance cs := rfl
      rw [if_neg (Ne.symm hc)] at hstep
      have hcol : (l.step c).col.toNat = l.col.toNat + 1 := by
        rw [step, if_neg (Ne.symm hc)]
        simp only
        rw [UInt32.toNat_add, UInt32.toNat_one, Nat.mod_eq_of_lt hstep]
      rw [hadvance, ih hrest hcs, hcol, List.length_cons]
      omega

/-- Behind a line feed the column does not depend on where the line before it started. -/
theorem col_advance_congr {cs : List Char} {l m : Location} (h : l.col = m.col ∨ '\n' ∈ cs) :
    (l.advance cs).col = (m.advance cs).col := by
  induction cs generalizing l m with
  | nil => exact h.resolve_right (List.not_mem_nil)
  | cons c cs ih =>
      have hstep : (l.step c).col = (m.step c).col ∨ '\n' ∈ cs := by
        by_cases hc : c = '\n'
        · left
          rw [step, step, if_pos hc, if_pos hc]
        · refine h.imp (fun hcol => ?_) fun hmem => ?_
          · rw [step, step, if_neg hc, if_neg hc, hcol]
          · exact (List.mem_cons.mp hmem).resolve_left (Ne.symm hc)
      exact ih hstep

/-- **Places move with the place from which they are counted.** -/
theorem moved_advance {l m : Location} {cs : List Char} (hl : l.Fits cs) (hm : m.Fits cs) :
    Moved l m (l.advance cs) (m.advance cs) := by
  have hline := hl.line_advance
  have hline' := hm.line_advance
  have hsame : (l.advance cs).line = l.line ↔ '\n' ∉ cs := by
    rw [← UInt32.toNat_inj, hline, ← List.count_eq_zero]
    omega
  refine ⟨by rw [UInt32.le_iff_toNat_le]; omega, by omega, ?_⟩
  by_cases hcs : '\n' ∈ cs
  · rw [if_neg (fun h => hsame.mp h hcs), col_advance_congr (Or.inr hcs), Int.sub_self]
  · have hcol := hl.col_advance hcs
    have hcol' := hm.col_advance hcs
    rw [if_pos (hsame.mpr hcs)]
    omega

end Location

/-! ## Probes -/

/-- The characters up to the end of the first token, or up to its start if it cannot be read. -/
def Lexeme.scanned (cs : List Char) : List Char :=
  blanks cs ++
    match scan (afterBlanks cs) with
    | .error _ => []
    | .ok l => l.text

/-- A token and the cursor behind it, so many bytes further on. -/
def furtherOn (d : Nat) (found : Token × Cursor) : Token × Cursor :=
  ({ found.1 with offset := found.1.offset + d }, { found.2 with offset := found.2.offset + d })

/-- Two results of reading that differ in their places alone, and these by the way from `l` to
`m`. -/
inductive FoundAlike (l m : Location) :
    Except LexError (Token × Cursor) → Except LexError (Token × Cursor) → Prop where
  | token {t u : Token} {k k' : Cursor} (hkind : u.kind = t.kind) (hlexeme : u.lexeme = t.lexeme)
      (hoffset : u.offset = t.offset) (hbehind : k'.offset = k.offset)
      (hloc : Location.Moved l m t.loc u.loc) (hloc' : Location.Moved l m k.loc k'.loc) :
      FoundAlike l m (.ok (t, k)) (.ok (u, k'))
  | fault {e e' : LexError} (hfault : e'.fault = e.fault)
      (hloc : Location.Moved l m e.loc e'.loc) : FoundAlike l m (.error e) (.error e')

/-- Where a cursor is that has passed some characters. -/
theorem Cursor.advance_eq (k : Cursor) (cs : List Char) :
    k.advance cs =
      ⟨k.offset + (cs.flatMap String.utf8EncodeChar).length, k.loc.advance cs⟩ := by
  rw [← offset_advance, ← loc_advance]

/-- What a probe finds: a token behind the blanks, or a fault there. Behind the characters that are
passed, offset and place of the cursor are counted apart from each other. -/
theorem tokenAt?_append (before rest : List Char) (l : Location) :
    let start := (before.flatMap String.utf8EncodeChar).length
    let gap := Lexeme.blanks rest
    tokenAt? (before ++ rest) ⟨start, l⟩ = some
      (match Lexeme.scan (Lexeme.afterBlanks rest) with
      | .error fault => .error ⟨fault, l.advance gap⟩
      | .ok x =>
          .ok (⟨x.kind, String.ofList x.text, l.advance gap,
              start + (gap.flatMap String.utf8EncodeChar).length⟩,
            ⟨start + (gap.flatMap String.utf8EncodeChar).length +
                (x.text.flatMap String.utf8EncodeChar).length,
              l.advance (gap ++ x.text)⟩)) := by
  intro start gap
  rw [tokenAt?]
  simp only [start, fromOffset?_append, Reader.next, Reader.read, Reader.skipBlanks]
  cases Lexeme.scan (Lexeme.afterBlanks rest) with
  | error fault => simp only [Cursor.loc_advance, gap]
  | ok x => simp only [Cursor.advance_eq, Location.advance, List.foldl_append, gap]

/-- A probe at the start of a text finds the same as one so many bytes further on. -/
theorem tokenAt?_suffix (before rest : List Char) (l : Location) :
    tokenAt? (before ++ rest) ⟨(before.flatMap String.utf8EncodeChar).length, l⟩ =
      (tokenAt? rest ⟨0, l⟩).map
        (Except.map (furtherOn (before.flatMap String.utf8EncodeChar).length)) := by
  have hstart := tokenAt?_append [] rest l
  rw [List.nil_append] at hstart
  have hstart : tokenAt? rest ⟨0, l⟩ = _ := hstart
  rw [tokenAt?_append, hstart]
  cases Lexeme.scan (Lexeme.afterBlanks rest) with
  | error fault => rfl
  | ok x =>
      simp only [Option.map_some, Except.map, furtherOn, List.flatMap_nil, List.length_nil]
      congr 4 <;> omega

/-- Probes that start to count elsewhere find the same at places that move along. -/
theorem foundAlike_of_fits (before rest : List Char) {l m : Location}
    (hl : l.Fits (Lexeme.scanned rest)) (hm : m.Fits (Lexeme.scanned rest)) :
    ∃ x y,
      tokenAt? (before ++ rest) ⟨(before.flatMap String.utf8EncodeChar).length, l⟩ = some x ∧
      tokenAt? (before ++ rest) ⟨(before.flatMap String.utf8EncodeChar).length, m⟩ = some y ∧
      FoundAlike l m x y := by
  refine ⟨_, _, tokenAt?_append before rest l, tokenAt?_append before rest m, ?_⟩
  have hgap := Location.moved_advance (Location.Fits.append.mp hl).1 (Location.Fits.append.mp hm).1
  rw [Lexeme.scanned] at hl hm
  cases hscan : Lexeme.scan (Lexeme.afterBlanks rest) with
  | error fault => exact .fault rfl hgap
  | ok x =>
      rw [hscan] at hl hm
      exact .token rfl rfl rfl rfl hgap (Location.moved_advance hl hm)

/-- **A probe finds the same token wherever it starts to count.** At the start of what is left of a
text it finds the same as in the text, so many bytes further on; and from another line and column
it finds the same token or fault, and on the line where it starts all places move by as many lines
and columns, on the lines behind it by as many lines. -/
theorem token_translates (before rest : List Char) :
    let start := (before.flatMap String.utf8EncodeChar).length
    (∀ l, tokenAt? (before ++ rest) ⟨start, l⟩ =
      (tokenAt? rest ⟨0, l⟩).map (Except.map (furtherOn start))) ∧
    ∀ l m : Location, l.Fits (Lexeme.scanned rest) → m.Fits (Lexeme.scanned rest) →
      ∃ x y, tokenAt? (before ++ rest) ⟨start, l⟩ = some x ∧
        tokenAt? (before ++ rest) ⟨start, m⟩ = some y ∧ FoundAlike l m x y :=
  ⟨tokenAt?_suffix before rest, fun _ _ => foundAlike_of_fits before rest⟩

/-- A string over two lines is read from a place further down: its start moves with the column, the
place behind it with the line alone. -/
theorem token_translates_of_string :
    let before := "x <- ".toList
    let rest := " 'a\nb' y".toList
    let l : Location := ⟨1, 6⟩
    let m : Location := ⟨7, 2⟩
    l.Fits (Lexeme.scanned rest) ∧ m.Fits (Lexeme.scanned rest) ∧
      ∃ x y, tokenAt? (before ++ rest) ⟨5, l⟩ = some x ∧
        tokenAt? (before ++ rest) ⟨5, m⟩ = some y ∧ FoundAlike l m x y ∧
        x = .ok (⟨.str, "'a\nb'", ⟨1, 7⟩, 6⟩, ⟨11, ⟨2, 3⟩⟩) ∧
        y = .ok (⟨.str, "'a\nb'", ⟨7, 3⟩, 6⟩, ⟨11, ⟨8, 3⟩⟩) := by
  intro before rest l m
  have hl : l.Fits (Lexeme.scanned rest) := by decide +kernel
  have hm : m.Fits (Lexeme.scanned rest) := by decide +kernel
  obtain ⟨x, y, hx, hy, halike⟩ := (token_translates before rest).2 l m hl hm
  refine ⟨hl, hm, x, y, hx, hy, halike, ?_, ?_⟩
  · have hread : tokenAt? (before ++ rest) ⟨5, l⟩ =
        some (.ok (⟨.str, "'a\nb'", ⟨1, 7⟩, 6⟩, ⟨11, ⟨2, 3⟩⟩)) := by decide +kernel
    exact Option.some.inj (hx.symm.trans hread)
  · have hread : tokenAt? (before ++ rest) ⟨5, m⟩ =
        some (.ok (⟨.str, "'a\nb'", ⟨7, 3⟩, 6⟩, ⟨11, ⟨8, 3⟩⟩)) := by decide +kernel
    exact Option.some.inj (hy.symm.trans hread)

end RSource
