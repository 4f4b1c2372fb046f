import RSource.Proofs.Respacing
import RSource.Proofs.Yield

/-!
# Programs as text

* `Item.chars`, `Program.render` — the text of a tree: each statement of the program or of a block
  on its own line, its tokens with one space between them, and the two brackets that close an
  element subscript without one.
* `Writes` — tokens are those of some items, with a line feed for each line break and without any
  other layout.
* `Item.IsSpelled` — a token item is spelled as its kind asks; `Fits.isSpelled` says that those of
  an accepted source are.
* `remaining_of_chars` — **the text of some items is read as the tokens that write them**.
-/

namespace RSource

/-! ## The text of a tree -/

namespace Item

/-- The space before a token that is not the first on its line. -/
def space (inLine : Bool) : List Char := if inLine then [' '] else []

/-- The text of some items. `inLine` says whether a token stands before them on the line. -/
def chars (inLine : Bool) : List Item → List Char
  | [] => []
  | .mark _ _ :: is => chars inLine is
  | .token _ text :: is => space inLine ++ (text.toList ++ chars true is)
  | .closeElement :: is => space inLine ++ (']' :: ']' :: chars true is)
  | .lineBreak :: is => '\n' :: chars false is

/-- A token is spelled as its kind asks, and a parse may see it. -/
def IsSpelled : Item → Prop
  | .token kind text => kind ≠ .comment ∧ kind ≠ .eof ∧ Lexeme.Spells kind text.toList
  | _ => True

end Item

/-- **A program as text**: each statement of the program or of a block on its own line, all tokens
of a statement with one space between them, and two closing brackets of an element subscript right
behind each other. -/
def Program.render (p : Program) : String := String.ofList (Item.chars false p.items)

theorem Lexeme.spells_caret : Spells .caret TokenKind.caret.label.toList :=
  ⟨fun c hc => by cases hc; rfl, [], by decide⟩

/-- The items of an accepted source are spelled as their kinds ask. -/
theorem Fits.isSpelled {is : List Item} {ts : List Token} (h : Fits is ts)
    (hs : ∀ t ∈ ts, t.IsSpelled) : ∀ i ∈ is, i.IsSpelled := by
  induction h with
  | nil => simp
  | mark _ ih =>
      intro i hi
      rcases List.mem_cons.mp hi with rfl | hi
      · trivial
      · exact ih hs i hi
  | @token kind text is t ts ht _ ih =>
      intro i hi
      rcases List.mem_cons.mp hi with rfl | hi
      · have hspelled := hs t (List.mem_cons_self ..)
        unfold Token.code at ht
        simp only [Prod.mk.injEq] at ht
        obtain ⟨rfl, rfl⟩ := ht
        refine ⟨hspelled.ne_comment, hspelled.ne_eof, ?_⟩
        split
        · rename_i hc
          rw [hc]
          exact Lexeme.spells_caret
        · exact hspelled.spells
      · exact ih (fun u hu => hs u (List.mem_cons_of_mem _ hu)) i hi
  | closeElement _ _ _ ih =>
      intro i hi
      rcases List.mem_cons.mp hi with rfl | hi
      · trivial
      · exact ih (fun u hu => hs u (List.mem_cons_of_mem _ (List.mem_cons_of_mem _ hu))) i hi
  | lineBreak _ ih =>
      intro i hi
      rcases List.mem_cons.mp hi with rfl | hi
      · trivial
      · exact ih hs i hi

/-! ## The tokens of the text -/

/-- The tokens are those of the items, with a line feed for each line break and without any other
layout. -/
inductive Writes : List Item → List Token → Prop where
  | nil : Writes [] []
  | mark {label : Label} {loc : Location} {is : List Item} {ts : List Token} (h : Writes is ts) :
      Writes (.mark label loc :: is) ts
  | token {kind : TokenKind} {text : String} {is : List Item} {t : Token} {ts : List Token}
      (hk : t.kind = kind) (hl : t.lexeme = text) (h : Writes is ts) :
      Writes (.token kind text :: is) (t :: ts)
  | closeElement {is : List Item} {t u : Token} {ts : List Token} (ht : t.kind = .rbracket)
      (hu : u.kind = .rbracket) (ho : u.offset = t.offset + 1) (h : Writes is ts) :
      Writes (.closeElement :: is) (t :: u :: ts)
  | lineBreak {is : List Item} {t : Token} {ts : List Token} (ht : t.kind = .newline)
      (h : Writes is ts) : Writes (.lineBreak :: is) (t :: ts)

namespace Reader

/-- A token behind some blanks. -/
theorem next_of_scan {r : Reader} {sp w rest : List Char} {kind : TokenKind}
    (hr : r.rest = sp ++ (w ++ rest)) (hsp : ∀ c ∈ sp, isBlank c = true)
    (hw : ∀ c ∈ (w ++ rest).head?, isBlank c = false)
    (hs : Lexeme.scan (w ++ rest) = .ok ⟨kind, w, rest⟩) :
    r.next = .ok (⟨kind, String.ofList w, (r.cursor.advance sp).loc, (r.cursor.advance sp).offset⟩,
      ⟨(r.cursor.advance sp).advance w, rest⟩) := by
  obtain ⟨hblanks, hafter⟩ := Lexeme.blanks_append hsp hw
  simp only [next, read, skipBlanks, hr, hblanks, hafter, hs]

theorem remaining_of_next {r after : Reader} {t : Token} (h : r.next = .ok (t, after))
    (hc : t.kind ≠ .comment) (he : t.kind ≠ .eof) :
    r.remaining = (t :: after.remaining.1, after.remaining.2) := by
  rw [remaining_ok h, if_neg he, if_neg hc]

end Reader

theorem Item.isBlank_space (inLine : Bool) : ∀ c ∈ Item.space inLine, isBlank c = true := by
  cases inLine with
  | false => simp [Item.space]
  | true =>
      intro c hc
      rw [List.mem_singleton.mp hc]
      rfl

theorem Item.gap_chars (is : List Item) : Lexeme.Gap (Item.chars true is) := by
  induction is with
  | nil => exact .nil
  | cons i is ih =>
      cases i with
      | mark => exact ih
      | token | closeElement => exact .cons_space _
      | lineBreak => exact .cons_newline _

/-- **The text of some items is read as the tokens that write them.** -/
theorem remaining_of_chars {is : List Item} (hs : ∀ i ∈ is, i.IsSpelled) {inLine : Bool}
    {r : Reader} (hr : r.rest = Item.chars inLine is) :
    ∃ ts eof, r.remaining = (ts, .ok eof) ∧ Writes is ts := by
  induction is generalizing inLine r with
  | nil =>
      have hnil : r.rest = [] ++ ([] ++ []) := hr
      have hn := Reader.next_of_scan hnil (by simp) (by simp) rfl
      exact ⟨[], _, Reader.remaining_eof hn rfl, .nil⟩
  | cons i is ih =>
      have hi := hs i (List.mem_cons_self ..)
      have hrest : ∀ j ∈ is, j.IsSpelled := fun j hj => hs j (List.mem_cons_of_mem _ hj)
      cases i with
      | mark label loc =>
          obtain ⟨ts, eof, hrem, hw⟩ := ih hrest hr
          exact ⟨ts, eof, hrem, .mark hw⟩
      | token kind text =>
          obtain ⟨hc, he, hspell⟩ := hi
          have hscan := hspell.respace hc he (Item.gap_chars is)
          have hn := Reader.next_of_scan hr (Item.isBlank_space inLine)
            (hspell.visible_append he _) hscan
          obtain ⟨ts, eof, hrem, hw⟩ := ih hrest
            (r := ⟨(r.cursor.advance (Item.space inLine)).advance text.toList, _⟩) rfl
          have hall := Reader.remaining_of_next hn hc he
          rw [hrem] at hall
          exact ⟨_, eof, hall, .token rfl String.ofList_toList hw⟩
      | closeElement =>
          have hv : ∀ rest, ∀ c ∈ ([']'] ++ rest).head?, isBlank c = false :=
            fun rest c hc => by cases hc; decide
          have hn := Reader.next_of_scan (w := [']']) hr (Item.isBlank_space inLine) (hv _)
            (Lexeme.scan_rbracket _)
          generalize r.cursor.advance (Item.space inLine) = k at hn
          have hsecond : (⟨k.advance [']'], ']' :: Item.chars true is⟩ : Reader).rest =
              [] ++ ([']'] ++ Item.chars true is) := rfl
          have hn' := Reader.next_of_scan hsecond (by simp) (hv _) (Lexeme.scan_rbracket _)
          obtain ⟨ts, eof, hrem, hw⟩ := ih hrest
            (r := ⟨((k.advance [']']).advance []).advance [']'], _⟩) rfl
          have hall := Reader.remaining_of_next hn (by simp) (by simp)
          rw [Reader.remaining_of_next hn' (by simp) (by simp), hrem] at hall
          exact ⟨_, eof, hall, .closeElement rfl rfl rfl hw⟩
      | lineBreak =>
          have hbreak : r.rest = [] ++ (['\n'] ++ Item.chars false is) := hr
          have hn := Reader.next_of_scan hbreak (by simp) (fun c hc => by cases hc; decide) rfl
          obtain ⟨ts, eof, hrem, hw⟩ := ih hrest
            (r := ⟨(r.cursor.advance []).advance ['\n'], _⟩) rfl
          have hall := Reader.remaining_of_next hn (by simp) (by simp)
          rw [hrem] at hall
          exact ⟨_, eof, hall, .lineBreak rfl hw⟩

end RSource
