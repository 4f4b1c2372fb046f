import Mathlib.Data.List.TakeWhile
import RSource.Proofs.Concrete
import RSource.Proofs.Tape

/-!
# What stands between two tapes

* `Identifier.fits_ofToken`, `Constant.fits_ofToken?`, `ArgName.fits_ofToken?` — a leaf is written
  as the token it was read from.
* `AssignOp.code_ofKind?`, `BinaryOp.code_ofToken?`, `UnaryOp.code_ofKind?` — so is an operator.
* `Tape.AtCode` — the next visible token is part of an expression.
* `Spans` — **the tokens between two tapes are those of some items**.
* `Spans.append`, `Spans.past`, `Spans.mark` and the like — how spans are put together.
-/

namespace RSource

/-! ## Leaves and operators -/

/-- The kinds whose tokens are all spelled alike and are part of an expression. A power counts
because its code is. -/
def TokenKind.isWord (k : TokenKind) : Bool := k.isSpelled && !k.isLayout && k != .naWord

theorem TokenKind.isLayout_of_isWord {k : TokenKind} (h : k.isWord = true) :
    k.isLayout = false := by
  simp only [isWord, Bool.and_eq_true, Bool.not_eq_true'] at h
  exact h.1.2

namespace Token.IsSpelled

variable {t : Token}

theorem lexeme_eq (h : t.IsSpelled) (hk : t.kind.isWord = true) (hc : t.kind ≠ .caret) :
    t.lexeme = t.kind.label := by
  simp only [TokenKind.isWord, Bool.and_eq_true, bne_iff_ne] at hk
  have hs := h.spells.eq_label hk.1.1 hc hk.2 h.ne_eof
  rwa [String.ofList_toList] at hs

/-- A word is spelled as its kind says. -/
theorem code_eq (h : t.IsSpelled) (hk : t.kind.isWord = true) :
    t.code = (t.kind, t.kind.label) := by
  unfold Token.code
  split
  · rename_i hc
    rw [hc]
  · rename_i hc
    rw [h.lexeme_eq hk hc]

end Token.IsSpelled

theorem Token.code_of_ne_caret {t : Token} (hk : t.kind ≠ .caret) :
    t.code = (t.kind, t.lexeme) := by
  rw [code, if_neg hk]

theorem Fits.word {t : Token} {k : TokenKind} (h : t.IsSpelled) (hk : t.kind = k)
    (hw : k.isWord = true) : Fits [.word k] [t] := by
  subst hk
  exact .token (h.code_eq hw) .nil

/-- A name is written as the token it was read from. -/
theorem Identifier.spelling_ofToken {t : Token} (h : t.IsSpelled)
    (hk : t.kind = .ident ∨ t.kind = .quotedIdent ∨ t.kind = .nextWord ∨ t.kind = .breakWord) :
    (ofToken t).kind = t.kind ∧ (ofToken t).spelling = t.lexeme := by
  by_cases hq : t.kind = .quotedIdent
  · have hs := h.spells
    rw [hq] at hs
    obtain ⟨body, hbody⟩ := hs.quoted
    have hb : betweenBackticks? t.lexeme.toList = some body := by
      rw [hbody]; simp [betweenBackticks?]
    refine ⟨by simp [ofToken, kind, hq], ?_⟩
    simp only [ofToken, hq, if_true, hb, Option.map_some, Option.getD_some, spelling,
      String.toList_ofList]
    rw [← hbody, String.ofList_toList]
  · have hof : ofToken t = ⟨t.loc, t.lexeme, false⟩ := by rw [ofToken, if_neg hq]
    rw [hof]
    refine ⟨?_, rfl⟩
    rcases hk with hk | hk | hk | hk
    · have hr := (hk ▸ h.spells).not_reserved
      rw [String.ofList_toList] at hr
      have hnext := hr ("next", .nextWord) (by decide)
      have hbreak := hr ("break", .breakWord) (by decide)
      simp [kind, hk, Ne.symm hnext, Ne.symm hbreak]
    · exact absurd hk hq
    · rw [h.lexeme_eq (hk ▸ rfl) (by simp [hk]), hk]; simp [kind, TokenKind.label]
    · rw [h.lexeme_eq (hk ▸ rfl) (by simp [hk]), hk]; simp [kind, TokenKind.label]

theorem Identifier.loc_ofToken (t : Token) : (ofToken t).loc = t.loc := by
  unfold ofToken; split <;> rfl

theorem Identifier.fits_ofToken {t : Token} (h : t.IsSpelled)
    (hk : t.kind = .ident ∨ t.kind = .quotedIdent ∨ t.kind = .nextWord ∨ t.kind = .breakWord) :
    Fits (ofToken t).items [t] := by
  obtain ⟨hkind, hspell⟩ := spelling_ofToken h hk
  have hcode : t.code = ((ofToken t).kind, (ofToken t).spelling) := by
    rw [hkind, hspell]
    exact Token.code_of_ne_caret (by rcases hk with hk | hk | hk | hk <;> simp [hk])
  rw [items, loc_ofToken]
  exact .mark (.token hcode .nil)

/-- A constant is written as the token it was read from. -/
theorem Constant.fits_ofToken? {t : Token} {c : Constant} (h : t.IsSpelled)
    (hc : ofToken? t = some c) : Fits c.items [t] := by
  unfold ofToken? at hc
  split at hc
  · cases hc
  · rename_i kind hkind
    cases hc
    refine .mark (.token ?_ .nil)
    unfold ConstantKind.ofKind? at hkind
    split at hkind <;> cases hkind
    case h_6 hk =>
      have hl := h.lexeme_eq (hk ▸ rfl) (by simp [hk])
      simp [Token.code, tokenKind, hk, hl, TokenKind.label]
    case h_7 hk =>
      have hl := h.lexeme_eq (hk ▸ rfl) (by simp [hk])
      simp [Token.code, tokenKind, hk, hl, TokenKind.label]
    all_goals
      rename_i hk
      simp [Token.code, tokenKind, hk]

/-- The name of an argument is written as the token it was read from. -/
theorem ArgName.fits_ofToken? {t : Token} {n : ArgName} (h : t.IsSpelled)
    (hn : ofToken? t = some n) : Fits n.items [t] := by
  unfold ofToken? at hn
  split at hn
  · rename_i hk
    cases hn
    exact Identifier.fits_ofToken h (Or.inl hk)
  · rename_i hk
    cases hn
    exact Identifier.fits_ofToken h (Or.inr (Or.inl hk))
  · obtain ⟨c, hc, rfl⟩ := Option.map_eq_some_iff.mp hn
    exact Constant.fits_ofToken? h hc
  · obtain ⟨c, hc, rfl⟩ := Option.map_eq_some_iff.mp hn
    exact Constant.fits_ofToken? h hc
  · cases hn

theorem AssignOp.kind_ofKind? {k : TokenKind} {a : AssignOp} (h : ofKind? k = some a) :
    a.kind = k ∧ a.spelling = k.label := by
  unfold ofKind? at h
  split at h <;> cases h <;> exact ⟨rfl, rfl⟩

theorem UnaryOp.kind_ofKind? {k : TokenKind} {op : UnaryOp} (h : ofKind? k = some op) :
    op.kind = k ∧ op.spelling = k.label := by
  unfold ofKind? at h
  split at h <;> cases h <;> exact ⟨rfl, rfl⟩

theorem BinaryOp.ofSpecial_spelling (lexeme : String) : (ofSpecial lexeme).spelling = lexeme := by
  unfold ofSpecial
  repeat' split
  all_goals simp [spelling, *]

theorem BinaryOp.ofSpecial_kind (lexeme : String) : (ofSpecial lexeme).kind = .special := by
  unfold ofSpecial
  repeat' split
  all_goals rfl

theorem BinaryOp.kind_ofToken? {k : TokenKind} {lexeme : String} {b : BinaryOp}
    (h : ofToken? k lexeme = some b) :
    b.kind = k ∧ (k = .special ∧ b.spelling = lexeme ∨ k ≠ .special ∧ b.spelling = k.label) := by
  unfold ofToken? at h
  split at h <;> cases h
  case h_16 => exact ⟨ofSpecial_kind _, Or.inl ⟨rfl, ofSpecial_spelling _⟩⟩
  all_goals exact ⟨rfl, Or.inr ⟨by decide, rfl⟩⟩

/-- An operator is written as the token it was read from. -/
theorem AssignOp.code_ofKind? {t : Token} {a : AssignOp} (h : t.IsSpelled)
    (ha : ofKind? t.kind = some a) : t.code = (a.kind, a.spelling) := by
  obtain ⟨hk, hs⟩ := kind_ofKind? ha
  rw [h.code_eq, hs, ← hk]
  rw [← hk]
  cases a <;> rfl

theorem UnaryOp.code_ofKind? {t : Token} {op : UnaryOp} (h : t.IsSpelled)
    (ho : ofKind? t.kind = some op) : t.code = (op.kind, op.spelling) := by
  obtain ⟨hk, hs⟩ := kind_ofKind? ho
  rw [h.code_eq, hs, ← hk]
  rw [← hk]
  cases op <;> rfl

theorem BinaryOp.code_ofToken? {t : Token} {b : BinaryOp} (h : t.IsSpelled)
    (hb : ofToken? t.kind t.lexeme = some b) : t.code = (b.kind, b.spelling) := by
  obtain ⟨hk, ⟨hs, hl⟩ | ⟨hs, hl⟩⟩ := kind_ofToken? hb
  · rw [Token.code_of_ne_caret (by simp [hs]), hk, hl]
  · rw [h.code_eq, hk, hl]
    rw [← hk] at hs ⊢
    cases b <;> first | rfl | exact absurd rfl hs

/-! ## Items that write something -/

namespace Item

@[simp] theorem codes_append (is js : List Item) : codes (is ++ js) = codes is ++ codes js := by
  induction is with
  | nil => rfl
  | cons i is ih => cases i <;> simp [codes, ih]

@[simp] theorem codes_marks (loc : Location) (labels : List Label) :
    codes (marks loc labels) = [] := by
  induction labels with
  | nil => rfl
  | cons l ls ih => exact ih

theorem codes_close (kind : Brackets) : codes [close kind] ≠ [] := by
  cases kind <;> simp [close, word, codes]

end Item

theorem Fits.significant_ne_nil {is : List Item} {ts : List Token} (h : Fits is ts)
    (hne : Item.codes is ≠ []) : ts ≠ [] := by
  rintro rfl
  exact hne h.codes

/-- Every expression starts with a mark. -/
theorem Expression.items_mark (e : Expression) : ∃ is, e.items = .mark .expression e.loc :: is := by
  cases e <;> exact ⟨_, rfl⟩

/-! ## Tapes -/

namespace Tape

variable {s : Tape} {t : Token}

/-- The next visible token is part of an expression. -/
def AtCode (s : Tape) : Prop := ∃ t, s.front = .ok t ∧ t.kind.isLayout = false

/-- The next visible token stands behind the line feeds that are hidden. -/
theorem tokens_of_front (ht : s.front = .ok t) (hk : t.kind ≠ .eof) :
    ∃ lines, s.tokens = lines ++ t :: s.past.tokens ∧ ∀ u ∈ lines, u.kind = .newline := by
  have hshown : s.shown.tokens = t :: s.past.tokens := by
    rw [front, head] at ht
    split at ht
    · rename_i u us hu
      cases ht
      rw [past, tail_tokens, hu]
      rfl
    · exact absurd (s.shown.ending_eof t ht) hk
  rw [shown_tokens] at hshown
  split at hshown
  · refine ⟨s.tokens.takeWhile (·.kind == .newline), ?_, ?_⟩
    · rw [← hshown, List.takeWhile_append_dropWhile]
    · intro u hu
      simpa using List.mem_takeWhile_imp hu
  · exact ⟨[], hshown, by simp⟩

theorem AtCode.tokens_ne_nil {s : Tape} (h : s.AtCode) : s.tokens ≠ [] := by
  obtain ⟨t, ht, hl⟩ := h
  have hne : t.kind ≠ .eof := by rintro he; simp [he, TokenKind.isLayout] at hl
  obtain ⟨lines, hlines, -⟩ := tokens_of_front ht hne
  rw [hlines]
  exact List.append_ne_nil_of_right_ne_nil _ (List.cons_ne_nil _ _)

theorem spelled_of_front (ht : s.front = .ok t) (hk : t.kind.isLayout = false) : t.IsSpelled := by
  have hne : t.kind ≠ .eof := by rintro he; simp [he, TokenKind.isLayout] at hk
  obtain ⟨lines, hl, _⟩ := tokens_of_front ht hne
  exact s.spelled t (by rw [hl]; simp)

/-- The first token of the tape that is part of an expression, if it is the next one shown. -/
theorem significant_of_front (ht : s.front = .ok t) (hk : t.kind.isLayout = false) :
    significant s.tokens = t :: significant s.past.tokens := by
  have hne : t.kind ≠ .eof := by rintro he; simp [he, TokenKind.isLayout] at hk
  obtain ⟨lines, hl, hlines⟩ := tokens_of_front ht hne
  rw [hl, significant_append,
    significant_nil_of_all (fun u hu => by rw [hlines u hu]; rfl)]
  simp [significant, hk]

end Tape

/-! ## Spans -/

/-- The tokens between two tapes are those of the items. Brackets opened between them are closed
there. -/
structure Spans (is : List Item) (s s' : Tape) : Prop where
  layouts : s'.layouts = s.layouts
  ending : s'.ending = s.ending
  reads : ∃ seg, s.tokens = seg ++ s'.tokens ∧ Fits is (significant seg)

namespace Spans

variable {is js : List Item} {s s₁ s' : Tape} {t : Token}

theorem refl (s : Tape) : Spans [] s s := ⟨rfl, rfl, [], rfl, .nil⟩

theorem append (h : Spans is s s₁) (h' : Spans js s₁ s') : Spans (is ++ js) s s' := by
  obtain ⟨seg, hseg, hf⟩ := h.reads
  obtain ⟨seg', hseg', hf'⟩ := h'.reads
  refine ⟨h'.layouts.trans h.layouts, h'.ending.trans h.ending, seg ++ seg', ?_, ?_⟩
  · rw [hseg, hseg', List.append_assoc]
  · rw [significant_append]
    exact hf.append hf'

/-- Items that fit the same tokens. -/
theorem imp (h : Spans is s s') (hf : ∀ ts, Fits is ts → Fits js ts) : Spans js s s' := by
  obtain ⟨seg, hseg, h'⟩ := h.reads
  exact ⟨h.layouts, h.ending, seg, hseg, hf _ h'⟩

/-- One token, which is part of an expression. -/
theorem past (ht : s.front = .ok t) (hk : t.kind.isLayout = false) (hf : Fits is [t]) :
    Spans is s s.past := by
  have hne : t.kind ≠ .eof := by rintro he; simp [he, TokenKind.isLayout] at hk
  obtain ⟨lines, hl, hlines⟩ := Tape.tokens_of_front ht hne
  refine ⟨s.past_layouts, s.past_ending, lines ++ [t], by rw [hl]; simp, ?_⟩
  rw [significant_append, significant_nil_of_all (fun u hu => by rw [hlines u hu]; rfl)]
  simpa [significant, hk] using hf

/-- One token that has only one spelling. -/
theorem word {k : TokenKind} (ht : s.front = .ok t) (hk : t.kind = k) (hw : k.isWord = true) :
    Spans [.word k] s s.past := by
  have hl : t.kind.isLayout = false := by rw [hk]; exact TokenKind.isLayout_of_isWord hw
  exact past ht hl (.word (Tape.spelled_of_front ht hl) hk hw)

/-- One token that only stands between others. -/
theorem layout (ht : s.front = .ok t) (hk : t.kind.isLayout = true) (hne : t.kind ≠ .eof) :
    Spans [] s s.past := by
  obtain ⟨lines, hl, hlines⟩ := Tape.tokens_of_front ht hne
  refine ⟨s.past_layouts, s.past_ending, lines ++ [t], by rw [hl]; simp, ?_⟩
  rw [significant_append, significant_nil_of_all (fun u hu => by rw [hlines u hu]; rfl)]
  simpa [significant, hk] using Fits.nil

theorem lines (s : Tape) : Spans [] s s.afterLines := by
  refine ⟨rfl, rfl, s.tokens.takeWhile (·.kind == .newline), ?_, ?_⟩
  · exact List.takeWhile_append_dropWhile.symm
  · rw [significant_nil_of_all]
    · exact .nil
    · intro u hu
      have hu : u.kind = .newline := by simpa using List.mem_takeWhile_imp hu
      rw [hu]; rfl

theorem behind_lines (h : Spans is s.afterLines s') : Spans is s s' := (lines s).append h

theorem lineBreak (s : Tape) : Spans [.lineBreak] s s := (refl s).imp fun _ h => .lineBreak h

/-- What is spanned inside brackets is spanned outside. -/
theorem leave {l : Layout} (h : Spans is (s.enter l) s') : Spans is s s'.leave := by
  obtain ⟨seg, hseg, hf⟩ := h.reads
  refine ⟨?_, h.ending, seg, hseg, hf⟩
  rw [Tape.leave_layouts, h.layouts]
  rfl

/-- A mark at the place of the next token. -/
theorem mark {label : Label} (h : Spans is s s') (hne : Item.codes is ≠ [])
    (ht : s.front = .ok t) (hk : t.kind.isLayout = false) :
    Spans (.mark label t.loc :: is) s s' := by
  obtain ⟨seg, hseg, hf⟩ := h.reads
  have hsig := Tape.significant_of_front ht hk
  rw [hseg, significant_append] at hsig
  obtain ⟨u, us, hu⟩ := List.exists_cons_of_ne_nil (hf.significant_ne_nil hne)
  rw [hu, List.cons_append, List.cons.injEq] at hsig
  refine ⟨h.layouts, h.ending, seg, hseg, ?_⟩
  rw [hu] at hf ⊢
  rw [← hsig.1]
  exact .mark hf

/-- Marks at the place of the next token. -/
theorem marks {labels : List Label} (h : Spans is s s') (hne : Item.codes is ≠ [])
    (ht : s.front = .ok t) (hk : t.kind.isLayout = false) :
    Spans (Item.marks t.loc labels ++ is) s s' := by
  induction labels with
  | nil => exact h
  | cons label labels ih =>
      have hm : Item.codes (Item.marks t.loc labels ++ is) ≠ [] := by simpa using hne
      exact mark ih hm ht hk

/-- One more mark at the place of the first. -/
theorem remark {label label' : Label} {loc : Location} (h : Spans (.mark label loc :: is) s s') :
    Spans (.mark label' loc :: .mark label loc :: is) s s' :=
  h.imp fun _ hf => by cases hf with | mark hf => exact .mark (.mark hf)

theorem unmark {label : Label} {loc : Location} (h : Spans (.mark label loc :: is) s s') :
    Spans is s s' :=
  h.imp fun _ hf => by cases hf with | mark hf => exact hf

/-- A node around an expression takes its place. -/
theorem around {label : Label} {e : Expression} (h : Spans (e.items ++ is) s s') :
    Spans (.mark label e.loc :: (e.items ++ is)) s s' := by
  obtain ⟨js, hjs⟩ := e.items_mark
  rw [hjs] at h ⊢
  exact h.remark

/-- An expression as an operand is written as before, but for its mark. -/
theorem ofExpression {e : Expression} (h : Spans e.items s s') :
    Spans (.mark .expression e.loc :: (Term.ofExpression e).items) s s' := by
  have hn : Spans (.mark .expression e.loc :: (e.items ++ [])) s s' :=
    around (by rwa [List.append_nil])
  cases e with
  | term loc t => exact h
  | unary loc op t => exact hn
  | binary loc op l r => exact hn
  | assign loc l opLoc op v => exact hn

/-- Tokens are used up where items are written. -/
theorem length_lt (h : Spans is s s') (hne : Item.codes is ≠ []) :
    s'.tokens.length < s.tokens.length := by
  obtain ⟨seg, hseg, hf⟩ := h.reads
  have hpos : seg ≠ [] := by
    rintro rfl
    exact hf.significant_ne_nil hne rfl
  rw [hseg, List.length_append]
  have := List.length_pos_iff.mpr hpos
  omega

theorem length_le (h : Spans is s s') : s'.tokens.length ≤ s.tokens.length := by
  obtain ⟨seg, hseg, _⟩ := h.reads
  rw [hseg, List.length_append]
  omega

end Spans

end RSource
