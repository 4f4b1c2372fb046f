import RSource.Proofs.Erasure
import RSource.Proofs.Render

/-!
# Tapes of rendered text

Between the tokens of a rendered program no layout stands but the line feeds that end statements.

* `Tape.Faces` — the next token of a tape is no line feed, so that brackets do not matter for it.
* `Item.unmarked` — some items without their marks, which write nothing.
* `Written` — the tokens between two tapes are those that write some items.
* `Written.split`, `Written.token` and the like — how such tapes are taken apart.
* `SameFront`, `Agree` — two tapes on which an expression that ends there ends alike.
-/

namespace RSource

namespace Tape

/-! ## The next token -/

/-- The next token is no line feed. -/
structure Faces (s : Tape) (t : Token) : Prop where
  head : s.head = .ok t
  ne_newline : t.kind ≠ .newline

variable {s : Tape} {t : Token} {l : Layout}

theorem Faces.afterLines (h : s.Faces t) : s.afterLines = s := by
  have hdrop : s.tokens.dropWhile (·.kind == .newline) = s.tokens := by
    have hhead := h.head
    cases hs : s.tokens with
    | nil => rfl
    | cons u us =>
        rw [head_cons hs] at hhead
        cases hhead
        simp [h.ne_newline]
  exact Tape.ext hdrop rfl rfl

theorem Faces.shown (h : s.Faces t) : s.shown = s := by
  unfold Tape.shown
  split
  · exact h.afterLines
  · rfl

theorem Faces.front (h : s.Faces t) : s.front = .ok t := by rw [Tape.front, h.shown]; exact h.head

theorem Faces.past (h : s.Faces t) : s.past = s.tail := by rw [Tape.past, h.shown]

theorem Faces.beyond (h : s.Faces t) : s.beyond = .ok t := by
  rw [Tape.beyond, h.afterLines]
  exact h.head

theorem Faces.clause (h : s.Faces t) : s.clause = .ok t := by
  unfold Tape.clause
  split
  · exact h.beyond
  · exact h.front

theorem faces_of_cons {ts : List Token} (h : s.tokens = t :: ts) (hk : t.kind ≠ .newline) :
    s.Faces t := ⟨head_cons h, hk⟩

@[simp] theorem leave_enter (s : Tape) (l : Layout) : (s.enter l).leave = s := rfl

/-- A visible token that is no line feed decides on an `else` itself. -/
theorem clause_of_front (ht : s.front = .ok t) (hk : t.kind ≠ .newline) : s.clause = .ok t := by
  unfold clause
  split
  · unfold front shown at ht
    split at ht
    · exact ht
    · exact Faces.beyond ⟨ht, hk⟩
  · exact ht

theorem shown_of_lined (h : s.isFree = false) : s.shown = s := by
  rw [shown, h]
  rfl

theorem front_of_lined (h : s.isFree = false) : s.front = s.head := by
  rw [front, shown_of_lined h]

theorem past_of_lined (h : s.isFree = false) : s.past = s.tail := by
  rw [past, shown_of_lined h]

theorem isFree_past (s : Tape) : s.past.isFree = s.isFree := by
  rw [isFree, isFree, past_layouts]

/-- Where line feeds matter, what stands beyond them stands beyond the first of them. -/
theorem beyond_past (h : s.isFree = false) (ht : s.front = .ok t) (hk : t.kind = .newline) :
    s.past.beyond = s.beyond := by
  have hpast := past_of_lined h
  rw [front_of_lined h] at ht
  have hlines : s.tail.afterLines = s.afterLines := by
    refine Tape.ext ?_ rfl rfl
    cases hs : s.tokens with
    | nil => simp [hs]
    | cons u us =>
        rw [head_cons hs] at ht
        cases ht
        simp [hs, hk]
  rw [hpast, beyond, hlines, beyond]

end Tape

/-! ## Tokens that write items -/

theorem Writes.split {is js : List Item} {ts : List Token} (h : Writes (is ++ js) ts) :
    ∃ us vs, ts = us ++ vs ∧ Writes is us ∧ Writes js vs := by
  induction is generalizing ts with
  | nil => exact ⟨[], ts, rfl, .nil, h⟩
  | cons i is ih =>
      cases h with
      | mark h =>
          obtain ⟨us, vs, rfl, hu, hv⟩ := ih h
          exact ⟨us, vs, rfl, .mark hu, hv⟩
      | token hk hl h =>
          obtain ⟨us, vs, rfl, hu, hv⟩ := ih h
          exact ⟨_ :: us, vs, rfl, .token hk hl hu, hv⟩
      | closeElement ht hu ho h =>
          obtain ⟨us, vs, rfl, hu', hv⟩ := ih h
          exact ⟨_ :: _ :: us, vs, rfl, .closeElement ht hu ho hu', hv⟩
      | lineBreak ht h =>
          obtain ⟨us, vs, rfl, hu, hv⟩ := ih h
          exact ⟨_ :: us, vs, rfl, .lineBreak ht hu, hv⟩

namespace Item

/-- The items without their marks. -/
def unmarked (is : List Item) : List Item :=
  is.filter fun
    | mark _ _ => false
    | _ => true

@[simp] theorem unmarked_append (is js : List Item) :
    unmarked (is ++ js) = unmarked is ++ unmarked js := List.filter_append ..

@[simp] theorem unmarked_mark (label : Label) (loc : Location) (is : List Item) :
    unmarked (.mark label loc :: is) = unmarked is := rfl

@[simp] theorem unmarked_token (kind : TokenKind) (text : String) (is : List Item) :
    unmarked (.token kind text :: is) = .token kind text :: unmarked is := rfl

/-- An expression as an operand is written as before, marks apart. -/
@[simp] theorem unmarked_ofExpression (e : Expression) :
    unmarked (Term.ofExpression e).items = unmarked e.items := by
  cases e <;> simp [Term.ofExpression, Term.items, Operand.items, groupItems, Expression.items]

end Item

theorem writes_unmarked {is : List Item} {ts : List Token} :
    Writes (Item.unmarked is) ts ↔ Writes is ts := by
  constructor
  · intro h
    induction is generalizing ts with
    | nil => exact h
    | cons i is ih =>
        cases i with
        | mark => exact .mark (ih h)
        | token =>
            cases h with
            | token hk hl h => exact .token hk hl (ih h)
        | closeElement =>
            cases h with
            | closeElement ht hu ho h => exact .closeElement ht hu ho (ih h)
        | lineBreak =>
            cases h with
            | lineBreak ht h => exact .lineBreak ht (ih h)
  · intro h
    induction h with
    | nil => exact .nil
    | mark _ ih => exact ih
    | token hk hl _ ih => exact .token hk hl ih
    | closeElement ht hu ho _ ih => exact .closeElement ht hu ho ih
    | lineBreak ht _ ih => exact .lineBreak ht ih

/-- The tokens between two tapes are those that write the items. -/
structure Written (is : List Item) (s s' : Tape) : Prop where
  layouts : s'.layouts = s.layouts
  ending : s'.ending = s.ending
  writes : ∃ seg, s.tokens = seg ++ s'.tokens ∧ Writes is seg

namespace Written

variable {is js : List Item} {s s' : Tape} {k : TokenKind}

theorem of_nil (h : Written [] s s') : s' = s := by
  obtain ⟨seg, hseg, hw⟩ := h.writes
  cases hw
  exact Tape.ext hseg.symm h.ending h.layouts

theorem split (h : Written (is ++ js) s s') : ∃ s₁, Written is s s₁ ∧ Written js s₁ s' := by
  obtain ⟨seg, hseg, hw⟩ := h.writes
  obtain ⟨us, vs, rfl, hu, hv⟩ := hw.split
  rw [List.append_assoc] at hseg
  have hsuffix : vs ++ s'.tokens <:+ s.tokens := ⟨us, hseg.symm⟩
  exact ⟨s.cut _ hsuffix, ⟨rfl, rfl, us, hseg, hu⟩, ⟨h.layouts, h.ending, vs, rfl, hv⟩⟩

theorem unmark {label : Label} {loc : Location} (h : Written (.mark label loc :: is) s s') :
    Written is s s' := by
  obtain ⟨seg, hseg, hw⟩ := h.writes
  cases hw with
  | mark hw => exact ⟨h.layouts, h.ending, seg, hseg, hw⟩

theorem unmarks {loc : Location} {labels : List Label}
    (h : Written (Item.marks loc labels ++ is) s s') : Written is s s' := by
  induction labels with
  | nil => exact h
  | cons label labels ih => exact ih h.unmark

theorem unformals {fs : List Formal} (h : Written (Item.formals fs ++ is) s s') :
    Written is s s' := by
  cases fs with
  | nil => exact h
  | cons f fs => exact h.unmark

/-- From the same brackets on, the items end in the brackets in which what is spanned ends. -/
theorem same_layouts {s₂ s₂' : Tape} (h : Written is s₂ s₂') (hs : Spans js s s')
    (hl : s₂.layouts = s.layouts) : s₂'.layouts = s'.layouts :=
  (h.layouts.trans hl).trans hs.layouts.symm

theorem enter (h : Written is s s') (l : Layout) : Written is (s.enter l) (s'.enter l) :=
  ⟨congrArg (l :: ·) h.layouts, h.ending, h.writes⟩

theorem leave {l : Layout} (h : Written is s (s'.enter l)) : Written is s.leave s' :=
  ⟨congrArg List.tail h.layouts, h.ending, h.writes⟩

theorem unmarked (h : Written (Item.unmarked is) s s') : Written is s s' := by
  obtain ⟨seg, hseg, hw⟩ := h.writes
  exact ⟨h.layouts, h.ending, seg, hseg, writes_unmarked.mp hw⟩

theorem mark_free (h : Written is s s') : Written (Item.unmarked is) s s' := by
  obtain ⟨seg, hseg, hw⟩ := h.writes
  exact ⟨h.layouts, h.ending, seg, hseg, writes_unmarked.mpr hw⟩

theorem ofExpression {e : Expression} (h : Written (Term.ofExpression e).items s s') :
    Written e.items s s' := by
  have hfree := h.mark_free
  rw [Item.unmarked_ofExpression] at hfree
  exact hfree.unmarked

theorem token {text : String} (h : Written (.token k text :: is) s s') (hk : k ≠ .newline) :
    ∃ t, s.Faces t ∧ t.kind = k ∧ t.lexeme = text ∧ Written is s.past s' := by
  obtain ⟨seg, hseg, hw⟩ := h.writes
  cases hw with
  | @token _ _ _ t ts hkind hl hw =>
      have hf : s.Faces t := Tape.faces_of_cons hseg (by rw [hkind]; exact hk)
      refine ⟨t, hf, hkind, hl, ?_, ?_, ts, ?_, hw⟩
      · rw [h.layouts, Tape.past_layouts]
      · rw [h.ending, Tape.past_ending]
      · rw [hf.past, Tape.tail_tokens, hseg]
        rfl

theorem word (h : Written (.word k :: is) s s') (hk : k ≠ .newline) :
    ∃ t, s.Faces t ∧ t.kind = k ∧ Written is s.past s' := by
  obtain ⟨t, hf, hkind, -, hw⟩ := h.token hk
  exact ⟨t, hf, hkind, hw⟩

/-- A token that is written as the token `t` was. -/
theorem alike {text : String} {t : Token} (h : Written (.token k text :: is) s s')
    (ht : t.code = (k, text)) (hk : t.kind.isLayout = false) :
    ∃ u, s.Faces u ∧ Alike t u ∧ Written is s.past s' := by
  have hkind : t.kind = k := congrArg Prod.fst ht
  obtain ⟨u, hf, hu, hl, hw⟩ := h.token (by rintro rfl; simp [hkind, TokenKind.isLayout] at hk)
  exact ⟨u, hf, .of_code ht hu hl, hw⟩

theorem lineBreak (h : Written (.lineBreak :: is) s s') :
    ∃ t, s.head = .ok t ∧ t.kind = .newline ∧ Written is s.tail s' := by
  obtain ⟨seg, hseg, hw⟩ := h.writes
  cases hw with
  | @lineBreak _ t ts ht hw =>
      refine ⟨t, Tape.head_cons hseg, ht, h.layouts, h.ending, ts, ?_, hw⟩
      rw [Tape.tail_tokens, hseg]
      rfl

theorem closeElement (h : Written (.closeElement :: is) s s') :
    ∃ t u, s.Faces t ∧ t.kind = .rbracket ∧ s.past.Faces u ∧ u.kind = .rbracket ∧
      u.offset = t.offset + 1 ∧ Written is s.past.past s' := by
  obtain ⟨seg, hseg, hw⟩ := h.writes
  cases hw with
  | @closeElement _ t u ts ht hu ho hw =>
      have hf : s.Faces t := Tape.faces_of_cons hseg (by simp [ht])
      have hpast : s.past.tokens = u :: (ts ++ s'.tokens) := by
        rw [hf.past, Tape.tail_tokens, hseg]
        rfl
      have hf' : s.past.Faces u := Tape.faces_of_cons hpast (by simp [hu])
      refine ⟨t, u, hf, ht, hf', hu, ho, ?_, ?_, ts, ?_, hw⟩
      · rw [h.layouts, Tape.past_layouts, Tape.past_layouts]
      · rw [h.ending, Tape.past_ending, Tape.past_ending]
      · rw [hf'.past, Tape.tail_tokens, hpast]
        rfl

end Written

/-! ## Tapes that go on alike -/

namespace Grammar

/-- The next tokens of both tapes are of one kind, and no line feed. -/
def SameFront (s s₂ : Tape) : Prop := ∃ t u, s.front = .ok t ∧ s₂.Faces u ∧ u.kind = t.kind

/-- No expression goes on with a token of the kind. -/
def IsQuiet (k : TokenKind) : Prop := Brackets.ofKind? k = none ∧ Power.ofKind? k = none

/-- An expression that ends before one of the tapes ends before the other: the next tokens are of
one kind or go on with none, and an `else` stands behind both or behind none. -/
structure Agree (s s₂ : Tape) : Prop where
  front : ∃ t u, s.front = .ok t ∧ s₂.front = .ok u ∧
    (u.kind = t.kind ∨ IsQuiet t.kind ∧ IsQuiet u.kind)
  clause : ∃ t u, s.clause = .ok t ∧ s₂.clause = .ok u ∧
    (u.kind = .elseWord ↔ t.kind = .elseWord)

variable {s s₂ : Tape} {t : Token}

theorem SameFront.agree (h : SameFront s s₂) : Agree s s₂ := by
  obtain ⟨t, u, ht, hu, hk⟩ := h
  have hne : t.kind ≠ .newline := by rw [← hk]; exact hu.ne_newline
  exact ⟨⟨t, u, ht, hu.front, Or.inl hk⟩,
    ⟨t, u, Tape.clause_of_front ht hne, hu.clause, by rw [hk]⟩⟩

theorem SameFront.faces (h : SameFront s s₂) (ht : s.front = .ok t) :
    ∃ u, s₂.Faces u ∧ u.kind = t.kind := by
  obtain ⟨v, u, hv, hu, hk⟩ := h
  rw [ht] at hv
  cases hv
  exact ⟨u, hu, hk⟩

/-- Where brackets go on with one tape the same go on with the other. -/
theorem Agree.same (h : Agree s s₂) (ht : s.front = .ok t)
    (hb : (Brackets.ofKind? t.kind).isSome = true) :
    ∃ u, s₂.front = .ok u ∧ u.kind = t.kind := by
  obtain ⟨v, u, hv, hu, hk⟩ := h.front
  rw [ht] at hv
  cases hv
  refine ⟨u, hu, hk.resolve_right fun ⟨hq, _⟩ => ?_⟩
  rw [hq.1] at hb
  cases hb

/-- Where no brackets go on with one tape none do with the other. -/
theorem Agree.brackets (h : Agree s s₂) (ht : s.front = .ok t)
    (hb : Brackets.ofKind? t.kind = none) :
    ∃ u, s₂.front = .ok u ∧ Brackets.ofKind? u.kind = none ∧
      ∀ p, Power.ofKind? u.kind = some p → Power.ofKind? t.kind = some p := by
  obtain ⟨v, u, hv, hu, hk⟩ := h.front
  rw [ht] at hv
  cases hv
  rcases hk with hk | ⟨-, hq⟩
  · exact ⟨u, hu, by rwa [hk], fun p hp => by rwa [hk] at hp⟩
  · refine ⟨u, hu, hq.1, ?_⟩
    intro p hp
    rw [hq.2] at hp
    cases hp

theorem Agree.ne_eqAssign (h : Agree s s₂) (ht : s.front = .ok t) (hk : t.kind ≠ .eqAssign) :
    ∃ u, s₂.front = .ok u ∧ u.kind ≠ .eqAssign := by
  obtain ⟨v, u, hv, hu, hk'⟩ := h.front
  rw [ht] at hv
  cases hv
  refine ⟨u, hu, ?_⟩
  rcases hk' with hk' | ⟨-, hq⟩
  · rwa [hk']
  · intro he
    have hp := hq.2
    rw [he] at hp
    cases hp

theorem Agree.ne_else (h : Agree s s₂) (ht : s.clause = .ok t) (hk : t.kind ≠ .elseWord) :
    ∃ u, s₂.clause = .ok u ∧ u.kind ≠ .elseWord := by
  obtain ⟨v, u, hv, hu, hk'⟩ := h.clause
  rw [ht] at hv
  cases hv
  exact ⟨u, hu, fun he => hk (hk'.mp he)⟩

end Grammar

end RSource
