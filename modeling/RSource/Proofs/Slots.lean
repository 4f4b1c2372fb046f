import RSource.Proofs.Building
import RSource.Proofs.Pieces
import RSource.Proofs.Reaching
import RSource.Proofs.Yield

/-!
# Slots of calls and subscripts

The tokens between the brackets of a call or subscript, split at the commas that stand in no further
brackets, are its slots one by one.

* `Fills` — **the slot that a piece fills**: it is left empty, named with or without a value, or a
  value.
* `Group.Holds` — what a group holds by the tokens between its brackets: its slots, their number and
  its content.
* `Group.StandsIn` — the brackets of a group among the tokens of a source.
* `Between` — the tokens between two tapes, line feeds taken out.
* `ReadsSlots.fills` — slots are read piece by piece.
* `slots_of_parse` — **every call and subscript of an accepted source holds what the pieces between
  its brackets fill**.
-/

namespace RSource

/-! ## Slots by their tokens -/

/-- Whether a token of the kind may name an argument. -/
def TokenKind.mayName : TokenKind → Bool
  | ident | quotedIdent | str | nullWord => true
  | _ => false

/-- The token that names an argument, if an equals sign stands behind it, and what follows both. -/
def naming? : List Token → Option (Token × List Token)
  | t :: u :: rest => if t.kind.mayName && u.kind == .eqAssign then some (t, rest) else none
  | _ => none

/-- The slot that a piece fills. A piece without tokens leaves it empty; one that begins with a name
and an equals sign names it, and what follows is the value; any other is a value as a whole. -/
def Fills (piece : List Token) (a : Argument) : Prop :=
  match naming? piece with
  | some (t, rest) =>
      ∃ n, ArgName.ofToken? t = some n ∧
        if rest = [] then a = .name n
        else ∃ e, a = .named n e ∧ Fits e.items (significant rest)
  | none =>
      if piece = [] then a = .empty else ∃ e, a = .value e ∧ Fits e.items (significant piece)

/-- The pieces between two brackets. Between brackets without tokens there is none. -/
def slotPieces (inside : List Token) : List (List Token) :=
  if inside = [] then [] else pieces 0 inside

/-- The kinds of the tokens that close the brackets. -/
def Brackets.closers : Brackets → List TokenKind
  | call => [.rparen]
  | index => [.rbracket]
  | element => [.rbracket, .rbracket]

theorem slotPieces_eq_nil {inside : List Token} (h : slotPieces inside = []) : inside = [] := by
  unfold slotPieces at h
  split at h
  · assumption
  · have hlength := length_pieces 0 inside
    rw [h] at hlength
    cases hlength

/-- A piece that fills a value fills nothing else. -/
theorem Fills.value_of {piece : List Token} {a : Argument} {e : Expression} (h : Fills piece a)
    (he : Fills piece (.value e)) : ∃ e', a = .value e' := by
  unfold Fills at h he
  split at h
  · rename_i t rest hnaming
    rw [hnaming] at he
    obtain ⟨n, -, hn⟩ := he
    split at hn
    · cases hn
    · obtain ⟨_, hn, -⟩ := hn
      cases hn
  · rename_i hnaming
    rw [hnaming] at he
    split at h
    · rename_i hnil
      rw [if_pos hnil] at he
      cases he
    · obtain ⟨e', he', -⟩ := h
      exact ⟨e', he'⟩

namespace Group

/-- What a group holds if some tokens stand between its brackets. -/
structure Holds (inside : List Token) (g : Group) : Prop where
  slots : List.Forall₂ Fills (slotPieces inside) g.slots
  arity : g.arity = if inside = [] then 0 else commas 0 inside + 1
  content :
    match g.content with
    | .empty => inside = []
    | .expression e => ∃ piece, slotPieces inside = [piece] ∧ Fills piece (.value e)
    | .arguments slots => slots = g.slots ∧ inside ≠ [] ∧
        ¬ ∃ piece e, slotPieces inside = [piece] ∧ Fills piece (.value e)

/-- A group among some tokens: its brackets with what stands between them, the first of which is
where the group is placed. -/
def StandsIn (ts : List Token) (g : Group) : Prop :=
  ∃ before opening inside closing after,
    ts = before ++ opening :: (inside ++ (closing ++ after)) ∧
    Brackets.ofKind? opening.kind = some g.kind ∧
    closing.map (·.kind) = g.kind.closers ∧
    Balanced 0 inside ∧
    (inside ++ closing).head?.map (·.loc) = some g.loc ∧
    g.Holds inside

theorem content_cases (g : Group) :
    g.slots = [] ∧ g.content = .empty ∨
      (∃ e, g.slots = [.value e] ∧ g.content = .expression e) ∨
      g.slots ≠ [] ∧ (∀ e, g.slots ≠ [.value e]) ∧ g.content = .arguments g.slots := by
  unfold content
  split
  · rename_i hs
    exact .inl ⟨hs, rfl⟩
  · rename_i e hs
    exact .inr (.inl ⟨e, hs, rfl⟩)
  · rename_i hempty hvalue
    exact .inr (.inr ⟨hempty, hvalue, rfl⟩)

/-- The number of slots and the content follow from the slots. -/
theorem Holds.of_slots {inside : List Token} {g : Group}
    (h : List.Forall₂ Fills (slotPieces inside) g.slots) : g.Holds inside := by
  constructor
  case slots => exact h
  case arity =>
    show g.slots.length = _
    rw [← h.length_eq]
    unfold slotPieces
    split
    · rfl
    · exact length_pieces 0 inside
  case content =>
    have hne : ∀ a as, g.slots = a :: as → inside ≠ [] := by
      intro a as hs hnil
      rw [hs, slotPieces, if_pos hnil] at h
      cases h
    obtain ⟨hs, hc⟩ | ⟨e, hs, hc⟩ | ⟨hempty, hvalue, hc⟩ := g.content_cases
    · rw [hs] at h
      rw [hc]
      exact slotPieces_eq_nil (List.forall₂_nil_right_iff.mp h)
    · rw [hs] at h
      rw [hc]
      obtain ⟨piece, rest, hfills, hnil, hpieces⟩ := List.forall₂_cons_right_iff.mp h
      rw [List.forall₂_nil_right_iff.mp hnil] at hpieces
      exact ⟨piece, hpieces, hfills⟩
    · rw [hc]
      obtain ⟨a, as, hs⟩ := List.exists_cons_of_ne_nil hempty
      refine ⟨rfl, hne a as hs, ?_⟩
      rintro ⟨piece, e, hpieces, hfills⟩
      rw [hs, hpieces] at h
      obtain ⟨hfirst, hrest⟩ := List.forall₂_cons.mp h
      obtain ⟨e', rfl⟩ := hfirst.value_of hfills
      exact hvalue e' (hs.trans (congrArg _ (List.forall₂_nil_left_iff.mp hrest)))

end Group

/-! ## The tokens between two tapes -/

/-- Tokens without line feeds. -/
def withoutLines (ts : List Token) : List Token := ts.filter (·.kind ≠ .newline)

theorem withoutLines_append (ts us : List Token) :
    withoutLines (ts ++ us) = withoutLines ts ++ withoutLines us := List.filter_append ..

theorem withoutLines_of_all {ts : List Token} (h : ∀ t ∈ ts, t.kind = .newline) :
    withoutLines ts = [] := by
  rw [withoutLines, List.filter_eq_nil_iff]
  intro t ht
  simp [h t ht]

theorem withoutLines_cons {t : Token} (hk : t.kind ≠ .newline) (ts : List Token) :
    withoutLines (t :: ts) = t :: withoutLines ts :=
  List.filter_cons_of_pos (by simp [hk])

/-- Line feeds are no part of an expression. -/
theorem significant_withoutLines (ts : List Token) :
    significant (withoutLines ts) = significant ts := by
  unfold significant withoutLines
  rw [List.filter_filter]
  apply List.filter_congr
  intro t _
  by_cases hk : t.kind = .newline <;> simp [hk, TokenKind.isLayout]

/-- The tokens between two tapes in the same brackets are `ts`, line feeds taken out. -/
structure Between (ts : List Token) (s s' : Tape) : Prop where
  layouts : s'.layouts = s.layouts
  reads : ∃ seg, s.tokens = seg ++ s'.tokens ∧ withoutLines seg = ts

namespace Between

variable {ts us : List Token} {s s₁ s' : Tape} {t : Token}

theorem refl (s : Tape) : Between [] s s := ⟨rfl, [], rfl, rfl⟩

theorem append (h : Between ts s s₁) (h' : Between us s₁ s') : Between (ts ++ us) s s' := by
  obtain ⟨seg, hseg, hts⟩ := h.reads
  obtain ⟨seg', hseg', hus⟩ := h'.reads
  refine ⟨h'.layouts.trans h.layouts, seg ++ seg', ?_, ?_⟩
  · rw [hseg, hseg', List.append_assoc]
  · rw [withoutLines_append, hts, hus]

/-- One visible token. -/
theorem past (ht : s.front = .ok t) (hk : t.kind ≠ .newline) (heof : t.kind ≠ .eof) :
    Between [t] s s.past := by
  obtain ⟨lines, hl, hlines⟩ := Tape.tokens_of_front ht heof
  refine ⟨s.past_layouts, lines ++ [t], by rw [hl]; simp, ?_⟩
  rw [withoutLines_append, withoutLines_of_all hlines, withoutLines_cons hk]
  rfl

/-- What is written between two tapes. -/
theorem of_spans {is : List Item} (h : Spans is s s') :
    ∃ ts, Between ts s s' ∧ Fits is (significant ts) := by
  obtain ⟨seg, hseg, hf⟩ := h.reads
  refine ⟨withoutLines seg, ⟨h.layouts, seg, hseg, rfl⟩, ?_⟩
  rwa [significant_withoutLines]

/-- What is left of a tape is what stands between it and another, and what is left of that. -/
theorem tokens (h : Between ts s s') : withoutLines s.tokens = ts ++ withoutLines s'.tokens := by
  obtain ⟨seg, hseg, hts⟩ := h.reads
  rw [hseg, withoutLines_append, hts]

/-- Where line feeds are ignored, the first token between two tapes is the visible one. -/
theorem split (h : Between (t :: ts) s s') (hs : s.isFree = true) :
    s.front = .ok t ∧ Between ts s.past s' := by
  obtain ⟨seg, hseg, hts⟩ := h.reads
  obtain ⟨lines, rest, rfl, hlines, ht, hrest⟩ := List.filter_eq_cons_iff.mp hts
  have hk : t.kind ≠ .newline := by simpa using ht
  have hlines' : ∀ l ∈ lines, l.kind = .newline := by simpa using hlines
  have hshown : s.shown.tokens = t :: (rest ++ s'.tokens) := by
    rw [Tape.shown_tokens, if_pos hs, hseg, List.append_assoc, List.cons_append,
      List.dropWhile_append_of_pos (by simpa using hlines'),
      List.dropWhile_cons_of_neg (by simpa using hk)]
  refine ⟨Tape.head_cons hshown, ?_, rest, ?_, hrest⟩
  · rw [h.layouts, s.past_layouts]
  · rw [Tape.past_tokens, hshown, List.tail_cons]

end Between

/-! ## Groups as they are read -/

theorem ArgName.isSome_ofToken? (t : Token) : (ofToken? t).isSome = t.kind.mayName := by
  unfold ofToken? Constant.ofToken?
  generalize t.kind = k
  cases k <;> rfl

namespace Grammar

variable {E : ExprReads} {close : TokenKind} {s s' : Tape} (hE : Covers E)

/-- No comma splits the tokens of an expression. -/
theorem depth?_of_fits {e : Expression} {ts : List Token} (h : Fits e.items (significant ts)) :
    depth? 0 (ts.map (·.kind)) = some 0 := by
  have hlevel := e.level 0 (Nat.le_refl 0)
  have hkinds : (significant ts).map (fun t => t.code.1) = (significant ts).map (·.kind) := by
    apply List.map_congr_left
    intro t _
    unfold Token.code
    split
    · rename_i hk
      rw [hk]
    · rfl
  rw [h.codes, List.map_map] at hlevel
  rw [← depth?_filter, List.filter_map]
  exact hkinds ▸ hlevel

/-- An argument without a name does not begin with one and an equals sign. -/
theorem naming?_of_between {ts : List Token} {t : Token} (h : Between ts s s')
    (hs : s.isFree = true) (ht : s.front = .ok t)
    (hn : ArgName.ofToken? t = none ∨ ∃ u, s.past.front = .ok u ∧ u.kind ≠ .eqAssign) :
    naming? ts = none := by
  match ts, h with
  | [], _ | [_], _ => rfl
  | t' :: u' :: rest, h =>
      obtain ⟨ht', h⟩ := h.split hs
      obtain ⟨hu', -⟩ := h.split (by rwa [Tape.isFree, Tape.past_layouts])
      rw [ht] at ht'
      cases ht'
      refine if_neg ?_
      rw [Bool.and_eq_true, beq_iff_eq]
      rintro ⟨hname, heq⟩
      rcases hn with hn | ⟨u, hu, hne⟩
      · rw [← ArgName.isSome_ofToken?, hn] at hname
        cases hname
      · rw [hu'] at hu
        cases hu
        exact hne heq

/-- A token that names an argument is one of a name and neither opens nor closes anything. -/
theorem name_of_ofToken? {t : Token} {n : ArgName} (h : ArgName.ofToken? t = some n) :
    t.kind.mayName = true ∧ t.kind ≠ .newline ∧ t.kind ≠ .eof ∧
      ∀ ks, depth? 0 (t.kind :: ks) = depth? 0 ks := by
  have hname := ArgName.isSome_ofToken? t
  rw [h] at hname
  generalize t.kind = k at hname
  cases k <;> first | exact ⟨rfl, by decide, by decide, fun _ => rfl⟩ | cases hname

include hE

theorem ReadsArgument.fills {a : Argument} (h : ReadsArgument E close s a s')
    (hs : s.isFree = true) :
    ∃ ts, Between ts s s' ∧ Fills ts a ∧ ts ≠ [] ∧ depth? 0 (ts.map (·.kind)) = some 0 := by
  cases h with
  | value ht hn he =>
      have hspan := hE.spans he
      obtain ⟨ts, hts, hf⟩ := Between.of_spans hspan
      have hne : ts ≠ [] := by
        rintro rfl
        exact hf.significant_ne_nil (codes_items _ hspan) rfl
      refine ⟨ts, hts, ?_, hne, depth?_of_fits hf⟩
      rw [Fills, naming?_of_between hts hs ht hn]
      exact (if_neg hne).symm ▸ ⟨_, rfl, hf⟩
  | @name t u _ n ht hn hu hk _ _ =>
      obtain ⟨hname, hline, heof, hdepth⟩ := name_of_ofToken? hn
      have hts := (Between.past ht hline heof).append
        (Between.past hu (by rw [hk]; decide) (by rw [hk]; decide))
      refine ⟨[t, u], hts, ?_, List.cons_ne_nil _ _, ?_⟩
      · have hnaming : naming? [t, u] = some (t, []) := by
          rw [naming?, if_pos (by rw [hname, hk]; rfl)]
        rw [Fills, hnaming]
        exact ⟨n, hn, rfl⟩
      · rw [List.map_cons, hdepth, List.map_cons, hk]
        rfl
  | @named _ t u _ n e ht hn hu hk _ _ he =>
      obtain ⟨hname, hline, heof, hdepth⟩ := name_of_ofToken? hn
      have hspan := hE.spans he
      obtain ⟨ts, hts, hf⟩ := Between.of_spans hspan
      have hall := (Between.past ht hline heof).append
        ((Between.past hu (by rw [hk]; decide) (by rw [hk]; decide)).append hts)
      have hne : ts ≠ [] := by
        rintro rfl
        exact hf.significant_ne_nil (codes_items _ hspan) rfl
      refine ⟨t :: u :: ts, hall, ?_, List.cons_ne_nil _ _, ?_⟩
      · have hnaming : naming? (t :: u :: ts) = some (t, ts) := by
          rw [naming?, if_pos (by rw [hname, hk]; rfl)]
        rw [Fills, hnaming]
        exact ⟨n, hn, (if_neg hne).symm ▸ ⟨e, rfl, hf⟩⟩
      · rw [List.map_cons, hdepth, List.map_cons, hk]
        exact depth?_of_fits hf

theorem ReadsSlot.fills {a : Argument} (h : ReadsSlot E close s a s') (hs : s.isFree = true) :
    ∃ ts, Between ts s s' ∧ Fills ts a ∧ depth? 0 (ts.map (·.kind)) = some 0 ∧
      (ts = [] → ∃ t, s'.front = .ok t ∧ t.kind = .comma) := by
  cases h with
  | empty ht hk => exact ⟨[], .refl s, rfl, rfl, fun _ => ⟨_, ht, hk⟩⟩
  | filled ht hk ha =>
      obtain ⟨ts, hts, hfills, hne, hdepth⟩ := ha.fills hE hs
      exact ⟨ts, hts, hfills, hdepth, fun hnil => absurd hnil hne⟩

/-- Slots are read piece by piece. -/
theorem ReadsSlots.fills {as : List Argument} (h : ReadsSlots E close s as s')
    (hs : s.isFree = true) :
    ∃ ts, Between ts s s' ∧ List.Forall₂ Fills (pieces 0 ts) as ∧ Balanced 0 ts ∧ ts ≠ [] := by
  induction h with
  | last ha hu hc _ =>
      obtain ⟨ts, hts, hfills, hdepth, hnil⟩ := ha.fills hE hs
      have hpieces := pieces_append hdepth []
      have hbalanced : Balanced 0 (ts ++ []) := .behind hdepth rfl
      rw [List.append_nil] at hpieces hbalanced
      refine ⟨ts, hts, ?_, hbalanced, ?_⟩
      · rw [hpieces]
        simpa [pieces] using hfills
      · intro hempty
        obtain ⟨u', hu', hcomma⟩ := hnil hempty
        rw [hu] at hu'
        cases hu'
        exact hc hcomma
  | @trailing _ _ u _ _ ha hu hc _ _ =>
      obtain ⟨ts, hts, hfills, hdepth, -⟩ := ha.fills hE hs
      have hcomma := Between.past hu (by rw [hc]; decide) (by rw [hc]; decide)
      refine ⟨ts ++ [u], hts.append hcomma, ?_, ?_, by simp⟩
      · rw [pieces_append hdepth, pieces, if_pos ⟨rfl, hc⟩]
        exact .cons (by simpa using hfills) (.cons rfl .nil)
      · exact .behind hdepth ⟨by rw [hc]; decide, by rw [hc]; rfl⟩
  | @more _ _ _ u _ _ _ ha hu hc _ _ _ ih =>
      obtain ⟨ts, hts, hfills, hdepth, -⟩ := ha.fills hE hs
      have hcomma := Between.past hu (by rw [hc]; decide) (by rw [hc]; decide)
      have hfree := hs
      rw [Tape.isFree, ← (hts.append hcomma).layouts] at hfree
      obtain ⟨us, hus, hrest, hbalanced, -⟩ := ih hfree
      refine ⟨ts ++ u :: us, ?_, ?_, ?_, by simp⟩
      · exact hts.append (hcomma.append hus)
      · rw [pieces_append hdepth, pieces, if_pos ⟨rfl, hc⟩]
        exact .cons (by simpa using hfills) hrest
      · refine .behind hdepth ⟨by rw [hc]; decide, ?_⟩
        rw [hc]
        exact hbalanced

theorem ReadsArguments.fills {as : List Argument} (h : ReadsArguments E close s as s')
    (hs : s.isFree = true) :
    ∃ ts, Between ts s s' ∧ List.Forall₂ Fills (slotPieces ts) as ∧ Balanced 0 ts := by
  cases h with
  | none => exact ⟨[], .refl s, .nil, rfl⟩
  | some _ _ has =>
      obtain ⟨ts, hts, hfills, hbalanced, hne⟩ := has.fills hE hs
      refine ⟨ts, hts, ?_, hbalanced⟩
      rwa [slotPieces, if_neg hne]

omit hE in
theorem ReadsClosing.between {kind : Brackets} (h : ReadsClosing kind s s') :
    ∃ ts, Between ts s s' ∧ ts.map (·.kind) = kind.closers := by
  cases h with
  | @single _ t _ ht hk hne =>
      have hword : t.kind ≠ .newline ∧ t.kind ≠ .eof := by
        rw [hk]
        cases kind <;> exact ⟨by decide, by decide⟩
      refine ⟨[t], .past ht hword.1 hword.2, ?_⟩
      rw [List.map_singleton, hk]
      cases kind <;> first | rfl | exact absurd rfl hne
  | @double _ t u ht hk hu hj _ =>
      have hts := (Between.past ht (by rw [hk]; decide) (by rw [hk]; decide)).append
        (Between.past hu (by rw [hj]; decide) (by rw [hj]; decide))
      refine ⟨[t, u], hts, ?_⟩
      rw [List.map_cons, List.map_singleton, hk, hj]
      rfl

/-- A group stands among the tokens of which those from its opening token on are the last. -/
theorem ReadsGroup.standsIn {g : Group} {ts : List Token} (h : ReadsGroup E s g s')
    (hs : s.tokens <:+ ts) : g.StandsIn (withoutLines ts) := by
  cases h with
  | @mk _ s₂ t u kind as ht hk hu ha hc =>
      obtain ⟨inside, hin, hfills, hbalanced⟩ := ha.fills hE rfl
      obtain ⟨closing, hclosing, hclosers⟩ := hc.between
      obtain ⟨before, rfl⟩ := hs
      have hword : t.kind ≠ .newline ∧ t.kind ≠ .eof := by
        rw [opening_of_brackets hk]
        cases kind <;> exact ⟨by decide, by decide⟩
      refine ⟨withoutLines before, t, inside, closing, withoutLines s₂.tokens, ?_, hk, hclosers,
        hbalanced, ?_, .of_slots hfills⟩
      · rw [withoutLines_append, (Between.past ht hword.1 hword.2).tokens, ← hclosing.tokens,
          ← hin.tokens]
        rfl
      · have hne : inside ++ closing ≠ [] := by
          intro hnil
          rw [(List.append_eq_nil_iff.mp hnil).2] at hclosers
          cases kind <;> cases hclosers
        obtain ⟨v, rest, hv⟩ := List.exists_cons_of_ne_nil hne
        have hfirst := (hv ▸ hin.append hclosing).split rfl
        rw [hu] at hfirst
        cases hfirst.1
        rw [hv]
        rfl

theorem ReadsGroups.standIn {gs : List Group} {ts : List Token} (h : ReadsGroups E s gs s')
    (hs : s.tokens <:+ ts) : ∀ g ∈ gs, g.StandsIn (withoutLines ts) := by
  induction h with
  | stop => exact fun _ hg => by cases hg
  | more hg _ ih =>
      have hbehind := (hg.suffix hE).trans hs
      exact List.forall_mem_cons.mpr ⟨hg.standsIn hE hs, ih hbehind⟩

omit hE in
/-- All calls and subscripts of all expressions read stand among the tokens of which those left are
the last. -/
theorem throughout_standIn (ts : List Token) (levels : Nat) :
    Throughout (fun s => s.tokens <:+ ts)
      (fun e => ∀ t ∈ e.terms, ∀ g ∈ t.groups, g.StandsIn (withoutLines ts))
      (ReadsExpression levels) := by
  apply throughout_readsExpression
  case hI => exact fun _ _ hsuffix hs => hsuffix.trans hs
  case hroot =>
    intro levels hE
    apply rooted_terms hE
    case nested => exact fun _ _ _ hg => by cases hg
    case help => exact fun _ _ _ hg => by cases hg
    case bare => exact fun _ _ hg => by cases hg
    case term =>
      intro s s' t ht hs
      cases ht with
      | mk ho hg => exact hg.standIn hE.covers ((ho.spans hE.covers).suffix.trans hs)
    case called => exact fun _ _ _ hg hs => hg.standIn hE.covers hs

end Grammar

theorem Group.StandsIn.append {g : Group} {ts : List Token} (h : g.StandsIn ts) (us : List Token) :
    g.StandsIn (ts ++ us) := by
  obtain ⟨before, opening, inside, closing, after, rfl, hrest⟩ := h
  exact ⟨before, opening, inside, closing, after ++ us, by simp, hrest⟩

/-- **Every call and subscript of an accepted source holds what the pieces between its brackets
fill.** -/
theorem slots_of_parse {bytes : List UInt8} {p : Program} (h : parse bytes = .ok p) :
    ∃ ts, lex bytes = .ok ts ∧ ∀ e ∈ p.expressions, ∀ t ∈ e.terms, ∀ g ∈ t.groups,
      g.StandsIn (withoutLines (withoutComments ts)) := by
  obtain ⟨text, us, k, s', -, -, hlex, -, htokens, hs⟩ := reads_of_parse h
  refine ⟨_, hlex, ?_⟩
  intro e he t ht g hg
  have hstands := hs.throughout (Grammar.throughout_standIn (withoutComments us) maxNesting)
    (htokens ▸ List.suffix_refl _) e he t ht g hg
  unfold withoutComments
  rw [List.filter_append, withoutLines_append]
  exact hstands.append _

/-- A comma before the closing bracket leaves one more slot empty. -/
theorem slots_of_parse_of_trailing :
    ∃ ts, lex "x[i,\n]".toUTF8.data.toList = .ok ts ∧
      Group.StandsIn (withoutLines (withoutComments ts)) (.mk ⟨1, 3⟩ .index
        [.value (.term ⟨1, 3⟩ (.mk (.identifier ⟨⟨1, 3⟩, "i", false⟩) [])), .empty]) := by
  have h : parse "x[i,\n]".toUTF8.data.toList = .ok ⟨[.term ⟨1, 1⟩ (.mk
      (.identifier ⟨⟨1, 1⟩, "x", false⟩) [.mk ⟨1, 3⟩ .index
        [.value (.term ⟨1, 3⟩ (.mk (.identifier ⟨⟨1, 3⟩, "i", false⟩) [])), .empty]])]⟩ := by rfl
  obtain ⟨ts, hlex, hgroups⟩ := slots_of_parse h
  exact ⟨ts, hlex, hgroups _ List.mem_cons_self _ List.mem_cons_self _ List.mem_cons_self⟩

end RSource
