import RSource.Proofs.Spans

/-!
# Tokens split at commas

The tokens between two brackets are split at the commas that stand in no further brackets.

* `pieces`, `commas` — the pieces between such commas, and the number of the commas.
* `Balanced` — all brackets that some tokens open they close, and no others.
* `depth?` — the number of open brackets behind tokens that no such comma splits.
* `Expression.level` and the like — **no such comma splits the tokens of an expression**, and
  behind them as many brackets are open as before.
* `pieces_append` — tokens that are not split belong to one piece.
-/

namespace RSource

/-! ## Depths -/

/-- The number of closing tokens that a token asks for. -/
def TokenKind.opens : TokenKind → Nat
  | lparen | lbracket | lbrace => 1
  | lbracket2 => 2
  | _ => 0

/-- The number of brackets that a token closes. -/
def TokenKind.closes : TokenKind → Nat
  | rparen | rbracket | rbrace => 1
  | _ => 0

/-- The number of closing tokens that are asked for behind a token, `d` before it. -/
def deeper (d : Nat) (k : TokenKind) : Nat := d + k.opens - k.closes

/-- Some tokens split at the commas that stand in no further brackets, `d` of which are open. -/
def pieces (d : Nat) : List Token → List (List Token)
  | [] => [[]]
  | t :: ts =>
      if d = 0 ∧ t.kind = .comma then [] :: pieces 0 ts
      else (pieces (deeper d t.kind) ts).modifyHead (t :: ·)

/-- The number of such commas. -/
def commas (d : Nat) : List Token → Nat
  | [] => 0
  | t :: ts =>
      if d = 0 ∧ t.kind = .comma then commas 0 ts + 1 else commas (deeper d t.kind) ts

/-- All brackets that the tokens open they close, and the `d` that are open in front of them. -/
def Balanced (d : Nat) : List Token → Prop
  | [] => d = 0
  | t :: ts => t.kind.closes ≤ d + t.kind.opens ∧ Balanced (deeper d t.kind) ts

/-- The number of closing tokens that are asked for behind tokens of some kinds, `d` before them.
There is none if they close more, or if a comma stands in no brackets. -/
def depth? (d : Nat) : List TokenKind → Option Nat
  | [] => some d
  | k :: ks =>
      if k.closes ≤ d + k.opens ∧ ¬ (d = 0 ∧ k = .comma) then depth? (deeper d k) ks else none

/-- A comma for every piece but one. -/
theorem length_pieces (d : Nat) (ts : List Token) : (pieces d ts).length = commas d ts + 1 := by
  induction ts generalizing d with
  | nil => rfl
  | cons t ts ih =>
      unfold pieces commas
      split
      · rw [List.length_cons, ih]
      · rw [List.length_modifyHead, ih]

theorem depth?_append (d : Nat) (ks ls : List TokenKind) :
    depth? d (ks ++ ls) = (depth? d ks).bind fun c => depth? c ls := by
  induction ks generalizing d with
  | nil => rfl
  | cons k ks ih =>
      rw [List.cons_append, depth?, depth?]
      split
      · exact ih _
      · rfl

/-- Tokens that only stand between others do not matter to the depth. -/
theorem depth?_filter (d : Nat) (ks : List TokenKind) :
    depth? d (ks.filter (!·.isLayout)) = depth? d ks := by
  induction ks generalizing d with
  | nil => rfl
  | cons k ks ih =>
      cases hk : k.isLayout with
      | true =>
          have hnone : k.opens = 0 ∧ k.closes = 0 ∧ k ≠ .comma := by
            cases k <;> first | exact ⟨rfl, rfl, by decide⟩ | cases hk
          obtain ⟨hopens, hcloses, hcomma⟩ := hnone
          have hdeeper : deeper d k = d := by
            unfold deeper
            omega
          rw [List.filter_cons_of_neg (by simp [hk]), ih, depth?,
            if_pos ⟨by omega, fun h => hcomma h.2⟩, hdeeper]
      | false =>
          rw [List.filter_cons_of_pos (by simp [hk]), depth?, depth?]
          split
          · exact ih _
          · rfl

/-- Tokens that are not split belong to one piece. -/
theorem pieces_append {d c : Nat} {ts : List Token} (h : depth? d (ts.map (·.kind)) = some c)
    (us : List Token) : pieces d (ts ++ us) = (pieces c us).modifyHead (ts ++ ·) := by
  induction ts generalizing d with
  | nil =>
      cases h
      exact (congrFun List.modifyHead_id _).symm
  | cons t ts ih =>
      rw [List.map_cons, depth?] at h
      split at h
      · rename_i hk
        rw [List.cons_append, pieces, if_neg hk.2, ih h, List.modifyHead_modifyHead]
        rfl
      · cases h

/-- Brackets that are balanced behind such tokens are balanced with them. -/
theorem Balanced.behind {d c : Nat} {ts us : List Token}
    (h : depth? d (ts.map (·.kind)) = some c) (hus : Balanced c us) : Balanced d (ts ++ us) := by
  induction ts generalizing d with
  | nil =>
      cases h
      exact hus
  | cons t ts ih =>
      rw [List.map_cons, depth?] at h
      split at h
      · rename_i hk
        exact ⟨hk.1, ih h⟩
      · cases h

/-! ## The depth behind a tree -/

namespace Item

/-- Behind the items as many brackets are open as before, and where `m` or more are open no comma
splits them. -/
def Level (m : Nat) (is : List Item) : Prop :=
  ∀ d, m ≤ d → depth? d ((codes is).map (·.1)) = some d

namespace Level

variable {m : Nat} {is js : List Item} {k : TokenKind}

theorem nil : Level m [] := fun _ _ => rfl

theorem append (h : Level m is) (h' : Level m js) : Level m (is ++ js) := by
  intro d hd
  rw [codes_append, List.map_append, depth?_append, h d hd]
  exact h' d hd

theorem mono (h : Level 0 is) : Level m is := fun d _ => h d (Nat.zero_le d)

theorem mark {label : Label} {loc : Location} (h : Level m is) : Level m (.mark label loc :: is) :=
  h

theorem lineBreak (h : Level m is) : Level m (.lineBreak :: is) := h

theorem marks {loc : Location} {labels : List Label} (h : Level m is) :
    Level m (Item.marks loc labels ++ is) := by
  induction labels with
  | nil => exact h
  | cons label labels ih => exact ih

/-- A token that opens and closes nothing and is no comma. -/
theorem token {text : String} (hopens : k.opens = 0) (hcloses : k.closes = 0) (hk : k ≠ .comma)
    (h : Level m is) : Level m (.token k text :: is) := by
  intro d hd
  have hdeeper : deeper d k = d := by
    unfold deeper
    omega
  show depth? d (k :: (codes is).map (·.1)) = some d
  rw [depth?, if_pos ⟨by omega, fun h => hk h.2⟩, hdeeper]
  exact h d hd

/-- A comma in some brackets. -/
theorem comma (h : Level 1 is) : Level 1 (word .comma :: is) := by
  intro d hd
  show depth? d (.comma :: (codes is).map (·.1)) = some d
  rw [depth?, if_pos ⟨Nat.zero_le _, by omega⟩]
  exact h d hd

/-- What stands in brackets, and what follows them. -/
theorem enclosed (open' : TokenKind) (close : List Item) (n : Nat) (hopens : open'.opens = n + 1)
    (hcloses : open'.closes = 0) (hopen : open' ≠ .comma)
    (hclose : ∀ d, depth? (d + (n + 1)) ((codes close).map (·.1)) = some d) (h : Level 1 is)
    (hj : Level m js) : Level m (word open' :: (is ++ (close ++ js))) := by
  intro d hd
  have hdeeper : deeper d open' = d + (n + 1) := by
    unfold deeper
    omega
  show depth? d (open' :: (codes (is ++ (close ++ js))).map (·.1)) = some d
  rw [depth?, if_pos ⟨by omega, fun h => hopen h.2⟩, hdeeper, codes_append, List.map_append,
    depth?_append, h _ (by omega), Option.bind_some, codes_append, List.map_append, depth?_append,
    hclose]
  exact hj d hd

/-- What stands in parentheses. -/
theorem parens (h : Level 1 is) (hj : Level m js) :
    Level m (word .lparen :: (is ++ word .rparen :: js)) :=
  enclosed .lparen [word .rparen] 0 rfl rfl (by decide) (fun _ => rfl) h hj

/-- A condition in parentheses. -/
theorem condition {loc : Location} (h : Level 0 is) (hj : Level m js) :
    Level m (word .lparen :: .mark .condition loc :: (is ++ word .rparen :: js)) :=
  have hin : Level 1 (.mark .condition loc :: is) := h.mono
  hin.parens hj

/-- What stands in the brackets of a call or subscript. -/
theorem brackets (kind : Brackets) (h : Level 1 is) :
    Level 0 (word kind.opening :: (is ++ [Item.close kind])) := by
  cases kind with
  | call => exact h.parens .nil
  | index => exact enclosed .lbracket [word .rbracket] 0 rfl rfl (by decide) (fun _ => rfl) h .nil
  | element => exact enclosed .lbracket2 [.closeElement] 1 rfl rfl (by decide) (fun _ => rfl) h .nil

end Level

end Item

theorem Identifier.level (i : Identifier) : Item.Level 0 i.items := by
  have hkind : i.kind.opens = 0 ∧ i.kind.closes = 0 ∧ i.kind ≠ .comma := by
    unfold Identifier.kind
    repeat' split
    all_goals exact ⟨rfl, rfl, by decide⟩
  exact .mark (.token hkind.1 hkind.2.1 hkind.2.2 .nil)

theorem Constant.level (c : Constant) : Item.Level 0 c.items := by
  have hkind : c.tokenKind.opens = 0 ∧ c.tokenKind.closes = 0 ∧ c.tokenKind ≠ .comma := by
    unfold Constant.tokenKind
    repeat' split
    all_goals exact ⟨rfl, rfl, by decide⟩
  exact .mark (.token hkind.1 hkind.2.1 hkind.2.2 .nil)

theorem ArgName.level (n : ArgName) : Item.Level 0 n.items := by
  cases n with
  | identifier i => exact i.level
  | constant c => exact c.level

theorem UnaryOp.level {op : UnaryOp} {text : String} {is : List Item} (h : Item.Level 0 is) :
    Item.Level 0 (.token op.kind text :: is) := by
  cases op <;> exact .token rfl rfl (by decide) h

theorem BinaryOp.level {op : BinaryOp} {text : String} {is : List Item} (h : Item.Level 0 is) :
    Item.Level 0 (.token op.kind text :: is) := by
  cases op <;> exact .token rfl rfl (by rintro ⟨⟩) h

theorem AssignOp.level {op : AssignOp} {text : String} {is : List Item} (h : Item.Level 0 is) :
    Item.Level 0 (.token op.kind text :: is) := by
  cases op <;> exact .token rfl rfl (by decide) h

mutual

/-- **No comma outside brackets splits the tokens of an expression.** -/
theorem Expression.level : ∀ e : Expression, Item.Level 0 e.items
  | .term _ t => .mark (Term.level t)
  | .unary _ _ t => .mark (UnaryOp.level (Term.level t))
  | .binary _ _ l r => .mark ((Term.level l).append (BinaryOp.level (Term.level r)))
  | .assign _ l _ _ v =>
      .mark ((Term.level l).append (.mark (AssignOp.level (Expression.level v))))

theorem Term.level : ∀ t : Term, Item.Level 0 t.items
  | .mk o gs => (Operand.level o).append (groupItems_level _ gs)

theorem Operand.level : ∀ o : Operand, Item.Level 0 o.items
  | .identifier i => i.level
  | .constant c => c.level
  | .block _ es close => by
      have hin : Item.Level 1 (.mark .expressionList (statementsLoc es close) ::
          (Item.blockBreak es ++ statementItems es)) := by
        cases es with
        | nil => exact .nil
        | cons e es => exact .lineBreak (statementItems_level (e :: es)).mono
      exact .mark (.enclosed .lbrace [.word .rbrace] 0 rfl rfl (by decide) (fun _ => rfl) hin .nil)
  | .function _ fs e => by
      have hin : Item.Level 1 (Item.formals fs ++ formalItems [] fs) := by
        cases fs with
        | nil => exact .nil
        | cons f fs => exact .mark (formalItems_level .nil (f :: fs))
      exact .mark (.token rfl rfl (by decide) (.parens hin (Expression.level e)))
  | .ifThen _ c e =>
      .mark (.token rfl rfl (by decide) (.condition (Expression.level c)
        (Expression.level e)))
  | .ifElse _ c e o =>
      .mark (.token rfl rfl (by decide) (.condition (Expression.level c)
        ((Expression.level e).append (.token rfl rfl (by decide) (Expression.level o)))))
  | .forLoop _ i q e => by
      have hin : Item.Level 1 (i.items ++ .word .inWord :: q.items) :=
        i.level.mono.append (.token rfl rfl (by decide) (Expression.level q).mono)
      have hall := Item.Level.parens hin (Expression.level e)
      rw [List.append_assoc] at hall
      exact .mark (.token rfl rfl (by decide) hall)
  | .whileLoop _ c e =>
      .mark (.token rfl rfl (by decide) (.condition (Expression.level c)
        (Expression.level e)))
  | .repeatLoop _ e => .mark (.token rfl rfl (by decide) (Expression.level e))
  | .help _ e => .mark (.token rfl rfl (by decide) (Expression.level e))
  | .paren e => .parens (Expression.level e).mono .nil
  | .nested e => Expression.level e

theorem Group.level (around : List Label) : ∀ g : Group, Item.Level 0 (g.items around)
  | .mk loc kind slots => by
      have hin : Item.Level 1 (Item.marks loc (around ++ .group :: Item.aroundArguments slots) ++
          argumentItems [] slots) := .marks (argumentItems_level .nil slots)
      have hall := hin.brackets kind
      rw [List.append_assoc] at hall
      exact hall

theorem Argument.level : ∀ a : Argument, Item.Level 0 a.items
  | .empty => .nil
  | .value e => Expression.level e
  | .name n => n.level.append (.token rfl rfl (by decide) .nil)
  | .named n e => n.level.append (.token rfl rfl (by decide) (Expression.level e))

theorem Formal.level : ∀ f : Formal, Item.Level 0 f.items
  | .required i => i.level
  | .defaulted i e => i.level.append (.token rfl rfl (by decide) (Expression.level e))

theorem statementItems_level : ∀ es : List Expression, Item.Level 0 (statementItems es)
  | [] => .nil
  | e :: es => (Expression.level e).append (.lineBreak (statementItems_level es))

theorem groupItems_level (around : List Label) :
    ∀ gs : List Group, Item.Level 0 (groupItems around gs)
  | [] => .nil
  | g :: gs => (Group.level around g).append (groupItems_level [] gs)

theorem argumentItems_level {before : List Item} (hb : Item.Level 1 before) :
    ∀ as : List Argument, Item.Level 1 (argumentItems before as)
  | [] => .nil
  | a :: as =>
      (hb.append (Argument.level a).mono).append (argumentItems_level (.comma .nil) as)

theorem formalItems_level {before : List Item} (hb : Item.Level 1 before) :
    ∀ fs : List Formal, Item.Level 1 (formalItems before fs)
  | [] => .nil
  | f :: fs =>
      (hb.append (Formal.level f).mono).append (formalItems_level (.comma .nil) fs)

end

end RSource
