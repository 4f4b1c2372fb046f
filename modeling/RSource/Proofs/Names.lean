import RSource.Node.Walk
import RSource.Proofs.Numbering
import RSource.Proofs.Yield

/-!
# Names and constants

A walk over the nodes comes by the names and constants of a source in the order in which they are
written.

* `Node.records` — the names and constants that a walk comes by, with their places.
* `Token.record?` — the name or constant that a token is.
* `Program.literals` — the function literals of a program: for each the number of its `function`
  token and that of the token behind its body, read off the tree.
* `Recorded` — what a walk over a part of a tree comes by is what the tokens of the part are.
* `Item.Records` — the items of a part of a tree keep that up whatever stands behind them.
* `records_are_tokens` — **every name and every constant of a source is come by once and in its
  order**, and a walk that does not enter functions leaves out those inside them.
-/

namespace RSource

/-! ## What a walk comes by -/

mutual

/-- The leaves from a node on, in source order, with their places. Functions are not entered if
`skipFunctions`. -/
def Node.records (skipFunctions : Bool) : Node → List (Label × Location)
  | .mk l loc cs =>
      match l with
      | .identifier _ _ | .constant _ _ => [(l, loc)]
      | .function => if skipFunctions then [] else Node.recordsAll skipFunctions cs
      | _ => Node.recordsAll skipFunctions cs

/-- The leaves from each of several nodes on, with their places. -/
def Node.recordsAll (skipFunctions : Bool) : List Node → List (Label × Location)
  | [] => []
  | n :: ns => Node.records skipFunctions n ++ Node.recordsAll skipFunctions ns

end

mutual

theorem Node.leaves_eq (skip : Bool) : ∀ n : Node, n.leaves skip = (n.records skip).map (·.1)
  | .mk l loc cs => by
      have hall := Node.leavesAll_eq skip cs
      cases l <;> cases skip <;> simp [Node.leaves, Node.records, hall]

theorem Node.leavesAll_eq (skip : Bool) : ∀ ns : List Node,
    Node.leavesAll skip ns = (Node.recordsAll skip ns).map (·.1)
  | [] => rfl
  | n :: ns => by
      simp [Node.leavesAll, Node.recordsAll, Node.leaves_eq skip n, Node.leavesAll_eq skip ns]

end

@[simp] theorem Node.recordsAll_append (skip : Bool) (ms ns : List Node) :
    recordsAll skip (ms ++ ns) = recordsAll skip ms ++ recordsAll skip ns := by
  induction ms with
  | nil => rfl
  | cons m ms ih => simp [recordsAll, ih]

theorem Node.recordsAll_groups (skip : Bool) (gs : List Group) :
    recordsAll skip (groups gs (groupNodes gs)) = recordsAll skip (groupNodes gs) := by
  cases gs <;> simp [groups, groupNodes, recordsAll, records]

theorem Node.recordsAll_formals (skip : Bool) (fs : List Formal) :
    recordsAll skip (formals fs (formalNodes fs)) = recordsAll skip (formalNodes fs) := by
  cases fs <;> simp [formals, formalNodes, recordsAll, records]

theorem Node.recordsAll_arguments (skip : Bool) (loc : Location) (slots : List Argument) :
    recordsAll skip (arguments loc slots (argumentNodes slots)) =
      recordsAll skip (argumentNodes slots) := by
  unfold arguments
  split <;> simp [argumentNodes, recordsAll, records]

/-! ## What a token is -/

/-- The name or constant that a token is, with its place. -/
def Token.record? (t : Token) : Option (Label × Location) :=
  match t.kind with
  | .ident | .nextWord | .breakWord => some (.identifier t.lexeme false, t.loc)
  | .quotedIdent => some (.identifier (String.ofList t.lexeme.toList.tail.dropLast) true, t.loc)
  | k => (ConstantKind.ofKind? k).map fun kind => (.constant kind t.lexeme, t.loc)

/-- Whether tokens of the kind are names or constants. -/
def TokenKind.isLeaf : TokenKind → Bool
  | ident | nextWord | breakWord | quotedIdent => true
  | k => (ConstantKind.ofKind? k).isSome

/-- Whether tokens of the kind are neither names nor constants and start no function literal. -/
def TokenKind.isPlain (k : TokenKind) : Bool := !k.isLeaf && k != .functionWord

theorem Token.record?_eq_none {t : Token} (h : t.kind.isLeaf = false) : t.record? = none := by
  unfold record?
  unfold TokenKind.isLeaf at h
  split <;> split at h <;> simp_all

theorem Token.kind_of_code {t : Token} {kind : TokenKind} {text : String}
    (h : t.code = (kind, text)) : t.kind = kind := congrArg Prod.fst h

theorem Token.lexeme_of_code {t : Token} {kind : TokenKind} {text : String}
    (h : t.code = (kind, text)) (hk : kind ≠ .caret) : t.lexeme = text := by
  have htext : (if t.kind = .caret then TokenKind.caret.label else t.lexeme) = text :=
    congrArg Prod.snd h
  rwa [if_neg (by rwa [kind_of_code h])] at htext

/-- The token that writes a name is that name. -/
theorem Identifier.record?_of_code {i : Identifier} {t : Token} (hloc : t.loc = i.loc)
    (h : t.code = (i.kind, i.spelling)) :
    t.record? = some (.identifier i.name i.quoted, i.loc) := by
  have hk : t.kind = i.kind := Token.kind_of_code h
  have hne : i.kind ≠ .caret := by
    unfold kind
    split_ifs <;> exact TokenKind.noConfusion
  have hlexeme := Token.lexeme_of_code h hne
  unfold Token.record?
  rw [hk, hloc, hlexeme, kind, spelling]
  split_ifs <;> simp_all

/-- The token that writes a constant is that constant. -/
theorem Constant.record?_of_code {c : Constant} {t : Token} (hloc : t.loc = c.loc)
    (h : t.code = (c.tokenKind, c.text)) : t.record? = some (.constant c.kind c.text, c.loc) := by
  have hk : t.kind = c.tokenKind := Token.kind_of_code h
  have hkinds : c.tokenKind ≠ .caret ∧ c.tokenKind.isLeaf = true ∧
      ConstantKind.ofKind? c.tokenKind = some c.kind := by
    unfold tokenKind
    cases c.kind <;> (try split_ifs) <;> exact ⟨TokenKind.noConfusion, rfl, rfl⟩
  obtain ⟨hne, hleaf, hof⟩ := hkinds
  unfold Token.record?
  rw [hk, hloc, Token.lexeme_of_code h hne]
  split <;> simp_all [ConstantKind.ofKind?]

/-! ## Function literals -/

open Item (width)

/-- The function literals among some operands: the number of the `function` token, and that of the
token behind the body. -/
def literals (operands : List (Nat × Operand)) : List (Nat × Nat) :=
  operands.filterMap fun x =>
    match x.2 with
    | .function _ _ _ => some (x.1, x.1 + width x.2.items)
    | _ => none

@[simp] theorem literals_nil : literals [] = [] := rfl

@[simp] theorem literals_append (xs ys : List (Nat × Operand)) :
    literals (xs ++ ys) = literals xs ++ literals ys := List.filterMap_append ..

/-- The function literals of a program. -/
def Program.literals (p : Program) : List (Nat × Nat) := RSource.literals p.operands

/-- Whether the token with the number lies in none of the literals. -/
def outsideLiterals (literals : List (Nat × Nat)) (i : Nat) : Bool :=
  literals.all fun l => decide (i < l.1 ∨ l.2 ≤ i)

theorem outsideLiterals_append (ls ks : List (Nat × Nat)) (i : Nat) :
    outsideLiterals (ls ++ ks) i = (outsideLiterals ls i && outsideLiterals ks i) :=
  List.all_append ..

theorem outsideLiterals_iff {ls : List (Nat × Nat)} {i : Nat} :
    outsideLiterals ls i = true ↔ ∀ l ∈ ls, i < l.1 ∨ l.2 ≤ i := by
  simp [outsideLiterals]

/-! ## Tokens and what a walk comes by -/

/-- The tokens of a part of a tree, `n` tokens in front of it: its literals lie among them and start
at its `function` tokens, and a walk over it comes by the names and constants that they are. -/
structure Recorded (n : Nat) (ts : List Token) (literals : List (Nat × Nat))
    (records : Bool → List (Label × Location)) : Prop where
  within : ∀ l ∈ literals, n ≤ l.1 ∧ l.2 ≤ n + ts.length
  starts : literals.map (·.1) =
    ((ts.zipIdx n).filter fun t => t.1.kind = .functionWord).map (·.2)
  all : records false = ts.filterMap Token.record?
  pruned : records true =
    ((ts.zipIdx n).filter fun t => outsideLiterals literals t.2).filterMap (·.1.record?)

namespace Recorded

variable {n : Nat} {ts us : List Token} {ls ks : List (Nat × Nat)}
  {rs qs : Bool → List (Label × Location)} {t : Token}

theorem nil (n : Nat) : Recorded n [] [] (fun _ => []) := ⟨by simp, rfl, rfl, rfl⟩

/-- A token that starts no literal. -/
theorem single (n : Nat) (hk : t.kind ≠ .functionWord) :
    Recorded n [t] [] (fun _ => t.record?.toList) := by
  refine ⟨by simp, by simp [hk], ?_, ?_⟩
  · cases h : t.record? <;> simp [h]
  · cases h : t.record? <;> simp [h, outsideLiterals]

/-- A token that is no name and no constant. -/
theorem plain (n : Nat) (hk : t.kind.isPlain = true) : Recorded n [t] [] (fun _ => []) := by
  simp only [TokenKind.isPlain, Bool.and_eq_true, Bool.not_eq_true', bne_iff_ne] at hk
  have h := single n hk.2
  rwa [Token.record?_eq_none hk.1] at h

theorem append (h : Recorded n ts ls rs) (h' : Recorded (n + ts.length) us ks qs) :
    Recorded n (ts ++ us) (ls ++ ks) (fun b => rs b ++ qs b) := by
  -- A literal of the one side holds no token of the other.
  have hleft : (ts.zipIdx n).filter (fun t => outsideLiterals (ls ++ ks) t.2) =
      (ts.zipIdx n).filter (fun t => outsideLiterals ls t.2) := by
    refine List.filter_congr fun t ht => ?_
    have hlt := (List.mem_zipIdx ht).2.1
    have hks : outsideLiterals ks t.2 = true :=
      outsideLiterals_iff.mpr fun l hl => by have := (h'.within l hl).1; omega
    rw [outsideLiterals_append, hks, Bool.and_true]
  have hright : (us.zipIdx (n + ts.length)).filter (fun t => outsideLiterals (ls ++ ks) t.2) =
      (us.zipIdx (n + ts.length)).filter (fun t => outsideLiterals ks t.2) := by
    refine List.filter_congr fun t ht => ?_
    have hle := (List.mem_zipIdx ht).1
    have hls : outsideLiterals ls t.2 = true :=
      outsideLiterals_iff.mpr fun l hl => by have := (h.within l hl).2; omega
    rw [outsideLiterals_append, hls, Bool.true_and]
  refine ⟨?_, ?_, ?_, ?_⟩
  · intro l hl
    rw [List.length_append]
    rcases List.mem_append.mp hl with hl | hl
    · have := h.within l hl
      omega
    · have := h'.within l hl
      omega
  · rw [List.map_append, h.starts, h'.starts, List.zipIdx_append, List.filter_append,
      List.map_append]
  · rw [h.all, h'.all, List.filterMap_append]
  · rw [h.pruned, h'.pruned, List.zipIdx_append, List.filter_append, List.filterMap_append, hleft,
      hright]

/-- A literal is left out as a whole. -/
theorem literal (hk : t.kind = .functionWord) (h : Recorded (n + 1) ts ls rs) :
    Recorded n (t :: ts) ((n, n + 1 + ts.length) :: ls) (fun b => if b then [] else rs b) := by
  have hnone : t.record? = none := Token.record?_eq_none (by rw [hk]; rfl)
  refine ⟨?_, ?_, ?_, ?_⟩
  · intro l hl
    rw [List.length_cons]
    rcases List.mem_cons.mp hl with rfl | hl
    · omega
    · have := h.within l hl
      omega
  · rw [List.zipIdx_cons, List.filter_cons_of_pos (by simpa using hk), List.map_cons, List.map_cons,
      h.starts]
  · rw [List.filterMap_cons_none hnone, ← h.all]
    rfl
  · have hnil : ((t :: ts).zipIdx n).filter
        (fun u => outsideLiterals ((n, n + 1 + ts.length) :: ls) u.2) = [] := by
      refine List.filter_eq_nil_iff.mpr fun u hu => ?_
      have hle := (List.mem_zipIdx hu).1
      have hlt := (List.mem_zipIdx hu).2.1
      rw [List.length_cons] at hlt
      simp only [outsideLiterals, List.all_cons, Bool.and_eq_true, decide_eq_true_eq, not_and]
      omega
    rw [hnil]
    rfl

end Recorded

/-! ## Items and what a walk comes by -/

namespace Item

/-- Whatever stands behind the items, the tokens that fit them are recorded. -/
def Records (is : List Item) (n : Nat) (literals : List (Nat × Nat))
    (records : Bool → List (Label × Location)) : Prop :=
  ∀ js ts, Fits (is ++ js) ts →
    ∃ us vs, ts = us ++ vs ∧ us.length = width is ∧ Recorded n us literals records ∧ Fits js vs

variable {is js : List Item} {n : Nat} {ls ks : List (Nat × Nat)}
  {rs qs : Bool → List (Label × Location)} {kind : TokenKind} {text : String} {label : Label}
  {loc : Location}

theorem Records.nil (n : Nat) : Records [] n [] (fun _ => []) :=
  fun _ ts h => ⟨[], ts, rfl, rfl, .nil n, h⟩

theorem Records.append (h : Records is n ls rs) (h' : Records js (n + width is) ks qs) :
    Records (is ++ js) n (ls ++ ks) (fun b => rs b ++ qs b) := by
  intro ks ts hf
  rw [List.append_assoc] at hf
  obtain ⟨us, vs, rfl, hus, hleft, hf⟩ := h _ _ hf
  obtain ⟨ws, xs, rfl, hws, hright, hf⟩ := h' _ _ hf
  rw [← hus] at hright
  exact ⟨us ++ ws, xs, by simp, by simp [hus, hws], hleft.append hright, hf⟩

/-- The mark of a node that is not a leaf. -/
theorem Records.mark (label : Label) (loc : Location) (h : Records is n ls rs) :
    Records (.mark label loc :: is) n ls rs := by
  intro js ts hf
  obtain ⟨t, us, rfl, -, hf⟩ := Fits.loc_of_mark hf
  exact h js _ hf

theorem Records.token (hk : kind.isPlain = true) (h : Records is (n + 1) ls rs) :
    Records (.token kind text :: is) n ls rs := by
  intro js ts hf
  cases hf with
  | @token _ _ _ t ts ht hf =>
      obtain ⟨us, vs, rfl, hus, hrec, hf⟩ := h js ts hf
      rw [← Token.kind_of_code ht] at hk
      exact ⟨t :: us, vs, rfl, by simp [hus], (Recorded.plain n hk).append hrec, hf⟩

theorem Records.closeElement (n : Nat) : Records [.closeElement] n [] (fun _ => []) := by
  intro js ts hf
  cases hf with
  | @closeElement _ t u ts ht hu hf =>
      have hone : ∀ {v : Token}, v.code = (.rbracket, TokenKind.rbracket.label) → ∀ m,
          Recorded m [v] [] (fun _ => []) :=
        fun hv m => .plain m (by rw [Token.kind_of_code hv]; rfl)
      exact ⟨[t, u], ts, rfl, rfl, (hone ht n).append (hone hu _), hf⟩

theorem Records.lineBreak (h : Records is n ls rs) : Records (.lineBreak :: is) n ls rs := by
  intro js ts hf
  cases hf with
  | lineBreak hf => exact h js ts hf

/-- A mark at the token that is the leaf. -/
theorem Records.leaf (hk : kind ≠ .functionWord)
    (h : ∀ t : Token, t.loc = loc → t.code = (kind, text) → t.record? = some (label, loc)) :
    Records [.mark label loc, .token kind text] n [] (fun _ => [(label, loc)]) := by
  intro js ts hf
  obtain ⟨t, us, rfl, hloc, hf⟩ := Fits.loc_of_mark hf
  cases hf with
  | token ht hf =>
      have hone := Recorded.single n (t := t) (by rw [Token.kind_of_code ht]; exact hk)
      rw [h t hloc ht] at hone
      exact ⟨[t], us, rfl, rfl, hone, hf⟩

/-- A `function` with what belongs to it. -/
theorem Records.literal (h : Records is (n + 1) ls rs) :
    Records (word .functionWord :: is) n ((n, n + 1 + width is) :: ls)
      (fun b => if b then [] else rs b) := by
  intro js ts hf
  cases hf with
  | @token _ _ _ t ts ht hf =>
      obtain ⟨us, vs, rfl, hus, hrec, hf⟩ := h js ts hf
      refine ⟨t :: us, vs, rfl, by simp [word, hus], ?_, hf⟩
      rw [← hus]
      exact Recorded.literal (Token.kind_of_code ht) hrec

end Item

open Item (Records)

theorem UnaryOp.kind_isPlain (op : UnaryOp) : op.kind.isPlain = true := by cases op <;> rfl

theorem BinaryOp.kind_isPlain (op : BinaryOp) : op.kind.isPlain = true := by cases op <;> rfl

theorem AssignOp.kind_isPlain (op : AssignOp) : op.kind.isPlain = true := by cases op <;> rfl

theorem Identifier.records_items (n : Nat) (i : Identifier) :
    Records i.items n [] (fun b => i.node.records b) := by
  refine Records.leaf ?_ fun t => i.record?_of_code
  unfold kind
  split_ifs <;> exact TokenKind.noConfusion

theorem Constant.records_items (n : Nat) (c : Constant) :
    Records c.items n [] (fun b => c.node.records b) := by
  refine Records.leaf ?_ fun t => c.record?_of_code
  unfold tokenKind
  cases c.kind <;> (try split_ifs) <;> exact TokenKind.noConfusion

theorem ArgName.records_items (n : Nat) : ∀ i : ArgName,
    Records i.items n [] (fun b => i.node.records b)
  | .identifier i => i.records_items n
  | .constant c => c.records_items n

namespace Item

variable {is : List Item} {n : Nat} {ls ks : List (Nat × Nat)}
  {rs qs : Bool → List (Label × Location)}

theorem Records.of_eq (h : Records is n ls rs) (hls : ls = ks) (hrs : ∀ b, rs b = qs b) :
    Records is n ks qs := by
  rwa [← hls, ← funext hrs]

/-- A token of a kind with only one spelling. -/
theorem Records.word (k : TokenKind) (hk : k.isPlain = true) (h : Records is (n + 1) ls rs) :
    Records (Item.word k :: is) n ls rs := .token hk h

theorem Records.marks (loc : Location) (labels : List Label) (h : Records is n ls rs) :
    Records (marks loc labels ++ is) n ls rs := by
  induction labels with
  | nil => exact h
  | cons label labels ih => exact .mark label loc ih

theorem Records.formals (fs : List Formal) (h : Records is n ls rs) :
    Records (formals fs ++ is) n ls rs := by
  cases fs with
  | nil => exact h
  | cons f fs => exact .mark _ _ h

theorem Records.blockBreak (es : List Expression) (h : Records is n ls rs) :
    Records (blockBreak es ++ is) n ls rs := by
  cases es with
  | nil => exact h
  | cons e es => exact .lineBreak h

theorem Records.close (n : Nat) (kind : Brackets) : Records [close kind] n [] (fun _ => []) := by
  cases kind with
  | call | index => exact .word _ rfl (.nil _)
  | element => exact .closeElement n

end Item

/-! ## The items of a tree -/

mutual

theorem Expression.records_items (n : Nat) : ∀ e : Expression,
    Records e.items n (literals (e.operands n)) (fun b => e.node.records b)
  | .term loc t => .mark _ _ (t.records_items n)
  | .unary loc op t => .mark _ _ (.token op.kind_isPlain (t.records_items _))
  | .binary loc op l r => by
      refine Records.of_eq (.mark _ _ ((l.records_items n).append
        (.token op.kind_isPlain (r.records_items _))))
        (literals_append ..).symm fun b => ?_
      simp [Expression.node, Node.records]
  | .assign loc l opLoc op v => by
      refine Records.of_eq (.mark _ _ ((l.records_items n).append (.mark _ _
        (.token op.kind_isPlain (v.records_items _)))))
        (literals_append ..).symm fun b => ?_
      simp [Expression.node, Node.records, Node.recordsAll]

theorem Term.records_items (n : Nat) : ∀ t : Term,
    Records t.items n (literals (t.operands n)) (fun b => Node.recordsAll b t.nodes)
  | .mk o gs => by
      refine Records.of_eq ((o.records_items n).append (groupItems_records _ _ gs))
        (literals_append ..).symm fun b => ?_
      rw [Term.nodes, Node.recordsAll, Node.recordsAll_groups]

theorem Operand.records_items (n : Nat) : ∀ o : Operand,
    Records o.items n (literals (o.operands n)) (fun b => o.node.records b)
  | .identifier i => i.records_items n
  | .constant c => c.records_items n
  | .block loc es close => by
      refine Records.of_eq (.mark _ _ (.word .lbrace rfl (.mark _ _
        (((statementItems_records (n + 1) es).blockBreak es).append
          (.word .rbrace rfl (.nil _)))))) (List.append_nil _) fun b => ?_
      simp [Operand.node, Node.records, Node.recordsAll]
  | .function loc fs e => by
      have hwidth : width (Item.formals fs ++ formalItems [] fs) = width (formalItems [] fs) := by
        cases fs <;> rfl
      have hbody := e.records_items (n + 2 + width (Item.formals fs ++ formalItems [] fs) + 1)
      have hparts := Records.word .lparen rfl
        (((formalItems_records [] (fun m => .nil m) (n + 2) fs).formals fs).append
          (.word .rparen rfl hbody))
      refine Records.of_eq (.mark _ _ hparts.literal) ?_ fun b => ?_
      · have hend : n + 1 + width (.word .lparen :: (Item.formals fs ++ formalItems [] fs ++
            .word .rparen :: e.items)) = n + width (Operand.function loc fs e).items := by
          simp [Operand.items]
          omega
        rw [hend, hwidth]
        exact congrArg _ (literals_append ..).symm
      · cases b <;> simp [Operand.node, Node.records, Node.recordsAll, Node.recordsAll_formals]
  | .ifThen loc c e | .whileLoop loc c e => by
      have hparts := (c.records_items (n + 2)).append (.word .rparen rfl (e.records_items _))
      refine Records.of_eq (.mark _ _ (.word _ rfl (.word .lparen rfl (.mark _ _ hparts))))
        (by simp [Operand.operands, literals]) fun b => ?_
      simp [Operand.node, Node.records, Node.recordsAll]
  | .ifElse loc c e o => by
      have hbodies := (e.records_items (n + 2 + width c.items + 1)).append
        (.word .elseWord rfl (o.records_items _))
      have hparts := (c.records_items (n + 2)).append (.word .rparen rfl hbodies)
      refine Records.of_eq (.mark _ _ (.word _ rfl (.word .lparen rfl (.mark _ _ hparts))))
        (by simp [Operand.operands, literals]) fun b => ?_
      simp [Operand.node, Node.records, Node.recordsAll]
  | .forLoop loc i s e => by
      have hseq := (s.records_items (n + 2 + width i.items + 1)).append
        (.word .rparen rfl (e.records_items _))
      have hparts := (i.records_items (n + 2)).append (.word .inWord rfl hseq)
      refine Records.of_eq (.mark _ _ (.word _ rfl (.word .lparen rfl hparts)))
        (by simp [Operand.operands, literals]) fun b => ?_
      simp [Operand.node, Node.records, Node.recordsAll]
  | .repeatLoop loc e | .help loc e => by
      refine Records.of_eq (.mark _ _ (.word _ rfl (e.records_items _))) rfl
        fun b => ?_
      simp [Operand.node, Node.records, Node.recordsAll]
  | .paren e => by
      refine Records.of_eq (.word .lparen rfl ((e.records_items (n + 1)).append
        (.word .rparen rfl (.nil _)))) (List.append_nil _) fun b => ?_
      exact List.append_nil _
  | .nested e => e.records_items n

theorem Group.records_items (n : Nat) (around : List Label) : ∀ g : Group,
    Records (g.items around) n (literals (g.operands n)) (fun b => g.node.records b)
  | .mk loc kind slots => by
      have hkind : kind.opening.isPlain = true := by cases kind <;> rfl
      refine Records.of_eq (.word _ hkind (.marks _ _
        ((argumentItems_records [] (fun m => .nil m) (n + 1) slots).append (.close _ kind))))
          (List.append_nil _) fun b => ?_
      simp [Group.node, Node.records, Node.recordsAll_arguments]

theorem Argument.records_items (n : Nat) : ∀ a : Argument,
    Records a.items n (literals (a.operands n)) (fun b => Node.recordsAll b a.nodes)
  | .empty => .nil n
  | .value e => .of_eq (e.records_items n) rfl fun b => (List.append_nil _).symm
  | .name i => .of_eq ((i.records_items n).append
      (.word .eqAssign rfl (.nil _))) rfl fun b => rfl
  | .named i e => by
      refine Records.of_eq ((i.records_items n).append
        (.word .eqAssign rfl (e.records_items _))) rfl fun b => ?_
      simp [Argument.nodes, Node.recordsAll]

theorem Formal.records_items (n : Nat) : ∀ f : Formal,
    Records f.items n (literals (f.operands n)) (fun b => Node.recordsAll b f.nodes)
  | .required i => .of_eq (i.records_items n) rfl fun b => (List.append_nil _).symm
  | .defaulted i e => by
      refine Records.of_eq ((i.records_items n).append
        (.word .eqAssign rfl (e.records_items _))) rfl fun b => ?_
      simp [Formal.nodes, Node.recordsAll]

theorem statementItems_records (n : Nat) : ∀ es : List Expression,
    Records (statementItems es) n (literals (statementOperands n es))
      (fun b => Node.recordsAll b (expressionNodes es))
  | [] => .nil n
  | e :: es => by
      refine Records.of_eq ((e.records_items n).append (.lineBreak (statementItems_records _ es)))
        (literals_append ..).symm fun b => rfl

theorem groupItems_records (n : Nat) (around : List Label) : ∀ gs : List Group,
    Records (groupItems around gs) n (literals (groupOperands n gs))
      (fun b => Node.recordsAll b (groupNodes gs))
  | [] => .nil n
  | g :: gs => by
      have hrest := groupItems_records (n + width (g.items around)) [] gs
      refine Records.of_eq ((g.records_items n around).append hrest) ?_ fun b => rfl
      rw [g.width_items, groupOperands, literals_append]

theorem argumentItems_records (before : List Item)
    (h : ∀ m, Records before m [] (fun _ => [])) (n : Nat) : ∀ as : List Argument,
    Records (argumentItems before as) n (literals (argumentOperands (n + width before) as))
      (fun b => Node.recordsAll b (argumentNodes as))
  | [] => .nil n
  | a :: as => by
      have hcomma : ∀ m, Records [.word .comma] m [] (fun _ => []) :=
        fun m => .word _ rfl (.nil _)
      refine Records.of_eq (((h n).append (a.records_items _)).append
        (argumentItems_records [.word .comma] hcomma _ as)) ?_ fun b => ?_
      · rw [argumentOperands, literals_append, Item.width_append, ← Nat.add_assoc]
        rfl
      · rw [argumentNodes, Node.recordsAll_append]
        rfl

theorem formalItems_records (before : List Item)
    (h : ∀ m, Records before m [] (fun _ => [])) (n : Nat) : ∀ fs : List Formal,
    Records (formalItems before fs) n (literals (formalOperands (n + width before) fs))
      (fun b => Node.recordsAll b (formalNodes fs))
  | [] => .nil n
  | f :: fs => by
      have hcomma : ∀ m, Records [.word .comma] m [] (fun _ => []) :=
        fun m => .word _ rfl (.nil _)
      refine Records.of_eq (((h n).append (f.records_items _)).append
        (formalItems_records [.word .comma] hcomma _ fs)) ?_ fun b => ?_
      · rw [formalOperands, literals_append, Item.width_append, ← Nat.add_assoc]
        rfl
      · rw [formalNodes, Node.recordsAll_append]
        rfl

end

theorem Program.records_items (p : Program) :
    Records p.items 0 p.literals (fun b => p.node.records b) := by
  have h := statementItems_records 0 p.statements
  unfold items
  split
  · rename_i hnil
    rw [hnil] at h
    refine Records.of_eq h (by rw [literals, operands, hnil]) fun b => ?_
    rw [node, hnil]
    rfl
  · exact .mark _ _ h

/-- A token that only stands between others is no name and no constant. -/
theorem filterMap_significant (ts : List Token) :
    (significant ts).filterMap Token.record? = ts.filterMap Token.record? := by
  induction ts with
  | nil => rfl
  | cons t ts ih =>
      cases hk : t.kind.isLayout with
      | false =>
          have hcons : significant (t :: ts) = t :: significant ts := by simp [significant, hk]
          rw [hcons, List.filterMap_cons, List.filterMap_cons, ih]
      | true =>
          have hcons : significant (t :: ts) = significant ts := by simp [significant, hk]
          have hnone : t.record? = none := by
            refine Token.record?_eq_none ?_
            revert hk
            cases t.kind <;> simp [TokenKind.isLayout, TokenKind.isLeaf, ConstantKind.ofKind?]
          rw [hcons, List.filterMap_cons_none hnone, ih]

/-- **Names and constants are come by once each and in their order.** A walk over an accepted source
that enters all nodes comes by exactly the names and constants among the tokens, each with its
place. One that does not enter functions comes by those that lie in no function literal. The
literals start at the `function` tokens. -/
theorem records_are_tokens {bytes : List UInt8} {p : Program} (h : parse bytes = .ok p) :
    ∃ ts, lex bytes = .ok ts ∧
      p.node.records false = ts.filterMap Token.record? ∧
      p.node.records true =
        ((significant ts).zipIdx.filter fun t => outsideLiterals p.literals t.2).filterMap
          (·.1.record?) ∧
      p.literals.map (·.1) =
        ((significant ts).zipIdx.filter fun t => t.1.kind = .functionWord).map (·.2) := by
  obtain ⟨text, ts, htext, hts, hf, -⟩ := fits_of_parse h
  rw [← List.append_nil p.items] at hf
  obtain ⟨us, vs, hus, -, hrec, hnil⟩ := p.records_items [] _ hf
  cases hnil
  rw [List.append_nil] at hus
  subst hus
  refine ⟨ts, ?_, ?_, hrec.pruned, hrec.starts⟩
  · rw [lex, htext]
    exact hts
  · rw [hrec.all, filterMap_significant]

/-- The name of an argument without a value is come by, and so are the parameter, its default and
the body of the function that is the other argument, unless functions are not entered. -/
theorem records_are_tokens_of_argument_names :
    let p : Program := ⟨[.term ⟨1, 1⟩ (.mk (.identifier ⟨⟨1, 1⟩, "f", false⟩)
      [.mk ⟨1, 3⟩ .call [.name (.identifier ⟨⟨1, 3⟩, "a", false⟩),
        .value (.term ⟨1, 7⟩ (.mk (.function ⟨1, 7⟩
          [.defaulted ⟨⟨1, 16⟩, "y", false⟩ (.term ⟨1, 20⟩ (.mk (.constant ⟨⟨1, 20⟩, .integer, "1"⟩)
            []))]
          (.term ⟨1, 23⟩ (.mk (.identifier ⟨⟨1, 23⟩, "z w", true⟩) []))) []))]])]⟩
    p.literals = [(5, 12)] ∧
      ∃ ts, lex "f(a=, function(y = 1) \x60z w\x60)".toUTF8.data.toList = .ok ts ∧
        p.node.records false = ts.filterMap Token.record? ∧
        p.node.records true =
          ((significant ts).zipIdx.filter fun t => outsideLiterals p.literals t.2).filterMap
            (·.1.record?) ∧
        p.literals.map (·.1) =
          ((significant ts).zipIdx.filter fun t => t.1.kind = .functionWord).map (·.2) :=
  ⟨by rfl, records_are_tokens (by rfl)⟩

end RSource
