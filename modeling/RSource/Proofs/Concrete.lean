import RSource.Node.Basic
import RSource.Reader

/-!
# Concrete syntax

The text of a tree, read off from left to right.

* `Item` — a token, two brackets that close an element subscript, or the line break behind a
  statement; a mark tells that a node takes the place of the next token.
* `Expression.items`, `Term.items`, `Operand.items`, `Group.items` and the like, `Program.items` —
  the items of each part of a tree.
* `Token.code`, `Item.codes` — the kind and the spelling of a token, and of the tokens that some
  items write.
* `Program.yield` — **the tokens of a program by its tree**.
* `TokenKind.isLayout`, `significant` — the tokens that stand only between others.
* `Fits` — tokens are those of some items, each mark at its place.
-/

namespace RSource

/-! ## The kinds of tokens that write the parts of a tree -/

/-- The kind of token that writes the operator. -/
def AssignOp.kind : AssignOp → TokenKind
  | left => .leftAssign
  | superLeft => .superLeftAssign
  | right => .rightAssign
  | superRight => .superRightAssign
  | equals => .eqAssign
  | colon => .colonAssign

/-- The kind of token that writes the operator. -/
def BinaryOp.kind : BinaryOp → TokenKind
  | formula => .tilde
  | or => .or
  | orOr => .orOr
  | and => .and
  | andAnd => .andAnd
  | eq => .eq
  | notEq => .notEq
  | lt => .lt
  | ltEq => .ltEq
  | gt => .gt
  | gtEq => .gtEq
  | add => .plus
  | sub => .minus
  | mul => .star
  | div => .slash
  | modulo | intDiv | matMul | outer | kronecker | elementOf | special _ => .special
  | range => .colon
  | pow => .caret
  | component => .dollar
  | slot => .atSign

/-- The kind of token that writes the operator. -/
def UnaryOp.kind : UnaryOp → TokenKind
  | not => .not
  | minus => .minus
  | plus => .plus
  | formula => .tilde

/-- The kind of token that writes the name. Two reserved words stand as names. -/
def Identifier.kind (i : Identifier) : TokenKind :=
  if i.quoted then .quotedIdent
  else if i.name = "next" then .nextWord
  else if i.name = "break" then .breakWord
  else .ident

/-- The name as it is written: between backticks if it is quoted. -/
def Identifier.spelling (i : Identifier) : String :=
  if i.quoted then String.ofList ('\x60' :: (i.name.toList ++ ['\x60'])) else i.name

/-- The kind of token that writes the constant. -/
def Constant.tokenKind (c : Constant) : TokenKind :=
  match c.kind with
  | .integer => .num .integer
  | .float => .num .float
  | .hex => .num .hex
  | .complex => .num .complex
  | .string => .str
  | .logical => if c.text = "TRUE" then .trueWord else .falseWord
  | .null => .nullWord
  | .inf => .infWord
  | .nan => .nanWord
  | .na => .naWord

/-- The token that opens the brackets. -/
def Brackets.opening : Brackets → TokenKind
  | call => .lparen
  | index => .lbracket
  | element => .lbracket2

/-! ## Items -/

/-- A part of the text of a tree. -/
inductive Item where
  /-- A node with the label takes the place of the next token. -/
  | mark (label : Label) (loc : Location)
  | token (kind : TokenKind) (text : String)
  /-- The two brackets that close an element subscript, the second right behind the first. -/
  | closeElement
  /-- The end of a statement, where line feeds and semicolons may stand. -/
  | lineBreak
  deriving DecidableEq, Repr

namespace Item

/-- A token of a kind that has only one spelling. -/
def word (kind : TokenKind) : Item := .token kind kind.label

/-- The brackets that close a group. -/
def close : Brackets → Item
  | .call => word .rparen
  | .index => word .rbracket
  | .element => .closeElement

/-- The marks of some nodes at one place. -/
def marks (loc : Location) (labels : List Label) : List Item := labels.map (.mark · loc)

/-- The node around all the calls and subscripts of a term, if there are any. -/
def aroundGroups : List Group → List Label
  | [] => []
  | _ => [.groups]

/-- The node around the arguments of a group, unless it holds nothing or a single expression. -/
def aroundArguments : List Argument → List Label
  | [] | [.value _] => []
  | _ => [.arguments]

/-- The mark of the node around the parameters of a function, if there are any. -/
def formals : List Formal → List Item
  | [] => []
  | f :: _ => [.mark .formals f.name.loc]

/-- The line break in front of the statements of a block. -/
def blockBreak : List Expression → List Item
  | [] => []
  | _ => [.lineBreak]

end Item

def Identifier.items (i : Identifier) : List Item :=
  [.mark (.identifier i.name i.quoted) i.loc, .token i.kind i.spelling]

def Constant.items (c : Constant) : List Item :=
  [.mark (.constant c.kind c.text) c.loc, .token c.tokenKind c.text]

def ArgName.items : ArgName → List Item
  | identifier i => i.items
  | constant c => c.items

mutual

/-- An expression as it is written. -/
def Expression.items : Expression → List Item
  | .term loc t => .mark .expression loc :: Term.items t
  | .unary loc op t => .mark .expression loc :: .token op.kind op.spelling :: Term.items t
  | .binary loc op l r =>
      .mark .expression loc :: (Term.items l ++ .token op.kind op.spelling :: Term.items r)
  | .assign loc l opLoc op v =>
      .mark .expression loc ::
        (Term.items l ++ .mark .assignment opLoc :: .token op.kind op.spelling ::
          Expression.items v)

/-- An operand with the calls and subscripts behind it. -/
def Term.items : Term → List Item
  | .mk o gs => Operand.items o ++ groupItems (Item.aroundGroups gs) gs

/-- An operand as it is written. -/
def Operand.items : Operand → List Item
  | .identifier i => i.items
  | .constant c => c.items
  | .block loc es close =>
      .mark .block loc :: .word .lbrace :: .mark .expressionList (statementsLoc es close) ::
        (Item.blockBreak es ++ statementItems es ++ [.word .rbrace])
  | .function loc fs e =>
      .mark .function loc :: .word .functionWord :: .word .lparen ::
        (Item.formals fs ++ formalItems [] fs ++ .word .rparen :: Expression.items e)
  | .ifThen loc c e =>
      .mark .ifForm loc :: .word .ifWord :: .word .lparen :: .mark .condition c.loc ::
        (Expression.items c ++ .word .rparen :: Expression.items e)
  | .ifElse loc c e o =>
      .mark .ifForm loc :: .word .ifWord :: .word .lparen :: .mark .condition c.loc ::
        (Expression.items c ++ .word .rparen ::
          (Expression.items e ++ .word .elseWord :: Expression.items o))
  | .forLoop loc i s e =>
      .mark .forLoop loc :: .word .forWord :: .word .lparen ::
        (i.items ++ .word .inWord :: (Expression.items s ++ .word .rparen :: Expression.items e))
  | .whileLoop loc c e =>
      .mark .whileLoop loc :: .word .whileWord :: .word .lparen :: .mark .condition c.loc ::
        (Expression.items c ++ .word .rparen :: Expression.items e)
  | .repeatLoop loc e => .mark .repeatLoop loc :: .word .repeatWord :: Expression.items e
  | .help loc e => .mark .help loc :: .word .question :: Expression.items e
  | .paren e => .word .lparen :: (Expression.items e ++ [.word .rparen])
  | .nested e => Expression.items e

/-- A call or subscript as it is written. The nodes in `around` take the same place. -/
def Group.items (around : List Label) : Group → List Item
  | .mk loc kind slots =>
      .word kind.opening ::
        (Item.marks loc (around ++ .group :: Item.aroundArguments slots) ++
          (argumentItems [] slots ++ [.close kind]))

/-- What stands in a slot. -/
def Argument.items : Argument → List Item
  | .empty => []
  | .value e => Expression.items e
  | .name n => n.items ++ [.word .eqAssign]
  | .named n e => n.items ++ .word .eqAssign :: Expression.items e

/-- A parameter as it is written. -/
def Formal.items : Formal → List Item
  | .required i => i.items
  | .defaulted i e => i.items ++ .word .eqAssign :: Expression.items e

/-- Statements, each with the line break behind it. -/
def statementItems : List Expression → List Item
  | [] => []
  | e :: es => Expression.items e ++ .lineBreak :: statementItems es

/-- Calls and subscripts, the first of them with the nodes in `around`. -/
def groupItems (around : List Label) : List Group → List Item
  | [] => []
  | g :: gs => Group.items around g ++ groupItems [] gs

/-- Slots with commas between them, the first of them behind `before`. -/
def argumentItems (before : List Item) : List Argument → List Item
  | [] => []
  | a :: as => before ++ Argument.items a ++ argumentItems [.word .comma] as

/-- Parameters with commas between them, the first of them behind `before`. -/
def formalItems (before : List Item) : List Formal → List Item
  | [] => []
  | f :: fs => before ++ Formal.items f ++ formalItems [.word .comma] fs

end

/-- A program as it is written. -/
def Program.items (p : Program) : List Item :=
  match p.statements with
  | [] => []
  | es => .mark .program p.loc :: statementItems es

/-! ## Tokens -/

/-- The kind and the spelling of a token. A power may be written in two ways, of which the tree
keeps the caret. -/
def Token.code (t : Token) : TokenKind × String :=
  (t.kind, if t.kind = .caret then TokenKind.caret.label else t.lexeme)

/-- The kinds and spellings of the tokens that some items write. -/
def Item.codes : List Item → List (TokenKind × String)
  | [] => []
  | .mark _ _ :: is | .lineBreak :: is => codes is
  | .token kind text :: is => (kind, text) :: codes is
  | .closeElement :: is =>
      (.rbracket, TokenKind.rbracket.label) :: (.rbracket, TokenKind.rbracket.label) :: codes is

/-- **The tokens of a program, read off its tree from left to right.** -/
def Program.yield (p : Program) : List (TokenKind × String) := Item.codes p.items

/-- Whether tokens of the kind only stand between the others. -/
def TokenKind.isLayout : TokenKind → Bool
  | comment | newline | semicolon | eof => true
  | _ => false

/-- The tokens that are part of an expression. -/
def significant (ts : List Token) : List Token := ts.filter (!·.kind.isLayout)

/-! ## Tokens that fit items -/

/-- The tokens are those that the items write, and each mark stands at the place of the token
behind it. -/
inductive Fits : List Item → List Token → Prop where
  | nil : Fits [] []
  | mark {label : Label} {is : List Item} {t : Token} {ts : List Token} (h : Fits is (t :: ts)) :
      Fits (.mark label t.loc :: is) (t :: ts)
  | token {kind : TokenKind} {text : String} {is : List Item} {t : Token} {ts : List Token}
      (ht : t.code = (kind, text)) (h : Fits is ts) : Fits (.token kind text :: is) (t :: ts)
  | closeElement {is : List Item} {t u : Token} {ts : List Token}
      (ht : t.code = (.rbracket, TokenKind.rbracket.label))
      (hu : u.code = (.rbracket, TokenKind.rbracket.label)) (h : Fits is ts) :
      Fits (.closeElement :: is) (t :: u :: ts)
  | lineBreak {is : List Item} {ts : List Token} (h : Fits is ts) : Fits (.lineBreak :: is) ts

theorem Fits.append {is js : List Item} {ts us : List Token} (h : Fits is ts) (h' : Fits js us) :
    Fits (is ++ js) (ts ++ us) := by
  induction h with
  | nil => exact h'
  | mark _ ih => exact .mark ih
  | token ht _ ih => exact .token ht ih
  | closeElement ht hu _ ih => exact .closeElement ht hu ih
  | lineBreak _ ih => exact .lineBreak ih

/-- Tokens that fit items are spelled as the items say. -/
theorem Fits.codes {is : List Item} {ts : List Token} (h : Fits is ts) :
    Item.codes is = ts.map Token.code := by
  induction h with
  | nil => rfl
  | mark _ ih => exact ih
  | token ht _ ih => rw [Item.codes, ih, List.map_cons, ht]
  | closeElement ht hu _ ih => rw [Item.codes, ih, List.map_cons, List.map_cons, ht, hu]
  | lineBreak _ ih => exact ih

/-- A mark in front stands at the place of the first token. -/
theorem Fits.loc_of_mark {label : Label} {loc : Location} {is : List Item} {ts : List Token}
    (h : Fits (.mark label loc :: is) ts) : ∃ t us, ts = t :: us ∧ t.loc = loc ∧ Fits is ts := by
  cases h with
  | mark h => exact ⟨_, _, rfl, rfl, h⟩

@[simp] theorem significant_append (ts us : List Token) :
    significant (ts ++ us) = significant ts ++ significant us := List.filter_append ..

theorem significant_nil_of_all {ts : List Token} (h : ∀ t ∈ ts, t.kind.isLayout = true) :
    significant ts = [] := by
  rw [significant, List.filter_eq_nil_iff]
  intro t ht
  simp [h t ht]

end RSource
