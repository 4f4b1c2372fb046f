import RSource.Feed
import RSource.Operator

/-!
# The brackets around a token

Which brackets are open behind a token follows from the tokens up to it alone, without any tree.

* `Bracket` — an open bracket; a parenthesis may belong to the header of a control form.
* `Scope` — the open brackets, and whether a header is about to start.
* `Scope.step`, `Scope.run` — the scope behind one more token, and behind some more.
* `Scope.isFree`, `Scope.joins`, `Scope.closesElement` — what a scope tells about line breaks.
* `Scope.breaks` — **whether a line break may be put behind a token**.
* `Scope.step_power`, `Scope.step_unary` and the like — the tokens that leave a scope alone.
-/

namespace RSource

/-- An open bracket. -/
inductive Bracket where
  /-- The parenthesis behind `if`, `while`, `for` or `function`. -/
  | header
  /-- Any other parenthesis. -/
  | paren
  | index
  | element
  /-- The brackets of an element subscript, of whose two closing brackets one is read. -/
  | half
  | brace
  deriving DecidableEq, Repr

/-- Braces end statements at line feeds, all other brackets ignore them. -/
def Bracket.layout : Bracket → Layout
  | brace => .lined
  | _ => .free

/-- The open brackets, the innermost first, and whether the next parenthesis opens a header. -/
structure Scope where
  opened : List Bracket
  header : Bool
  deriving DecidableEq, Repr

namespace Scope

/-- Outside all brackets. -/
def start : Scope := ⟨[], false⟩

/-- The brackets that are open behind one closing square bracket. -/
def closeSquare : List Bracket → List Bracket
  | .element :: opened => .half :: opened
  | opened => opened.tail

/-- The scope behind a token. -/
def step (c : Scope) : TokenKind → Scope
  | .comment | .newline => c
  | .ifWord | .whileWord | .forWord | .functionWord => ⟨c.opened, true⟩
  | .lparen => ⟨(if c.header then .header else .paren) :: c.opened, false⟩
  | .lbracket => ⟨.index :: c.opened, false⟩
  | .lbracket2 => ⟨.element :: c.opened, false⟩
  | .lbrace => ⟨.brace :: c.opened, false⟩
  | .rparen | .rbrace => ⟨c.opened.tail, false⟩
  | .rbracket => ⟨closeSquare c.opened, false⟩
  | _ => ⟨c.opened, false⟩

/-- The scope behind some tokens. -/
def run (c : Scope) (ks : List TokenKind) : Scope := ks.foldl step c

/-- The layouts of the open brackets. -/
def layouts (c : Scope) : List Layout := c.opened.map Bracket.layout

/-- Whether the innermost bracket ignores line feeds. -/
def isFree (c : Scope) : Bool := c.layouts.head? == some .free

/-- Whether the token is the first of the two that close an element subscript. -/
def closesElement (c : Scope) (k : TokenKind) : Bool :=
  k == .rbracket && c.opened.head? == some .element

/-- Whether what stands behind the token goes on with what the token began, line feeds or not: an
operand behind its operator, a body behind its header, a statement behind its separator. -/
def joins (c : Scope) (k : TokenKind) : Bool :=
  (Power.ofKind? k).isSome || (UnaryOp.ofKind? k).isSome || k == .question || k == .elseWord
    || k == .repeatWord || k == .lbrace || k == .semicolon
    || (k == .rparen && c.opened.head? == some .header)

/-- **Whether a line break may be put behind a token**: it joins what it stands between, or the
innermost bracket behind it is not a brace; but two brackets that close an element subscript
stay together. -/
def breaks (c : Scope) (k : TokenKind) : Bool :=
  c.joins k || ((c.step k).isFree && !c.closesElement k)

/-! ## Tokens that leave a scope alone -/

section Step

variable {o : List Bracket} {k : TokenKind}

@[simp] theorem run_cons (c : Scope) (k : TokenKind) (ks : List TokenKind) :
    c.run (k :: ks) = (c.step k).run ks := rfl

theorem run_append (c : Scope) (ks ls : List TokenKind) :
    c.run (ks ++ ls) = (c.run ks).run ls := List.foldl_append

theorem step_newline (c : Scope) : c.step .newline = c := rfl

/-- An operator between two operands opens and closes nothing. -/
theorem step_power {p : Power} (h : Power.ofKind? k = some p) :
    step ⟨o, false⟩ k = ⟨o, false⟩ := by
  cases k <;> first | rfl | simp [Power.ofKind?] at h

theorem step_unary {op : UnaryOp} (h : UnaryOp.ofKind? k = some op) :
    step ⟨o, false⟩ k = ⟨o, false⟩ := by
  cases k <;> first | rfl | simp [UnaryOp.ofKind?] at h

/-- Only a square bracket closes an element subscript. -/
theorem kind_of_closesElement {c : Scope} (h : c.closesElement k = true) : k = .rbracket := by
  simp only [closesElement, Bool.and_eq_true, beq_iff_eq] at h
  exact h.1

end Step

/-- Comments tell nothing about a scope. -/
theorem run_filter (c : Scope) (ks : List TokenKind) :
    c.run (ks.filter (· ≠ .comment)) = c.run ks := by
  induction ks generalizing c with
  | nil => rfl
  | cons k ks ih =>
      by_cases hk : k = .comment
      · subst hk
        simpa [step] using ih c
      · simpa [hk] using ih (c.step k)

/-- Nor do line feeds. -/
theorem run_newlines (c : Scope) {ks : List TokenKind} (h : ∀ k ∈ ks, k = .newline) :
    c.run ks = c := by
  induction ks with
  | nil => rfl
  | cons k ks ih =>
      rw [run_cons, h k (List.mem_cons_self ..), step_newline]
      exact ih fun l hl => h l (List.mem_cons_of_mem _ hl)

end Scope

end RSource
