import RSource.Tree.Basic

/-!
# The node view of a program

Every part of a program that has a place of its own is a node. Terms, slots and formals are no
nodes: what they hold belongs to the node around them, and an operand in parentheses is the
expression inside.

* `Label`, `Node` — a node is a label and a place above other nodes, in source order.
* `Program.node` — the node view; `Expression.node`, `Operand.node`, `Group.node` are its parts.
* `Node.follow?` — the node at the end of a path of child indices.
-/

namespace RSource

/-- What a node stands for; a leaf says what it holds. -/
inductive Label where
  | program
  | expression
  | condition
  | expressionList
  | groups
  | group
  | formals
  | arguments
  | assignment
  | block
  | constant (kind : ConstantKind) (text : String)
  | forLoop
  | function
  | help
  | identifier (name : String) (quoted : Bool)
  | ifForm
  | repeatLoop
  | whileLoop
  deriving DecidableEq, Repr

/-- The name of the kind of node. -/
def Label.name : Label → String
  | program => "Program"
  | expression => "Expression"
  | condition => "Condition"
  | expressionList => "ExpressionList"
  | groups => "SubList"
  | group => "Sub"
  | formals => "FormList"
  | arguments => "Arguments"
  | assignment => "Assignment"
  | block => "Block"
  | constant _ _ => "Constant"
  | forLoop => "For"
  | function => "Function"
  | help => "Help"
  | identifier _ _ => "Identifier"
  | ifForm => "If"
  | repeatLoop => "Repeat"
  | whileLoop => "While"

/-- A label at a place, above the nodes it consists of. -/
inductive Node where
  | mk (label : Label) (loc : Location) (children : List Node)

namespace Node

def label : Node → Label
  | mk l _ _ => l

def loc : Node → Location
  | mk _ l _ => l

def children : Node → List Node
  | mk _ _ cs => cs

/-- The node at the end of a path of child indices. -/
def follow? : List Nat → Node → Option Node
  | [], n => some n
  | i :: path, n =>
      match n.children[i]? with
      | none => none
      | some child => follow? path child

end Node

/-- A name as a node. -/
def Identifier.node (i : Identifier) : Node := .mk (.identifier i.name i.quoted) i.loc []

/-- A constant as a node. -/
def Constant.node (c : Constant) : Node := .mk (.constant c.kind c.text) c.loc []

/-- The name of an argument as a node. -/
def ArgName.node : ArgName → Node
  | identifier i => i.node
  | constant c => c.node

/-- A node around all the calls and subscripts of a term, if there are any. -/
def Node.groups (gs : List Group) (nodes : List Node) : List Node :=
  match gs with
  | [] => []
  | g :: _ => [.mk .groups g.loc nodes]

/-- A node around all the parameters of a function, if there are any. -/
def Node.formals (formals : List Formal) (nodes : List Node) : List Node :=
  match formals with
  | [] => []
  | f :: _ => [.mk .formals f.name.loc nodes]

/-- A node around the arguments of a group, unless it holds nothing or a single expression. -/
def Node.arguments (loc : Location) (slots : List Argument) (nodes : List Node) : List Node :=
  match slots with
  | [] => []
  | [.value _] => nodes
  | _ => [.mk .arguments loc nodes]

mutual

/-- An expression as a node. -/
def Expression.node : Expression → Node
  | .term loc t => .mk .expression loc (Term.nodes t)
  | .unary loc _ t => .mk .expression loc (Term.nodes t)
  | .binary loc _ l r => .mk .expression loc (Term.nodes l ++ Term.nodes r)
  | .assign loc l opLoc _ v =>
      .mk .expression loc (Term.nodes l ++ [.mk .assignment opLoc [Expression.node v]])

/-- The operand of a term, then what stands behind it. -/
def Term.nodes : Term → List Node
  | .mk o gs => Operand.node o :: Node.groups gs (groupNodes gs)

/-- An operand as a node. -/
def Operand.node : Operand → Node
  | .identifier i => i.node
  | .constant c => c.node
  | .block loc es close =>
      .mk .block loc [.mk .expressionList (statementsLoc es close) (expressionNodes es)]
  | .function loc fs e =>
      .mk .function loc (Node.formals fs (formalNodes fs) ++ [Expression.node e])
  | .ifThen loc c e =>
      .mk .ifForm loc [.mk .condition c.loc [Expression.node c], Expression.node e]
  | .ifElse loc c e o =>
      .mk .ifForm loc
        [.mk .condition c.loc [Expression.node c], Expression.node e, Expression.node o]
  | .forLoop loc i s e => .mk .forLoop loc [i.node, Expression.node s, Expression.node e]
  | .whileLoop loc c e =>
      .mk .whileLoop loc [.mk .condition c.loc [Expression.node c], Expression.node e]
  | .repeatLoop loc e => .mk .repeatLoop loc [Expression.node e]
  | .help loc e => .mk .help loc [Expression.node e]
  | .paren e => Expression.node e
  | .nested e => Expression.node e

/-- A call or subscript as a node. -/
def Group.node : Group → Node
  | .mk loc _ slots => .mk .group loc (Node.arguments loc slots (argumentNodes slots))

/-- What a slot holds: its name, its value, both or nothing. -/
def Argument.nodes : Argument → List Node
  | .empty => []
  | .value e => [Expression.node e]
  | .name n => [n.node]
  | .named n e => [n.node, Expression.node e]

/-- What a parameter holds: its name and its default. -/
def Formal.nodes : Formal → List Node
  | .required i => [i.node]
  | .defaulted i e => [i.node, Expression.node e]

/-- Expressions as nodes. -/
def expressionNodes : List Expression → List Node
  | [] => []
  | e :: es => Expression.node e :: expressionNodes es

/-- Calls and subscripts as nodes. -/
def groupNodes : List Group → List Node
  | [] => []
  | g :: gs => Group.node g :: groupNodes gs

/-- All that the slots hold. -/
def argumentNodes : List Argument → List Node
  | [] => []
  | a :: as => Argument.nodes a ++ argumentNodes as

/-- All that the parameters hold. -/
def formalNodes : List Formal → List Node
  | [] => []
  | f :: fs => Formal.nodes f ++ formalNodes fs

end

/-- A program as a node. -/
def Program.node (p : Program) : Node := .mk .program p.loc (expressionNodes p.statements)

end RSource
