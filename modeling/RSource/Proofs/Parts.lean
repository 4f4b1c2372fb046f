import RSource.Node.Walk
import RSource.Proofs.Places

/-!
# Parts of a program

The parts of a program are what it is put together from and what has a place of its own: programs,
expressions, operands other than those in parentheses, calls and subscripts, and the lists around
them. Terms, slots and formals are no parts: what they hold belongs to the part around them.

* `Part`, `Part.node` — a part, and the node that it is.
* `Expression.parts` and the like — all parts in a tree, each in front of those that it holds, by
  recursion over the tree.
* `Part.parts` — all parts in a part, itself first.
* `Part.nodes_node` — **the nodes from a part on are its parts**, in pre-order.
-/

namespace RSource

/-- A part of a program, with what it holds. The lists around calls and subscripts and around
formals hold at least one. -/
inductive Part where
  | program (p : Program)
  | expression (e : Expression)
  | condition (e : Expression)
  | expressionList (es : List Expression) (closing : Location)
  | groups (g : Group) (gs : List Group)
  | group (g : Group)
  | formals (f : Formal) (fs : List Formal)
  | arguments (loc : Location) (slots : List Argument)
  | assignment (loc : Location) (op : AssignOp) (value : Expression)
  | block (loc : Location) (es : List Expression) (closing : Location)
  | constant (c : Constant)
  | forLoop (loc : Location) (var : Identifier) (seq body : Expression)
  | function (loc : Location) (fs : List Formal) (body : Expression)
  | help (loc : Location) (target : Expression)
  | identifier (i : Identifier)
  | ifForm (loc : Location) (cond body : Expression) (otherwise : Option Expression)
  | repeatLoop (loc : Location) (body : Expression)
  | whileLoop (loc : Location) (cond body : Expression)

namespace Part

/-- The node that a part is. -/
def node : Part → Node
  | program p => p.node
  | expression e => e.node
  | condition e => .mk .condition e.loc [e.node]
  | expressionList es closing => .mk .expressionList (statementsLoc es closing) (expressionNodes es)
  | groups g gs => .mk .groups g.loc (groupNodes (g :: gs))
  | group g => g.node
  | formals f fs => .mk .formals f.name.loc (formalNodes (f :: fs))
  | arguments loc slots => .mk .arguments loc (argumentNodes slots)
  | assignment loc _ v => .mk .assignment loc [v.node]
  | block loc es closing => (Operand.block loc es closing).node
  | constant c => c.node
  | forLoop loc i s e => (Operand.forLoop loc i s e).node
  | function loc fs e => (Operand.function loc fs e).node
  | help loc e => (Operand.help loc e).node
  | identifier i => i.node
  | ifForm loc c e none => (Operand.ifThen loc c e).node
  | ifForm loc c e (some o) => (Operand.ifElse loc c e o).node
  | repeatLoop loc e => (Operand.repeatLoop loc e).node
  | whileLoop loc c e => (Operand.whileLoop loc c e).node

/-- The name of an argument. -/
def ofArgName : ArgName → Part
  | .identifier i => identifier i
  | .constant c => constant c

/-- The list around some calls and subscripts, if there are any, in front of their parts. -/
def aroundGroups (gs : List Group) (parts : List Part) : List Part :=
  match gs with
  | [] => []
  | g :: gs => groups g gs :: parts

/-- The list around some formals, if there are any, in front of their parts. -/
def aroundFormals (fs : List Formal) (parts : List Part) : List Part :=
  match fs with
  | [] => []
  | f :: fs => formals f fs :: parts

/-- The list around the slots of a group, unless it holds nothing or a single expression, in front
of their parts. -/
def aroundSlots (loc : Location) (slots : List Argument) (parts : List Part) : List Part :=
  match slots with
  | [] => []
  | [.value _] => parts
  | slots => arguments loc slots :: parts

end Part

/-! ## All parts of a tree -/

mutual

def Expression.parts : Expression → List Part
  | .term loc t => .expression (.term loc t) :: t.parts
  | .unary loc op t => .expression (.unary loc op t) :: t.parts
  | .binary loc op l r => .expression (.binary loc op l r) :: (l.parts ++ r.parts)
  | .assign loc l opLoc op v =>
      .expression (.assign loc l opLoc op v) :: (l.parts ++ .assignment opLoc op v :: v.parts)

def Term.parts : Term → List Part
  | .mk o gs => o.parts ++ Part.aroundGroups gs (groupParts gs)

def Operand.parts : Operand → List Part
  | .identifier i => [.identifier i]
  | .constant c => [.constant c]
  | .block loc es closing =>
      .block loc es closing :: .expressionList es closing :: expressionParts es
  | .function loc fs e =>
      .function loc fs e :: (Part.aroundFormals fs (formalParts fs) ++ e.parts)
  | .ifThen loc c e => .ifForm loc c e none :: .condition c :: (c.parts ++ e.parts)
  | .ifElse loc c e o =>
      .ifForm loc c e (some o) :: .condition c :: (c.parts ++ (e.parts ++ o.parts))
  | .forLoop loc i s e => .forLoop loc i s e :: .identifier i :: (s.parts ++ e.parts)
  | .whileLoop loc c e => .whileLoop loc c e :: .condition c :: (c.parts ++ e.parts)
  | .repeatLoop loc e => .repeatLoop loc e :: e.parts
  | .help loc e => .help loc e :: e.parts
  | .paren e => e.parts
  | .nested e => e.parts

def Group.parts : Group → List Part
  | .mk loc kind slots =>
      .group (.mk loc kind slots) :: Part.aroundSlots loc slots (argumentParts slots)

def Argument.parts : Argument → List Part
  | .empty => []
  | .value e => e.parts
  | .name n => [.ofArgName n]
  | .named n e => .ofArgName n :: e.parts

def Formal.parts : Formal → List Part
  | .required i => [.identifier i]
  | .defaulted i e => .identifier i :: e.parts

def expressionParts : List Expression → List Part
  | [] => []
  | e :: es => e.parts ++ expressionParts es

def groupParts : List Group → List Part
  | [] => []
  | g :: gs => g.parts ++ groupParts gs

def argumentParts : List Argument → List Part
  | [] => []
  | a :: as => a.parts ++ argumentParts as

def formalParts : List Formal → List Part
  | [] => []
  | f :: fs => f.parts ++ formalParts fs

end

/-- All parts in a part, itself first and each in front of those that it holds. -/
def Part.parts : Part → List Part
  | program p => program p :: expressionParts p.statements
  | expression e => e.parts
  | condition e => condition e :: e.parts
  | expressionList es closing => expressionList es closing :: expressionParts es
  | groups g gs => groups g gs :: groupParts (g :: gs)
  | group g => g.parts
  | formals f fs => formals f fs :: formalParts (f :: fs)
  | arguments loc slots => arguments loc slots :: argumentParts slots
  | assignment loc op v => assignment loc op v :: v.parts
  | block loc es closing => (Operand.block loc es closing).parts
  | constant c => [constant c]
  | forLoop loc i s e => (Operand.forLoop loc i s e).parts
  | function loc fs e => (Operand.function loc fs e).parts
  | help loc e => (Operand.help loc e).parts
  | identifier i => [identifier i]
  | ifForm loc c e none => (Operand.ifThen loc c e).parts
  | ifForm loc c e (some o) => (Operand.ifElse loc c e o).parts
  | repeatLoop loc e => (Operand.repeatLoop loc e).parts
  | whileLoop loc c e => (Operand.whileLoop loc c e).parts

/-! ## All nodes from a node on -/

namespace Node

mutual

/-- The nodes from a node on in pre-order. -/
def nodes : Node → List Node
  | .mk label loc cs => .mk label loc cs :: nodesAll cs

/-- The nodes from each of several nodes on. -/
def nodesAll : List Node → List Node
  | [] => []
  | n :: ns => nodes n ++ nodesAll ns

end

mutual

theorem preorder_nodes (depth : Nat) : ∀ n : Node,
    (n.preorder (fun _ _ => false) depth).map (·.2) = n.nodes
  | .mk label loc cs => by
      rw [preorder, if_neg Bool.false_ne_true, List.map_cons, preorderAll_nodes (depth + 1) cs,
        nodes]

theorem preorderAll_nodes (depth : Nat) : ∀ ns : List Node,
    (preorderAll (fun _ _ => false) depth ns).map (·.2) = nodesAll ns
  | [] => rfl
  | n :: ns => by
      rw [preorderAll, List.map_append, preorder_nodes depth n, preorderAll_nodes depth ns,
        nodesAll]

end

@[simp] theorem nodesAll_append (ms ns : List Node) :
    nodesAll (ms ++ ns) = nodesAll ms ++ nodesAll ns := by
  induction ms with
  | nil => rfl
  | cons m ms ih => simp [nodesAll, ih]

end Node

open Node (nodes nodesAll)

/-! ## The nodes are the parts -/

namespace Part

theorem nodesAll_groups (gs : List Group)
    (h : nodesAll (groupNodes gs) = (groupParts gs).map node) :
    nodesAll (Node.groups gs (groupNodes gs)) = (aroundGroups gs (groupParts gs)).map node := by
  cases gs with
  | nil => rfl
  | cons g gs => simp [Node.groups, aroundGroups, nodes, nodesAll, node, h]

theorem nodesAll_formals (fs : List Formal)
    (h : nodesAll (formalNodes fs) = (formalParts fs).map node) :
    nodesAll (Node.formals fs (formalNodes fs)) = (aroundFormals fs (formalParts fs)).map node := by
  cases fs with
  | nil => rfl
  | cons f fs => simp [Node.formals, aroundFormals, nodes, nodesAll, node, h]

theorem nodesAll_slots (loc : Location) (slots : List Argument)
    (h : nodesAll (argumentNodes slots) = (argumentParts slots).map node) :
    nodesAll (Node.arguments loc slots (argumentNodes slots)) =
      (aroundSlots loc slots (argumentParts slots)).map node := by
  unfold Node.arguments aroundSlots
  split
  · rfl
  · exact h
  · simp [nodes, nodesAll, node, h]

theorem node_ofArgName (n : ArgName) : (ofArgName n).node = n.node := by cases n <;> rfl

theorem nodes_argName (n : ArgName) : n.node.nodes = [n.node] := by cases n <;> rfl

end Part

mutual

theorem Expression.nodes_node : ∀ e : Expression, e.node.nodes = e.parts.map Part.node
  | .term loc t => by
      simp [Expression.node, Expression.parts, nodes, Part.node, Term.nodesAll_nodes t]
  | .unary loc op t => by
      simp [Expression.node, Expression.parts, nodes, Part.node, Term.nodesAll_nodes t]
  | .binary loc op l r => by
      simp [Expression.node, Expression.parts, nodes, Part.node, Term.nodesAll_nodes l,
        Term.nodesAll_nodes r]
  | .assign loc l opLoc op v => by
      simp [Expression.node, Expression.parts, nodes, nodesAll, Part.node, Term.nodesAll_nodes l,
        Expression.nodes_node v]

theorem Term.nodesAll_nodes : ∀ t : Term, nodesAll t.nodes = t.parts.map Part.node
  | .mk o gs => by
      rw [Term.nodes, Term.parts, nodesAll, List.map_append, Operand.nodes_node o,
        Part.nodesAll_groups gs (nodesAll_groupNodes gs)]

theorem Operand.nodes_node : ∀ o : Operand, o.node.nodes = o.parts.map Part.node
  | .identifier i => rfl
  | .constant c => rfl
  | .block loc es closing => by
      simp [Operand.node, Operand.parts, nodes, nodesAll, Part.node, nodesAll_expressionNodes es]
  | .function loc fs e => by
      simp [Operand.node, Operand.parts, nodes, nodesAll, Part.node, Expression.nodes_node e,
        Part.nodesAll_formals fs (nodesAll_formalNodes fs)]
  | .ifThen loc c e => by
      simp [Operand.node, Operand.parts, nodes, nodesAll, Part.node, Expression.nodes_node c,
        Expression.nodes_node e]
  | .ifElse loc c e o => by
      simp [Operand.node, Operand.parts, nodes, nodesAll, Part.node, Expression.nodes_node c,
        Expression.nodes_node e, Expression.nodes_node o]
  | .forLoop loc i s e => by
      simp [Operand.node, Operand.parts, nodes, nodesAll, Part.node, Identifier.node,
        Expression.nodes_node s, Expression.nodes_node e]
  | .whileLoop loc c e => by
      simp [Operand.node, Operand.parts, nodes, nodesAll, Part.node, Expression.nodes_node c,
        Expression.nodes_node e]
  | .repeatLoop loc e => by
      simp [Operand.node, Operand.parts, nodes, nodesAll, Part.node, Expression.nodes_node e]
  | .help loc e => by
      simp [Operand.node, Operand.parts, nodes, nodesAll, Part.node, Expression.nodes_node e]
  | .paren e => Expression.nodes_node e
  | .nested e => Expression.nodes_node e

theorem Group.nodes_node : ∀ g : Group, g.node.nodes = g.parts.map Part.node
  | .mk loc kind slots => by
      rw [Group.parts, List.map_cons, ← Part.nodesAll_slots loc slots (nodesAll_argumentNodes slots)]
      rfl

theorem Argument.nodesAll_nodes : ∀ a : Argument, nodesAll a.nodes = a.parts.map Part.node
  | .empty => rfl
  | .value e => by
      simp [Argument.nodes, Argument.parts, nodesAll, Expression.nodes_node e]
  | .name n => by
      simp [Argument.nodes, Argument.parts, nodesAll, Part.node_ofArgName, Part.nodes_argName]
  | .named n e => by
      simp [Argument.nodes, Argument.parts, nodesAll, Part.node_ofArgName, Part.nodes_argName,
        Expression.nodes_node e]

theorem Formal.nodesAll_nodes : ∀ f : Formal, nodesAll f.nodes = f.parts.map Part.node
  | .required i => rfl
  | .defaulted i e => by
      simp [Formal.nodes, Formal.parts, nodes, nodesAll, Part.node, Identifier.node,
        Expression.nodes_node e]

theorem nodesAll_expressionNodes : ∀ es : List Expression,
    nodesAll (expressionNodes es) = (expressionParts es).map Part.node
  | [] => rfl
  | e :: es => by
      rw [expressionNodes, expressionParts, nodesAll, List.map_append, Expression.nodes_node e,
        nodesAll_expressionNodes es]

theorem nodesAll_groupNodes : ∀ gs : List Group,
    nodesAll (groupNodes gs) = (groupParts gs).map Part.node
  | [] => rfl
  | g :: gs => by
      rw [groupNodes, groupParts, nodesAll, List.map_append, Group.nodes_node g,
        nodesAll_groupNodes gs]

theorem nodesAll_argumentNodes : ∀ as : List Argument,
    nodesAll (argumentNodes as) = (argumentParts as).map Part.node
  | [] => rfl
  | a :: as => by
      rw [argumentNodes, argumentParts, Node.nodesAll_append, List.map_append,
        Argument.nodesAll_nodes a, nodesAll_argumentNodes as]

theorem nodesAll_formalNodes : ∀ fs : List Formal,
    nodesAll (formalNodes fs) = (formalParts fs).map Part.node
  | [] => rfl
  | f :: fs => by
      rw [formalNodes, formalParts, Node.nodesAll_append, List.map_append,
        Formal.nodesAll_nodes f, nodesAll_formalNodes fs]

end

/-- **The nodes from a part on are its parts**, in the same order. -/
theorem Part.nodes_node : ∀ q : Part, q.node.nodes = q.parts.map node
  | program p => by
      simp [node, parts, Program.node, nodes, nodesAll_expressionNodes]
  | expression e => e.nodes_node
  | condition e => by simp [node, parts, nodes, nodesAll, e.nodes_node]
  | expressionList es closing => by simp [node, parts, nodes, nodesAll_expressionNodes]
  | groups g gs => by simp only [node, parts, nodes, nodesAll_groupNodes, List.map_cons]
  | group g => g.nodes_node
  | formals f fs => by simp only [node, parts, nodes, nodesAll_formalNodes, List.map_cons]
  | arguments loc slots => by simp [node, parts, nodes, nodesAll_argumentNodes]
  | assignment loc op v => by simp [node, parts, nodes, nodesAll, v.nodes_node]
  | block loc es closing => Operand.nodes_node _
  | constant c => rfl
  | forLoop loc i s e => Operand.nodes_node _
  | function loc fs e => Operand.nodes_node _
  | help loc e => Operand.nodes_node _
  | identifier i => rfl
  | ifForm loc c e none => Operand.nodes_node _
  | ifForm loc c e (some o) => Operand.nodes_node _
  | repeatLoop loc e => Operand.nodes_node _
  | whileLoop loc c e => Operand.nodes_node _

end RSource
