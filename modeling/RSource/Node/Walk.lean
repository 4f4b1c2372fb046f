import RSource.Node.Basic

/-!
# Walks over nodes

* `Node.preorder`, `Node.postorder` — the nodes from one on, each with its depth, before or after
  what is below it; nothing below a node is listed where the walk stops.
* `Node.outline` — one line for each node, indented by its depth, with its kind and place.
* `Node.leaves` — the names and constants in source order, those in functions left out if wanted.
-/

namespace RSource.Node

mutual

/-- The nodes from `n` on, at `depth`, each before what is below it. -/
def preorder (stops : Nat → Label → Bool) (depth : Nat) : Node → List (Nat × Node)
  | .mk l loc cs =>
      (depth, .mk l loc cs) :: if stops depth l then [] else preorderAll stops (depth + 1) cs

/-- The nodes from each of several on, one after the other. -/
def preorderAll (stops : Nat → Label → Bool) (depth : Nat) : List Node → List (Nat × Node)
  | [] => []
  | n :: ns => preorder stops depth n ++ preorderAll stops depth ns

end

mutual

/-- The nodes from `n` on, at `depth`, each after what is below it. -/
def postorder (stops : Nat → Label → Bool) (depth : Nat) : Node → List (Nat × Node)
  | .mk l loc cs =>
      (if stops depth l then [] else postorderAll stops (depth + 1) cs) ++
        [(depth, .mk l loc cs)]

/-- The nodes from each of several on, one after the other. -/
def postorderAll (stops : Nat → Label → Bool) (depth : Nat) : List Node → List (Nat × Node)
  | [] => []
  | n :: ns => postorder stops depth n ++ postorderAll stops depth ns

end

/-- The line of a node: its kind and place, indented by its depth. -/
def line (depth : Nat) (n : Node) : String :=
  String.ofList (List.replicate depth ' ') ++ n.label.name ++ ":" ++ n.loc.text

/-- The lines of the nodes from `n` on, at `depth`. -/
def lines (depth : Nat) (n : Node) : List String :=
  (preorder (fun _ _ => false) depth n).map fun v => line v.1 v.2

/-- The lines of the nodes from `n` on, at `depth`, each with its line feed. -/
def outline (depth : Nat) (n : Node) : String :=
  String.join ((lines depth n).map (· ++ "\n"))

mutual

/-- The labels of the leaves from `n` on, in source order. Functions are not entered if
`skipFunctions`. -/
def leaves (skipFunctions : Bool) : Node → List Label
  | .mk l _ cs =>
      match l with
      | .identifier _ _ | .constant _ _ => [l]
      | .function => if skipFunctions then [] else leavesAll skipFunctions cs
      | _ => leavesAll skipFunctions cs

/-- The labels of the leaves from each of several nodes on. -/
def leavesAll (skipFunctions : Bool) : List Node → List Label
  | [] => []
  | n :: ns => leaves skipFunctions n ++ leavesAll skipFunctions ns

end

end RSource.Node
