import FlatScript.Node
import FlatScript.Outline

/-!
# The shown form of a tree

Every tree has an outline, and so a compact and an indented text.
-/

namespace FlatScript

/-- The outline of an operator. -/
def Token.Kind.outline (kind : Token.Kind) : Outline :=
  .leaf kind.label

/-- The outline of a text. -/
def textOutline (text : String) : Outline :=
  .leaf (Text.quoted text)

mutual

/-- The outline of a tree. -/
def Node.outline : Node → Outline
  | .integer value => .wrap "Integer" (.leaf (toString value.toInt))
  | .string value => .wrap "String" (textOutline value)
  | .bool value => .wrap "Bool" (.leaf (if value then "true" else "false"))
  | .void => .leaf "Void"
  | .binary lhs op rhs =>
    .record "BinOp" [("lhs", lhs.outline), ("op", op.outline), ("rhs", rhs.outline)]
  | .unary op arg => .record "UnaryOp" [("op", op.outline), ("arg", arg.outline)]
  | .read name => .wrap "Variable" (textOutline name)
  | .assign name value =>
    .record "SetVariable" [("ident", textOutline name), ("value", value.outline)]
  | .block body => .wrap "Block" (.list (nodeOutlines body))
  | .program body => .wrap "Program" (.list (nodeOutlines body))
  | .guarded branch => .wrap "Condition" (branchOutline branch)
  | .choice first others last =>
    .wrap "Flow" (.record "Flow"
      [("if_branch", branchOutline first), ("elseif_branches", .list (branchOutlines others)),
        ("else_branch", branchOutline last)])
  | .declare declaration => .wrap "FunctionDecl" (declarationOutline declaration)
  | .call name args =>
    .record "FunctionCall" [("ident", textOutline name), ("args", .list (nodeOutlines args))]
  | .ret value => .wrap "ReturnStatement" value.outline
  | .loop condition body =>
    .record "While" [("condition", condition.outline), ("body", body.outline)]

/-- The outlines of several trees. -/
def nodeOutlines : List Node → List Outline
  | [] => []
  | node :: nodes => node.outline :: nodeOutlines nodes

/-- The outline of a branch. -/
def branchOutline : Branch Node → Outline
  | ⟨predicate, body⟩ =>
    .record "Condition" [("predicate", predicate.outline), ("body", body.outline)]

/-- The outlines of several branches. -/
def branchOutlines : List (Branch Node) → List Outline
  | [] => []
  | branch :: branches => branchOutline branch :: branchOutlines branches

/-- The outline of a function declaration. -/
def declarationOutline : Declaration Node → Outline
  | ⟨name, params, body⟩ =>
    .record "FunctionDecl"
      [("ident", textOutline name), ("params", .list (params.map textOutline)),
        ("body", body.outline)]

end

end FlatScript
