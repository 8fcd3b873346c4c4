import DiceScript.Expr
import DiceScript.Text.Quoted

/-!
Outlines: trees as nested lists in parentheses, each headed by the kind of its node. Names and texts
stand between quotes as they are written in the script.
-/

namespace DiceScript

/-- Items between parentheses, with one space between neighbours. -/
def listed (items : List String) : String :=
  "(" ++ String.intercalate " " items ++ ")"

mutual

/-- The outline of a tree. -/
def Expr.outline : Expr → String
  | .empty => "(empty)"
  | .number n => listed ["number", n.text]
  | .text s => listed ["string", Text.quoted s]
  | .symbol s => listed ["symbol", Text.quoted s]
  | .var name => listed ["var", Text.quoted name]
  | .dice spec => listed ["dice", spec.text]
  | .stored s => listed ["stored", Text.quoted s]
  | .error message => listed ["error", Text.quoted message]
  | .unary op operand => listed ["unary", op.symbol, operand.outline]
  | .binary op left right => listed ["binary", op.symbol, left.outline, right.outline]
  | .ternary test yes no => listed ["ternary", test.outline, yes.outline, no.outline]
  | .shift op left right => listed ["shift", op.symbol, left.outline, right.outline]
  | .pair key value => listed ["pair", key.outline, value.outline]
  | .multiplied op dice count =>
    listed ["dice-multiplier", op.symbol, dice.outline, count.outline]
  | .index container index => listed ["index", container.outline, index.outline]
  | .property target name =>
    listed ["member", target.outline, Text.quoted name, "none"]
  | .method target name args =>
    listed
      ["member", target.outline, Text.quoted name, listed ("args" :: Expr.outlines args)]
  | .assign name op value => listed ["assign", Text.quoted name, op.symbol, value.outline]
  | .assignIndex target op value =>
    listed ["assign-key", target.outline, op.symbol, value.outline]
  | .choice branches => listed ("if" :: branches.outlines)
  | .loop name iterable body =>
    listed ["for", Text.quoted name, iterable.outline, body.outline]
  | .sequence first rest => listed ["sequence", first.outline, rest.outline]
  | .pipe first rest => listed ["pipe", first.outline, rest.outline]
  | .call name args => listed ("call" :: Text.quoted name :: Expr.outlines args)
  | .apply callee args => listed ("function-call" :: callee.outline :: Expr.outlines args)
  | .function params body =>
    listed ["function", listed (params.map Text.quoted), Text.quoted body]
  | .array elements => listed ("array" :: Expr.outlines elements)
  | .bonus name type value =>
    listed ["bonus", name.outline, Expr.outlineOrNone type, Expr.outlineOrNone value]
  | .defer operand => listed ["expression", operand.outline]
  | .event argument => listed ["event", argument.outline]

/-- The outlines of trees, in order. -/
def Expr.outlines : List Expr → List String
  | [] => []
  | e :: es => e.outline :: Expr.outlines es

/-- The outline of a part that may be missing. -/
def Expr.outlineOrNone : Option Expr → String
  | none => "none"
  | some e => e.outline

/-- The outlines of branches, in order. -/
def Branches.outlines : Branches → List String
  | .done => []
  | .otherwise body => [listed ["else", body.outline]]
  | .test condition body rest =>
    listed [condition.outline, body.outline] :: rest.outlines

end

end DiceScript
