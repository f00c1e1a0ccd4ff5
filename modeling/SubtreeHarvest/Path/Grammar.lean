/-
The grammar of relative selectors: an expression from its tokens. Operators bind in levels, and
those of one level group from the left. A selector may also come to no expression at all, as an
axis without a test does. Fuel stands for the depth of the grammar's recursion; a fixed multiple of
the number of tokens always suffices, because a few levels below each other take a token.
-/
import SubtreeHarvest.Failure
import SubtreeHarvest.Path.Token

namespace SubtreeHarvest.Path

namespace Operator

/-- How tightly an operator binds. The sign of a number binds at level 6. -/
def level : Operator → Nat
  | .or => 0
  | .and => 1
  | .equal | .unequal => 2
  | .less | .lessEqual | .greater | .greaterEqual => 3
  | .plus | .minus => 4
  | .times | .divide | .remainder => 5
  | .union => 7

end Operator

namespace Grammar

/-- The level at which a minus sign stands in front of an operand. -/
def signLevel : Nat := 6

/-- The level of paths, below all operators. -/
def pathLevel : Nat := 8

/-- What tokens begin with, and the tokens behind it: perhaps an expression, perhaps none. Tokens
that begin with neither are malformed. -/
abbrev Parsed := Option (Option Expression × List Token)

/-- An expression that may not be missing. -/
def required : Parsed → Option (Expression × List Token)
  | some (some expression, rest) => some (expression, rest)
  | _ => none

mutual

/-- Expressions of a level and all below. -/
def expression (fuel level : Nat) (tokens : List Token) : Parsed :=
  match fuel with
  | 0 => none
  | fuel + 1 =>
    if level = pathLevel then path fuel tokens
    else
      match expression fuel (level + 1) tokens with
      | some (some left, rest) =>
        if level = signLevel then some (some left, rest) else operators fuel level left rest
      | some (none, .operator .minus :: rest) =>
        if level = signLevel then do
          let (operand, rest) ← required (expression fuel signLevel rest)
          return (some (.negate operand), rest)
        else some (none, .operator .minus :: rest)
      | other => other

/-- The operators of a level and their right operands, behind a left one. -/
def operators (fuel level : Nat) (left : Expression) (tokens : List Token) : Parsed :=
  match fuel, tokens with
  | 0, _ => none
  | fuel + 1, .operator operator :: rest =>
    if operator.level = level then do
      let (right, rest) ← required (expression fuel (level + 1) rest)
      operators fuel level (.binary operator left right) rest
    else some (some left, tokens)
  | _, _ => some (some left, tokens)

/-- A path from the place itself, from the document, or from what another expression selects. -/
def path (fuel : Nat) (tokens : List Token) : Parsed :=
  match fuel with
  | 0 => none
  | fuel + 1 =>
    match steps fuel .here tokens with
    | some (none, .slash :: rest) =>
      match steps fuel .root rest with
      | some (none, rest) => some (some .root, rest)
      | other => other
    | some (none, rest) =>
      match primary fuel rest with
      | some (some start, rest) => do
        let (predicates, rest) ← predicates fuel rest
        let start := predicates.foldl .filter start
        match rest with
        | .slash :: rest => (required (steps fuel start rest)).map fun (e, rest) => (some e, rest)
        | _ => some (some start, rest)
      | other => other
    | other => other

/-- The steps of a path. An axis without a test is passed over and comes to nothing. -/
def steps (fuel : Nat) (start : Expression) (tokens : List Token) : Parsed :=
  match fuel with
  | 0 => none
  | fuel + 1 =>
    let (axis, rest) := match tokens with
      | .axis axis :: rest => (axis, rest)
      | _ => (.child, tokens)
    match rest with
    | .test test :: rest => do
      let (predicates, rest) ← predicates fuel rest
      let step := .step start axis test predicates
      match rest with
      | .slash :: rest => (required (steps fuel step rest)).map fun (e, rest) => (some e, rest)
      | _ => some (some step, rest)
    | _ => some (none, rest)

/-- Predicates, each between brackets. -/
def predicates (fuel : Nat) (tokens : List Token) : Option (List Expression × List Token) :=
  match fuel, tokens with
  | 0, _ => none
  | fuel + 1, .openBracket :: rest => do
    let (predicate, rest) ← required (expression fuel 0 rest)
    match rest with
    | .closeBracket :: rest =>
      let (others, rest) ← predicates fuel rest
      return (predicate :: others, rest)
    | _ => none
  | _, _ => some ([], tokens)

/-- A variable, an expression between parentheses, a literal, a number or a call. Parentheses
around nothing are passed over in front of the last three. -/
def primary (fuel : Nat) (tokens : List Token) : Parsed :=
  match fuel, tokens with
  | 0, _ => none
  | _, .variable name :: rest => some (some (.variable name), rest)
  | fuel + 1, .openParenthesis :: rest => do
    match ← expression fuel 0 rest with
    | (some inner, .closeParenthesis :: rest) => some (some inner, rest)
    | (none, .closeParenthesis :: rest) => simple fuel rest
    | _ => none
  | fuel + 1, _ => simple fuel tokens

/-- A literal, a number or a call. -/
def simple (fuel : Nat) (tokens : List Token) : Parsed :=
  match fuel, tokens with
  | 0, _ => none
  | _, .literal text :: rest => some (some (.literal text), rest)
  | _, .number value :: rest => some (some (.number value), rest)
  | fuel + 1, .function name :: .openParenthesis :: rest => do
    let (arguments, rest) ← arguments fuel rest
    match rest with
    | .closeParenthesis :: rest => some (some (.call name arguments), rest)
    | _ => none
  | _, _ => some (none, tokens)

/-- The arguments of a call. -/
def arguments (fuel : Nat) (tokens : List Token) : Option (List Expression × List Token) :=
  match fuel with
  | 0 => none
  | fuel + 1 => do
    match ← expression fuel 0 tokens with
    | (none, rest) => some ([], rest)
    | (some first, rest) =>
      let (others, rest) ← moreArguments fuel rest
      return (first :: others, rest)

/-- The arguments behind commas. -/
def moreArguments (fuel : Nat) (tokens : List Token) : Option (List Expression × List Token) :=
  match fuel, tokens with
  | 0, _ => none
  | fuel + 1, .comma :: rest => do
    let (argument, rest) ← required (expression fuel 0 rest)
    let (others, rest) ← moreArguments fuel rest
    return (argument :: others, rest)
  | _, _ => some ([], tokens)

end

/-- The expression that all of some tokens write, if they write one. -/
def whole? (tokens : List Token) : Option (Option Expression) :=
  match expression (16 * (tokens.length + 2)) 0 tokens with
  | some (expression, []) => some expression
  | _ => none

end Grammar

/-- The expression that a relative selector writes. -/
def compile (selector : String) : Except Failure Expression :=
  match (Token.ofString? selector).bind Grammar.whole? with
  | some (some expression) => .ok expression
  | some none => .error (.malformedExpression selector "empty relative selector")
  | none => .error (.malformedExpression selector Failure.unexplained)

end SubtreeHarvest.Path
