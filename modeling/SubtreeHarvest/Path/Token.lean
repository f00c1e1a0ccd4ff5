/-
Tokens of relative selectors. Abbreviations are spelled out: an at sign is an axis, two slashes
are a step through all descendants, one dot and two are steps to the place itself and to its
parent. Whether a word such as `and` is an operator or a name depends on the token before it.
-/
import SubtreeHarvest.Number.Decimal
import SubtreeHarvest.Path.Expression
import SubtreeHarvest.Text.Cut

namespace SubtreeHarvest.Path

open Text Document

inductive Token
  | operator (operator : Operator)
  | slash
  | comma
  | openParenthesis
  | closeParenthesis
  | openBracket
  | closeBracket
  | axis (axis : Axis)
  | test (test : NodeTest)
  | literal (text : String)
  | number (value : Float)
  /-- The name of a function, behind which a parenthesis opens. -/
  | function (name : QualifiedName)
  | variable (name : QualifiedName)

namespace Token

/-- Whether an operand is still to come behind a token. -/
def awaitsOperand : Token → Bool
  | .operator _ | .slash | .openParenthesis | .openBracket | .axis _ => true
  | _ => false

end Token

/-- Tokens that stand at the beginning of a text, and how many characters of it they take. -/
structure Lexeme where
  tokens : List Token
  size : Nat

namespace Lexeme

/-- Tokens by the signs that write them, a longer sign before a shorter one. -/
def signs : List (String × List Token) :=
  [("<=", [.operator .lessEqual]), (">=", [.operator .greaterEqual]),
   ("!=", [.operator .unequal]),
   ("//", [.slash, .axis .descendantOrSelf, .test .anyNode, .slash]),
   ("..", [.axis .parent, .test .anyNode]),
   ("(", [.openParenthesis]), (")", [.closeParenthesis]), ("[", [.openBracket]),
   ("]", [.closeBracket]), ("@", [.axis .attributes]), ("/", [.slash]),
   ("|", [.operator .union]), ("+", [.operator .plus]), ("-", [.operator .minus]),
   ("=", [.operator .equal]), ("<", [.operator .less]), (">", [.operator .greater]),
   (",", [.comma])]

/-- The operators that are spelled like names. -/
def words : List (String × List Token) :=
  [("and", [.operator .and]), ("or", [.operator .or]), ("mod", [.operator .remainder]),
   ("div", [.operator .divide]), ("*", [.operator .times])]

/-- The tests that are spelled like calls. -/
def nodeTests : List (String × List Token) :=
  [("text()", [.test .text]), ("node()", [.test .anyNode]), ("comment()", [.test .comment]),
   ("processing-instruction()", [.test (.instruction none)])]

/-- The first entry of a table whose spelling a text begins with. -/
def ofTable? (table : List (String × List Token)) (cs : List Char) : Option Lexeme :=
  (table.find? fun (spelling, _) => spelling.toList.isPrefixOf cs).map
    fun (spelling, tokens) => ⟨tokens, spelling.length⟩

/-- What stands between two quotes of one kind, the first of which begins the text. -/
def quotedText? : List Char → Option (List Char)
  | [] => none
  | q :: inner => if isQuote q then (cut [q] inner).map Prod.fst else none

def literal? (cs : List Char) : Option Lexeme :=
  (quotedText? cs).map fun text => ⟨[.literal (String.ofList text)], text.length + 2⟩

/-- A number: digits with at most one point in front of, among or behind them. -/
def number? (cs : List Char) : Option Lexeme :=
  let (digits, _, rest) := Number.spanDigits cs
  if digits.isEmpty then none
  else
    let size := cs.length - rest.length
    some ⟨[.number (Number.read (String.ofList (cs.take size)))], size⟩

/-- The place itself. -/
def dot? (cs : List Char) : Option Lexeme :=
  ofTable? [(".", [.axis .self, .test .anyNode])] cs

/-- The longest plain name that a text begins with. -/
def plainName? (cs : List Char) : Option (List Char) :=
  let name := cs.takeWhile isNameChar
  if isPlainName name then some name else none

/-- The longest qualified name that a text begins with, and its size. -/
def qualifiedName? (cs : List Char) : Option (QualifiedName × Nat) :=
  (plainName? cs).map fun first =>
    match cs.drop first.length with
    | ':' :: behind =>
      match plainName? behind with
      | some second =>
        (⟨some (String.ofList first), String.ofList second⟩, first.length + 1 + second.length)
      | none => (⟨none, String.ofList first⟩, first.length)
    | _ => (⟨none, String.ofList first⟩, first.length)

/-- The name of an axis, right behind which two colons stand. -/
def axis? (cs : List Char) : Option Lexeme := do
  let name ← plainName? cs
  let (_, axis) ← Axis.named.find? fun (spelling, _) => spelling.toList == name
  if "::".toList.isPrefixOf (cs.drop name.length) then some ⟨[.axis axis], name.length + 2⟩
  else none

/-- A test for instructions with a target, which stands in quotes. -/
def instructionTest? (cs : List Char) : Option Lexeme := do
  let opening := "processing-instruction(".toList
  let inner ← behind? opening cs
  let target ← quotedText? inner
  match inner.drop (target.length + 2) with
  | ')' :: _ =>
    some ⟨[.test (.instruction (some (String.ofList target)))], opening.length + target.length + 3⟩
  | _ => none

def function? (cs : List Char) : Option Lexeme :=
  match qualifiedName? cs with
  | some (name, size) => if (cs.drop size).head? = some '(' then some ⟨[.function name], size⟩
    else none
  | none => none

def nameTest? (cs : List Char) : Option Lexeme :=
  if cs.head? = some '*' then some ⟨[.test .anyName], 1⟩
  else (qualifiedName? cs).map fun (name, size) => ⟨[.test (.name name)], size⟩

def variableUse? : List Char → Option Lexeme
  | '$' :: cs => (qualifiedName? cs).map fun (name, size) => ⟨[.variable name], size + 1⟩
  | _ => none

/-- The lexeme that a text begins with, behind an operand or not. -/
def ofChars? (behindOperand : Bool) (cs : List Char) : Option Lexeme :=
  ofTable? signs cs <|> literal? cs <|> number? cs <|> dot? cs <|>
    (if behindOperand then ofTable? words cs else none) <|> axis? cs <|> ofTable? nodeTests cs <|>
    instructionTest? cs <|> function? cs <|> nameTest? cs <|> variableUse? cs

end Lexeme

namespace Token

/-- The tokens of a text that is not over yet, where space may stand before each. -/
def tokensFrom? (behindOperand : Bool) (cs : List Char) : Option (List Token) :=
  match _h : cs.dropWhile isSpace with
  | [] => none
  | c :: more => do
    let lexeme ← Lexeme.ofChars? behindOperand (c :: more)
    let behind := more.drop (lexeme.size - 1)
    if behind.all isSpace then some lexeme.tokens
    else
      let operand := lexeme.tokens.getLast?.any (!·.awaitsOperand)
      let tokens ← tokensFrom? operand behind
      return lexeme.tokens ++ tokens
termination_by cs.length
decreasing_by
  have h2 := (List.dropWhile_suffix isSpace (l := cs)).length_le
  rw [_h, List.length_cons] at h2
  simp only [List.length_drop]
  omega

/-- The tokens of a selector. Nothing has none; space alone is malformed. -/
def ofString? (selector : String) : Option (List Token) :=
  if selector.isEmpty then some [] else tokensFrom? false selector.toList

end Token

end SubtreeHarvest.Path
