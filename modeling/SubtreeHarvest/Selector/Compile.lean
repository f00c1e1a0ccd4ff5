/-
Selectors: path expressions such as `/catalog//entry[@lang='en']` and the chains they stand for.
The pieces between slashes outside brackets are steps, except that a piece which is blank or a star
is a gap: the step behind it may match at any depth. Where gaps end the expression, a star among
them stands for any element, and a lone blank for nothing.
-/
import SubtreeHarvest.Failure
import SubtreeHarvest.Selector.Chain
import SubtreeHarvest.Text.Utf8

namespace SubtreeHarvest

open Text

structure Selector where
  expression : String
  chain : Chain
  deriving DecidableEq

namespace Selector

/-- Puts a character in front of the first of some pieces. -/
def consPiece (c : Char) : List (List Char) → List (List Char)
  | [] => [[c]]
  | piece :: pieces => (c :: piece) :: pieces

/-- The pieces between the slashes outside brackets, where `depth` brackets are open already. A
closing bracket that closes nothing does not count. -/
def pieces (depth : Nat) : List Char → List (List Char)
  | [] => [[]]
  | c :: cs =>
    if c == '/' && depth == 0 then [] :: pieces 0 cs
    else if c == '[' then consPiece c (pieces (depth + 1) cs)
    else if c == ']' then consPiece c (pieces (depth - 1) cs)
    else consPiece c (pieces depth cs)

/-- The piece that stands for any element. -/
def star : List Char := ['*']

def isGap (piece : List Char) : Bool :=
  piece.all isWhite || piece == star

/-- The step that a piece writes: a name, and bracket groups behind it. -/
def stepOfPiece (expression : String) (recursive : Bool) (piece : List Char) :
    Except Failure Step :=
  let name := piece.takeWhile (· != '[')
  let tail := piece.dropWhile (· != '[')
  let malformed reason :=
    .error (.malformedExpression expression
      ("segment " ++ quoted (String.ofList piece) ++ " has " ++ reason))
  if name.isEmpty then malformed "no element name"
  else if !tail.isEmpty && (byteLength tail < 3 || tail.getLast? != some ']') then
    malformed "an unterminated predicate"
  else
    .ok {
      name := if name == star then none else some (String.ofList name)
      predicate := if tail.isEmpty then none else some (Predicate.parse tail)
      recursive }

/-- What was read of the pieces of an expression so far. -/
structure ChainDraft where
  steps : List Step
  /-- How many gaps there are behind the last step. -/
  gaps : Nat
  /-- Whether a star is among them. -/
  starred : Bool

/-- The draft with one more piece. The step behind a gap is recursive. -/
def ChainDraft.add (expression : String) (draft : ChainDraft) (piece : List Char) : Except Failure ChainDraft :=
  if isGap piece then
    .ok { draft with gaps := draft.gaps + 1, starred := draft.starred || piece == star }
  else do
    let step ← stepOfPiece expression (0 < draft.gaps) piece
    return ⟨draft.steps ++ [step], 0, false⟩

/-- Steps linked to a chain, the last one first; `none` where there is no step. -/
def link : List Step → Option Chain
  | [] => none
  | step :: later =>
    match link later with
    | some chain => some ⟨step, chain.steps⟩
    | none => some ⟨step, []⟩

/-- The chain of a draft. One gap at its end is let pass, more need a star; a star, or the lack of any
step, stands for any element. -/
def ChainDraft.chain (expression : String) (draft : ChainDraft) : Except Failure Chain :=
  if 1 < draft.gaps && !draft.starred && !draft.steps.isEmpty then
    .error (.malformedExpression expression "expression ends in a descendant gap")
  else
    let steps :=
      if draft.starred || draft.steps.isEmpty then draft.steps ++ Chain.anyElement.steps
      else draft.steps
    match link steps with
    | some chain => .ok chain
    | none => .error (.malformedExpression expression "no segments")

/-- The chain that an expression writes. Behind the slash, nothing at all, one more slash or a star are
known by their looks. -/
def chainOf (expression : String) : Except Failure Chain :=
  if isBlank expression then .error (.malformedExpression expression "blank expression")
  else
    match expression.toList with
    | '/' :: rest =>
      if rest = [] ∨ rest = ['/'] ∨ rest = star then .ok Chain.anyElement
      else do
        let draft ← (pieces 0 rest).foldlM (ChainDraft.add expression) ⟨[], 0, false⟩
        draft.chain expression
    | _ => .error (.malformedExpression expression "expression must start with '/'")

def compile (expression : String) : Except Failure Selector := do
  let chain ← chainOf expression
  return ⟨expression, chain⟩

/-- Whether every element at the top of a document is selected. -/
def isAnyElement (selector : Selector) : Bool :=
  selector.chain == Chain.anyElement

end Selector

end SubtreeHarvest
