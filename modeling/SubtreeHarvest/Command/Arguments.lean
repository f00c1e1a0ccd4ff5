/-
The command line: a selector, perhaps the path of an input, and options. Arguments count from left
to right, so that the first thing wrong, or the first request for help or for the version, decides.
-/
import SubtreeHarvest.Extract.Matcher
import SubtreeHarvest.Number.Decimal
import SubtreeHarvest.Request

namespace SubtreeHarvest.Command

open Text

/-- Options that take a value. -/
inductive Setting
  | output
  | attr
  | child
  | maxDepth
  | maxFragmentSize
  deriving DecidableEq

/-- The settings by their names. -/
def Setting.named : List (List Char × Setting) :=
  [("output".toList, .output), ("attr".toList, .attr), ("child".toList, .child),
   ("max-depth".toList, .maxDepth), ("max-fragment-size".toList, .maxFragmentSize)]

/-- Why a command line asks for no run. -/
inductive Refusal
  | help
  | version
  | misuse
  deriving DecidableEq

/-- What was read of a command line so far. -/
structure Draft where
  selector : Option String
  input : Option String
  output : Option String
  wantsText : Bool
  attributes : List String
  children : List String
  maxDepth : Option Nat
  maxFragmentSize : Option Nat

namespace Draft

def empty : Draft :=
  ⟨none, none, none, false, [], [], none, none⟩

/-- A number in decimal digits, perhaps with a plus sign. -/
def natural? (cs : List Char) : Option Nat :=
  let digits := match cs with
    | '+' :: digits => digits
    | digits => digits
  if digits.isEmpty || !digits.all Number.isDigit then none else some (Number.ofDigits digits)

/-- A depth, which takes 16 bits. Zero may have a minus sign. -/
def depth? (cs : List Char) : Option Nat :=
  let value? := match cs with
    | '-' :: digits => if digits.all (· == '0') && !digits.isEmpty then some 0 else none
    | cs => natural? cs
  value?.filter (· < Nat.pow 2 16)

/-- A size, which takes 64 bits. -/
def size? (cs : List Char) : Option Nat :=
  (natural? cs).filter (· < Nat.pow 2 64)

/-- A setting given a value. Only attributes and children may be given again, and only they may be
empty. -/
def set (draft : Draft) (setting : Setting) (value : String) : Except Refusal Draft :=
  match setting with
  | .output =>
    if draft.output.isSome || value.isEmpty then .error .misuse
    else .ok { draft with output := some value }
  | .attr => .ok { draft with attributes := draft.attributes ++ [value] }
  | .child => .ok { draft with children := draft.children ++ [value] }
  | .maxDepth =>
    match draft.maxDepth, depth? value.toList with
    | none, some n => .ok { draft with maxDepth := some n }
    | _, _ => .error .misuse
  | .maxFragmentSize =>
    match draft.maxFragmentSize, size? value.toList with
    | none, some n => .ok { draft with maxFragmentSize := some n }
    | _, _ => .error .misuse

/-- An argument that belongs to no option: the selector first, then the input. -/
def place (draft : Draft) (argument : String) : Except Refusal Draft :=
  match draft.selector, draft.input with
  | none, _ => .ok { draft with selector := some argument }
  | some _, none =>
    if argument.isEmpty then .error .misuse else .ok { draft with input := some argument }
  | some _, some _ => .error .misuse

/-- Whether an argument is an option. A lone dash is none. -/
def isOption (argument : List Char) : Bool :=
  argument.head? == some '-' && argument != ['-']

/-- What an argument says by itself. -/
inductive Argument
  | operand
  | text
  | refused (refusal : Refusal)
  /-- A setting with its value. -/
  | given (setting : Setting) (value : List Char)
  /-- A setting whose value is the next argument. -/
  | awaiting (setting : Setting)

/-- An option with a long name, without its dashes. -/
def longOption (option : List Char) : Argument :=
  let name := option.takeWhile (· != '=')
  match option.dropWhile (· != '='), Setting.named.find? fun (n, _) => n == name with
  | [], some (_, setting) => .awaiting setting
  | _ :: value, some (_, setting) => .given setting value
  | [], none =>
    if name = "text".toList then .text
    else if name = "help".toList then .refused .help
    else if name = "version".toList then .refused .version
    else .refused .misuse
  | _ :: _, none => .refused .misuse

/-- An option with a short name, without its dash. -/
def shortOption : List Char → Argument
  | ['o'] => .awaiting .output
  | 'o' :: '=' :: value => .given .output value
  | 'o' :: value => .given .output value
  | 'h' :: _ => .refused .help
  | 'V' :: _ => .refused .version
  | _ => .refused .misuse

def classify (argument : List Char) : Argument :=
  if !isOption argument then .operand
  else
    match argument with
    | '-' :: '-' :: option => longOption option
    | _ => shortOption (argument.drop 1)

/-- The draft with the rest of a command line. Behind two dashes nothing is an option. -/
def read (draft : Draft) : List String → Except Refusal Draft
  | [] => .ok draft
  | argument :: rest =>
    if argument = "--" then rest.foldlM place draft
    else
      match classify argument.toList with
      | .operand => do read (← draft.place argument) rest
      | .text => if draft.wantsText then .error .misuse
        else read { draft with wantsText := true } rest
      | .refused refusal => .error refusal
      | .given setting value => do read (← draft.set setting (String.ofList value)) rest
      | .awaiting setting =>
        match rest with
        | [] => .error .misuse
        | value :: rest =>
          if isOption value.toList then .error .misuse
          else do read (← draft.set setting value) rest

end Draft

/-- A command line that asks for a run. -/
structure Arguments where
  selector : String
  /-- The path of the input; standard input if there is none. -/
  input : Option String
  /-- The path of the output; standard output if there is none. -/
  output : Option String
  wantsText : Bool
  attributes : List String
  children : List String
  limits : Limits

namespace Arguments

/-- Reads a command line, which must give a selector. Limits not given are no limits. -/
def parse (arguments : List String) : Except Refusal Arguments := do
  let draft ← Draft.empty.read arguments
  match draft.selector with
  | none => .error .misuse
  | some selector =>
    return {
      selector
      input := draft.input
      output := draft.output
      wantsText := draft.wantsText
      attributes := draft.attributes
      children := draft.children
      limits := ⟨draft.maxDepth.getD 0, draft.maxFragmentSize.getD 0⟩ }

/-- The request that the options make, if they make one: fragments are wanted as they are
otherwise. -/
def request? (arguments : Arguments) : Option Request :=
  if !arguments.wantsText && arguments.attributes.isEmpty && arguments.children.isEmpty then none
  else
    let request := Request.empty.askAttributes arguments.attributes
    let request := if arguments.wantsText then request.askText else request
    some (arguments.children.foldl (fun request child =>
      request.askChild child Request.empty.askText) request)

end Arguments

end SubtreeHarvest.Command
