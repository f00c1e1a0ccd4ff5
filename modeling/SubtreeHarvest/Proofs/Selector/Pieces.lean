/-
What the parts of an expression write. Groups in brackets are found one behind the other, pieces
end at slashes outside them, and a piece is a step if it has a name and its groups end where it
ends. One equation for each thing a function of the compiler can meet.
-/
import SubtreeHarvest.Proofs.Text.Cut
import SubtreeHarvest.Selector.Compile

namespace SubtreeHarvest

open Text

/-! ## Groups -/

namespace Predicate

theorem groups_nil : groups [] = [] := by
  rw [groups]; rfl

theorem groups_eq (tail : List Char) : groups tail =
    match tail.dropWhile (· != '[') with
    | [] => []
    | _ :: inner =>
      match inner.dropWhile (· != ']') with
      | [] => []
      | _ :: behind => inner.takeWhile (· != ']') :: groups behind := by
  rw [groups]
  split
  · rename_i ho; rw [ho]
  · rename_i ho
    rw [ho]
    dsimp only
    split <;> rename_i hc <;> rw [hc]

theorem groups_char {c : Char} (h : c ≠ '[') (cs : List Char) : groups (c :: cs) = groups cs := by
  have skip : (c :: cs).dropWhile (· != '[') = cs.dropWhile (· != '[') :=
    List.dropWhile_cons_of_pos (by simpa using h)
  rw [groups_eq, skip, ← groups_eq]

theorem groups_group {group : List Char} (h : ']' ∉ group) (cs : List Char) :
    groups ('[' :: (group ++ ']' :: cs)) = group :: groups cs := by
  have inside : ∀ c ∈ group, (c != ']') = true := fun c hc => by
    simpa using fun e : c = ']' => h (e ▸ hc)
  obtain ⟨taken, left⟩ := @span_of_stop _ _ _ inside (']' :: cs) fun c hc => by cases hc; rfl
  have opened : ('[' :: (group ++ ']' :: cs)).dropWhile (· != '[') = '[' :: (group ++ ']' :: cs) := rfl
  rw [groups_eq, opened]
  simp only [taken, left]

/-- One group writes one test, or none. -/
theorem parse_group (group : List Char) (h : ']' ∉ group) :
    parse ('[' :: (group ++ [']'])) = .all (ofGroup? group).toList := by
  rw [parse, groups_group h, groups_nil, List.filterMap_cons, List.filterMap_nil]
  cases ofGroup? group <;> rfl

end Predicate

namespace Selector

/-! ## Pieces -/

/-- Puts characters in front of the first of some pieces. -/
def prependPiece (front : List Char) (pieces : List (List Char)) : List (List Char) :=
  front.foldr consPiece pieces

theorem prependPiece_cons : ∀ (front piece : List Char) (pieces : List (List Char)),
    prependPiece front (piece :: pieces) = (front ++ piece) :: pieces
  | [], _, _ => rfl
  | c :: front, piece, pieces => by
    have inner := prependPiece_cons front piece pieces
    rw [prependPiece] at inner ⊢
    rw [List.foldr_cons, inner]
    rfl

theorem consPiece_ne_nil (c : Char) (pieces : List (List Char)) : consPiece c pieces ≠ [] := by
  cases pieces <;> exact List.cons_ne_nil _ _

theorem pieces_ne_nil (depth : Nat) : ∀ cs, pieces depth cs ≠ []
  | [] => List.cons_ne_nil _ _
  | c :: cs => by
    rw [pieces]
    split
    · exact List.cons_ne_nil _ _
    · split
      · exact consPiece_ne_nil _ _
      · split <;> exact consPiece_ne_nil _ _

theorem pieces_opening (depth : Nat) (cs : List Char) :
    pieces depth ('[' :: cs) = consPiece '[' (pieces (depth + 1) cs) := rfl

theorem pieces_closing (depth : Nat) (cs : List Char) :
    pieces depth (']' :: cs) = consPiece ']' (pieces (depth - 1) cs) := rfl

theorem pieces_slash (cs : List Char) : pieces 0 ('/' :: cs) = [] :: pieces 0 cs := rfl

/-- A character that is no bracket, and no slash outside brackets. -/
theorem pieces_plain {c : Char} {depth : Nat} (ho : c ≠ '[') (hc : c ≠ ']')
    (hs : c ≠ '/' ∨ depth ≠ 0) (cs : List Char) :
    pieces depth (c :: cs) = consPiece c (pieces depth cs) := by
  have inside : (c == '/' && depth == 0) = false := by
    rcases hs with hs | hs
    · simp [hs]
    · simp [hs]
  simp [pieces, inside, ho, hc]

/-- No piece ends inside a group, and the brackets opened in it are open behind it. -/
theorem pieces_inside : ∀ {group : List Char} (depth : Nat) (cs : List Char), ']' ∉ group →
    pieces (depth + 1) (group ++ ']' :: cs) =
      prependPiece (group ++ [']']) (pieces (depth + group.count '[') cs)
  | [], _, _, _ => rfl
  | c :: group, depth, cs, h => by
    rw [List.mem_cons, not_or] at h
    rw [List.cons_append, List.cons_append, prependPiece, List.foldr_cons]
    by_cases ho : c = '['
    · subst ho
      rw [pieces_opening, pieces_inside (depth + 1) cs h.2, List.count_cons_self, Nat.add_right_comm]
      rfl
    · rw [pieces_plain ho (Ne.symm h.1) (.inr (Nat.succ_ne_zero depth)), pieces_inside depth cs h.2,
        List.count_cons_of_ne ho]
      rfl

theorem pieces_group {group : List Char} (depth : Nat) (cs : List Char) (h : ']' ∉ group) :
    pieces depth ('[' :: (group ++ ']' :: cs)) =
      prependPiece ('[' :: (group ++ [']'])) (pieces (depth + group.count '[') cs) := by
  rw [pieces_opening, pieces_inside depth cs h]
  rfl

theorem not_mem_of_isGap {piece : List Char} (h : isGap piece = true) : '[' ∉ piece := by
  intro hm
  rw [isGap, Bool.or_eq_true] at h
  rcases h with white | star
  · exact absurd (List.all_eq_true.1 white _ hm) (by decide)
  · rw [eq_of_beq star] at hm
    exact absurd hm (by decide)

/-! ## Steps -/

/-- The piece has a name, and its groups end where it ends. -/
structure IsStep (piece : List Char) : Prop where
  named : (piece.takeWhile (· != '[')).isEmpty = false
  closed : (piece.dropWhile (· != '[')).isEmpty = true ∨
    3 ≤ byteLength (piece.dropWhile (· != '[')) ∧ (piece.dropWhile (· != '[')).getLast? = some ']'

/-- The step that such a piece writes. -/
def writtenStep (recursive : Bool) (piece : List Char) : Step where
  name :=
    if piece.takeWhile (· != '[') == star then none
    else some (String.ofList (piece.takeWhile (· != '[')))
  predicate :=
    if (piece.dropWhile (· != '[')).isEmpty then none
    else some (Predicate.parse (piece.dropWhile (· != '[')))
  recursive

variable {expression : String} {recursive : Bool} {piece : List Char}

theorem stepOfPiece_of_isStep (h : IsStep piece) :
    stepOfPiece expression recursive piece = .ok (writtenStep recursive piece) := by
  have closed : (!(piece.dropWhile (· != '[')).isEmpty &&
      (byteLength (piece.dropWhile (· != '[')) < 3 ||
        (piece.dropWhile (· != '[')).getLast? != some ']')) = false := by
    rcases h.closed with none | ⟨long, last⟩
    · rw [none]; rfl
    · rw [last]
      simpa using fun _ => long
  simp only [stepOfPiece, h.named, closed, Bool.false_eq_true, if_false, writtenStep]

theorem exists_error_of_not_isStep (h : ¬ IsStep piece) :
    ∃ failure, stepOfPiece expression recursive piece = .error failure := by
  unfold stepOfPiece
  dsimp only
  split
  · exact ⟨_, rfl⟩
  · rename_i named
    split
    · exact ⟨_, rfl⟩
    · rename_i closed
      refine absurd ⟨by simpa using named, ?_⟩ h
      by_cases none : (piece.dropWhile (· != '[')).isEmpty = true
      · exact .inl none
      · rw [Bool.not_eq_true] at none
        simpa [none] using closed

/-- Characters that begin with an opening bracket and end with a closing one, and are not only
these two, take at least three bytes. -/
theorem three_le_byteLength {tail : List Char} (ho : tail.head? = some '[')
    (hc : tail.getLast? = some ']') (hn : tail ≠ ['[', ']']) : 3 ≤ byteLength tail := by
  match tail with
  | [] => cases ho
  | [c] => cases ho; cases hc
  | [c, d] => cases ho; cases hc; exact absurd rfl hn
  | c :: d :: e :: tail =>
    have h₁ := Char.utf8Size_pos c
    have h₂ := Char.utf8Size_pos d
    have h₃ := Char.utf8Size_pos e
    simp only [byteLength, List.foldr_cons]
    omega

/-- What stands behind the name of a piece begins with a bracket. -/
theorem head?_dropWhile {last : Char} (h : (piece.dropWhile (· != '[')).getLast? = some last) :
    (piece.dropWhile (· != '[')).head? = some '[' := by
  have stop := List.head?_dropWhile_not (· != '[') piece
  cases ht : piece.dropWhile (· != '[') with
  | nil => rw [ht] at h; cases h
  | cons c tail =>
    rw [ht] at stop
    simpa using stop

/-- An empty group behind a name is too short. -/
theorem exists_error_of_empty (h : piece.dropWhile (· != '[') = ['[', ']']) :
    ∃ failure, stepOfPiece expression recursive piece = .error failure := by
  refine exists_error_of_not_isStep fun hp => ?_
  rcases hp.closed with none | ⟨long, -⟩
  · rw [h] at none; cases none
  · rw [h] at long
    exact absurd long (by decide)

/-! ## Pieces one by one -/

/-- The steps that pieces write behind the gaps `gaps`, and the gaps at their end. -/
def stepsOfPieces (expression : String) (gaps : List (List Char)) :
    List (List Char) → Except Failure (List Step × List (List Char))
  | [] => .ok ([], gaps)
  | piece :: more =>
    if isGap piece then stepsOfPieces expression (gaps ++ [piece]) more
    else do
      let step ← stepOfPiece expression (!gaps.isEmpty) piece
      let (steps, trailing) ← stepsOfPieces expression [] more
      return (step :: steps, trailing)

/-- The chain of the pieces of an expression. -/
def chainOfPieces (expression : String) (pieces : List (List Char)) : Except Failure Chain := do
  let (steps, trailing) ← stepsOfPieces expression [] pieces
  match steps with
  | [] => return Chain.anyElement
  | first :: later =>
    if trailing.contains star then return ⟨first, later ++ Chain.anyElement.steps⟩
    else if 1 < trailing.length then
      .error (.malformedExpression expression "expression ends in a descendant gap")
    else return ⟨first, later⟩

variable {gaps more : List (List Char)}

theorem stepsOfPieces_gap (hg : isGap piece = true) :
    stepsOfPieces expression gaps (piece :: more) =
      stepsOfPieces expression (gaps ++ [piece]) more := by
  rw [stepsOfPieces, hg, if_pos rfl]

/-- A piece that is no gap is a step, recursive behind gaps, and the gaps begin anew behind it. -/
theorem stepsOfPieces_step (hg : isGap piece = false) :
    stepsOfPieces expression gaps (piece :: more) =
      (stepOfPiece expression (!gaps.isEmpty) piece).bind fun step =>
        (stepsOfPieces expression [] more).map fun (steps, trailing) => (step :: steps, trailing) := by
  rw [stepsOfPieces, hg]
  cases stepOfPiece expression (!gaps.isEmpty) piece with
  | error failure => rfl
  | ok step => cases stepsOfPieces expression [] more <;> rfl

/-- The draft that goes along the pieces counts the gaps at their end, and knows whether a star is among
them. -/
theorem foldlM_add (expression : String) : ∀ (parts gaps : List (List Char)) (steps : List Step),
    parts.foldlM (ChainDraft.add expression) ⟨steps, gaps.length, gaps.contains star⟩ =
      (stepsOfPieces expression gaps parts).map fun (written, trailing) =>
        ⟨steps ++ written, trailing.length, trailing.contains star⟩
  | [], gaps, steps => by
    simp [stepsOfPieces, Except.map, pure, Except.pure]
  | piece :: parts, gaps, steps => by
    rw [List.foldlM_cons]
    cases gap : isGap piece with
    | true =>
      have added : ChainDraft.add expression ⟨steps, gaps.length, gaps.contains star⟩ piece =
          .ok ⟨steps, (gaps ++ [piece]).length, (gaps ++ [piece]).contains star⟩ := by
        have last : (gaps ++ [piece]).contains star = (gaps.contains star || piece == star) := by
          rw [List.contains_append, List.contains_cons, List.contains_nil, Bool.or_false, Bool.beq_comm]
        rw [ChainDraft.add, gap, if_pos rfl, last, List.length_append, List.length_singleton]
      rw [stepsOfPieces_gap gap, added, ← foldlM_add expression parts (gaps ++ [piece]) steps]
      rfl
    | false =>
      have behind : decide (0 < gaps.length) = !gaps.isEmpty := by
        cases gaps <;> rfl
      rw [stepsOfPieces_step gap, ChainDraft.add, gap, if_neg Bool.false_ne_true, behind]
      cases stepOfPiece expression (!gaps.isEmpty) piece with
      | error failure => rfl
      | ok step =>
        have later := foldlM_add expression parts [] (steps ++ [step])
        refine Eq.trans later ?_
        cases stepsOfPieces expression [] parts with
        | error failure => rfl
        | ok written => simp [Except.map, Except.bind]

theorem link_cons (step : Step) : ∀ later : List Step, link (step :: later) = some ⟨step, later⟩
  | [] => rfl
  | next :: later => by rw [link, link_cons next later]; rfl

/-- A draft without steps stands for any element, whatever gaps it has. -/
theorem chain_nil (expression : String) (gaps : Nat) (starred : Bool) :
    ChainDraft.chain expression ⟨[], gaps, starred⟩ = .ok Chain.anyElement := by
  rw [ChainDraft.chain, List.isEmpty_nil, Bool.not_true, Bool.and_false, if_neg Bool.false_ne_true, Bool.or_true,
    if_pos rfl]
  rfl

theorem chain_cons (expression : String) (first : Step) (later : List Step) (gaps : Nat) (starred : Bool) :
    ChainDraft.chain expression ⟨first :: later, gaps, starred⟩ =
      if starred then .ok ⟨first, later ++ Chain.anyElement.steps⟩
      else if 1 < gaps then .error (.malformedExpression expression "expression ends in a descendant gap")
      else .ok ⟨first, later⟩ := by
  rw [ChainDraft.chain, List.isEmpty_cons, Bool.not_false, Bool.and_true, Bool.or_false]
  cases starred with
  | true => simp only [Bool.not_true, Bool.and_false, Bool.false_eq_true, if_false, if_true, List.cons_append,
      link_cons]
  | false => simp only [Bool.not_false, Bool.and_true, decide_eq_true_eq, Bool.false_eq_true, if_false,
      link_cons]

/-- Going along the pieces with a draft comes to their chain. -/
theorem chain_eq (expression : String) (parts : List (List Char)) :
    (parts.foldlM (ChainDraft.add expression) ⟨[], 0, false⟩).bind (ChainDraft.chain expression) =
      chainOfPieces expression parts := by
  have drafted := foldlM_add expression parts [] []
  rw [List.length_nil, List.contains_nil] at drafted
  rw [drafted, chainOfPieces]
  cases stepsOfPieces expression [] parts with
  | error failure => rfl
  | ok written =>
    obtain ⟨steps, trailing⟩ := written
    cases steps with
    | nil => exact chain_nil expression _ _
    | cons first later => exact chain_cons expression first later _ _

/-! ## Expressions -/

/-- What is known by its looks is compiled to the same from its pieces. -/
theorem chainOfPieces_short {rest : List Char} (h : rest = [] ∨ rest = ['/'] ∨ rest = star) :
    chainOfPieces expression (pieces 0 rest) = .ok Chain.anyElement := by
  rcases h with rfl | rfl | rfl <;> rfl

/-- An expression that begins with a slash is compiled from its pieces. -/
theorem compile_of_slash {rest : List Char} (h : expression.toList = '/' :: rest) :
    compile expression =
      (chainOfPieces expression (pieces 0 rest)).map fun chain => ⟨expression, chain⟩ := by
  have filled : isBlank expression = false := by
    rw [isBlank, h, List.all_cons]
    rfl
  have chain : chainOf expression = chainOfPieces expression (pieces 0 rest) := by
    rw [chainOf, filled, h, if_neg Bool.false_ne_true]
    show (if rest = [] ∨ rest = ['/'] ∨ rest = star then .ok Chain.anyElement
      else ((pieces 0 rest).foldlM (ChainDraft.add expression) ⟨[], 0, false⟩).bind
        (ChainDraft.chain expression)) = _
    by_cases short : rest = [] ∨ rest = ['/'] ∨ rest = star
    · rw [if_pos short, chainOfPieces_short short]
    · rw [if_neg short, chain_eq]
  rw [compile, chain]
  cases chainOfPieces expression (pieces 0 rest) <;> rfl

theorem exists_slash_of_compile {selector : Selector} (h : compile expression = .ok selector) :
    ∃ rest, expression.toList = '/' :: rest := by
  cases hc : chainOf expression with
  | error failure => rw [compile, hc] at h; cases h
  | ok chain =>
    unfold chainOf at hc
    split at hc
    · cases hc
    · split at hc
      · rename_i rest he; exact ⟨rest, he⟩
      · cases hc

end Selector

end SubtreeHarvest
