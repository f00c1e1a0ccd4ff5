/-
Which expressions are compiled, and to what. An expression is cut at the slashes at which no bracket
is open, counted from the beginning; the parts between them are the pieces, for every text and
however its brackets stand. A piece that is no gap is a step of the chain, in order, and a gap in
front of it makes it recursive. An expression is refused exactly if it does not begin with a slash,
if a piece that is no gap has no name or an unfinished group, or if steps are followed by two or
more gaps and no star among these.
-/
import Mathlib.Data.List.DropRight
import SubtreeHarvest.Proofs.Selector.Pieces

namespace SubtreeHarvest

open Text

namespace Selector

/-! ## Cuts -/

/-- How many brackets are open behind a character, with `depth` open in front of it. A closing
bracket that closes nothing does not count. -/
def openBehind (depth : Nat) (c : Char) : Nat :=
  if c = '[' then depth + 1 else if c = ']' then depth - 1 else depth

/-- Every slash among some characters stands inside brackets, with `depth` open in front of them. -/
def Uncut (depth : Nat) (cs : List Char) : Prop :=
  ∀ front behind, cs = front ++ '/' :: behind → front.foldl openBehind depth ≠ 0

/-- Characters and the parts of them between the slashes outside brackets, with `depth` brackets
open in front of the characters. -/
inductive Parted : Nat → List Char → List (List Char) → Prop
  | last {depth : Nat} {piece : List Char} : Uncut depth piece → Parted depth piece [piece]
  | cut {depth : Nat} {piece cs : List Char} {parts : List (List Char)} :
      Uncut depth piece → piece.foldl openBehind depth = 0 → Parted 0 cs parts →
      Parted depth (piece ++ '/' :: cs) (piece :: parts)

variable {depth : Nat} {c : Char} {cs piece : List Char} {parts : List (List Char)}

theorem uncut_nil (depth : Nat) : Uncut depth [] := by
  intro front behind h
  cases front <;> cases h

theorem uncut_cons :
    Uncut depth (c :: cs) ↔ (c = '/' → depth ≠ 0) ∧ Uncut (openBehind depth c) cs := by
  constructor
  · intro h
    refine ⟨?_, fun front behind he => h (c :: front) behind (he ▸ rfl)⟩
    rintro rfl
    exact h [] cs rfl
  · rintro ⟨hc, h⟩ front behind he
    cases front with
    | nil => cases he; exact hc rfl
    | cons d front => cases he; exact h front behind rfl

/-- A character at which nothing is cut. -/
theorem pieces_char (h : c = '/' → depth ≠ 0) (cs : List Char) :
    pieces depth (c :: cs) = consPiece c (pieces (openBehind depth c) cs) := by
  by_cases ho : c = '['
  · subst ho; rfl
  by_cases hc : c = ']'
  · subst hc; rfl
  have plain : openBehind depth c = depth := by rw [openBehind, if_neg ho, if_neg hc]
  rw [plain, pieces_plain ho hc (by by_cases hs : c = '/' <;> simp_all)]

theorem pieces_uncut : ∀ {piece : List Char} {depth : Nat} (cs : List Char), Uncut depth piece →
    pieces depth (piece ++ cs) = prependPiece piece (pieces (piece.foldl openBehind depth) cs)
  | [], _, _, _ => rfl
  | c :: piece, depth, cs, h => by
    obtain ⟨hc, h⟩ := uncut_cons.1 h
    rw [List.cons_append, pieces_char hc, pieces_uncut cs h]
    rfl

/-- The parts are the pieces that an expression is compiled from. -/
theorem Parted.pieces_eq (h : Parted depth cs parts) : pieces depth cs = parts := by
  induction h with
  | @last depth piece hu =>
    rw [← List.append_nil piece, pieces_uncut [] hu, pieces, prependPiece_cons]
  | @cut depth piece cs parts hu ho _ ih =>
    rw [pieces_uncut _ hu, ho, pieces_slash, ih, prependPiece_cons, List.append_nil]

theorem Parted.cons (hc : c = '/' → depth ≠ 0) (h : Parted (openBehind depth c) cs parts) :
    Parted depth (c :: cs) (consPiece c parts) := by
  cases h with
  | last hu => exact .last (uncut_cons.2 ⟨hc, hu⟩)
  | @cut _ piece cs parts hu ho hp =>
    exact @Parted.cut depth (c :: piece) cs parts (uncut_cons.2 ⟨hc, hu⟩) ho hp

/-- Every text has such parts. -/
theorem parted_pieces (depth : Nat) (cs : List Char) : Parted depth cs (pieces depth cs) := by
  induction cs generalizing depth with
  | nil => exact .last (uncut_nil depth)
  | cons c cs ih =>
    by_cases hc : c = '/' → depth ≠ 0
    · rw [pieces_char hc]
      exact (ih _).cons hc
    · obtain ⟨rfl, hd⟩ := Classical.not_imp.1 hc
      obtain rfl : depth = 0 := not_not.1 hd
      exact .cut (uncut_nil 0) rfl (ih 0)

/-! ## Steps -/

/-- The steps that pieces write; `before` is the piece in front of them, if there is one. -/
def writtenSteps (before : Option (List Char)) (parts : List (List Char)) : List Step :=
  ((before :: parts.map some).zip parts).filterMap fun pair =>
    if isGap pair.2 then none else some (writtenStep (pair.1.any isGap) pair.2)

variable {expression : String}

theorem writtenSteps_gap (h : isGap piece = true) (before : Option (List Char))
    (parts : List (List Char)) :
    writtenSteps before (piece :: parts) = writtenSteps (some piece) parts := by
  refine List.filterMap_cons_none ?_
  exact if_pos h

theorem writtenSteps_step (h : isGap piece = false) (before : Option (List Char))
    (parts : List (List Char)) : writtenSteps before (piece :: parts) =
      writtenStep (before.any isGap) piece :: writtenSteps (some piece) parts := by
  refine List.filterMap_cons_some ?_
  exact if_neg (Bool.eq_false_iff.1 h)

/-- Nothing is written exactly where there are only gaps. -/
theorem writtenSteps_eq_nil {before : Option (List Char)} {parts : List (List Char)} :
    writtenSteps before parts = [] ↔ ∀ piece ∈ parts, isGap piece = true := by
  induction parts generalizing before with
  | nil => exact iff_of_true rfl nofun
  | cons piece parts ih =>
    rw [List.forall_mem_cons]
    cases gap : isGap piece with
    | true => rw [writtenSteps_gap gap, ih, eq_self, true_and]
    | false => rw [writtenSteps_step gap]; exact iff_of_false nofun nofun

/-- What stands in front of an item that fails a test does not bear on the run at the end. -/
theorem rtakeWhile_behind {α : Type} {p : α → Bool} {a : α} (ha : p a = false)
    (front behind : List α) : (front ++ a :: behind).rtakeWhile p = behind.rtakeWhile p := by
  induction behind using List.reverseRecOn with
  | nil => rw [List.rtakeWhile_concat_neg _ _ _ (by simp [ha])]; rfl
  | append_singleton behind b ih =>
    rw [← List.cons_append, ← List.append_assoc, List.rtakeWhile_concat, List.rtakeWhile_concat, ih]

/-- Pieces that are gaps or steps write their steps, and leave the gaps at their end. -/
theorem stepsOfPieces_eq_ok : ∀ {parts gaps : List (List Char)} (before : Option (List Char)),
    (∀ gap ∈ gaps, isGap gap = true) → before.any isGap = !gaps.isEmpty →
    (∀ piece ∈ parts, isGap piece = false → IsStep piece) →
      stepsOfPieces expression gaps parts =
        .ok (writtenSteps before parts, (gaps ++ parts).rtakeWhile isGap)
  | [], gaps, before, hg, _, _ => by
    rw [stepsOfPieces, List.append_nil, List.rtakeWhile_eq_self_iff.2 hg]
    rfl
  | piece :: parts, gaps, before, hg, hb, hp => by
    obtain ⟨first, hp⟩ := List.forall_mem_cons.1 hp
    cases gap : isGap piece with
    | true =>
      have more : ∀ g ∈ gaps ++ [piece], isGap g = true := by
        intro g h
        rcases List.mem_append.1 h with h | h
        · exact hg g h
        · rw [List.mem_singleton.1 h, gap]
      rw [stepsOfPieces_gap gap, writtenSteps_gap gap,
        stepsOfPieces_eq_ok (some piece) more (by simp [gap]) hp, List.append_assoc]
      rfl
    | false =>
      rw [stepsOfPieces_step gap, stepOfPiece_of_isStep (first gap), writtenSteps_step gap, hb,
        rtakeWhile_behind gap, stepsOfPieces_eq_ok (some piece) (by simp) (by simp [gap]) hp]
      rfl

/-- A piece that is neither a gap nor a step is refused. -/
theorem exists_error_of_stepsOfPieces : ∀ {parts gaps : List (List Char)},
    (∃ piece ∈ parts, isGap piece = false ∧ ¬ IsStep piece) →
      ∃ failure, stepsOfPieces expression gaps parts = .error failure
  | [], _, h => absurd h (by simp)
  | piece :: parts, gaps, h => by
    cases gap : isGap piece with
    | true =>
      rw [stepsOfPieces_gap gap]
      refine exists_error_of_stepsOfPieces ?_
      obtain ⟨other, hm, hg, hs⟩ := h
      rcases List.mem_cons.1 hm with rfl | hm
      · exact absurd (gap.symm.trans hg) nofun
      · exact ⟨other, hm, hg, hs⟩
    | false =>
      rw [stepsOfPieces_step gap]
      by_cases hs : IsStep piece
      · have later : ∃ other ∈ parts, isGap other = false ∧ ¬ IsStep other := by
          obtain ⟨other, hm, hg, hn⟩ := h
          rcases List.mem_cons.1 hm with rfl | hm
          · exact absurd hs hn
          · exact ⟨other, hm, hg, hn⟩
        obtain ⟨failure, he⟩ := @exists_error_of_stepsOfPieces parts [] later
        exact ⟨failure, by rw [stepOfPiece_of_isStep hs, he]; rfl⟩
      · obtain ⟨failure, he⟩ := @exists_error_of_not_isStep expression (!gaps.isEmpty) piece hs
        exact ⟨failure, by rw [he]; rfl⟩

/-! ## Failures -/

variable {failure : Failure}

/-- A failure says for which reason an expression is malformed. -/
theorem malformedExpression_inj {reason other : String}
    (h : Failure.malformedExpression expression reason = .malformedExpression expression other) :
    reason = other := by
  have said := congrArg Failure.message h
  exact (String.append_right_inj _).1 said

theorem reason_of_stepOfPiece {recursive : Bool}
    (h : stepOfPiece expression recursive piece = .error failure) :
    ∃ reason, failure = .malformedExpression expression ("segment " ++ reason) := by
  unfold stepOfPiece at h
  dsimp only at h
  split at h
  · cases h
    exact ⟨_, congrArg _ (by rw [String.append_assoc, String.append_assoc])⟩
  · split at h
    · cases h
      exact ⟨_, congrArg _ (by rw [String.append_assoc, String.append_assoc])⟩
    · cases h

theorem reason_of_stepsOfPieces : ∀ {parts gaps : List (List Char)},
    stepsOfPieces expression gaps parts = .error failure →
      ∃ reason, failure = .malformedExpression expression ("segment " ++ reason)
  | [], _, h => nomatch h
  | piece :: parts, gaps, h => by
    cases gap : isGap piece with
    | true =>
      rw [stepsOfPieces_gap gap] at h
      exact reason_of_stepsOfPieces h
    | false =>
      rw [stepsOfPieces_step gap] at h
      cases hs : stepOfPiece expression (!gaps.isEmpty) piece with
      | error refused =>
        rw [hs] at h
        cases h
        exact reason_of_stepOfPiece hs
      | ok step =>
        rw [hs] at h
        cases ht : stepsOfPieces expression [] parts with
        | error refused =>
          rw [ht] at h
          cases h
          exact reason_of_stepsOfPieces ht
        | ok written => rw [ht] at h; cases h

/-! ## Chains -/

/-- The gaps behind a step are too many, and none of them is a star. -/
def Unended (parts : List (List Char)) : Prop :=
  (∃ piece ∈ parts, isGap piece = false) ∧ 2 ≤ (parts.rtakeWhile isGap).length ∧
    star ∉ parts.rtakeWhile isGap

/-- Behind the steps that are written, the chain has one for any element if there are none, or if a
star is among the gaps at the end. -/
def chainSteps (parts : List (List Char)) : List Step :=
  writtenSteps none parts ++
    if (∀ piece ∈ parts, isGap piece = true) ∨ star ∈ parts.rtakeWhile isGap then
      Chain.anyElement.steps
    else []

theorem chainOfPieces_of_isStep (hp : ∀ piece ∈ parts, isGap piece = false → IsStep piece) :
    chainOfPieces expression parts =
      match writtenSteps none parts with
      | [] => .ok Chain.anyElement
      | first :: later =>
        if star ∈ parts.rtakeWhile isGap then .ok ⟨first, later ++ Chain.anyElement.steps⟩
        else if 1 < (parts.rtakeWhile isGap).length then
          .error (.malformedExpression expression "expression ends in a descendant gap")
        else .ok ⟨first, later⟩ := by
  rw [chainOfPieces, @stepsOfPieces_eq_ok expression parts [] none (by simp) rfl hp]
  simp only [List.nil_append, List.contains_iff_mem]
  rfl

theorem chainOfPieces_unended (hp : ∀ piece ∈ parts, isGap piece = false → IsStep piece)
    (h : Unended parts) : chainOfPieces expression parts =
      .error (.malformedExpression expression "expression ends in a descendant gap") := by
  obtain ⟨⟨piece, hm, hs⟩, long, plain⟩ := h
  rw [chainOfPieces_of_isStep hp]
  cases hw : writtenSteps none parts with
  | nil => exact absurd ((writtenSteps_eq_nil.1 hw piece hm).symm.trans hs) nofun
  | cons first later => simp only [if_neg plain, if_pos (show 1 < _ from long)]

theorem chainOfPieces_ended (hp : ∀ piece ∈ parts, isGap piece = false → IsStep piece)
    (h : ¬ Unended parts) :
    ∃ chain, chainOfPieces expression parts = .ok chain ∧ chain.steps = chainSteps parts := by
  rw [chainOfPieces_of_isStep hp, chainSteps]
  cases hw : writtenSteps none parts with
  | nil =>
    rw [if_pos (.inl (writtenSteps_eq_nil.1 hw))]
    exact ⟨_, rfl, rfl⟩
  | cons first later =>
    have step : ¬ ∀ piece ∈ parts, isGap piece = true := by
      rw [← @writtenSteps_eq_nil none, hw]
      exact nofun
    by_cases starred : star ∈ parts.rtakeWhile isGap
    · simp only [if_pos starred, if_pos (Or.inr starred)]
      exact ⟨_, rfl, rfl⟩
    · have short : ¬ 1 < (parts.rtakeWhile isGap).length := fun long =>
        h ⟨by simpa using step, long, starred⟩
      rw [if_neg (not_or.2 ⟨step, starred⟩), List.append_nil]
      simp only [if_neg starred, if_neg short]
      exact ⟨_, rfl, rfl⟩

/-! ## Expressions -/

/-- Why an expression is refused. -/
inductive Refused (expression : String) : Prop
  | blank : isBlank expression = true → Refused expression
  | slashless : expression.toList.head? ≠ some '/' → Refused expression
  /-- A piece that is no gap has no name, or its groups do not end where it ends. -/
  | unreadable {rest : List Char} {parts : List (List Char)} {piece : List Char} :
      expression.toList = '/' :: rest → Parted 0 rest parts → piece ∈ parts →
      isGap piece = false → ¬ IsStep piece → Refused expression
  | unended {rest : List Char} {parts : List (List Char)} :
      expression.toList = '/' :: rest → Parted 0 rest parts → Unended parts → Refused expression

/-- The expression has these parts, and the chain the steps that they write. -/
structure Written (expression : String) (chain : Chain) (parts : List (List Char)) : Prop where
  parted : ∃ rest, expression.toList = '/' :: rest ∧ Parted 0 rest parts
  readable : ∀ piece ∈ parts, isGap piece = false → IsStep piece
  ended : ¬ Unended parts
  steps : chain.steps = chainSteps parts

theorem compile_blank (h : isBlank expression = true) :
    compile expression = .error (.malformedExpression expression "blank expression") := by
  rw [compile, chainOf, if_pos h]
  rfl

theorem compile_slashless (hb : isBlank expression = false)
    (h : expression.toList.head? ≠ some '/') : compile expression =
      .error (.malformedExpression expression "expression must start with '/'") := by
  have refused : chainOf expression =
      .error (.malformedExpression expression "expression must start with '/'") := by
    rw [chainOf, hb, if_neg Bool.false_ne_true]
    split
    · rename_i he
      rw [he] at h
      exact absurd rfl h
    · rfl
  rw [compile, refused]
  rfl

theorem Written.not_refused {chain : Chain} (h : Written expression chain parts) :
    ¬ Refused expression := by
  obtain ⟨rest, he, parted⟩ := h.parted
  -- the parts are the same ones, whatever the expression is refused for
  have same : ∀ {rest' : List Char} {parts' : List (List Char)},
      expression.toList = '/' :: rest' → Parted 0 rest' parts' → parts' = parts := by
    intro rest' parts' he' parted'
    obtain rfl : rest' = rest := List.tail_eq_of_cons_eq (he'.symm.trans he)
    exact parted'.pieces_eq.symm.trans parted.pieces_eq
  rintro (blank | slashless | ⟨he', parted', hm, gap, hs⟩ | ⟨he', parted', unended⟩)
  · rw [isBlank, he, List.all_cons, Bool.and_eq_true] at blank
    exact absurd blank.1 (by decide)
  · exact slashless (by rw [he]; rfl)
  · exact hs (h.readable _ (same he' parted' ▸ hm) gap)
  · exact h.ended (same he' parted' ▸ unended)

/-- An expression is refused for a reason, or compiled. -/
theorem compile_cases (expression : String) :
    (Refused expression ∧ ∃ reason, reason ≠ "no segments" ∧
        compile expression = .error (.malformedExpression expression reason)) ∨
      ∃ chain parts, Written expression chain parts ∧
        compile expression = .ok ⟨expression, chain⟩ := by
  by_cases blank : isBlank expression = true
  · exact .inl ⟨.blank blank, _, by decide, compile_blank blank⟩
  by_cases slash : expression.toList.head? = some '/'
  swap
  · exact .inl ⟨.slashless slash, _, by decide, compile_slashless (Bool.eq_false_iff.2 blank) slash⟩
  obtain ⟨rest, he⟩ := List.head?_eq_some_iff.1 slash
  have parted := parted_pieces 0 rest
  rw [compile_of_slash he]
  by_cases readable : ∀ piece ∈ pieces 0 rest, isGap piece = false → IsStep piece
  · by_cases unended : Unended (pieces 0 rest)
    · refine .inl ⟨.unended he parted unended, "expression ends in a descendant gap", ?_, ?_⟩
      · decide
      · rw [chainOfPieces_unended readable unended]; rfl
    · obtain ⟨chain, hc, steps⟩ := chainOfPieces_ended readable unended
      exact .inr ⟨chain, _, ⟨⟨rest, he, parted⟩, readable, unended, steps⟩, by rw [hc]; rfl⟩
  · push Not at readable
    obtain ⟨piece, hm, gap, hs⟩ := readable
    obtain ⟨failure, hf⟩ := @exists_error_of_stepsOfPieces expression _ [] ⟨piece, hm, gap, hs⟩
    obtain ⟨reason, rfl⟩ := reason_of_stepsOfPieces hf
    refine .inl ⟨.unreadable he parted hm gap hs, "segment " ++ reason, ?_, ?_⟩
    · intro h
      have first := congrArg (·.toList.head?) h
      simp at first
    · rw [chainOfPieces, hf]; rfl

/-- An expression is compiled unless it is refused, and then the chain has a step for each piece
that is no gap. A failure is always that of a malformed expression, and never for lack of steps. -/
theorem compile_parted (expression : String) :
    ((∃ failure, compile expression = .error failure) ↔ Refused expression) ∧
      (∀ failure, compile expression = .error failure →
        failure.kind = .malformedExpression expression ∧
          failure ≠ .malformedExpression expression "no segments") ∧
      (∀ selector, compile expression = .ok selector → selector.expression = expression ∧
        ∃ parts, Written expression selector.chain parts) ∧
      ∀ special ∈ ["/", "//", "/*"], compile special = .ok ⟨special, Chain.anyElement⟩ := by
  have specials : ∀ special ∈ ["/", "//", "/*"],
      compile special = .ok ⟨special, Chain.anyElement⟩ := by
    simp only [List.forall_mem_cons]
    exact ⟨rfl, rfl, rfl, nofun⟩
  rcases compile_cases expression with ⟨refused, reason, other, hc⟩ | ⟨chain, parts, written, hc⟩
  · refine ⟨iff_of_true ⟨_, hc⟩ refused, fun failure hf => ?_, fun _ hs => ?_, specials⟩
    · cases hc.symm.trans hf
      exact ⟨rfl, fun h => other (malformedExpression_inj h)⟩
    · cases hc.symm.trans hs
  · refine ⟨iff_of_false ?_ written.not_refused, fun _ hf => ?_, fun selector hs => ?_, specials⟩
    · rintro ⟨_, hf⟩
      cases hc.symm.trans hf
    · cases hc.symm.trans hf
    · cases hc.symm.trans hs
      exact ⟨rfl, parts, written⟩

/-- Two gaps make a step recursive and a star at the end stands for any element; without the star,
the gaps at the end are too many. -/
theorem compile_parted_gaps :
    compile "/a/ /*/b/*" = .ok ⟨"/a/ /*/b/*",
        ⟨⟨some "a", none, false⟩, [⟨some "b", none, true⟩, ⟨none, none, true⟩]⟩⟩ ∧
      (∃ parts, Written "/a/ /*/b/*"
        ⟨⟨some "a", none, false⟩, [⟨some "b", none, true⟩, ⟨none, none, true⟩]⟩ parts) ∧
      Refused "/a//" ∧ compile "/a//" =
        .error (.malformedExpression "/a//" "expression ends in a descendant gap") ∧
      Failure.malformedExpression "/a//" "expression ends in a descendant gap" ≠
        .malformedExpression "/a//" "no segments" := by
  have compiled : compile "/a/ /*/b/*" = .ok ⟨"/a/ /*/b/*",
      ⟨⟨some "a", none, false⟩, [⟨some "b", none, true⟩, ⟨none, none, true⟩]⟩⟩ := rfl
  have failed : compile "/a//" =
      .error (.malformedExpression "/a//" "expression ends in a descendant gap") := rfl
  obtain ⟨-, -, written, -⟩ := compile_parted "/a/ /*/b/*"
  obtain ⟨refused, said, -⟩ := compile_parted "/a//"
  exact ⟨compiled, (written _ compiled).2, refused.1 ⟨_, failed⟩, failed, (said _ failed).2⟩

end Selector

end SubtreeHarvest
