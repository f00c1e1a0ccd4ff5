/-
Paths spelled out. A list of steps, each with a name and tests of attributes, spells an expression;
compiling the expression gives the steps back, one for one and in order. Values may hold slashes,
equals signs and quotes of the other kind, names may hold anything but slashes and brackets, and a
star that ends the path stands for one more step.

The proof goes along the steps: no piece ends inside a group, so the pieces of the expression are
those of its steps, each behind a gap if it is recursive; and of all ways to part a group at an
equals sign only the first one leaves a value between quotes.
-/
import SubtreeHarvest.Proofs.Selector.Pieces
import SubtreeHarvest.Proofs.Text.Trimmed

namespace SubtreeHarvest

open Text

/-! ## Tests -/

/-- A test as a path spells it, with the quote that stands around the value. -/
structure SpelledTest where
  name : String
  value : String
  quote : Char

namespace SpelledTest

/-- What stands between the brackets. -/
def group (test : SpelledTest) : List Char :=
  '@' :: (test.name.toList ++ '=' :: test.quote :: (test.value.toList ++ [test.quote]))

def bracketed (test : SpelledTest) : List Char :=
  '[' :: (test.group ++ [']'])

def predicate (test : SpelledTest) : Predicate :=
  .equals test.name test.value

/-- Nothing in the test would be taken for a mark around it. -/
structure Plain (test : SpelledTest) : Prop where
  named : test.name ≠ ""
  name : ∀ c ∈ test.name.toList, c ≠ '=' ∧ c ≠ '[' ∧ c ≠ ']'
  valued : test.value ≠ ""
  value : ∀ c ∈ test.value.toList, c ≠ '[' ∧ c ≠ ']'
  quote : isQuote test.quote = true
  unquoted : test.quote ∉ test.value.toList

instance (test : SpelledTest) : Decidable test.Plain :=
  decidable_of_iff (test.name ≠ "" ∧ test.name.toList.all (fun c => c ≠ '=' ∧ c ≠ '[' ∧ c ≠ ']') = true ∧
      test.value ≠ "" ∧ test.value.toList.all (fun c => c ≠ '[' ∧ c ≠ ']') = true ∧
      isQuote test.quote = true ∧ test.quote ∉ test.value.toList)
    ⟨fun ⟨h₁, h₂, h₃, h₄, h₅, h₆⟩ => ⟨h₁, by simpa using h₂, h₃, by simpa using h₄, h₅, h₆⟩,
      fun h => ⟨h.named, by simpa using h.name, h.valued, by simpa using h.value, h.quote, h.unquoted⟩⟩

variable {test : SpelledTest}

/-- A character that is none of the signs of a group, in neither the name nor the value. -/
theorem not_mem_group {c : Char} (sign : c ≠ '@' ∧ c ≠ '=') (quote : c ≠ test.quote)
    (name : c ∉ test.name.toList) (value : c ∉ test.value.toList) : c ∉ test.group := by
  simp [group, sign, quote, name, value]

theorem Plain.opening_not_mem (h : test.Plain) : '[' ∉ test.group := by
  refine not_mem_group (by decide) ?_ (fun hm => (h.name _ hm).2.1 rfl) fun hm => (h.value _ hm).1 rfl
  rcases eq_of_isQuote h.quote with hq | hq <;> rw [hq] <;> decide

theorem Plain.closing_not_mem (h : test.Plain) : ']' ∉ test.group := by
  refine not_mem_group (by decide) ?_ (fun hm => (h.name _ hm).2.2 rfl) fun hm => (h.value _ hm).2 rfl
  rcases eq_of_isQuote h.quote with hq | hq <;> rw [hq] <;> decide

end SpelledTest

namespace Predicate

/-- Each parting is at an equals sign. -/
theorem eq_of_mem_partings : ∀ {cs before behind : List Char}, (before, behind) ∈ partings cs →
    cs = before ++ '=' :: behind
  | c :: cs, before, behind, h => by
    have later : (before, behind) ∈ (partings cs).map (fun parting => (c :: parting.1, parting.2)) →
        c :: cs = before ++ '=' :: behind := by
      intro h
      obtain ⟨⟨front, rest⟩, hm, he⟩ := List.mem_map.1 h
      cases he
      rw [eq_of_mem_partings hm]
      rfl
    rw [partings] at h
    split at h
    · rename_i equals
      rcases List.mem_cons.1 h with he | h
      · cases he
        rw [eq_of_beq equals]
        rfl
      · exact later h
    · exact later h

/-- The first parting is at the first equals sign, and the later ones leave less. -/
theorem partings_append : ∀ {name : List Char} (cs : List Char), '=' ∉ name →
    partings (name ++ '=' :: cs) =
      (name, cs) :: (partings cs).map fun (before, behind) => (name ++ '=' :: before, behind)
  | [], _, _ => rfl
  | c :: name, cs, h => by
    rw [List.mem_cons, not_or] at h
    have other : (c == '=') = false := by
      rw [beq_eq_false_iff_ne]
      exact Ne.symm h.1
    rw [List.cons_append, partings, partings_append cs h.2, other, if_neg Bool.false_ne_true,
      List.map_cons, List.map_map]
    rfl

/-- Behind an equals sign in a value no quote stands that the value could begin with. -/
theorem unquoted?_behind {q : Char} {value before behind : List Char} (hq : isQuote q = true)
    (hv : q ∉ value) (h : q :: (value ++ [q]) = before ++ '=' :: behind) :
    unquoted? behind = none := by
  -- the sign is not the quote at either end, so it stands in the value
  have sign : q ≠ '=' := by
    rcases eq_of_isQuote hq with rfl | rfl <;> decide
  obtain ⟨front, rest, rfl, rfl⟩ : ∃ front rest, value = front ++ '=' :: rest ∧ behind = rest ++ [q] := by
    cases before with
    | nil => exact absurd (List.cons.inj h).1 sign
    | cons c front =>
      have inside : value ++ [q] = front ++ '=' :: behind := (List.cons.inj h).2
      rcases List.eq_nil_or_concat behind with rfl | ⟨rest, d, rfl⟩
      · exact absurd (List.append_inj_right' inside rfl) (by simpa using sign)
      · rw [List.concat_eq_append, ← List.cons_append, ← List.append_assoc] at inside
        obtain ⟨hi, hd⟩ := List.append_inj' inside rfl
        exact ⟨front, rest, hi, by rw [List.concat_eq_append, (List.cons.inj hd).1]⟩
  cases rest with
  | nil => simp [unquoted?]
  | cons c rest =>
    have other : ¬ q = c := by
      rintro rfl
      exact hv (by simp)
    rw [List.cons_append, unquoted?, List.getLast?_concat]
    simp [other]

theorem unquoted?_quoted {q : Char} {value : List Char} (hq : isQuote q = true) (hv : value ≠ []) :
    unquoted? (q :: (value ++ [q])) = some value := by
  have quote : (q == '\x27' || q == '\x22') = true := hq
  rw [unquoted?, List.getLast?_concat, quote, List.dropLast_concat]
  simp [hv]

theorem ofGroup?_of_tight {body : List Char} (h : Tight ('@' :: body)) :
    ofGroup? ('@' :: body) = (partings body).reverse.findSome? ofParting? := by
  rw [ofGroup?, h.trimmed_eq]
  rfl

/-- A spelled test is read as the test. -/
theorem ofGroup?_spelled {test : SpelledTest} (h : test.Plain) :
    ofGroup? test.group = some test.predicate := by
  obtain ⟨named, name, valued, -, quote, unquoted⟩ := h
  have black : isWhite test.quote = false := by
    rcases eq_of_isQuote quote with hq | hq <;> rw [hq] <;> decide
  -- a group begins with a sign and ends with a quote, so there is nothing to trim
  have tight : Tight test.group := by
    have regrouped : test.group =
        ('@' :: (test.name.toList ++ '=' :: test.quote :: test.value.toList)) ++ [test.quote] := by
      simp [SpelledTest.group]
    have kept : trimEnd [test.quote] = [test.quote] := by
      simp [trimEnd, black]
    constructor
    · exact forall_head? (by decide)
    · rw [regrouped, trimEnd_append _ (by rw [kept]; exact List.cons_ne_nil _ _), kept]
  have equals : '=' ∉ test.name.toList := fun hm => (name _ hm).1 rfl
  have none : ((partings (test.quote :: (test.value.toList ++ [test.quote]))).map
      fun (before, behind) => (test.name.toList ++ '=' :: before, behind)).reverse.findSome? ofParting? =
        none := by
    rw [List.findSome?_eq_none_iff]
    intro parting hm
    obtain ⟨⟨before, behind⟩, hp, rfl⟩ := List.mem_map.1 (List.mem_reverse.1 hm)
    have unread := unquoted?_behind quote unquoted (eq_of_mem_partings hp)
    simp [ofParting?, unread]
  have first : ofParting? (test.name.toList, test.quote :: (test.value.toList ++ [test.quote])) =
      some test.predicate := by
    have filled : test.value.toList ≠ [] := fun he => valued (String.toList_eq_nil_iff.1 he)
    have begun : test.name.toList.isEmpty = false := by
      simpa [List.isEmpty_eq_false_iff] using named
    simp only [ofParting?, begun, Bool.false_eq_true, if_false, unquoted?_quoted quote filled,
      Option.map_some, String.ofList_toList, SpelledTest.predicate]
  rw [SpelledTest.group, ofGroup?_of_tight tight, partings_append _ equals, List.reverse_cons,
    List.findSome?_append, none, Option.none_or, List.findSome?_singleton, first]

/-- Groups one behind the other write all of their tests. -/
theorem parse_groups : ∀ {tests : List SpelledTest}, (∀ test ∈ tests, test.Plain) →
    parse (tests.flatMap SpelledTest.bracketed) = .all (tests.map SpelledTest.predicate)
  | [], _ => by
    rw [List.flatMap_nil, parse, groups_nil]
    rfl
  | test :: tests, h => by
    obtain ⟨plain, h⟩ := List.forall_mem_cons.1 h
    have later := parse_groups h
    rw [parse, Predicate.all.injEq] at later
    rw [List.flatMap_cons, SpelledTest.bracketed, List.cons_append, List.append_assoc,
      List.singleton_append, parse, groups_group plain.closing_not_mem,
      List.filterMap_cons_some (ofGroup?_spelled plain), later, List.map_cons]

end Predicate

/-! ## Steps -/

/-- A step as a path spells it. -/
structure SpelledStep where
  recursive : Bool
  /-- A star stands for every name. -/
  name : String
  tests : List SpelledTest

namespace SpelledStep

/-- What stands behind the slashes. -/
def piece (spelled : SpelledStep) : List Char :=
  spelled.name.toList ++ spelled.tests.flatMap SpelledTest.bracketed

def chars (spelled : SpelledStep) : List Char :=
  (if spelled.recursive then ['/', '/'] else ['/']) ++ spelled.piece

def step (spelled : SpelledStep) : Step where
  name := if spelled.name = "*" then none else some spelled.name
  predicate :=
    if spelled.tests = [] then none else some (.all (spelled.tests.map SpelledTest.predicate))
  recursive := spelled.recursive

/-- Nothing in the step would be taken for a mark around it, and it is not taken for a gap. -/
structure Plain (spelled : SpelledStep) : Prop where
  visible : isBlank spelled.name = false
  name : ∀ c ∈ spelled.name.toList, c ≠ '/' ∧ c ≠ '[' ∧ c ≠ ']'
  tested : spelled.name = "*" → spelled.tests ≠ []
  tests : ∀ test ∈ spelled.tests, test.Plain

instance (spelled : SpelledStep) : Decidable spelled.Plain :=
  decidable_of_iff (isBlank spelled.name = false ∧
      spelled.name.toList.all (fun c => c ≠ '/' ∧ c ≠ '[' ∧ c ≠ ']') = true ∧
      (spelled.name = "*" → spelled.tests ≠ []) ∧ ∀ test ∈ spelled.tests, test.Plain)
    ⟨fun ⟨h₁, h₂, h₃, h₄⟩ => ⟨h₁, by simpa using h₂, h₃, h₄⟩,
      fun h => ⟨h.visible, by simpa using h.name, h.tested, h.tests⟩⟩

end SpelledStep

namespace Selector

/-- What stands in front of the first bracket of a piece, and what stands from there on. -/
theorem span_piece {spelled : SpelledStep} (h : spelled.Plain) :
    spelled.piece.takeWhile (· != '[') = spelled.name.toList ∧
      spelled.piece.dropWhile (· != '[') = spelled.tests.flatMap SpelledTest.bracketed := by
  refine span_of_stop (fun c hc => by simpa using (h.name c hc).2.1) ?_
  cases spelled.tests with
  | nil => exact fun c hc => nomatch hc
  | cons test tests => exact forall_head? (by decide)

theorem name_ne_nil {spelled : SpelledStep} (h : spelled.Plain) : spelled.name.toList ≠ [] := by
  intro empty
  have visible := h.visible
  rw [isBlank, empty] at visible
  cases visible

theorem isStep_piece {spelled : SpelledStep} (h : spelled.Plain) : IsStep spelled.piece := by
  obtain ⟨name, tail⟩ := span_piece h
  refine ⟨?_, ?_⟩
  · rw [name, List.isEmpty_eq_false_iff]
    exact name_ne_nil h
  · rw [tail]
    rcases List.eq_nil_or_concat spelled.tests with none | ⟨tests, test, ends⟩
    · exact .inl (by rw [none]; rfl)
    · -- the last group closes behind its quote, so there is more than two brackets
      have last : (spelled.tests.flatMap SpelledTest.bracketed).getLast? = some ']' := by
        rw [ends, List.concat_eq_append, List.flatMap_append, List.flatMap_singleton,
          SpelledTest.bracketed, List.getLast?_append, ← List.cons_append, List.getLast?_concat,
          Option.some_or]
      refine .inr ⟨three_le_byteLength ?_ last ?_, last⟩
      · rw [← tail] at last ⊢
        exact head?_dropWhile last
      · obtain ⟨first, more, hm⟩ := List.exists_cons_of_ne_nil
          (show spelled.tests ≠ [] by rw [ends, List.concat_eq_append]; simp)
        rw [hm, List.flatMap_cons, SpelledTest.bracketed, SpelledTest.group]
        simp

/-- The step of a spelled piece is the step that is spelled. -/
theorem writtenStep_piece {spelled : SpelledStep} (h : spelled.Plain) :
    writtenStep spelled.recursive spelled.piece = spelled.step := by
  obtain ⟨name, tail⟩ := span_piece h
  have starred : (spelled.name.toList == star) = decide (spelled.name = "*") := by
    rw [Bool.eq_iff_iff, beq_iff_eq, decide_eq_true_eq]
    exact @String.toList_inj _ "*"
  have tested : (spelled.tests.flatMap SpelledTest.bracketed).isEmpty = decide (spelled.tests = []) := by
    cases spelled.tests <;> rfl
  simp only [writtenStep, name, tail, starred, tested, Predicate.parse_groups h.tests,
    String.ofList_toList, decide_eq_true_eq, SpelledStep.step]

theorem isGap_piece {spelled : SpelledStep} (h : spelled.Plain) : isGap spelled.piece = false := by
  rw [Bool.eq_false_iff]
  intro gap
  -- a gap has no bracket, so it would be the name, which is neither blank nor a lone star
  have none : spelled.tests = [] := by
    cases ht : spelled.tests with
    | nil => rfl
    | cons test tests =>
      refine absurd ?_ (not_mem_of_isGap gap)
      rw [SpelledStep.piece, ht, List.flatMap_cons, SpelledTest.bracketed]
      simp
  have alone : spelled.piece = spelled.name.toList := by
    rw [SpelledStep.piece, none, List.flatMap_nil, List.append_nil]
  rw [alone, isGap, Bool.or_eq_true] at gap
  rcases gap with blank | starred
  · exact absurd (h.visible.symm.trans blank) Bool.false_ne_true
  · exact h.tested (String.toList_inj.1 (eq_of_beq starred)) none

/-! ## Pieces -/

/-- No piece ends inside a spelled piece. -/
theorem pieces_bracketed : ∀ {tests : List SpelledTest} (cs : List Char),
    (∀ test ∈ tests, test.Plain) → pieces 0 (tests.flatMap SpelledTest.bracketed ++ cs) =
      prependPiece (tests.flatMap SpelledTest.bracketed) (pieces 0 cs)
  | [], _, _ => rfl
  | test :: tests, cs, h => by
    obtain ⟨plain, h⟩ := List.forall_mem_cons.1 h
    have parted : (test :: tests).flatMap SpelledTest.bracketed ++ cs =
        '[' :: (test.group ++ ']' :: (tests.flatMap SpelledTest.bracketed ++ cs)) := by
      simp [SpelledTest.bracketed]
    have opened : test.group.count '[' = 0 := List.count_eq_zero.2 plain.opening_not_mem
    rw [parted, pieces_group 0 _ plain.closing_not_mem, opened, pieces_bracketed cs h,
      List.flatMap_cons, prependPiece, prependPiece, prependPiece, List.foldr_append]
    rfl

theorem pieces_name : ∀ {name : List Char} (cs : List Char),
    (∀ c ∈ name, c ≠ '/' ∧ c ≠ '[' ∧ c ≠ ']') →
      pieces 0 (name ++ cs) = prependPiece name (pieces 0 cs)
  | [], _, _ => rfl
  | c :: name, cs, h => by
    obtain ⟨⟨slash, opening, closing⟩, h⟩ := List.forall_mem_cons.1 h
    rw [List.cons_append, pieces_plain opening closing (.inl slash), pieces_name cs h]
    rfl

theorem pieces_piece {spelled : SpelledStep} (h : spelled.Plain) (cs : List Char) :
    pieces 0 (spelled.piece ++ cs) = prependPiece spelled.piece (pieces 0 cs) := by
  rw [SpelledStep.piece, List.append_assoc, pieces_name _ h.name, pieces_bracketed cs h.tests,
    prependPiece, prependPiece, prependPiece, List.foldr_append]

/-- The pieces of a spelled step: a recursive one stands behind a gap. -/
def spelledPieces (spelled : SpelledStep) : List (List Char) :=
  if spelled.recursive then [[], spelled.piece] else [spelled.piece]

/-- What a star at the end of a path adds. -/
def starred : Bool → List Char
  | true => '/' :: star
  | false => []

def starredPieces : Bool → List (List Char)
  | true => [star]
  | false => []

/-- Every slash between the steps begins a new piece. -/
theorem pieces_spelled (anyBelow : Bool) : ∀ {steps : List SpelledStep},
    (∀ spelled ∈ steps, spelled.Plain) →
      pieces 0 (steps.flatMap SpelledStep.chars ++ starred anyBelow) =
        [] :: (steps.flatMap spelledPieces ++ starredPieces anyBelow)
  | [], _ => by cases anyBelow <;> rfl
  | spelled :: steps, h => by
    obtain ⟨plain, h⟩ := List.forall_mem_cons.1 h
    have later := pieces_spelled anyBelow h
    have one : pieces 0 (spelled.piece ++ (steps.flatMap SpelledStep.chars ++ starred anyBelow)) =
        spelled.piece :: (steps.flatMap spelledPieces ++ starredPieces anyBelow) := by
      rw [pieces_piece plain, later, prependPiece_cons, List.append_nil]
    rw [List.flatMap_cons, List.flatMap_cons, List.append_assoc, SpelledStep.chars, spelledPieces]
    cases spelled.recursive with
    | true => exact (pieces_slash _).trans (congrArg _ ((pieces_slash _).trans (congrArg _ one)))
    | false => exact (pieces_slash _).trans (congrArg _ one)

/-- The pieces of spelled steps write the steps, and leave the star at the end as a gap. -/
theorem stepsOfPieces_spelled (expression : String) (anyBelow : Bool) : ∀ {steps : List SpelledStep},
    (∀ spelled ∈ steps, spelled.Plain) →
      stepsOfPieces expression [] (steps.flatMap spelledPieces ++ starredPieces anyBelow) =
        .ok (steps.map SpelledStep.step, starredPieces anyBelow)
  | [], _ => by cases anyBelow <;> rfl
  | spelled :: steps, h => by
    obtain ⟨plain, h⟩ := List.forall_mem_cons.1 h
    have later := stepsOfPieces_spelled expression anyBelow h
    have one : ∀ gaps : List (List Char), (!gaps.isEmpty) = spelled.recursive →
        stepsOfPieces expression gaps
          (spelled.piece :: (steps.flatMap spelledPieces ++ starredPieces anyBelow)) =
            .ok ((spelled :: steps).map SpelledStep.step, starredPieces anyBelow) := by
      intro gaps hg
      rw [stepsOfPieces_step (isGap_piece plain), hg, stepOfPiece_of_isStep (isStep_piece plain),
        writtenStep_piece plain, later]
      rfl
    rw [List.flatMap_cons, spelledPieces]
    cases hr : spelled.recursive with
    | true =>
      have gap : isGap [] = true := rfl
      exact (stepsOfPieces_gap gap).trans (one [[]] hr.symm)
    | false => exact one [] hr.symm

/-! ## Expressions -/

/-- The expression that steps spell; with `anyBelow` it ends in a star. -/
def spell (steps : List SpelledStep) (anyBelow : Bool) : String :=
  String.ofList (steps.flatMap SpelledStep.chars ++ starred anyBelow)

/-- Compiling undoes spelling: the chain has the steps that are spelled, in order, with the star at
the end as one more step that any element matches at any depth. -/
theorem compile_spell (steps : List SpelledStep) (anyBelow : Bool) (hn : steps ≠ [])
    (h : ∀ spelled ∈ steps, spelled.Plain) :
    ∃ chain, compile (spell steps anyBelow) = .ok ⟨spell steps anyBelow, chain⟩ ∧
      chain.steps = steps.map SpelledStep.step ++ if anyBelow then [⟨none, none, true⟩] else [] := by
  obtain ⟨first, later, rfl⟩ := List.exists_cons_of_ne_nil hn
  obtain ⟨rest, begins⟩ : ∃ rest, (spell (first :: later) anyBelow).toList = '/' :: rest := by
    rw [spell, String.toList_ofList, List.flatMap_cons, SpelledStep.chars]
    cases first.recursive <;> exact ⟨_, rfl⟩
  have parts : pieces 0 rest = (first :: later).flatMap spelledPieces ++ starredPieces anyBelow := by
    have whole := pieces_spelled anyBelow h
    rw [← String.toList_ofList (l := _ ++ starred anyBelow), ← spell, begins, pieces_slash] at whole
    exact (List.cons.inj whole).2
  rw [compile_of_slash begins, parts, chainOfPieces, stepsOfPieces_spelled _ anyBelow h]
  cases anyBelow with
  | true => exact ⟨⟨first.step, later.map SpelledStep.step ++ Chain.anyElement.steps⟩, rfl, rfl⟩
  | false => exact ⟨⟨first.step, later.map SpelledStep.step⟩, rfl, (List.append_nil _).symm⟩

/-- A star with tests is a step of its own; values hold slashes, equals signs and quotes. -/
theorem compile_spell_tests :
    let tests : List SpelledTest := [⟨"x", "/a='b", '"'⟩, ⟨" k/", "\"=é", '\x27'⟩]
    let steps : List SpelledStep := [⟨false, "a b", []⟩, ⟨true, "*", tests⟩]
    (steps ≠ [] ∧ ∀ spelled ∈ steps, spelled.Plain) ∧
      ∃ chain, compile "/a b//*[@x=\"/a='b\"][@ k/='\"=é']/*" =
          .ok ⟨"/a b//*[@x=\"/a='b\"][@ k/='\"=é']/*", chain⟩ ∧
        chain.steps = [⟨some "a b", none, false⟩,
          ⟨none, some (.all [.equals "x" "/a='b", .equals " k/" "\"=é"]), true⟩, ⟨none, none, true⟩] := by
  intro tests steps
  have h : ∀ spelled ∈ steps, spelled.Plain := by decide
  have spelled : spell steps true = "/a b//*[@x=\"/a='b\"][@ k/='\"=é']/*" := by decide
  exact ⟨⟨List.cons_ne_nil _ _, h⟩, spelled ▸ compile_spell steps true (List.cons_ne_nil _ _) h⟩

end Selector

end SubtreeHarvest
