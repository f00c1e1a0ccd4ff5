/-
Two ways to find the groups in an expression: predicates are read from the texts between an opening
bracket and the next closing one, whatever stands between them, and pieces end at the slashes at
which as many brackets were closed as opened. A slash inside a group ends no piece. A slash outside
the groups does, unless an opening bracket in an earlier group, or one that is never closed, still
counts at it: then two pieces or more are taken for one, and the predicates of both for those of the
first. Where no group holds an opening bracket and each is closed, the two agree.
-/
import SubtreeHarvest.Proofs.Selector.Parted

namespace SubtreeHarvest

open Text

namespace Selector

/-! ## Scanning -/

/-- A character outside groups, or a group. -/
inductive Stretch
  | outside (c : Char)
  | group (inside : List Char)
  deriving DecidableEq

def Stretch.inside? : Stretch → Option (List Char)
  | .outside _ => none
  | .group inside => some inside

/-- What is found in characters that are looked through from left to right: a group reaches from an
opening bracket to the next closing one, and a bracket that none follows opens no group. -/
inductive Scanned : List Char → List Stretch → Prop
  | nil : Scanned [] []
  | group {inside cs : List Char} {stretches : List Stretch} : ']' ∉ inside →
      Scanned cs stretches → Scanned ('[' :: (inside ++ ']' :: cs)) (.group inside :: stretches)
  | outside {c : Char} {cs : List Char} {stretches : List Stretch} : (c = '[' → ']' ∉ cs) →
      Scanned cs stretches → Scanned (c :: cs) (.outside c :: stretches)

/-- The parts between the slashes outside groups. -/
def outsideParts : List Stretch → List (List Char)
  | [] => [[]]
  | .outside c :: stretches =>
    if c = '/' then [] :: outsideParts stretches else consPiece c (outsideParts stretches)
  | .group inside :: stretches =>
    prependPiece ('[' :: (inside ++ [']'])) (outsideParts stretches)

/-- No bracket counts as open at a slash outside groups, with `depth` open in front. -/
def Level : Nat → List Stretch → Prop
  | _, [] => True
  | depth, .outside c :: stretches => (c = '/' → depth = 0) ∧ Level (openBehind depth c) stretches
  | depth, .group inside :: stretches => Level (depth + inside.count '[') stretches

variable {cs : List Char} {stretches : List Stretch}

theorem exists_scanned (cs : List Char) : ∃ stretches, Scanned cs stretches := by
  induction hl : cs.length using Nat.strong_induction_on generalizing cs with
  | _ length ih =>
    subst hl
    cases cs with
    | nil => exact ⟨[], .nil⟩
    | cons c cs =>
      by_cases closed : c = '[' ∧ ']' ∈ cs
      · obtain ⟨rfl, hm⟩ := closed
        obtain ⟨inside, behind, rfl, hn⟩ := List.eq_append_cons_of_mem hm
        have shorter : behind.length < ('[' :: (inside ++ ']' :: behind)).length := by
          simp only [List.length_cons, List.length_append]
          omega
        obtain ⟨stretches, h⟩ := ih _ shorter behind rfl
        exact ⟨_, .group hn h⟩
      · obtain ⟨stretches, h⟩ := ih _ (Nat.lt_succ_self _) cs rfl
        exact ⟨_, .outside (fun hc hm => closed ⟨hc, hm⟩) h⟩

theorem groups_unclosed (h : ']' ∉ cs) : Predicate.groups cs = [] := by
  rw [Predicate.groups_eq]
  cases ho : cs.dropWhile (· != '[') with
  | nil => rfl
  | cons c inner =>
    have inside : ∀ d ∈ inner, (d != ']') = true := by
      intro d hd
      have hm := (List.dropWhile_sublist (· != '[')).subset (ho ▸ List.mem_cons_of_mem c hd)
      simpa using fun e : d = ']' => h (e ▸ hm)
    simp only [List.dropWhile_eq_nil_iff.2 inside]

/-- These are the groups that a predicate is read from. -/
theorem Scanned.groups_eq (h : Scanned cs stretches) :
    Predicate.groups cs = stretches.filterMap Stretch.inside? := by
  induction h with
  | nil => exact Predicate.groups_nil
  | group hn _ ih =>
    rw [Predicate.groups_group hn, ih]
    rfl
  | @outside c cs stretches hc _ ih =>
    rw [List.filterMap_cons_none (show (Stretch.outside c).inside? = none from rfl), ← ih]
    by_cases ho : c = '['
    · subst ho
      have unclosed : ']' ∉ '[' :: cs := by simpa using hc rfl
      rw [groups_unclosed unclosed, groups_unclosed (hc rfl)]
    · exact Predicate.groups_char ho cs

/-! ## Joining -/

/-- Each piece is made of one part or of several, with the slashes between them. -/
def Joined (parts found : List (List Char)) : Prop :=
  ∃ runs : List (List (List Char)), (∀ run ∈ runs, run ≠ []) ∧ runs.flatten = parts ∧
    found = runs.map (List.intercalate ['/'])

variable {parts found : List (List Char)}

theorem Joined.cut (h : Joined parts found) : Joined ([] :: parts) ([] :: found) := by
  obtain ⟨runs, filled, rfl, rfl⟩ := h
  exact ⟨[[]] :: runs, List.forall_mem_cons.2 ⟨nofun, filled⟩, rfl, rfl⟩

theorem Joined.ne_nil (h : Joined parts found) (hp : found ≠ []) :
    ∃ (part : List Char) (run : List (List Char)) (runs : List (List (List Char))),
      (∀ other ∈ runs, other ≠ []) ∧ parts = part :: (run ++ runs.flatten) ∧
        found = ['/'].intercalate (part :: run) :: runs.map (List.intercalate ['/']) := by
  obtain ⟨runs, filled, rfl, rfl⟩ := h
  match runs with
  | [] => exact absurd rfl hp
  | [] :: runs => exact absurd rfl (List.forall_mem_cons.1 filled).1
  | (part :: run) :: runs => exact ⟨part, run, runs, (List.forall_mem_cons.1 filled).2, rfl, rfl⟩

theorem Joined.cons (h : Joined parts found) (hp : found ≠ []) (c : Char) :
    Joined (consPiece c parts) (consPiece c found) := by
  obtain ⟨part, run, runs, filled, rfl, rfl⟩ := h.ne_nil hp
  refine ⟨((c :: part) :: run) :: runs, List.forall_mem_cons.2 ⟨nofun, filled⟩, rfl, ?_⟩
  cases run <;> rfl

theorem Joined.keep (h : Joined parts found) (hp : found ≠ []) :
    Joined ([] :: parts) (consPiece '/' found) := by
  obtain ⟨part, run, runs, filled, rfl, rfl⟩ := h.ne_nil hp
  exact ⟨([] :: part :: run) :: runs, List.forall_mem_cons.2 ⟨nofun, filled⟩, rfl, rfl⟩

theorem Joined.prepend (h : Joined parts found) (hp : found ≠ []) :
    ∀ front : List Char, Joined (prependPiece front parts) (prependPiece front found) ∧
      prependPiece front found ≠ []
  | [] => ⟨h, hp⟩
  | c :: front =>
    have ⟨joined, filled⟩ := h.prepend hp front
    ⟨joined.cons filled c, consPiece_ne_nil _ _⟩

/-- Whatever is counted as open in front, no group is cut. -/
theorem Scanned.joined (h : Scanned cs stretches) (depth : Nat) :
    Joined (outsideParts stretches) (pieces depth cs) := by
  induction h generalizing depth with
  | nil => exact ⟨[[[]]], by simp, rfl, rfl⟩
  | @group inside cs stretches hn _ ih =>
    rw [pieces_group depth cs hn, outsideParts]
    exact ((ih _).prepend (pieces_ne_nil _ _) _).1
  | @outside c cs stretches _ _ ih =>
    rw [outsideParts]
    by_cases hs : c = '/'
    · subst hs
      rw [if_pos rfl]
      by_cases level : depth = 0
      · subst level
        exact (ih 0).cut
      · rw [pieces_char (fun _ => level)]
        exact (ih _).keep (pieces_ne_nil _ _)
    · rw [if_neg hs, pieces_char (fun h => absurd h hs)]
      exact (ih _).cons (pieces_ne_nil _ _) c

/-! ## Agreeing -/

theorem prependPiece_inj (hparts : parts ≠ []) (hfound : found ≠ []) (front : List Char) :
    prependPiece front found = prependPiece front parts ↔ found = parts := by
  cases parts with
  | nil => exact absurd rfl hparts
  | cons part parts =>
    cases found with
    | nil => exact absurd rfl hfound
    | cons piece found => simp [prependPiece_cons]

theorem outsideParts_ne_nil : ∀ stretches, outsideParts stretches ≠ []
  | [] => List.cons_ne_nil _ _
  | .outside c :: stretches => by
    rw [outsideParts]
    split
    · exact List.cons_ne_nil _ _
    · exact consPiece_ne_nil _ _
  | .group inside :: stretches => consPiece_ne_nil _ _

/-- The pieces are the parts outside groups exactly where no bracket is counted at a slash. -/
theorem Scanned.pieces_eq_iff (h : Scanned cs stretches) (depth : Nat) :
    pieces depth cs = outsideParts stretches ↔ Level depth stretches := by
  induction h generalizing depth with
  | nil => exact iff_of_true rfl trivial
  | @group inside cs stretches hn _ ih =>
    rw [pieces_group depth cs hn, outsideParts, Level,
      prependPiece_inj (outsideParts_ne_nil _) (pieces_ne_nil _ _), ih]
  | @outside c cs stretches _ _ ih =>
    rw [outsideParts, Level]
    by_cases hs : c = '/'
    · subst hs
      rw [if_pos rfl]
      by_cases level : depth = 0
      · subst level
        rw [pieces_slash, List.cons_inj_right, ih]
        simp [openBehind]
      · -- the first piece begins with the slash, and the first part is empty
        refine iff_of_false ?_ fun h => level (h.1 rfl)
        rw [pieces_char (fun _ => level)]
        cases pieces (openBehind depth '/') cs <;> exact fun h => by cases h
    · have inj := prependPiece_inj (outsideParts_ne_nil stretches)
        (pieces_ne_nil (openBehind depth c) cs) [c]
      rw [if_neg hs, pieces_char (fun h => absurd h hs), and_iff_right fun h => absurd h hs, ← ih]
      exact inj

/-- Where no group holds an opening bracket and every one is closed, none is ever counted. -/
theorem level_of_closed : ∀ {stretches : List Stretch},
    (∀ inside ∈ stretches.filterMap Stretch.inside?, '[' ∉ inside) →
      .outside '[' ∉ stretches → Level 0 stretches
  | [], _, _ => trivial
  | .outside c :: stretches, hg, ho => by
    rw [List.mem_cons, not_or] at ho
    have opens : c ≠ '[' := fun e => ho.1 (e ▸ rfl)
    have behind : openBehind 0 c = 0 := by rw [openBehind, if_neg opens, Nat.zero_sub, ite_self]
    rw [Level, behind]
    exact ⟨fun _ => rfl, level_of_closed hg ho.2⟩
  | .group inside :: stretches, hg, ho => by
    obtain ⟨first, hg⟩ := List.forall_mem_cons.1 hg
    rw [Level, List.count_eq_zero.2 first]
    exact level_of_closed hg fun h => ho (List.mem_cons_of_mem _ h)

/-- An expression is compiled from the parts between the slashes outside groups, with some of them
joined where a bracket is counted as open at the slash between them. It is compiled from these
parts as they are exactly where no bracket is counted at any such slash, and so wherever no group
holds an opening bracket and every one is closed. -/
theorem compile_grouped {expression : String} {rest : List Char}
    (h : expression.toList = '/' :: rest) :
    (∃ stretches, Scanned rest stretches) ∧ ∀ stretches, Scanned rest stretches →
      Predicate.groups rest = stretches.filterMap Stretch.inside? ∧
      Joined (outsideParts stretches) (pieces 0 rest) ∧
      (pieces 0 rest = outsideParts stretches ↔ Level 0 stretches) ∧
      (Level 0 stretches → compile expression =
        (chainOfPieces expression (outsideParts stretches)).map fun chain => ⟨expression, chain⟩) ∧
      ((∀ inside ∈ Predicate.groups rest, '[' ∉ inside) → .outside '[' ∉ stretches →
        Level 0 stretches) := by
  refine ⟨exists_scanned rest, fun stretches scanned => ⟨scanned.groups_eq, scanned.joined 0,
    scanned.pieces_eq_iff 0, fun level => ?_, fun hg ho => ?_⟩⟩
  · rw [compile_of_slash h, (scanned.pieces_eq_iff 0).2 level]
  · exact level_of_closed (scanned.groups_eq ▸ hg) ho

/-- A slash in a value, and a step behind it. -/
theorem compile_grouped_value :
    let rest := "a[@x='1/2']/b".toList
    let stretches : List Stretch :=
      [.outside 'a', .group "@x='1/2'".toList, .outside '/', .outside 'b']
    "/a[@x='1/2']/b".toList = '/' :: rest ∧ Scanned rest stretches ∧
      (∀ inside ∈ Predicate.groups rest, '[' ∉ inside) ∧ .outside '[' ∉ stretches ∧
      Level 0 stretches ∧ pieces 0 rest = ["a[@x='1/2']".toList, "b".toList] ∧
      compile "/a[@x='1/2']/b" =
        (chainOfPieces "/a[@x='1/2']/b" (outsideParts stretches)).map fun chain =>
          ⟨"/a[@x='1/2']/b", chain⟩ := by
  intro rest stretches
  have scanned : Scanned rest stretches :=
    .outside (by decide) (@Scanned.group "@x='1/2'".toList _ _ (by decide)
      (.outside (by decide) (.outside (by decide) .nil)))
  obtain ⟨-, all⟩ := @compile_grouped "/a[@x='1/2']/b" rest rfl
  obtain ⟨groups, -, agree, compiled, closed⟩ := all stretches scanned
  have plain : ∀ inside ∈ Predicate.groups rest, '[' ∉ inside := by
    rw [groups]
    decide
  have opens : .outside '[' ∉ stretches := by decide
  have level := closed plain opens
  exact ⟨rfl, scanned, plain, opens, level, agree.2 level, compiled level⟩

/-- A bracket in a value swallows the step behind it: the two parts outside groups make one piece,
and the element of the one step must pass the tests of both. -/
theorem compile_grouped_bracket :
    let rest := "a[@x='[']/b[@y='1']".toList
    let stretches : List Stretch := [.outside 'a', .group "@x='['".toList, .outside '/',
      .outside 'b', .group "@y='1'".toList]
    Scanned rest stretches ∧
      outsideParts stretches = ["a[@x='[']".toList, "b[@y='1']".toList] ∧
      pieces 0 rest = ["a[@x='[']/b[@y='1']".toList] ∧ pieces 0 rest ≠ outsideParts stretches ∧
      compile "/a[@x='[']/b[@y='1']" = .ok ⟨"/a[@x='[']/b[@y='1']",
        ⟨⟨some "a", some (.all [.equals "x" "[", .equals "y" "1"]), false⟩, []⟩⟩ := by
  intro rest stretches
  have tail : Scanned "[@x='[']/b[@y='1']".toList stretches.tail :=
    @Scanned.group "@x='['".toList _ _ (by decide) (.outside (by decide)
      (.outside (by decide) (@Scanned.group "@y='1'".toList _ _ (by decide) .nil)))
  have tests : Predicate.parse "[@x='[']/b[@y='1']".toList =
      .all [.equals "x" "[", .equals "y" "1"] := by
    rw [Predicate.parse, tail.groups_eq]
    rfl
  refine ⟨.outside (by decide) tail, rfl, rfl, by decide, ?_⟩
  have parsed : compile "/a[@x='[']/b[@y='1']" = .ok ⟨"/a[@x='[']/b[@y='1']",
      ⟨⟨some "a", some (Predicate.parse "[@x='[']/b[@y='1']".toList), false⟩, []⟩⟩ := rfl
  rw [parsed, tests]

end Selector

end SubtreeHarvest
