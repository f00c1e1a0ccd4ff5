/-
What bracket groups test. A group tests for an attribute if, without the white space at its ends, it
is an at sign, the name, an equals sign, and the value between two quotes of one kind, and neither
the name nor the value is empty. Signs and quotes may stand in both, so a group can be read in
several ways: the longest name counts. A group that cannot be read so tests nothing.

An equals sign further to the right parts off a longer name, so the first parting from the right that
leaves a value is the one with the longest name.
-/
import SubtreeHarvest.Proofs.Selector.Grouped
import SubtreeHarvest.Proofs.Selector.Spelled

namespace SubtreeHarvest

open Text

/-- The test for an attribute. -/
def Attribute.test (wanted : Attribute) : Predicate :=
  .equals wanted.name wanted.value

namespace Predicate

open Selector

/-! ## Tests -/

/-- A group can be read as a test for an attribute. -/
structure Writes (group : List Char) (wanted : Attribute) : Prop where
  named : wanted.name ≠ ""
  valued : wanted.value ≠ ""
  spelled : ∃ q, isQuote q = true ∧
    trimmed group = '@' :: (wanted.name.toList ++ '=' :: q :: (wanted.value.toList ++ [q]))

/-- The attributes that groups test for, from left to right: of all ways to read a group the one with
the longest name, and nothing for a group that cannot be read. -/
inductive Tested : List (List Char) → List Attribute → Prop
  | nil : Tested [] []
  | test {group : List Char} {groups : List (List Char)} {wanted : Attribute}
      {others : List Attribute} : Writes group wanted →
      (∀ other, Writes group other → other.name.length ≤ wanted.name.length) →
      Tested groups others → Tested (group :: groups) (wanted :: others)
  | dropped {group : List Char} {groups : List (List Char)} {others : List Attribute} :
      (∀ wanted, ¬ Writes group wanted) → Tested groups others → Tested (group :: groups) others

theorem test_injective : Function.Injective Attribute.test := by
  rintro ⟨name, value⟩ ⟨name', value'⟩ h
  cases h
  rfl

/-! ## Partings -/

/-- Characters are parted at each of their equals signs. -/
theorem mem_partings {cs before behind : List Char} :
    (before, behind) ∈ partings cs ↔ cs = before ++ '=' :: behind := by
  refine ⟨eq_of_mem_partings, ?_⟩
  rintro rfl
  induction before with
  | nil => exact List.mem_cons_self
  | cons c before ih =>
    have later := List.mem_map_of_mem (f := fun parting => (c :: parting.1, parting.2)) ih
    rw [List.cons_append, partings]
    split
    · exact List.mem_cons_of_mem _ later
    · exact later

/-- An equals sign further to the right parts off more. -/
theorem pairwise_partings : ∀ cs,
    (partings cs).Pairwise fun earlier later => earlier.1.length < later.1.length
  | [] => .nil
  | c :: cs => by
    have later : ((partings cs).map fun parting => (c :: parting.1, parting.2)).Pairwise
        fun earlier later => earlier.1.length < later.1.length :=
      (pairwise_partings cs).map _ fun _ _ h => Nat.succ_lt_succ h
    rw [partings]
    split
    · refine .cons (fun parting hm => ?_) later
      obtain ⟨_, -, rfl⟩ := List.mem_map.1 hm
      exact Nat.succ_pos _
    · exact later

/-- A value stands between two quotes of one kind and is not empty. -/
theorem unquoted?_eq_some_iff {cs value : List Char} :
    unquoted? cs = some value ↔ value ≠ [] ∧ ∃ q, isQuote q = true ∧ cs = q :: (value ++ [q]) := by
  constructor
  · intro h
    cases cs with
    | nil => cases h
    | cons q inner =>
      rw [unquoted?] at h
      split at h
      · rename_i quoted
        simp only [Bool.and_eq_true, beq_iff_eq, decide_eq_true_eq] at quoted
        obtain ⟨⟨quote, last⟩, long⟩ := quoted
        cases h
        refine ⟨fun empty => ?_, q, quote, ?_⟩
        · have short := congrArg List.length empty
          rw [List.length_dropLast, List.length_nil] at short
          omega
        · rw [List.dropLast_append_getLast? q last]
      · cases h
  · rintro ⟨filled, q, quote, rfl⟩
    exact unquoted?_quoted quote filled

/-- A parting makes a test if it leaves a name and a value between quotes. -/
theorem ofParting?_eq_some_iff {before behind : List Char} {test : Predicate} :
    ofParting? (before, behind) = some test ↔
      ∃ wanted : Attribute, test = wanted.test ∧ wanted.name.toList = before ∧ before ≠ [] ∧
        unquoted? behind = some wanted.value.toList := by
  rw [ofParting?]
  split
  · rename_i empty
    refine iff_of_false (fun h => by cases h) ?_
    rintro ⟨wanted, -, -, filled, -⟩
    exact filled (List.isEmpty_iff.1 empty)
  · rename_i filled
    rw [Option.map_eq_some_iff]
    constructor
    · rintro ⟨value, hv, rfl⟩
      exact ⟨⟨String.ofList before, String.ofList value⟩, rfl, String.toList_ofList,
        fun empty => filled (List.isEmpty_iff.2 empty), by rw [hv, String.toList_ofList]⟩
    · rintro ⟨wanted, rfl, rfl, -, hv⟩
      exact ⟨_, hv, by rw [String.ofList_toList, String.ofList_toList]; rfl⟩

/-- The test found first from the right is that of the parting with the longest name. -/
theorem exists_longest {body : List Char} {test : Predicate}
    (h : (partings body).reverse.findSome? ofParting? = some test) :
    ∃ before behind, (before, behind) ∈ partings body ∧ ofParting? (before, behind) = some test ∧
      ∀ before' behind', (before', behind') ∈ partings body →
        (∃ other, ofParting? (before', behind') = some other) → before'.length ≤ before.length := by
  obtain ⟨later, ⟨before, behind⟩, earlier, parted, made, none⟩ := List.findSome?_eq_some_iff.1 h
  have ordered : (later ++ (before, behind) :: earlier).Pairwise
      fun longer shorter => shorter.1.length < longer.1.length := by
    rw [← parted, List.pairwise_reverse]
    exact pairwise_partings body
  have member (parting : List Char × List Char) : parting ∈ partings body ↔
      parting ∈ later ++ (before, behind) :: earlier := by
    rw [← parted, List.mem_reverse]
  refine ⟨before, behind, (member _).2 (by simp), made, ?_⟩
  rintro before' behind' hm ⟨other, made'⟩
  rcases List.mem_append.1 ((member _).1 hm) with hl | he
  · cases made'.symm.trans (none _ hl)
  · rcases List.mem_cons.1 he with same | he
    · cases same
      exact Nat.le_refl _
    · have shorter := (List.pairwise_cons.1 (List.pairwise_append.1 ordered).2.1).1 _ he
      exact Nat.le_of_lt shorter

/-! ## Groups -/

variable {group : List Char} {wanted : Attribute}

/-- A group is read as a test where it is parted behind the name. -/
theorem writes_iff : Writes group wanted ↔ ∃ body behind, trimmed group = '@' :: body ∧
    (wanted.name.toList, behind) ∈ partings body ∧
      ofParting? (wanted.name.toList, behind) = some wanted.test := by
  constructor
  · rintro ⟨named, valued, q, quote, spelled⟩
    have filled : wanted.value.toList ≠ [] := fun h => valued (String.toList_eq_nil_iff.1 h)
    refine ⟨_, _, spelled, mem_partings.2 rfl, ofParting?_eq_some_iff.2 ⟨wanted, rfl, rfl, ?_, ?_⟩⟩
    · exact fun h => named (String.toList_eq_nil_iff.1 h)
    · exact unquoted?_quoted quote filled
  · rintro ⟨body, behind, spelled, hm, made⟩
    obtain ⟨other, same, -, named, value⟩ := ofParting?_eq_some_iff.1 made
    cases test_injective same
    obtain ⟨filled, q, quote, rfl⟩ := unquoted?_eq_some_iff.1 value
    refine ⟨fun h => named (String.toList_eq_nil_iff.2 h),
      fun h => filled (String.toList_eq_nil_iff.2 h), q, quote, ?_⟩
    rw [spelled, mem_partings.1 hm]

theorem ofGroup?_of_sign {body : List Char} (h : trimmed group = '@' :: body) :
    ofGroup? group = (partings body).reverse.findSome? ofParting? := by
  rw [ofGroup?, h]
  rfl

/-- A group that makes no test cannot be read as one. -/
theorem not_writes_of_ofGroup? (h : ofGroup? group = none) (wanted : Attribute) :
    ¬ Writes group wanted := by
  intro writes
  obtain ⟨body, behind, spelled, hm, made⟩ := writes_iff.1 writes
  rw [ofGroup?_of_sign spelled, List.findSome?_eq_none_iff] at h
  cases made.symm.trans (h _ (List.mem_reverse.2 hm))

/-- The test that a group makes is the way to read it with the longest name. -/
theorem exists_of_ofGroup? {test : Predicate} (h : ofGroup? group = some test) :
    ∃ wanted : Attribute, test = wanted.test ∧ Writes group wanted ∧
      ∀ other, Writes group other → other.name.length ≤ wanted.name.length := by
  have begun : ∃ body, trimmed group = '@' :: body := by
    unfold ofGroup? at h
    split at h
    · exact ⟨_, ‹_›⟩
    · cases h
  obtain ⟨body, spelled⟩ := begun
  rw [ofGroup?_of_sign spelled] at h
  obtain ⟨before, behind, hm, made, longest⟩ := exists_longest h
  obtain ⟨wanted, rfl, rfl, -, -⟩ := ofParting?_eq_some_iff.1 made
  refine ⟨wanted, rfl, writes_iff.2 ⟨body, behind, spelled, hm, made⟩, fun other writes => ?_⟩
  obtain ⟨body', behind', spelled', hm', made'⟩ := writes_iff.1 writes
  cases (List.cons.inj (spelled.symm.trans spelled')).2
  rw [← String.length_toList, ← String.length_toList]
  exact longest _ _ hm' ⟨_, made'⟩

/-- No two ways to read a group have names of one length. -/
theorem Writes.eq_of_length {other : Attribute} (h : Writes group wanted) (h' : Writes group other)
    (hl : other.name.length = wanted.name.length) : other = wanted := by
  obtain ⟨-, -, q, -, spelled⟩ := h
  obtain ⟨-, -, q', -, spelled'⟩ := h'
  have body := (List.cons.inj (spelled'.symm.trans spelled)).2
  rw [← String.length_toList, ← String.length_toList] at hl
  obtain ⟨name, behind⟩ := List.append_inj body hl
  have value := List.append_inj_left' (List.cons.inj (List.cons.inj behind).2).2 rfl
  obtain ⟨n, v⟩ := wanted
  obtain ⟨n', v'⟩ := other
  cases String.toList_inj.1 name
  cases String.toList_inj.1 value
  rfl

/-- The tests of groups are those for the attributes that they test for. -/
theorem tested_iff : ∀ {groups : List (List Char)} {tests : List Attribute},
    Tested groups tests ↔ groups.filterMap ofGroup? = tests.map Attribute.test
  | [], tests => by
    constructor
    · rintro ⟨⟩
      rfl
    · intro h
      cases tests with
      | nil => exact .nil
      | cons wanted tests => cases h
  | group :: groups, tests => by
    cases made : ofGroup? group with
    | none =>
      rw [List.filterMap_cons_none made, ← tested_iff]
      have dropped := not_writes_of_ofGroup? made
      refine ⟨fun h => ?_, .dropped dropped⟩
      cases h with
      | test writes => exact absurd writes (dropped _)
      | dropped _ h => exact h
    | some test =>
      obtain ⟨wanted, rfl, writes, longest⟩ := exists_of_ofGroup? made
      rw [List.filterMap_cons_some made]
      constructor
      · intro h
        cases h with
        | @test _ _ other others writes' longest' h =>
          have same := writes.eq_of_length writes'
            (Nat.le_antisymm (longest _ writes') (longest' _ writes))
          rw [List.map_cons, same, tested_iff.1 h]
        | dropped dropped => exact absurd writes (dropped _)
      · intro h
        cases tests with
        | nil => cases h
        | cons other others =>
          obtain ⟨same, h⟩ := List.cons.inj h
          exact test_injective same ▸ .test writes longest (tested_iff.2 h)

/-! ## Predicates -/

theorem exists_tests : ∀ groups : List (List Char),
    ∃ tests : List Attribute, groups.filterMap ofGroup? = tests.map Attribute.test
  | [] => ⟨[], rfl⟩
  | group :: groups => by
    obtain ⟨tests, ht⟩ := exists_tests groups
    cases made : ofGroup? group with
    | none => exact ⟨tests, by rw [List.filterMap_cons_none made, ht]⟩
    | some test =>
      obtain ⟨wanted, rfl, -, -⟩ := exists_of_ofGroup? made
      exact ⟨wanted :: tests, by rw [List.filterMap_cons_some made, ht, List.map_cons]⟩

theorem holds_test {attributes : List Attribute} :
    wanted.test.holds attributes = true ↔ wanted ∈ attributes := by
  rw [Attribute.test, holds, List.any_eq_true]
  constructor
  · rintro ⟨found, hm, same⟩
    simp only [Bool.and_eq_true, beq_iff_eq] at same
    obtain ⟨name, value⟩ := wanted
    obtain ⟨rfl, rfl⟩ := same
    exact hm
  · intro hm
    exact ⟨wanted, hm, by simp⟩

theorem holds_tests {attributes tests : List Attribute} :
    (all (tests.map Attribute.test)).holds attributes = true ↔ ∀ wanted ∈ tests, wanted ∈ attributes := by
  rw [holds, allHold_eq_all, List.all_eq_true, List.forall_mem_map]
  exact forall₂_congr fun _ _ => holds_test

/-- Whatever stands in the tail of a piece, the predicate read from it consists of the tests of its
groups, from left to right: a group that can be read as a test makes the one with the longest name,
and any other group makes none. Attributes satisfy it exactly where every attribute that is tested
for is among them, by name and by value. -/
theorem parse_tested (tail : List Char) :
    (∃ stretches, Scanned tail stretches) ∧ ∀ stretches, Scanned tail stretches →
      ∃ tests, Tested (stretches.filterMap Stretch.inside?) tests ∧
        (∀ others, Tested (stretches.filterMap Stretch.inside?) others → others = tests) ∧
        parse tail = .all (tests.map Attribute.test) ∧
        ∀ attributes, (parse tail).holds attributes = true ↔
          ∀ wanted ∈ tests, wanted ∈ attributes := by
  refine ⟨exists_scanned tail, fun stretches scanned => ?_⟩
  obtain ⟨tests, made⟩ := exists_tests (stretches.filterMap Stretch.inside?)
  have parsed : parse tail = .all (tests.map Attribute.test) := by
    rw [parse, scanned.groups_eq, made]
  refine ⟨tests, tested_iff.2 made, fun others h => ?_, parsed, fun attributes => ?_⟩
  · exact List.map_injective_iff.2 test_injective ((tested_iff.1 h).symm.trans made)
  · rw [parsed, holds_tests]

/-- A quote and an equals sign in a name and in a value, a position that tests nothing, space around a
test, and a group that is not closed. -/
theorem parse_tested_ambiguous :
    let tail := "[@a='1' and @b='2'][1][ @q=\x22x='y\x22 ][@d='z'".toList
    let stretches : List Stretch := .group "@a='1' and @b='2'".toList :: .group "1".toList ::
      .group " @q=\x22x='y\x22 ".toList :: "[@d='z'".toList.map .outside
    let tests : List Attribute := [⟨"a='1' and @b", "2"⟩, ⟨"q", "x='y"⟩]
    Scanned tail stretches ∧ Tested (stretches.filterMap Stretch.inside?) tests ∧
      parse tail = .all (tests.map Attribute.test) ∧ (parse tail).holds tests.reverse = true ∧
      (parse tail).holds [⟨"b", "2"⟩, ⟨"q", "x='y"⟩] = false := by
  intro tail stretches tests
  have unclosed : Scanned "[@d='z'".toList ("[@d='z'".toList.map .outside) :=
    .outside (by decide) (.outside (by decide) (.outside (by decide) (.outside (by decide)
      (.outside (by decide) (.outside (by decide) (.outside (by decide) .nil))))))
  have scanned : Scanned tail stretches :=
    @Scanned.group "@a='1' and @b='2'".toList _ _ (by decide) (@Scanned.group "1".toList _ _ (by decide)
      (@Scanned.group " @q=\x22x='y\x22 ".toList _ _ (by decide) unclosed))
  obtain ⟨found, tested, -, parsed, holds⟩ := (parse_tested tail).2 stretches scanned
  have groups : stretches.filterMap Stretch.inside? =
      ["@a='1' and @b='2'".toList, "1".toList, " @q=\x22x='y\x22 ".toList] := rfl
  have same : found = tests := by
    refine List.map_injective_iff.2 test_injective ((tested_iff.1 tested).symm.trans ?_)
    rw [groups]
    rfl
  subst same
  refine ⟨scanned, tested, parsed, (holds _).2 (by decide), Bool.eq_false_iff.2 fun h => ?_⟩
  exact absurd ((holds _).1 h) (by decide)

end Predicate

end SubtreeHarvest
