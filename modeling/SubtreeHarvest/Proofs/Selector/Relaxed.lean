/-
Expressions in which bracket groups that test an attribute are replaced by groups that test
nothing. The pieces, the gaps and the names in them stay as they are, and the predicates lose some
of their tests; so the chain of the new expression is wider than that of the old one, and what the
old one captures is captured, or lies inside something captured, as far as the matcher can do so
without going back.
-/
import SubtreeHarvest.Proofs.Selector.Pieces
import SubtreeHarvest.Proofs.Selector.Widened

namespace SubtreeHarvest

open Text

/-- No bracket of either kind is among the characters. -/
def Unbracketed (cs : List Char) : Prop :=
  '[' ∉ cs ∧ ']' ∉ cs

instance (cs : List Char) : Decidable (Unbracketed cs) :=
  inferInstanceAs (Decidable (_ ∧ _))

/-- Some of the bracket groups that test an attribute are replaced by groups that test nothing. -/
inductive Relaxed : List Char → List Char → Prop
  | nil : Relaxed [] []
  | char {c : Char} {cs ds : List Char} : c ≠ '[' → Relaxed cs ds → Relaxed (c :: cs) (c :: ds)
  /-- A group that stays, whatever it is. -/
  | kept {group cs ds : List Char} : ']' ∉ group → Relaxed cs ds →
      Relaxed ('[' :: (group ++ ']' :: cs)) ('[' :: (group ++ ']' :: ds))
  | replaced {group other cs ds : List Char} : Unbracketed group → Unbracketed other →
      Predicate.ofGroup? group ≠ none → Predicate.ofGroup? other = none → Relaxed cs ds →
      Relaxed ('[' :: (group ++ ']' :: cs)) ('[' :: (other ++ ']' :: ds))

/-- Characters in front of a group stay. -/
theorem Relaxed.behind {cs ds : List Char} (h : Relaxed cs ds) :
    ∀ front : List Char, '[' ∉ front → Relaxed (front ++ cs) (front ++ ds)
  | [], _ => h
  | c :: front, hf => by
    rw [List.mem_cons, not_or] at hf
    exact .char (Ne.symm hf.1) (behind h front hf.2)

/-! ## Tests -/

namespace Relaxed

variable {cs ds : List Char}

/-- The tests left are tests there were. -/
theorem tests (h : Relaxed cs ds) :
    ((Predicate.groups ds).filterMap Predicate.ofGroup?).Sublist
      ((Predicate.groups cs).filterMap Predicate.ofGroup?) := by
  induction h with
  | nil => exact .refl _
  | char hc _ ih => rw [Predicate.groups_char hc, Predicate.groups_char hc]; exact ih
  | @kept group cs ds hg _ ih =>
    rw [Predicate.groups_group hg, Predicate.groups_group hg, List.filterMap_cons, List.filterMap_cons]
    cases Predicate.ofGroup? group with
    | none => exact ih
    | some test => exact ih.cons_cons test
  | @replaced group other cs ds hg ho hs hn _ ih =>
    obtain ⟨test, ht⟩ := Option.ne_none_iff_exists'.1 hs
    rw [Predicate.groups_group hg.2, Predicate.groups_group ho.2,
      List.filterMap_cons_none hn, List.filterMap_cons_some ht]
    exact ih.cons test

theorem holds (h : Relaxed cs ds) {attributes : List Attribute}
    (hp : (Predicate.parse cs).holds attributes = true) :
    (Predicate.parse ds).holds attributes = true := by
  rw [Predicate.parse, Predicate.holds, Predicate.allHold_eq_all, List.all_eq_true] at hp ⊢
  exact fun test ht => hp test (h.tests.subset ht)

/-! ## One piece -/

theorem takeWhile_eq (h : Relaxed cs ds) : ds.takeWhile (· != '[') = cs.takeWhile (· != '[') := by
  induction h with
  | nil => rfl
  | char hc _ ih =>
    rw [List.takeWhile_cons_of_pos (by simpa using hc), List.takeWhile_cons_of_pos (by simpa using hc), ih]
  | kept | replaced => rfl

theorem dropWhile (h : Relaxed cs ds) :
    Relaxed (cs.dropWhile (· != '[')) (ds.dropWhile (· != '[')) := by
  induction h with
  | nil => exact .nil
  | char hc _ ih =>
    rw [List.dropWhile_cons_of_pos (by simpa using hc), List.dropWhile_cons_of_pos (by simpa using hc)]
    exact ih
  | kept hg h _ => exact .kept hg h
  | replaced hg ho hs hn h _ => exact .replaced hg ho hs hn h

theorem isEmpty_eq (h : Relaxed cs ds) : ds.isEmpty = cs.isEmpty := by
  cases h <;> rfl

theorem getLast?_eq (h : Relaxed cs ds) : ds.getLast? = cs.getLast? := by
  induction h with
  | nil => rfl
  | char _ _ ih => rw [List.getLast?_cons, List.getLast?_cons, ih]
  | kept _ _ ih | replaced _ _ _ _ _ ih =>
    simp only [List.getLast?_cons, List.getLast?_append, Option.some_or, ih]

/-- Without groups nothing is replaced. -/
theorem eq_of_not_mem (h : Relaxed cs ds) : '[' ∉ cs ∨ '[' ∉ ds → ds = cs := by
  induction h with
  | nil => exact fun _ => rfl
  | char _ _ ih =>
    intro hn
    rw [ih (hn.imp (mt (List.mem_cons_of_mem _)) (mt (List.mem_cons_of_mem _)))]
  | kept | replaced => intro hn; simp at hn

theorem eq_of_isGap (h : Relaxed cs ds) (hg : Selector.isGap cs = true) : ds = cs :=
  h.eq_of_not_mem (.inl (Selector.not_mem_of_isGap hg))

theorem isGap_eq (h : Relaxed cs ds) : Selector.isGap ds = Selector.isGap cs := by
  by_cases hg : Selector.isGap ds = true
  · rw [h.eq_of_not_mem (.inr (Selector.not_mem_of_isGap hg))]
  · by_cases hg' : Selector.isGap cs = true
    · rw [h.eq_of_isGap hg']
    · rw [Bool.not_eq_true] at hg hg'
      rw [hg, hg']

end Relaxed

/-! ## All pieces -/

namespace Selector

/-- Pieces stay relaxed with characters in front of the first ones that may stand there. -/
theorem forall₂_prependPiece (front other : List Char) {old new : List (List Char)}
    (hr : ∀ {p q}, Relaxed p q → Relaxed (front ++ p) (other ++ q)) (hn : old ≠ [])
    (h : List.Forall₂ Relaxed old new) :
    List.Forall₂ Relaxed (prependPiece front old) (prependPiece other new) := by
  cases h with
  | nil => exact absurd rfl hn
  | cons hp h =>
    rw [prependPiece_cons, prependPiece_cons]
    exact .cons (hr hp) h

/-- The pieces of a relaxed expression are the relaxed pieces. -/
theorem pieces_relaxed {cs ds : List Char} (h : Relaxed cs ds) :
    ∀ depth, List.Forall₂ Relaxed (pieces depth cs) (pieces depth ds) := by
  induction h with
  | nil => exact fun _ => .cons .nil .nil
  | @char c cs ds ho _ ih =>
    intro depth
    have front : ∀ n, List.Forall₂ Relaxed (consPiece c (pieces n cs)) (consPiece c (pieces n ds)) :=
      fun n => forall₂_prependPiece [c] [c] (.char ho) (pieces_ne_nil n cs) (ih n)
    by_cases hs : c = '/' ∧ depth = 0
    · obtain ⟨rfl, rfl⟩ := hs
      rw [pieces_slash, pieces_slash]
      exact .cons .nil (ih 0)
    · by_cases hc : c = ']'
      · subst hc
        rw [pieces_closing, pieces_closing]
        exact front (depth - 1)
      · have inside : c ≠ '/' ∨ depth ≠ 0 := by tauto
        rw [pieces_plain ho hc inside, pieces_plain ho hc inside]
        exact front depth
  | @kept group cs ds hg _ ih =>
    intro depth
    rw [pieces_group depth cs hg, pieces_group depth ds hg]
    refine forall₂_prependPiece _ _ (fun hp => ?_) (pieces_ne_nil _ _) (ih _)
    simpa using Relaxed.kept hg hp
  | @replaced group other cs ds hg ho hs hn _ ih =>
    intro depth
    rw [pieces_group depth cs hg.2, pieces_group depth ds ho.2, List.count_eq_zero.2 hg.1,
      List.count_eq_zero.2 ho.1]
    refine forall₂_prependPiece _ _ (fun hp => ?_) (pieces_ne_nil _ _) (ih _)
    simpa using Relaxed.replaced hg ho hs hn hp

/-! ## Steps -/

variable {recursive : Bool} {piece other : List Char}

/-- A relaxed piece is as good as the piece, unless nothing but an empty group is left in it. -/
theorem IsStep.relaxed (h : IsStep piece) (hr : Relaxed piece other)
    (hn : other.dropWhile (· != '[') ≠ ['[', ']']) : IsStep other := by
  refine ⟨by rw [hr.takeWhile_eq]; exact h.named, ?_⟩
  rw [hr.dropWhile.isEmpty_eq, hr.dropWhile.getLast?_eq]
  refine h.closed.imp_right fun ⟨_, last⟩ => ?_
  have same := hr.dropWhile.getLast?_eq.trans last
  exact ⟨three_le_byteLength (head?_dropWhile same) same hn, last⟩

/-- The step of a relaxed piece is wider. -/
theorem writtenStep_widens (hr : Relaxed piece other) (recursive : Bool) :
    (writtenStep recursive piece).Widens (writtenStep recursive other) := by
  refine ⟨?_, rfl, fun tag ha => ?_⟩
  · simp only [writtenStep, hr.takeWhile_eq]
  · simp only [Step.admits, writtenStep, hr.takeWhile_eq, Bool.and_eq_true] at ha ⊢
    refine ⟨ha.1, ?_⟩
    rw [hr.dropWhile.isEmpty_eq]
    cases hm : (piece.dropWhile (· != '[')).isEmpty with
    | true => rfl
    | false =>
      rw [hm] at ha
      exact hr.dropWhile.holds ha.2

/-! ## Expressions -/

/-- In some piece an empty group, and nothing else, stands behind the name. -/
def HasEmptyGroup (pieces : List (List Char)) : Prop :=
  ∃ piece ∈ pieces, piece.dropWhile (· != '[') = ['[', ']']

instance (pieces : List (List Char)) : Decidable (HasEmptyGroup pieces) :=
  inferInstanceAs (Decidable (∃ piece ∈ pieces, _))

variable {e e' : String}

/-- A relaxed piece writes a wider step, or is refused for its empty group. -/
theorem stepOfPiece_relaxed {step : Step} (hr : Relaxed piece other)
    (h : stepOfPiece e recursive piece = .ok step) :
    (∃ wider, stepOfPiece e' recursive other = .ok wider ∧ step.Widens wider) ∨
      other.dropWhile (· != '[') = ['[', ']'] ∧
        ∃ failure, stepOfPiece e' recursive other = .error failure := by
  have written : IsStep piece := by
    by_contra hn
    obtain ⟨failure, hf⟩ := exists_error_of_not_isStep hn
    cases hf.symm.trans h
  cases (stepOfPiece_of_isStep written).symm.trans h
  by_cases hn : other.dropWhile (· != '[') = ['[', ']']
  · exact .inr ⟨hn, exists_error_of_empty hn⟩
  · exact .inl ⟨_, stepOfPiece_of_isStep (written.relaxed hr hn), writtenStep_widens hr recursive⟩

/-- Relaxed pieces write wider steps and leave the same gaps at their end, or one is refused for
its empty group. -/
theorem stepsOfPieces_relaxed {old new : List (List Char)} (h : List.Forall₂ Relaxed old new) :
    ∀ {gaps trailing : List (List Char)} {steps : List Step},
      stepsOfPieces e gaps old = .ok (steps, trailing) →
      (∃ others, stepsOfPieces e' gaps new = .ok (others, trailing) ∧
          List.Forall₂ Step.Widens steps others) ∨
        HasEmptyGroup new ∧ ∃ failure, stepsOfPieces e' gaps new = .error failure := by
  induction h with
  | nil =>
    intro gaps trailing steps h
    cases h
    exact .inl ⟨[], rfl, .nil⟩
  | @cons piece other old new hr hrs ih =>
    intro gaps trailing steps h
    have deeper : HasEmptyGroup new → HasEmptyGroup (other :: new) :=
      fun ⟨empty, hm, he⟩ => ⟨empty, List.mem_cons_of_mem _ hm, he⟩
    cases hg : isGap piece with
    | true =>
      obtain rfl := hr.eq_of_isGap hg
      rw [stepsOfPieces_gap hg] at h ⊢
      exact (ih h).imp_right fun ⟨he, hf⟩ => ⟨deeper he, hf⟩
    | false =>
      rw [stepsOfPieces_step hg] at h
      rw [stepsOfPieces_step (hr.isGap_eq.trans hg)]
      cases hs : stepOfPiece e (!gaps.isEmpty) piece with
      | error failure => rw [hs] at h; cases h
      | ok step =>
        rcases hm : stepsOfPieces e [] old with failure | ⟨later, left⟩
        · rw [hs, hm] at h; cases h
        · rw [hs, hm] at h
          cases h
          rcases stepOfPiece_relaxed hr hs with ⟨wider, hw, widens⟩ | ⟨empty, failure, hf⟩
          · rcases ih hm with ⟨others, ho, all⟩ | ⟨he, failure, hf⟩
            · exact .inl ⟨wider :: others, by rw [hw, ho]; rfl, .cons widens all⟩
            · exact .inr ⟨deeper he, failure, by rw [hw, hf]; rfl⟩
          · exact .inr ⟨⟨other, List.mem_cons_self, empty⟩, failure, by rw [hf]; rfl⟩

/-- Relaxed pieces write a wider chain, or one is refused for its empty group. -/
theorem chainOfPieces_relaxed {old new : List (List Char)} {chain : Chain}
    (h : List.Forall₂ Relaxed old new) (hc : chainOfPieces e old = .ok chain) :
    (∃ wider, chainOfPieces e' new = .ok wider ∧ chain.Widens wider) ∨
      HasEmptyGroup new ∧ ∃ failure, chainOfPieces e' new = .error failure := by
  unfold chainOfPieces at hc ⊢
  rcases hs : stepsOfPieces e [] old with failure | ⟨steps, trailing⟩
  · rw [hs] at hc; cases hc
  · rw [hs] at hc
    rcases stepsOfPieces_relaxed h hs with ⟨others, ho, widens⟩ | ⟨he, failure, hf⟩
    · rw [ho]
      left
      cases widens with
      | nil =>
        cases hc
        exact ⟨_, rfl, .cons (.refl _) .nil⟩
      | @cons step wider later others hw hl =>
        dsimp only [bind, Except.bind] at hc ⊢
        by_cases any : trailing.contains star = true
        · rw [if_pos any] at hc ⊢
          cases hc
          exact ⟨_, rfl, .cons hw (List.rel_append hl (.cons (.refl _) .nil))⟩
        · rw [if_neg any] at hc ⊢
          by_cases gap : 1 < trailing.length
          · rw [if_pos gap] at hc; cases hc
          · rw [if_neg gap] at hc ⊢
            cases hc
            exact ⟨_, rfl, .cons hw hl⟩
    · exact .inr ⟨he, failure, by rw [hf]; rfl⟩

/-- A relaxed expression compiles to a wider chain, or is refused for an empty group. -/
theorem compile_relaxed {selector : Selector} (h : Relaxed e.toList e'.toList)
    (hc : compile e = .ok selector) :
    (∃ wider, compile e' = .ok wider ∧ selector.chain.Widens wider.chain) ∨
      HasEmptyGroup (pieces 0 e'.toList.tail) ∧ ∃ failure, compile e' = .error failure := by
  obtain ⟨rest, he⟩ := exists_slash_of_compile hc
  rw [compile_of_slash he] at hc
  rw [he] at h
  cases hd : e'.toList with
  | nil => rw [hd] at h; cases h
  | cons c rest' =>
    rw [hd] at h
    cases h with
    | char _ hr =>
      rw [compile_of_slash hd, List.tail_cons]
      rcases hp : chainOfPieces e (pieces 0 rest) with failure | chain
      · rw [hp] at hc; cases hc
      · rw [hp] at hc
        cases hc
        rcases chainOfPieces_relaxed (pieces_relaxed hr 0) hp with
          ⟨wider, hw, widens⟩ | ⟨he, failure, hf⟩
        · exact .inl ⟨⟨e', wider⟩, by rw [hw]; rfl, widens⟩
        · exact .inr ⟨he, failure, by rw [hf]; rfl⟩

/-- Where groups that test an attribute are replaced by groups that test nothing, the new
expression compiles unless an empty group is left alone behind a name; and if no plain step comes
behind a recursive one whose tests have changed, each element captured by the old expression is
captured by the new one, or lies inside one that is. -/
theorem captured_relaxed {selector : Selector} (h : Relaxed e.toList e'.toList)
    (hc : compile e = .ok selector) :
    (¬ HasEmptyGroup (pieces 0 e'.toList.tail) → ∃ wider, compile e' = .ok wider) ∧
      ∀ wider, compile e' = .ok wider → selector.chain.GapsBehindChanges wider.chain →
        ∀ forest : Forest,
          (selector.extract .none (Feed.ofEvents forest.events) =
              (forest.captured selector.chain).map fun element => .ok element.fragment) ∧
            (wider.extract .none (Feed.ofEvents forest.events) =
              (forest.captured wider.chain).map fun element => .ok element.fragment) ∧
            ∀ element ∈ forest.captured selector.chain,
              ∃ outer ∈ forest.captured wider.chain, element.Within outer := by
  rcases compile_relaxed h hc with ⟨wider, hw, widens⟩ | ⟨empty, failure, hf⟩
  · refine ⟨fun _ => ⟨wider, hw⟩, fun other ho hg forest => ?_⟩
    cases hw.symm.trans ho
    exact ⟨items_forest selector forest, items_forest wider forest,
      fun _ he => forest.exists_captured_widened widens hg he⟩
  · refine ⟨fun hn => absurd empty hn, fun other ho => ?_⟩
    cases hf.symm.trans ho

theorem parse_test : Predicate.parse "[@x='1']".toList = .all [.equals "x" "1"] :=
  Predicate.parse_group "@x='1'".toList (by decide)

theorem parse_position : Predicate.parse ['[', '1', ']'] = .all [] :=
  Predicate.parse_group ['1'] (by decide)

/-- One test is replaced by a position. -/
theorem relaxed_position {cs ds : List Char} (h : Relaxed cs ds) :
    Relaxed ("[@x='1']".toList ++ cs) (['[', '1', ']'] ++ ds) :=
  @Relaxed.replaced "@x='1'".toList ['1'] cs ds (by decide) (by decide) (by decide) (by decide) h

/-- A test on the last step is dropped: an element further out is captured. -/
theorem captured_relaxed_last :
    let old : Selector :=
      ⟨"/r//a[@x='1']", ⟨⟨some "r", none, false⟩, [⟨some "a", some (.all [.equals "x" "1"]), true⟩]⟩⟩
    let new : Selector := ⟨"/r//a[1]", ⟨⟨some "r", none, false⟩, [⟨some "a", some (.all []), true⟩]⟩⟩
    let inner : Forest := .element ⟨"a", [⟨"x", "1"⟩]⟩ .empty .empty
    let forest : Forest := .element ⟨"r", []⟩ (.element ⟨"a", []⟩ inner .empty) .empty
    let e : Element := ⟨2, [⟨"r", []⟩, ⟨"a", []⟩], ⟨"a", [⟨"x", "1"⟩]⟩, .empty⟩
    compile "/r//a[@x='1']" = .ok old ∧ compile "/r//a[1]" = .ok new ∧
      Relaxed "/r//a[@x='1']".toList "/r//a[1]".toList ∧
      (∃ wider, compile "/r//a[1]" = .ok wider) ∧
      old.chain.GapsBehindChanges new.chain ∧ e ∈ forest.captured old.chain ∧
      ∃ outer ∈ forest.captured new.chain, e.Within outer := by
  intro old new inner forest e
  have hold : compile "/r//a[@x='1']" = .ok old := by
    show _ = Except.ok (⟨_, ⟨_, [⟨_, some (.all [.equals "x" "1"]), _⟩]⟩⟩ : Selector)
    rw [← parse_test]; rfl
  have hnew : compile "/r//a[1]" = .ok new := by
    show _ = Except.ok (⟨_, ⟨_, [⟨_, some (.all []), _⟩]⟩⟩ : Selector)
    rw [← parse_position]; rfl
  have h : Relaxed "/r//a[@x='1']".toList "/r//a[1]".toList :=
    (relaxed_position .nil).behind "/r//a".toList (by decide)
  have he : e ∈ forest.captured old.chain := by decide
  have hg : old.chain.GapsBehindChanges new.chain := by decide
  have filled : ¬ HasEmptyGroup (pieces 0 "/r//a[1]".toList.tail) := by decide
  obtain ⟨compiles, wider⟩ := captured_relaxed h hold
  obtain ⟨-, -, around⟩ := wider new hnew hg forest
  exact ⟨hold, hnew, h, compiles filled, hg, he, around e he⟩

/-- A test on a recursive step in front of a plain one is dropped, and the element captured before
is not even inside a captured one. -/
theorem not_captured_relaxed :
    let old : Selector := ⟨"//a[@x='1']/b",
      ⟨⟨some "a", some (.all [.equals "x" "1"]), true⟩, [⟨some "b", none, false⟩]⟩⟩
    let new : Selector := ⟨"//a[1]/b", ⟨⟨some "a", some (.all []), true⟩, [⟨some "b", none, false⟩]⟩⟩
    let inner : Forest := .element ⟨"a", [⟨"x", "1"⟩]⟩ (.element ⟨"b", []⟩ .empty .empty) .empty
    let forest : Forest := .element ⟨"a", []⟩ inner .empty
    compile "//a[@x='1']/b" = .ok old ∧ compile "//a[1]/b" = .ok new ∧
      Relaxed "//a[@x='1']/b".toList "//a[1]/b".toList ∧
      old.extract .none (Feed.ofEvents forest.events) = [.ok ⟨"<b></b>"⟩] ∧
      new.extract .none (Feed.ofEvents forest.events) = [] ∧
      ¬ ∀ e ∈ forest.captured old.chain, ∃ outer ∈ forest.captured new.chain, e.Within outer := by
  intro old new inner forest
  have hold : compile "//a[@x='1']/b" = .ok old := by
    show _ = Except.ok (⟨_, ⟨⟨_, some (.all [.equals "x" "1"]), _⟩, _⟩⟩ : Selector)
    rw [← parse_test]; rfl
  have hnew : compile "//a[1]/b" = .ok new := by
    show _ = Except.ok (⟨_, ⟨⟨_, some (.all []), _⟩, _⟩⟩ : Selector)
    rw [← parse_position]; rfl
  have h : Relaxed "//a[@x='1']/b".toList "//a[1]/b".toList :=
    (relaxed_position (Relaxed.nil.behind "/b".toList (by decide))).behind "//a".toList (by decide)
  have kept : forest.captured old.chain =
      [⟨2, [⟨"a", []⟩, ⟨"a", [⟨"x", "1"⟩]⟩], ⟨"b", []⟩, .empty⟩] := by decide
  have lost : forest.captured new.chain = [] := by decide
  refine ⟨hold, hnew, h, ?_, ?_, fun around => ?_⟩
  · rw [items_forest, kept]; rfl
  · rw [items_forest, lost]; rfl
  · obtain ⟨outer, ho, -⟩ := around _ (kept ▸ List.mem_cons_self)
    rw [lost] at ho
    cases ho

end Selector

end SubtreeHarvest
