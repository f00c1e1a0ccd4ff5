/-
Finding marks again. A stretch ends where it was ended, a mark is found where it was put if nothing
in front of it holds the mark, and outside quotes it is found behind quoted values whatever they
hold.
-/
import SubtreeHarvest.Text.Cut

namespace SubtreeHarvest.Text

/-- A stretch of items that all count ends in front of the first one that does not. -/
theorem span_of_stop {α : Type} {p : α → Bool} {word : List α} (h : ∀ a ∈ word, p a = true) :
    ∀ {rest : List α}, (∀ a ∈ rest.head?, p a = false) →
      (word ++ rest).takeWhile p = word ∧ (word ++ rest).dropWhile p = rest
  | [], _ => by
    rw [List.takeWhile_append_of_pos h, List.dropWhile_append_of_pos h]
    exact ⟨List.append_nil word, rfl⟩
  | stop :: rest, hs => by
    rw [List.takeWhile_append_of_pos h, List.dropWhile_append_of_pos h, List.takeWhile_cons,
      List.dropWhile_cons, hs stop rfl]
    exact ⟨List.append_nil word, rfl⟩

/-- The first item of a list that is known. -/
theorem forall_head? {α : Type} {P : α → Prop} {a : α} {rest : List α} (h : P a) :
    ∀ x ∈ (a :: rest).head?, P x := by
  rintro x ⟨⟩
  exact h

theorem eq_of_isQuote {q : Char} (h : isQuote q = true) : q = '\x27' ∨ q = '\x22' := by
  simpa [isQuote] using h

/-- What lies in `l ++ m` lies in `m` if nothing in `l` is what it begins with. -/
theorem infix_of_append {α : Type} {x : α} {w : List α} : ∀ {l m : List α}, x ∉ l →
    x :: w <:+: l ++ m → x :: w <:+: m
  | [], _, _, h => h
  | y :: l, m, hx, h => by
    rw [List.mem_cons, not_or] at hx
    rw [List.cons_append, List.infix_cons_iff, List.cons_prefix_cons] at h
    rcases h with ⟨rfl, -⟩ | h
    · exact absurd rfl hx.1
    · exact infix_of_append hx.2 h

/-- What lies in `l ++ m` lies in `l` if nothing in `m` is what it ends with. -/
theorem infix_of_append_front {α : Type} {x : α} {w l m : List α} (hx : x ∉ m)
    (h : w ++ [x] <:+: l ++ m) : w ++ [x] <:+: l := by
  have turned : x :: w.reverse <:+: m.reverse ++ l.reverse := by
    rw [← List.reverse_append, ← List.reverse_concat]
    exact List.reverse_infix.2 h
  have front := infix_of_append (mt List.mem_reverse.1 hx) turned
  rw [← List.reverse_concat] at front
  exact List.reverse_infix.1 front

variable {α : Type} [BEq α] [LawfulBEq α]

/-- A mark is found where it stands first: neither in what stands before it nor across the end of
that is there one. -/
theorem cut_of_first {mark : List α} (hm : mark ≠ []) : ∀ {before behind : List α},
    ¬ mark <:+: before ++ mark.dropLast → cut mark (before ++ mark ++ behind) = some (before, behind)
  | [], behind, _ => by
    obtain ⟨a, rest, rfl⟩ := List.exists_cons_of_ne_nil hm
    have here : (a :: rest).isPrefixOf (a :: (rest ++ behind)) = true :=
      List.isPrefixOf_iff_prefix.2 (List.prefix_append (a :: rest) behind)
    rw [List.nil_append, List.cons_append, cut, if_pos here, ← List.cons_append, List.drop_left]
  | a :: before, behind, h => by
    -- a mark here would lie within what stands before the mark and all but its last item
    have elsewhere : ¬ mark.isPrefixOf (a :: (before ++ mark ++ behind)) = true := by
      intro here
      have front : (a :: before) ++ mark.dropLast <+: a :: (before ++ mark ++ behind) := by
        rw [List.cons_append, List.cons_prefix_cons, List.append_assoc, List.prefix_append_right_inj]
        exact ⟨rfl, (List.dropLast_prefix mark).trans (List.prefix_append mark behind)⟩
      refine h (List.prefix_of_prefix_length_le (List.isPrefixOf_iff_prefix.1 here) front ?_).isInfix
      simp only [List.length_append, List.length_cons, List.length_dropLast]
      omega
    have ih : cut mark (before ++ mark ++ behind) = some (before, behind) :=
      cut_of_first hm fun inside => h (inside.trans (List.suffix_cons a _).isInfix)
    rw [List.cons_append, List.cons_append, cut, if_neg elsewhere, ih]
    rfl

/-- Where an item of the mark is missing, there is no mark. -/
theorem cut_of_not_mem {mark : List α} {x : α} (hx : x ∈ mark) : ∀ {whole : List α}, x ∉ whole →
    cut mark whole = none
  | [], _ => rfl
  | a :: rest, h => by
    have elsewhere : ¬ mark.isPrefixOf (a :: rest) = true := fun here =>
      h ((List.isPrefixOf_iff_prefix.1 here).subset hx)
    rw [cut, if_neg elsewhere, cut_of_not_mem hx (mt (List.mem_cons_of_mem a) h), Option.map_none]

/-- A mark that has been found is found with more behind it. -/
theorem cut_append {mark : List α} (more : List α) : ∀ {whole before behind : List α},
    cut mark whole = some (before, behind) → cut mark (whole ++ more) = some (before, behind ++ more)
  | a :: rest, before, behind, h => by
    have parted := cut_eq_some h
    rw [cut] at h
    rw [List.cons_append, cut, ← List.cons_append]
    split at h
    · rename_i here
      cases h
      have start := List.isPrefixOf_iff_prefix.1 here
      rw [if_pos (List.isPrefixOf_iff_prefix.2 (start.trans (List.prefix_append ..))),
        List.drop_append_of_le_length start.length_le]
    · rename_i elsewhere
      obtain ⟨⟨before', behind'⟩, hc, he⟩ := Option.map_eq_some_iff.1 h
      cases he
      -- the mark is not longer than what it was found in
      have long : mark.length ≤ (a :: rest).length := by
        rw [parted]
        simp only [List.length_append]
        omega
      rw [if_neg, cut_append more hc]
      · rfl
      · intro here
        exact elsewhere (List.isPrefixOf_iff_prefix.2 (List.prefix_of_prefix_length_le
          (List.isPrefixOf_iff_prefix.1 here) (List.prefix_append ..) long))

theorem behind?_of_ne {a b : α} (h : a ≠ b) (mark rest : List α) :
    behind? (b :: mark) (a :: rest) = none := by
  rw [behind?, if_neg]
  rw [List.isPrefixOf_iff_prefix, List.cons_prefix_cons]
  exact fun same => h same.1.symm

/-! ## Outside quotes -/

variable {isQuote : α → Bool} {mark : α}

omit [LawfulBEq α] in
theorem cutUnquoted_append (more : List α) : ∀ {whole before behind : List α} {open? : Option α},
    cutUnquoted isQuote mark open? whole = some (before, behind) →
      cutUnquoted isQuote mark open? (whole ++ more) = some (before, behind ++ more)
  | a :: rest, before, behind, open?, h => by
    rw [List.cons_append]
    unfold cutUnquoted at h ⊢
    split at h
    · split at h
      · rename_i ha
        cases h
        rw [if_pos ha]
      · rename_i ha
        obtain ⟨⟨before', behind'⟩, hc, he⟩ := Option.map_eq_some_iff.1 h
        cases he
        rw [if_neg ha, cutUnquoted_append more hc]
        rfl
    · obtain ⟨⟨before', behind'⟩, hc, he⟩ := Option.map_eq_some_iff.1 h
      cases he
      dsimp only
      rw [cutUnquoted_append more hc]
      rfl

theorem cutUnquoted_plain : ∀ {plain : List α} (rest : List α),
    (∀ a ∈ plain, a ≠ mark ∧ isQuote a = false) →
      cutUnquoted isQuote mark none (plain ++ rest) =
        (cutUnquoted isQuote mark none rest).map fun (before, behind) => (plain ++ before, behind)
  | [], rest, _ => by simp
  | a :: plain, rest, h => by
    obtain ⟨⟨other, unquoted⟩, h⟩ := List.forall_mem_cons.1 h
    rw [List.cons_append, cutUnquoted, if_neg (by simpa using other), unquoted, if_neg Bool.false_ne_true,
      cutUnquoted_plain rest h, Option.map_map]
    rfl

theorem cutUnquoted_open {q : α} : ∀ {value : List α} (rest : List α), q ∉ value →
    cutUnquoted isQuote mark (some q) (value ++ q :: rest) =
      (cutUnquoted isQuote mark none rest).map fun (before, behind) => (value ++ q :: before, behind)
  | [], rest, _ => by simp [cutUnquoted]
  | a :: value, rest, h => by
    rw [List.mem_cons, not_or] at h
    rw [List.cons_append, cutUnquoted, if_neg (by simpa using Ne.symm h.1), cutUnquoted_open rest h.2,
      Option.map_map]
    rfl

/-- A quoted value is passed over with all it holds. -/
theorem cutUnquoted_quoted {q : α} {value : List α} (rest : List α) (hq : isQuote q = true)
    (hm : q ≠ mark) (hv : q ∉ value) :
    cutUnquoted isQuote mark none (q :: (value ++ q :: rest)) =
      (cutUnquoted isQuote mark none rest).map fun (before, behind) =>
        (q :: (value ++ q :: before), behind) := by
  rw [cutUnquoted, if_neg (by simpa using hm), if_pos hq, cutUnquoted_open rest hv, Option.map_map]
  rfl

end SubtreeHarvest.Text
