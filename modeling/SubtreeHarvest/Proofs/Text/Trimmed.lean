/-
Trimming. Characters that trimming leaves alone are tight: they neither begin nor end with white
space. Trimmed characters are tight, and tight stretches set side by side stay tight.
-/
import SubtreeHarvest.Text.Cut

namespace SubtreeHarvest.Text

/-- There is no white space at either end. -/
structure Tight (cs : List Char) : Prop where
  front : ∀ c ∈ cs.head?, isWhite c = false
  back : trimEnd cs = cs

theorem isPrefix_trimEnd : ∀ cs : List Char, trimEnd cs <+: cs
  | [] => List.prefix_refl _
  | c :: cs => by
    have ih := isPrefix_trimEnd cs
    rw [trimEnd]
    split
    · split
      · exact List.nil_prefix
      · exact List.cons_prefix_cons.2 ⟨rfl, List.nil_prefix⟩
    · exact List.cons_prefix_cons.2 ⟨rfl, ih⟩

theorem isInfix_trimmed (cs : List Char) : trimmed cs <:+: cs :=
  (isPrefix_trimEnd _).isInfix.trans (List.dropWhile_suffix isWhite).isInfix

/-- White space at the end is cut off behind the last other character, whatever is before it. -/
theorem trimEnd_append : ∀ (cs : List Char) {ds : List Char}, trimEnd ds ≠ [] →
    trimEnd (cs ++ ds) = cs ++ trimEnd ds
  | [], _, _ => rfl
  | c :: cs, ds, h => by
    have kept : cs ++ trimEnd ds ≠ [] := List.append_ne_nil_of_right_ne_nil cs h
    rw [List.cons_append, trimEnd, trimEnd_append cs h]
    split
    · exact absurd ‹_› kept
    · rfl

theorem trimEnd_trimEnd : ∀ cs : List Char, trimEnd (trimEnd cs) = trimEnd cs
  | [] => rfl
  | c :: cs => by
    have ih := trimEnd_trimEnd cs
    rw [trimEnd]
    split
    · split
      · rfl
      · rename_i black
        simp only [trimEnd, if_neg black]
    · rename_i more kept
      rw [trimEnd, ih]
      split
      · exact absurd ‹_› kept
      · rfl

theorem tight_nil : Tight [] where
  front _ h := nomatch h
  back := rfl

theorem tight_trimmed (cs : List Char) : Tight (trimmed cs) where
  front c hc := by
    -- what is left at the front is left when the end is cut off, too
    have begins := List.head?_dropWhile_not isWhite cs
    have cut : trimmed cs <+: cs.dropWhile isWhite := isPrefix_trimEnd _
    obtain ⟨more, he⟩ : ∃ more, cs.dropWhile isWhite = c :: more := by
      obtain ⟨tail, ht⟩ := List.head?_eq_some_iff.1 hc
      obtain ⟨more, hm⟩ := ht ▸ cut
      exact ⟨tail ++ more, hm.symm⟩
    rw [he] at begins
    exact begins
  back := trimEnd_trimEnd _

namespace Tight

variable {cs ds : List Char}

theorem trimmed_eq (h : Tight cs) : trimmed cs = cs := by
  have begins : cs.dropWhile isWhite = cs := by
    cases cs with
    | nil => rfl
    | cons c cs => rw [List.dropWhile_cons, h.front c rfl]; rfl
  rw [trimmed, begins, h.back]

theorem append (hc : Tight cs) (hd : Tight ds) : Tight (cs ++ ds) := by
  cases cs with
  | nil => exact hd
  | cons c cs =>
    cases ds with
    | nil => rwa [List.append_nil]
    | cons d ds =>
      have kept : trimEnd (d :: ds) ≠ [] := by
        rw [hd.back]
        exact List.cons_ne_nil d ds
      constructor
      · intro x hx
        exact hc.front x hx
      · rw [trimEnd_append _ kept, hd.back]

end Tight

theorem trim_trim (s : String) : trim (trim s) = trim s := by
  rw [trim, trim, String.toList_ofList, (tight_trimmed _).trimmed_eq]

end SubtreeHarvest.Text
