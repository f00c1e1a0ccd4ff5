/-
Escapes are read back in a document. Whatever resolves a reference in markup resolves it the same
way in a document, so resolving undoes both ways of escaping there, too.
-/
import SubtreeHarvest.Document.Token
import SubtreeHarvest.Proofs.Markup.Escape

namespace SubtreeHarvest.Document

open Text Markup

/-! ## References -/

theorem character?_of_unsigned {base code : Nat} {digits : List Char} (h : unsigned base digits = .ok code)
    (valid : code.isValidChar) : character? base digits = some (Char.ofNat code) := by
  rw [character?, h]
  exact if_pos valid

/-- The digits of a number are read in the same base by both. -/
theorem referenced?_of_numbered {digits : List Char} {c : Char} (h : numbered digits = .ok c) :
    referenced? ('#' :: digits) = some c := by
  have checked {code : Nat} (h : (if code = 0 then Except.error NumberFault.zero
      else if code.isValidChar then .ok (Char.ofNat code) else .error (.noCharacter code)) = .ok c) :
      code.isValidChar ∧ Char.ofNat code = c := by
    split at h
    · cases h
    split at h
    · cases h
      exact ⟨‹_›, rfl⟩
    · cases h
  unfold numbered at h
  split at h
  · rename_i digits
    cases hu : unsigned 16 digits with
    | error fault => rw [hu] at h; cases h
    | ok code =>
      rw [hu] at h
      obtain ⟨valid, rfl⟩ := checked h
      exact character?_of_unsigned hu valid
  · rename_i decimal
    cases hu : unsigned 10 digits with
    | error fault => rw [hu] at h; cases h
    | ok code =>
      rw [hu] at h
      obtain ⟨valid, rfl⟩ := checked h
      rw [referenced?]
      · exact character?_of_unsigned hu valid
      · exact decimal

/-- What a reference in markup stands for, it stands for in a document. -/
theorem referenced?_of_resolve {start : Nat} {body : List Char} {c : Char}
    (h : resolve start body = .ok c) : referenced? body = some c := by
  unfold resolve at h
  split at h
  · rename_i digits
    apply referenced?_of_numbered
    cases hn : numbered digits with
    | error fault => rw [hn] at h; cases h
    | ok d => rw [hn] at h; cases h; rfl
  · rename_i name
    cases hn : named? body with
    | none => rw [hn] at h; cases h
    | some d =>
      rw [hn] at h
      cases h
      unfold referenced?
      split
      · exact absurd rfl (name _)
      · exact absurd rfl (name _)
      · exact hn

/-! ## Resolving -/

/-- The body of a reference ends at its semicolon. -/
theorem cut_body {body : List Char} (h : body.all isReferenceChar = true) (rest : List Char) :
    cut [';'] (body ++ [';'] ++ rest) = some (body, rest) := by
  apply cut_of_first (List.cons_ne_nil _ _)
  rw [List.dropLast_singleton, List.append_nil]
  intro inside
  have hm : ';' ∈ body := inside.subset List.mem_cons_self
  exact absurd (List.all_eq_true.1 h _ hm) (by decide)

/-- What stands for a character is resolved to the character, wherever it stands. -/
theorem resolved?_stands {c : Char} {written : List Char} (h : Stands c written) (rest : List Char) :
    resolved? (written ++ rest) = (c :: ·) <$> resolved? rest := by
  cases h with
  | itself other =>
    rw [List.singleton_append, resolved?, if_neg (by simpa using other)]
  | @reference body inside resolves =>
    rw [List.cons_append, resolved?, if_pos (beq_self_eq_true '&')]
    split
    · rename_i hc
      cases (cut_body inside rest).symm.trans hc
      rw [referenced?_of_resolve (resolves 0)]
      cases resolved? rest <;> rfl
    · rename_i hc
      cases (cut_body inside rest).symm.trans hc

theorem resolved?_flatMap {escape : Char → List Char} (h : ∀ c, Stands c (escape c)) :
    ∀ cs : List Char, resolved? (cs.flatMap escape) = some cs
  | [] => by rw [List.flatMap_nil, resolved?]
  | c :: cs => by
    rw [List.flatMap_cons, resolved?_stands (h c), resolved?_flatMap h cs]
    rfl

/-! ## Values -/

theorem less_not_mem_valueEscape (c : Char) : '<' ∉ valueEscape c := by
  unfold valueEscape
  split
  · decide
  split
  · decide
  · exact less_not_mem_textEscape c

/-- The value of an attribute as it is written between quotes. -/
def valueChars (value : String) : List Char :=
  value.toList.flatMap valueEscape

theorem apostrophe_not_mem_value (value : String) : '\x27' ∉ valueChars value := by
  intro hm
  obtain ⟨c, -, hc⟩ := List.mem_flatMap.1 hm
  exact apostrophe_not_mem_valueEscape c hc

/-- A value is read back from what is written for it. -/
theorem value?_written (value : String) : value? (valueChars value) = some value := by
  have unopened : (valueChars value).contains '<' = false := by
    rw [Bool.eq_false_iff, ne_eq, List.contains_iff_mem]
    intro hm
    obtain ⟨c, -, hc⟩ := List.mem_flatMap.1 hm
    exact less_not_mem_valueEscape c hc
  rw [value?, unopened, if_neg Bool.false_ne_true, valueChars, resolved?_flatMap stands_valueEscape,
    Option.map_some, String.ofList_toList]

end SubtreeHarvest.Document
