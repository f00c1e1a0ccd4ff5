/-
Escapes are read back. A character is written as itself or as a reference that resolves to it, so
resolving references undoes either way of escaping; the characters that would end a text or a value
do not show in what is written for it.
-/
import SubtreeHarvest.Markup.Escape
import SubtreeHarvest.Proofs.Text.Cut

namespace SubtreeHarvest.Markup

open Text

/-- What may be written for a character: the character, or a reference that resolves to it. -/
inductive Stands (c : Char) : List Char → Prop
  | itself : c ≠ '&' → Stands c [c]
  | reference {body : List Char} : body.all isReferenceChar = true →
      (∀ start, resolve start body = .ok c) → Stands c ('&' :: (body ++ [';']))

theorem Stands.ne_nil {c : Char} {written : List Char} (h : Stands c written) : written ≠ [] := by
  cases h <;> exact List.cons_ne_nil _ _

theorem resolve_named {start : Nat} {first : Char} {body : List Char} {c : Char} (hf : first ≠ '#')
    (h : named? (first :: body) = some c) : resolve start (first :: body) = .ok c := by
  unfold resolve
  split
  · rename_i he
    exact absurd (List.cons.inj he).1 hf
  · rw [h]

theorem stands_textEscape (c : Char) : Stands c (textEscape c) := by
  unfold textEscape
  split
  · rename_i h
    rw [eq_of_beq h]
    exact @Stands.reference _ "lt".toList (by decide) fun _ => resolve_named (by decide) rfl
  split
  · rename_i h
    rw [eq_of_beq h]
    exact @Stands.reference _ "gt".toList (by decide) fun _ => resolve_named (by decide) rfl
  split
  · rename_i h
    rw [eq_of_beq h]
    exact @Stands.reference _ "amp".toList (by decide) fun _ => resolve_named (by decide) rfl
  · rename_i h
    apply Stands.itself
    rintro rfl
    exact h rfl

theorem stands_valueEscape (c : Char) : Stands c (valueEscape c) := by
  unfold valueEscape
  split
  · rename_i h
    rw [eq_of_beq h]
    exact @Stands.reference _ "apos".toList (by decide) fun _ => resolve_named (by decide) rfl
  split
  · rename_i h
    rw [eq_of_beq h]
    exact @Stands.reference _ "quot".toList (by decide) fun _ => resolve_named (by decide) rfl
  · exact stands_textEscape c

theorem less_not_mem_textEscape (c : Char) : '<' ∉ textEscape c := by
  unfold textEscape
  split
  · decide
  split
  · decide
  split
  · decide
  · rename_i h _ _
    exact fun hm => h (beq_iff_eq.2 (List.mem_singleton.1 hm).symm)

theorem apostrophe_not_mem_valueEscape (c : Char) : '\x27' ∉ valueEscape c := by
  unfold valueEscape
  split
  · decide
  split
  · decide
  · rename_i h _
    unfold textEscape
    split
    · decide
    split
    · decide
    split
    · decide
    · exact fun hm => h (beq_iff_eq.2 (List.mem_singleton.1 hm).symm)

/-! ## Reading back -/

/-- What stands for a character is read as the character, wherever it stands. -/
theorem Stands.unescapeFrom {c : Char} {written : List Char} (h : Stands c written)
    (total i : Nat) (rest : List Char) : ∃ j,
      unescapeFrom total i (written ++ rest) = (c :: ·) <$> Markup.unescapeFrom total j rest := by
  cases h with
  | itself other =>
    refine ⟨i + c.utf8Size, ?_⟩
    rw [List.singleton_append, Markup.unescapeFrom, if_neg (by simpa using other)]
  | @reference body inside resolves =>
    have stop : ∀ x ∈ (';' :: rest).head?, isReferenceChar x = false := forall_head? (by decide)
    obtain ⟨named, after⟩ := span_of_stop (List.all_eq_true.1 inside) stop
    refine ⟨i + byteLength body + 2, ?_⟩
    rw [List.cons_append, List.append_assoc, List.singleton_append, Markup.unescapeFrom,
      if_pos (beq_self_eq_true '&')]
    dsimp only
    split
    · rename_i more he
      rw [after] at he
      cases he
      simp only [named, resolves]
      rfl
    · rename_i other
      exact absurd after (other rest)

theorem unescapeFrom_flatMap {escape : Char → List Char} (h : ∀ c, Stands c (escape c))
    (total : Nat) : ∀ (i : Nat) (cs : List Char), unescapeFrom total i (cs.flatMap escape) = .ok cs
  | _, [] => by rw [List.flatMap_nil, unescapeFrom]
  | i, c :: cs => by
    obtain ⟨j, hj⟩ := (h c).unescapeFrom total i (cs.flatMap escape)
    rw [List.flatMap_cons, hj, unescapeFrom_flatMap h total j cs]
    rfl

/-- Resolving references undoes an escape that writes what stands for each character. -/
theorem unescape_flatMap {escape : Char → List Char} (h : ∀ c, Stands c (escape c))
    (cs : List Char) : unescape (cs.flatMap escape) = .ok cs :=
  unescapeFrom_flatMap h _ 0 cs

end SubtreeHarvest.Markup
