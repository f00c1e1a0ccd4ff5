/-
The expressions that select every element at the top. They are those of gaps alone: whatever stands
between two slashes is blank or a star, and this may be looked at as if brackets meant nothing. Nothing
else compiles to the same chain, because a piece that is no gap leaves a name or a predicate in its step;
a star with groups behind it leaves a predicate, even where none of its groups tests anything.
-/
import SubtreeHarvest.Proofs.Selector.Parted

namespace SubtreeHarvest

open Text

theorem Chain.eq_of_steps {chain other : Chain} (h : chain.steps = other.steps) : chain = other := by
  obtain ⟨first, later⟩ := chain
  obtain ⟨first', later'⟩ := other
  cases h
  rfl

namespace Selector

variable {c d : Char} {cs piece : List Char} {parts : List (List Char)} {expression : String}

/-! ## Slashes without brackets -/

theorem splitOn_slash (cs : List Char) : ('/' :: cs).splitOn '/' = [] :: cs.splitOn '/' := by
  rw [List.splitOn_cons_eq_if_modifyHead, beq_self_eq_true, if_pos rfl]

theorem splitOn_char (h : c ≠ '/') (cs : List Char) :
    (c :: cs).splitOn '/' = consPiece c (cs.splitOn '/') := by
  rw [List.splitOn_cons_eq_if_modifyHead, beq_eq_false_iff_ne.2 h, if_neg Bool.false_ne_true]
  cases hs : cs.splitOn '/' with
  | nil => exact absurd hs (List.splitOn_ne_nil '/' cs)
  | cons piece pieces => rfl

theorem not_mem_of_consPiece (h : ∀ piece ∈ consPiece c parts, d ∉ piece) :
    c ≠ d ∧ ∀ piece ∈ parts, d ∉ piece := by
  cases parts with
  | nil =>
    have first := h [c] List.mem_cons_self
    exact ⟨fun same => first (List.mem_singleton.2 same.symm), List.forall_mem_nil _⟩
  | cons piece parts =>
    obtain ⟨first, later⟩ := List.forall_mem_cons.1 h
    rw [List.mem_cons, not_or] at first
    exact ⟨Ne.symm first.1, List.forall_mem_cons.2 ⟨first.2, later⟩⟩

/-- Where no opening bracket stands in a piece, found in either way, the pieces are the same: every slash
ends one. -/
theorem pieces_eq_splitOn : ∀ {cs : List Char},
    (∀ piece ∈ pieces 0 cs, '[' ∉ piece) ∨ (∀ piece ∈ cs.splitOn '/', '[' ∉ piece) →
      pieces 0 cs = cs.splitOn '/'
  | [], _ => rfl
  | c :: cs, h => by
    by_cases slash : c = '/'
    · subst slash
      rw [pieces_slash, splitOn_slash] at h ⊢
      have later := h.imp (fun h => (List.forall_mem_cons.1 h).2) fun h => (List.forall_mem_cons.1 h).2
      rw [pieces_eq_splitOn later]
    · rw [pieces_char (absurd · slash), splitOn_char slash] at h ⊢
      have inside := h.imp not_mem_of_consPiece not_mem_of_consPiece
      have plain : c ≠ '[' := inside.elim And.left And.left
      have level : openBehind 0 c = 0 := by
        rw [openBehind, if_neg plain]
        split <;> rfl
      rw [level] at inside ⊢
      rw [pieces_eq_splitOn (inside.imp And.right And.right)]

/-! ## Gaps -/

theorem isGap_iff : isGap piece = true ↔ (∀ c ∈ piece, isWhite c = true) ∨ piece = star := by
  rw [isGap, Bool.or_eq_true, List.all_eq_true, beq_iff_eq]

/-- There are only gaps between the slashes, brackets or not. -/
def OnlyGaps (cs : List Char) : Prop :=
  ∀ piece ∈ cs.splitOn '/', (∀ c ∈ piece, isWhite c = true) ∨ piece = star

theorem onlyGaps_iff : OnlyGaps cs ↔ ∀ piece ∈ pieces 0 cs, isGap piece = true := by
  constructor
  · intro h
    have gaps : ∀ piece ∈ cs.splitOn '/', isGap piece = true := fun piece hm => isGap_iff.2 (h piece hm)
    rwa [pieces_eq_splitOn (.inr fun piece hm => not_mem_of_isGap (gaps piece hm))]
  · intro gaps piece hm
    rw [← pieces_eq_splitOn (.inl fun piece hm => not_mem_of_isGap (gaps piece hm))] at hm
    exact isGap_iff.1 (gaps piece hm)

/-! ## Chains -/

/-- Only the gap of a star writes a step without name and without predicate. -/
theorem isGap_of_writtenStep {recursive : Bool} (hn : (writtenStep recursive piece).name = none)
    (hp : (writtenStep recursive piece).predicate = none) : isGap piece = true := by
  have name : piece.takeWhile (· != '[') = star := by
    dsimp only [writtenStep] at hn
    split at hn
    · rename_i same
      exact eq_of_beq same
    · cases hn
  have tail : piece.dropWhile (· != '[') = [] := by
    dsimp only [writtenStep] at hp
    split at hp
    · rename_i empty
      exact List.isEmpty_iff.1 empty
    · cases hp
  rw [← List.takeWhile_append_dropWhile (p := (· != '[')) (l := piece), name, tail, List.append_nil]
  exact isGap_iff.2 (.inr rfl)

theorem exists_piece_of_mem_writtenSteps {before : Option (List Char)} {step : Step}
    (h : step ∈ writtenSteps before parts) :
    ∃ recursive piece, isGap piece = false ∧ step = writtenStep recursive piece := by
  obtain ⟨⟨front, piece⟩, -, written⟩ := List.mem_filterMap.1 h
  dsimp only at written
  split at written
  · cases written
  · rename_i gap
    exact ⟨_, piece, Bool.eq_false_iff.2 gap, (Option.some.inj written).symm⟩

/-- The chain for any element is written by gaps alone. -/
theorem chainSteps_eq_iff :
    chainSteps parts = Chain.anyElement.steps ↔ ∀ piece ∈ parts, isGap piece = true := by
  constructor
  · intro h
    cases hw : writtenSteps none parts with
    | nil => exact writtenSteps_eq_nil.1 hw
    | cons first later =>
      -- the first step of the chain is that of a piece
      have written : first ∈ writtenSteps none parts := hw ▸ List.mem_cons_self
      obtain ⟨recursive, piece, gap, same⟩ := exists_piece_of_mem_writtenSteps written
      rw [chainSteps, hw, List.cons_append] at h
      obtain rfl : first = ⟨none, none, true⟩ := (List.cons.inj h).1
      have gap' : isGap piece = true := @isGap_of_writtenStep piece recursive
        (by rw [← same]) (by rw [← same])
      cases gap.symm.trans gap'
  · intro h
    rw [chainSteps, writtenSteps_eq_nil.2 h, if_pos (.inl h), List.nil_append]

theorem isAnyElement_iff {selector : Selector} :
    selector.isAnyElement = true ↔ selector.chain = Chain.anyElement := by
  rw [isAnyElement, beq_iff_eq]

/-- Gaps alone compile to the chain for any element. -/
theorem compile_of_onlyGaps {rest : List Char} (he : expression.toList = '/' :: rest) (h : OnlyGaps rest) :
    compile expression = .ok ⟨expression, Chain.anyElement⟩ := by
  have gaps := onlyGaps_iff.1 h
  have readable : ∀ piece ∈ pieces 0 rest, isGap piece = false → IsStep piece :=
    fun piece hm gap => absurd (gaps piece hm) (Bool.eq_false_iff.1 gap)
  rw [compile_of_slash he, chainOfPieces_of_isStep readable, writtenSteps_eq_nil.2 gaps]
  rfl

/-- A chain that was written is the one for any element exactly where only gaps were written. -/
theorem Written.eq_anyElement_iff {chain : Chain} (h : Written expression chain parts) :
    ∃ rest, expression.toList = '/' :: rest ∧ (chain = Chain.anyElement ↔ OnlyGaps rest) := by
  obtain ⟨rest, he, parted⟩ := h.parted
  refine ⟨rest, he, ?_⟩
  rw [onlyGaps_iff, parted.pieces_eq, ← chainSteps_eq_iff, ← h.steps]
  exact ⟨congrArg Chain.steps, Chain.eq_of_steps⟩

end Selector

end SubtreeHarvest
