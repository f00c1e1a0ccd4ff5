/-
White space, and cutting texts. Two notions of white space live side by side: the Unicode property
White_Space, by which contents are trimmed and an expression counts as blank, and the four characters
that markup itself treats as space.

A text is cut at a mark into what stands before the first place where the mark stands, and what stands
behind it. A mark of one item may be looked for outside quotes only. Whatever is cut off, the rest is a
stretch at the end of the whole.
-/

namespace SubtreeHarvest.Text

/-! ## White space -/

/-- The Unicode property White_Space. -/
def isWhite (c : Char) : Bool :=
  let n := c.toNat
  (0x9 ≤ n && n ≤ 0xD) || n == 0x20 || n == 0x85 || n == 0xA0 || n == 0x1680 ||
    (0x2000 ≤ n && n ≤ 0x200A) || n == 0x2028 || n == 0x2029 || n == 0x202F || n == 0x205F ||
    n == 0x3000

/-- The space of markup: blank, tab, carriage return and line feed. -/
def isSpace (c : Char) : Bool :=
  c == ' ' || c == '\t' || c == '\r' || c == '\n'

/-! ## Trimming -/

/-- The characters without the white space at their end. -/
def trimEnd : List Char → List Char
  | [] => []
  | c :: cs =>
    match trimEnd cs with
    | [] => if isWhite c then [] else [c]
    | kept => c :: kept

/-- The characters without the white space at either end. -/
def trimmed (cs : List Char) : List Char :=
  trimEnd (cs.dropWhile isWhite)

/-- The text without the white space at either end. -/
def trim (s : String) : String :=
  String.ofList (trimmed s.toList)

/-- A text is blank when it holds nothing but white space. -/
def isBlank (s : String) : Bool :=
  s.toList.all isWhite

/-! ## Cutting at a mark -/

/-- A quotation mark of either kind. -/
def isQuote (c : Char) : Bool :=
  c == '\x27' || c == '\x22'

variable {α : Type} [BEq α]

/-- What stands before the first `mark`, and what stands behind it. -/
def cut (mark : List α) : List α → Option (List α × List α)
  | [] => none
  | a :: rest =>
    if mark.isPrefixOf (a :: rest) then some ([], (a :: rest).drop mark.length)
    else (cut mark rest).map fun (before, behind) => (a :: before, behind)

/-- What stands before the first `mark` outside quotes, and what stands behind it; `open?` is the
quote that is open at the beginning. -/
def cutUnquoted (isQuote : α → Bool) (mark : α) (open? : Option α) :
    List α → Option (List α × List α)
  | [] => none
  | a :: rest =>
    match open? with
    | none =>
      if a == mark then some ([], rest)
      else
        (cutUnquoted isQuote mark (if isQuote a then some a else none) rest).map
          fun (before, behind) => (a :: before, behind)
    | some q =>
      (cutUnquoted isQuote mark (if a == q then none else some q) rest).map
        fun (before, behind) => (a :: before, behind)

/-- What stands behind a mark at the beginning. -/
def behind? (mark whole : List α) : Option (List α) :=
  if mark.isPrefixOf whole then some (whole.drop mark.length) else none

theorem cut_eq_some [LawfulBEq α] {mark whole before behind : List α}
    (h : cut mark whole = some (before, behind)) : whole = before ++ mark ++ behind := by
  induction whole generalizing before behind with
  | nil => simp [cut] at h
  | cons a rest ih =>
    unfold cut at h
    split at h
    · rename_i hp
      simp only [Option.some.injEq, Prod.mk.injEq] at h
      obtain ⟨rfl, rfl⟩ := h
      obtain ⟨t, ht⟩ := List.isPrefixOf_iff_prefix.1 hp
      rw [List.nil_append, ← ht, List.drop_left]
    · obtain ⟨⟨before', behind'⟩, hc, he⟩ := Option.map_eq_some_iff.1 h
      cases he
      rw [ih hc]; rfl

theorem cutUnquoted_eq_some [LawfulBEq α] {isQuote : α → Bool} {mark : α} {open? : Option α}
    {whole before behind : List α}
    (h : cutUnquoted isQuote mark open? whole = some (before, behind)) :
    whole = before ++ mark :: behind := by
  induction whole generalizing open? before behind with
  | nil => simp [cutUnquoted] at h
  | cons a rest ih =>
    unfold cutUnquoted at h
    split at h
    · split at h
      · rename_i ha; cases h; rw [eq_of_beq ha]; rfl
      · obtain ⟨⟨before', behind'⟩, hc, he⟩ := Option.map_eq_some_iff.1 h
        cases he; rw [ih hc]; rfl
    · obtain ⟨⟨before', behind'⟩, hc, he⟩ := Option.map_eq_some_iff.1 h
      cases he; rw [ih hc]; rfl

theorem suffix_of_cut [LawfulBEq α] {mark whole before behind : List α}
    (h : cut mark whole = some (before, behind)) : behind <:+ whole :=
  cut_eq_some h ▸ List.suffix_append ..

omit [BEq α] in
theorem suffix_of_dropWhile {p : α → Bool} {a : α} {whole rest : List α}
    (h : whole.dropWhile p = a :: rest) : rest <:+ whole :=
  (h ▸ List.suffix_cons a rest).trans (List.dropWhile_suffix p)

theorem suffix_of_behind? {mark whole rest : List α} (h : behind? mark whole = some rest) :
    rest <:+ whole := by
  unfold behind? at h
  split at h
  · exact Option.some.inj h ▸ List.drop_suffix ..
  · cases h

end SubtreeHarvest.Text
