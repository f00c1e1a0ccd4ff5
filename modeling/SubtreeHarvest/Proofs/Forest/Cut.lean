/-
A document cut behind its first `k` events. An element is closed there, or open, or has not begun
yet; the open elements lie inside one another. Main facts: at a cut inside an element that is
captured or skipped, that element decides where the cut is, and at a cut inside one that is
descended into, the open elements in it decide.
-/
import SubtreeHarvest.Proofs.Selector.Follow

namespace SubtreeHarvest

namespace Element

/-- The end tag is among the first `k` events. -/
def ClosedBy (k : Nat) (e : Element) : Prop :=
  e.stop ≤ k

/-- The start tag is among the first `k` events, and the end tag is not. -/
def OpenAt (k : Nat) (e : Element) : Prop :=
  e.start < k ∧ k < e.stop

instance (k : Nat) (e : Element) : Decidable (e.ClosedBy k) :=
  inferInstanceAs (Decidable (e.stop ≤ k))

instance (k : Nat) (e : Element) : Decidable (e.OpenAt k) :=
  inferInstanceAs (Decidable (e.start < k ∧ k < e.stop))

end Element

namespace Chain

/-- The chain descends into the elements `above` and skips the element `tag` in them. -/
def skips (chain : Chain) (above : List Tag) (tag : Tag) : Bool :=
  (chain.follow above).any fun inner => inner.offer tag == .skip

/-- The chain descends into the elements `above` and into the element `tag` in them. -/
def descends (chain : Chain) (above : List Tag) (tag : Tag) : Bool :=
  (chain.follow (above ++ [tag])).isSome

/-- Where a document ends too early when the elements `opened` are open at its end. -/
inductive Interrupted (chain : Chain) (opened : List Element) : String → Prop
  | captured {e : Element} : e ∈ opened → chain.captures e.above e.tag = true →
      Interrupted chain opened "input ended inside a captured element"
  | skipped {e : Element} : e ∈ opened → chain.skips e.above e.tag = true →
      Interrupted chain opened "input ended inside a skipped element"
  | descended : opened ≠ [] → (∀ e ∈ opened, chain.descends e.above e.tag = true) →
      Interrupted chain opened "input ended inside an open element"

variable {root chain next : Chain} {above more : List Tag} {tag outer : Tag}

theorem skips_of_follow (h : root.follow above = some chain) (tag : Tag) :
    root.skips above tag = (chain.offer tag == .skip) := by
  rw [skips, h]; rfl

theorem follow_inside (h : root.follow above = some chain)
    (ho : ∀ next, chain.offer outer ≠ .descend next) (more : List Tag) :
    root.follow (above ++ [outer] ++ more) = none := by
  rw [List.append_assoc, follow_append, h, Option.bind_some, List.singleton_append, follow_eq_none ho]

/-- Nothing is skipped on its own inside an element that is not descended into. -/
theorem skips_inside (h : root.follow above = some chain)
    (ho : ∀ next, chain.offer outer ≠ .descend next) (tag : Tag) :
    root.skips (above ++ [outer] ++ more) tag = false := by
  rw [skips, follow_inside h ho]; rfl

theorem follow_of_descend (h : root.follow above = some chain) (ho : chain.offer tag = .descend next) :
    root.follow (above ++ [tag]) = some next := by
  rw [follow_append, h, Option.bind_some, follow_descend ho]; rfl

theorem descends_of_descend (h : root.follow above = some chain) (ho : chain.offer tag = .descend next) :
    root.descends above tag = true := by
  rw [descends, follow_of_descend h ho]; rfl

theorem not_descends (h : root.follow above = some chain)
    (ho : ∀ next, chain.offer tag ≠ .descend next) : root.descends above tag = false := by
  have none := follow_inside h ho []
  rw [List.append_nil] at none
  rw [descends, none]; rfl

/-! ## The outermost open element -/

section

variable {start : Nat} {inside : Forest} {inner : List Element} {message : String}

theorem interrupted_of_capture (h : root.follow above = some chain) (ho : chain.offer tag = .capture)
    (hi : ∀ e ∈ inner, above ++ [tag] <+: e.above) :
    root.Interrupted (⟨start, above, tag, inside⟩ :: inner) message ↔
      message = "input ended inside a captured element" := by
  have hn : ∀ next, chain.offer tag ≠ .descend next := by rw [ho]; exact fun _ => nofun
  constructor
  · intro hm
    cases hm with
    | captured => rfl
    | skipped he hs =>
      rcases List.mem_cons.1 he with rfl | he
      · rw [skips_of_follow h, ho] at hs; cases hs
      · obtain ⟨more, hm⟩ := hi _ he
        rw [← hm, skips_inside h hn] at hs; cases hs
    | descended _ hd =>
      have := hd _ List.mem_cons_self
      rw [not_descends h hn] at this; cases this
  · rintro rfl
    refine .captured List.mem_cons_self ?_
    rw [captures_of_follow h, ho]; rfl

theorem interrupted_of_skip (h : root.follow above = some chain) (ho : chain.offer tag = .skip)
    (hi : ∀ e ∈ inner, above ++ [tag] <+: e.above) :
    root.Interrupted (⟨start, above, tag, inside⟩ :: inner) message ↔
      message = "input ended inside a skipped element" := by
  have hn : ∀ next, chain.offer tag ≠ .descend next := by rw [ho]; exact fun _ => nofun
  constructor
  · intro hm
    cases hm with
    | captured he hc =>
      rcases List.mem_cons.1 he with rfl | he
      · rw [captures_of_follow h, ho] at hc; cases hc
      · obtain ⟨more, hm⟩ := hi _ he
        rw [← hm, captures_inside h hn] at hc; cases hc
    | skipped => rfl
    | descended _ hd =>
      have := hd _ List.mem_cons_self
      rw [not_descends h hn] at this; cases this
  · rintro rfl
    refine .skipped List.mem_cons_self ?_
    rw [skips_of_follow h, ho]; rfl

/-- Inside an element that is descended into, the open elements in it decide, if there are any. -/
theorem interrupted_of_descend (h : root.follow above = some chain) (ho : chain.offer tag = .descend next) :
    root.Interrupted (⟨start, above, tag, inside⟩ :: inner) message ↔
      (inner = [] ∧ message = "input ended inside an open element") ∨ root.Interrupted inner message := by
  constructor
  · intro hm
    cases hm with
    | captured he hc =>
      rcases List.mem_cons.1 he with rfl | he
      · rw [captures_of_follow h, ho] at hc; cases hc
      · exact .inr (.captured he hc)
    | skipped he hs =>
      rcases List.mem_cons.1 he with rfl | he
      · rw [skips_of_follow h, ho] at hs; cases hs
      · exact .inr (.skipped he hs)
    | descended _ hd =>
      by_cases hi : inner = []
      · exact .inl ⟨hi, rfl⟩
      · exact .inr (.descended hi fun e he => hd e (List.mem_cons_of_mem _ he))
  · rintro (⟨rfl, rfl⟩ | hm)
    · refine .descended (List.cons_ne_nil _ _) fun e he => ?_
      rw [List.mem_singleton.1 he]
      exact descends_of_descend h ho
    · cases hm with
      | captured he hc => exact .captured (List.mem_cons_of_mem _ he) hc
      | skipped he hs => exact .skipped (List.mem_cons_of_mem _ he) hs
      | descended _ hd =>
        refine .descended (List.cons_ne_nil _ _) fun e he => ?_
        rcases List.mem_cons.1 he with rfl | he
        · exact descends_of_descend h ho
        · exact hd e he

theorem not_interrupted_nil : ¬ root.Interrupted [] message := by
  intro h
  cases h with
  | captured he => cases he
  | skipped he => cases he
  | descended hn => exact hn rfl

end

end Chain

namespace Forest

variable {forest : Forest} {root : Chain} {start k : Nat} {above : List Tag}

/-! ## Parts of a document in front of a cut and behind it -/

/-- Nothing is open or closed at a cut in front of a part. -/
theorem not_begun {e : Element} (he : e ∈ forest.elementsFrom start above) (hk : k ≤ start) :
    ¬ e.ClosedBy k ∧ ¬ e.OpenAt k := by
  obtain ⟨-, hs, -⟩ := place_of_mem he
  have := e.stop_eq
  constructor
  · unfold Element.ClosedBy; omega
  · unfold Element.OpenAt; omega

/-- Everything is closed at a cut behind a part. -/
theorem all_closed {e : Element} (he : e ∈ forest.elementsFrom start above)
    (hk : start + forest.events.length ≤ k) : e.ClosedBy k ∧ ¬ e.OpenAt k := by
  obtain ⟨-, -, hs⟩ := place_of_mem he
  constructor
  · unfold Element.ClosedBy; omega
  · unfold Element.OpenAt; omega

/-- The captured elements of a part that are closed behind the first `k` events. -/
def closedFrom (root : Chain) (start : Nat) (above : List Tag) (k : Nat) (forest : Forest) : List Element :=
  (forest.capturedFrom root start above).filter (·.ClosedBy k)

/-- The elements of a part that are open behind the first `k` events. -/
def openFrom (start : Nat) (above : List Tag) (k : Nat) (forest : Forest) : List Element :=
  (forest.elementsFrom start above).filter (·.OpenAt k)

theorem closedFrom_front (hk : k ≤ start) : forest.closedFrom root start above k = [] := by
  rw [closedFrom, List.filter_eq_nil_iff]
  intro e he
  simpa using (not_begun (List.mem_filter.1 he).1 hk).1

theorem openFrom_front (hk : k ≤ start) : forest.openFrom start above k = [] := by
  rw [openFrom, List.filter_eq_nil_iff]
  intro e he
  simpa using (not_begun he hk).2

theorem closedFrom_behind (hk : start + forest.events.length ≤ k) :
    forest.closedFrom root start above k = forest.capturedFrom root start above := by
  rw [closedFrom, List.filter_eq_self]
  intro e he
  simpa using (all_closed (List.mem_filter.1 he).1 hk).1

theorem openFrom_behind (hk : start + forest.events.length ≤ k) :
    forest.openFrom start above k = [] := by
  rw [openFrom, List.filter_eq_nil_iff]
  intro e he
  simpa using (all_closed he hk).2

theorem above_of_mem_openFrom {e : Element} (he : e ∈ forest.openFrom start above k) :
    above <+: e.above :=
  (place_of_mem (List.mem_filter.1 he).1).1

variable (tag : Tag) (inside behind : Forest)

/-- An element and what stands behind it are apart. -/
theorem elementsFrom_element : (element tag inside behind).elementsFrom start above =
    (element tag inside .empty).elementsFrom start above ++
      behind.elementsFrom (start + inside.events.length + 2) above := by
  simp [elementsFrom]

theorem closedFrom_element : (element tag inside behind).closedFrom root start above k =
    (element tag inside .empty).closedFrom root start above k ++
      behind.closedFrom root (start + inside.events.length + 2) above k := by
  rw [closedFrom, capturedFrom, elementsFrom_element, List.filter_append, List.filter_append]
  rfl

theorem openFrom_element : (element tag inside behind).openFrom start above k =
    (element tag inside .empty).openFrom start above k ++
      behind.openFrom (start + inside.events.length + 2) above k := by
  rw [openFrom, elementsFrom_element, List.filter_append]
  rfl

/-- At a cut inside an element, the element is open. -/
theorem openFrom_inside (hs : start < k) (hk : k ≤ start + 1 + inside.events.length) :
    (element tag inside behind).openFrom start above k =
      ⟨start, above, tag, inside⟩ :: inside.openFrom (start + 1) (above ++ [tag]) k := by
  have opened : (⟨start, above, tag, inside⟩ : Element).OpenAt k := by
    rw [Element.OpenAt, Element.stop_eq]
    simp only
    omega
  have front : behind.openFrom (start + inside.events.length + 2) above k = [] :=
    openFrom_front (by omega)
  rw [openFrom_element, front, List.append_nil, openFrom, elementsFrom,
    List.filter_cons_of_pos (by simpa using opened), List.filter_append]
  simp [openFrom, elementsFrom]

/-- At a cut inside an element, nothing is closed but what is inside it. -/
theorem closedFrom_inside (hk : k ≤ start + 1 + inside.events.length) :
    (element tag inside behind).closedFrom root start above k =
      inside.closedFrom root (start + 1) (above ++ [tag]) k := by
  have unclosed : ¬ (⟨start, above, tag, inside⟩ : Element).ClosedBy k := by
    rw [Element.ClosedBy, Element.stop_eq]
    simp only
    omega
  have front : behind.closedFrom root (start + inside.events.length + 2) above k = [] :=
    closedFrom_front (by omega)
  rw [closedFrom_element, front, List.append_nil, closedFrom, capturedFrom, elementsFrom, List.filter_cons,
    List.filter_append]
  split
  · rw [List.filter_cons_of_neg (by simpa using unclosed), List.filter_append]
    simp [closedFrom, capturedFrom, elementsFrom]
  · simp [closedFrom, capturedFrom, elementsFrom]

end Forest

end SubtreeHarvest
