/-
Where a request asks for its selectors. A place in the tree of a request is told by the positions of
the children on the way down to it, and an occurrence by a place and the position of a selector there.
The selectors of a request are those of all its occurrences, each occurrence once, in the order in which
a stack of requests comes to them: a request is taken off, gives its own selectors, and those of its
children's requests are put on. A selector that is asked for at several places has as many occurrences.
-/
import Mathlib.Algebra.Ring.Nat
import SubtreeHarvest.Proofs.Request.Basic

namespace SubtreeHarvest.Request

/-- The request at a place in the tree of a request. -/
def at? : Request → List Nat → Option Request
  | request, [] => some request
  | request, i :: place => request.children[i]?.bind fun child => child.2.at? place

/-- Where a request asks for a selector. -/
structure Occurrence where
  /-- The place of the request, one of the tree, that asks for it. -/
  place : List Nat
  /-- The position of the selector among those of that request. -/
  index : Nat
  deriving DecidableEq

/-- The selector that is asked for at an occurrence, if there is such an occurrence. -/
def selectorAt? (request : Request) (o : Occurrence) : Option String :=
  (request.at? o.place).bind fun below => below.under.names.toList[o.index]?

/-- The same occurrence seen from a request that has the tree under its child number `i`. -/
def Occurrence.under (i : Nat) (o : Occurrence) : Occurrence :=
  ⟨i :: o.place, o.index⟩

mutual

/-- All occurrences in the tree of a request: its own first, then those under its children, the last
child first. -/
def occurrences : Request → List Occurrence
  | ⟨_, _, under⟩ => (List.range under.names.toList.length).map (⟨[], ·⟩) ++ rowOccurrences 0 under.row

/-- The occurrences under a row of children of which the first has number `i`, the last child first. -/
def rowOccurrences (i : Nat) : {names : List String} → Row Request names → List Occurrence
  | _, .nil => []
  | _, .cons child rest => rowOccurrences (i + 1) rest ++ (occurrences child).map (.under i)

end

variable {request child : Request} {selector : String} {o : Occurrence} {i : Nat}

theorem selectorAt?_top (request : Request) (i : Nat) :
    request.selectorAt? ⟨[], i⟩ = request.under.names.toList[i]? := rfl

/-- What is asked for under a child is what its request asks for. -/
theorem selectorAt?_under (request : Request) (i : Nat) (o : Occurrence) :
    request.selectorAt? (o.under i) = request.children[i]?.bind fun child => child.2.selectorAt? o := by
  rw [selectorAt?, Occurrence.under, at?]
  cases request.children[i]? <;> rfl

/-! ## Every occurrence, once -/

theorem mem_occurrences_iff : o ∈ request.occurrences ↔
    (o.place = [] ∧ o.index < request.under.names.toList.length) ∨ o ∈ rowOccurrences 0 request.under.row := by
  obtain ⟨wantsText, names, under⟩ := request
  obtain ⟨place, index⟩ := o
  rw [occurrences, List.mem_append]
  simp only [List.mem_map, List.mem_range, Occurrence.mk.injEq]
  refine or_congr_left ⟨?_, fun ⟨top, within⟩ => ⟨index, within, top.symm, rfl⟩⟩
  rintro ⟨_, within, rfl, rfl⟩
  exact ⟨rfl, within⟩

theorem mem_rowOccurrences : ∀ {names : List String} {row : Row Request names} {i : Nat},
    o ∈ rowOccurrences i row ↔
      ∃ (j : Nat) (child : String × Request) (below : Occurrence), row.entries[j]? = some child ∧
        below ∈ child.2.occurrences ∧ o = below.under (i + j)
  | _, .nil, i => by simp [rowOccurrences, Row.entries]
  | selector :: _, .cons child rest, i => by
    rw [rowOccurrences, List.mem_append, mem_rowOccurrences, List.mem_map, Row.entries]
    constructor
    · rintro (⟨j, other, below, hj, hb, rfl⟩ | ⟨below, hb, rfl⟩)
      · exact ⟨j + 1, other, below, hj, hb, by rw [Nat.add_assoc, Nat.add_comm 1]⟩
      · exact ⟨0, (selector, child), below, rfl, hb, rfl⟩
    · rintro ⟨_ | j, other, below, hj, hb, rfl⟩
      · cases hj
        exact .inr ⟨below, hb, rfl⟩
      · exact .inl ⟨j, other, below, hj, hb, by rw [Nat.add_assoc, Nat.add_comm 1]⟩

/-- The occurrences are those at which a selector is asked for. -/
theorem mem_occurrences (request : Request) :
    ∀ o, o ∈ request.occurrences ↔ (request.selectorAt? o).isSome = true := by
  induction request using Request.induct with
  | step request ih =>
    rintro ⟨_ | ⟨i, place⟩, index⟩
    · -- at the top
      rw [mem_occurrences_iff, mem_rowOccurrences, selectorAt?_top]
      simp [Occurrence.under]
    · -- under child number `i`
      have inside := selectorAt?_under request i ⟨place, index⟩
      rw [Occurrence.under] at inside
      rw [mem_occurrences_iff, mem_rowOccurrences, inside]
      cases hc : request.children[i]? with
      | none =>
        simp only [reduceCtorEq, false_and, false_or, Option.bind_none, Option.isSome_none,
          Bool.false_eq_true, iff_false]
        rintro ⟨j, child, below, hj, -, same⟩
        obtain rfl : i = j := by simpa [Occurrence.under] using congrArg (·.place.head?) same
        cases hc.symm.trans hj
      | some child =>
        have hm := List.mem_of_getElem? hc
        rw [Option.bind_some, ← ih child.1 child.2 hm]
        constructor
        · rintro (⟨top, -⟩ | ⟨j, other, below, hj, hb, same⟩)
          · cases top
          · obtain ⟨first, rfl⟩ : i = j ∧ (⟨place, index⟩ : Occurrence) = below := by
              obtain ⟨below, index⟩ := below
              simpa [Occurrence.under, and_assoc] using same
            subst first
            cases hc.symm.trans hj
            exact hb
        · exact fun hb => .inr ⟨i, child, ⟨place, index⟩, hc, hb, by rw [Nat.zero_add]; rfl⟩

theorem under_injective (i : Nat) : Function.Injective (Occurrence.under i) := by
  rintro ⟨place, index⟩ ⟨place', index'⟩ same
  simpa [Occurrence.under] using same

theorem nodup_rowOccurrences : ∀ (i : Nat) {names : List String} (row : Row Request names),
    (∀ selector child, (selector, child) ∈ row.entries → child.occurrences.Nodup) →
      (rowOccurrences i row).Nodup
  | _, _, .nil, _ => List.nodup_nil
  | i, _, .cons child rest, h => by
    have later := nodup_rowOccurrences (i + 1) rest fun _ _ hm => h _ _ (List.mem_cons_of_mem _ hm)
    have here : (child.occurrences.map (Occurrence.under i)).Nodup :=
      (h _ _ List.mem_cons_self).map (under_injective i)
    refine List.nodup_append.2 ⟨later, here, ?_⟩
    -- the children behind have greater numbers
    rintro o hl _ hh rfl
    obtain ⟨j, _, below, -, -, rfl⟩ := mem_rowOccurrences.1 hl
    obtain ⟨other, -, same⟩ := List.mem_map.1 hh
    have number : i = i + 1 + j := (List.cons.inj (congrArg Occurrence.place same)).1
    omega

theorem nodup_occurrences (request : Request) : request.occurrences.Nodup := by
  induction request using Request.induct with
  | step request ih =>
    obtain ⟨wantsText, names, under⟩ := request
    have own : ((List.range under.names.toList.length).map (Occurrence.mk [])).Nodup :=
      List.nodup_range.map fun i j same => (Occurrence.mk.inj same).2
    refine List.nodup_append.2 ⟨own, nodup_rowOccurrences 0 under.row ih, ?_⟩
    rintro o ho _ hc rfl
    obtain ⟨i, -, rfl⟩ := List.mem_map.1 ho
    obtain ⟨j, _, below, -, -, same⟩ := mem_rowOccurrences.1 hc
    cases congrArg Occurrence.place same

/-! ## The selectors -/

theorem map_rowOccurrences : ∀ (front : List (String × Request)) {names : List String}
    (row : Row Request names), request.children = front ++ row.entries →
      (∀ selector child, (selector, child) ∈ row.entries →
        child.occurrences.map child.selectorAt? = child.selectors.map some) →
      (rowOccurrences front.length row).map request.selectorAt? = (rowSelectors row).map some
  | _, _, .nil, _, _ => rfl
  | front, selector :: _, .cons child rest, parted, h => by
    have parted' : request.children = (front ++ [(selector, child)]) ++ rest.entries := by
      rw [parted, List.append_assoc]
      rfl
    have later := map_rowOccurrences _ _ parted' fun _ _ hm => h _ _ (List.mem_cons_of_mem _ hm)
    rw [List.length_append, List.length_singleton] at later
    have here : request.children[front.length]? = some (selector, child) := by
      rw [parted, List.getElem?_append_right (Nat.le_refl _), Nat.sub_self]
      rfl
    have inside : request.selectorAt? ∘ Occurrence.under front.length = child.selectorAt? := by
      funext o
      rw [Function.comp_apply, selectorAt?_under, here, Option.bind_some]
    rw [rowOccurrences, rowSelectors, List.map_append, List.map_append, later, List.map_map, inside,
      h _ _ List.mem_cons_self]

/-- The selectors are those asked for at the occurrences, one after the other. -/
theorem map_occurrences (request : Request) :
    request.occurrences.map request.selectorAt? = request.selectors.map some := by
  induction request using Request.induct with
  | step request ih =>
    have below := map_rowOccurrences [] request.under.row rfl ih
    obtain ⟨wantsText, names, under⟩ := request
    have own : ((List.range under.names.toList.length).map (Occurrence.mk [])).map
        (selectorAt? ⟨wantsText, names, under⟩) = under.names.toList.map some := by
      refine List.ext_getElem (by simp) fun i hi hi' => ?_
      have within : i < under.names.toList.length := by simpa using hi'
      simp [selectorAt?_top, List.getElem?_eq_getElem within]
    rw [occurrences, selectors, List.map_append, List.map_append, own]
    exact congrArg _ below

theorem mem_selectors_iff {name : String} :
    name ∈ request.selectors ↔
      ∃ place below, request.at? place = some below ∧ name ∈ below.under.names := by
  have listed : name ∈ request.selectors ↔ some name ∈ request.occurrences.map request.selectorAt? := by
    rw [map_occurrences, List.mem_map]
    simp
  rw [listed, List.mem_map]
  constructor
  · rintro ⟨o, -, asked⟩
    obtain ⟨below, there, own⟩ := Option.bind_eq_some_iff.1 asked
    exact ⟨o.place, below, there, List.mem_of_getElem? own⟩
  · rintro ⟨place, below, there, own⟩
    obtain ⟨index, hi⟩ := List.mem_iff_getElem?.1 own
    have asked : request.selectorAt? ⟨place, index⟩ = some name := by
      rw [selectorAt?, there, Option.bind_some, hi]
    exact ⟨⟨place, index⟩, (mem_occurrences request _).2 (by rw [asked]; rfl), asked⟩

/-! ## A stack of requests -/

/-- The requests of the children, put on a stack one after the other: the last one lies on top. -/
def stacked (request : Request) : List Request :=
  request.children.reverse.map Prod.snd

theorem sum_sizeOf_row : ∀ {names : List String} (row : Row Request names),
    ((row.entries.reverse.map Prod.snd).map sizeOf).sum < sizeOf row
  | _, .nil => by simp [Row.entries]
  | _, .cons child rest => by
    have later := sum_sizeOf_row rest
    simp only [Row.entries, List.reverse_cons, List.map_append, List.map_cons, List.map_nil, List.sum_append,
      List.sum_cons, List.sum_nil, Row.cons.sizeOf_spec]
    omega

theorem sum_sizeOf_stacked (request : Request) : (request.stacked.map sizeOf).sum < sizeOf request := by
  obtain ⟨wantsText, names, ⟨selectors, row⟩⟩ := request
  have within := sum_sizeOf_row row
  simp only [stacked, children, Table.entries, mk.sizeOf_spec, Table.mk.sizeOf_spec]
  omega

/-- The selectors that a stack of requests comes to: the request on top is taken off and gives its own
selectors, and then the requests of its children are put on. -/
def unstack : List Request → List String
  | [] => []
  | request :: stack => request.under.names.toList ++ unstack (request.stacked ++ stack)
termination_by stack => (stack.map sizeOf).sum
decreasing_by
  have smaller := sum_sizeOf_stacked request
  simp only [List.map_append, List.sum_append, List.map_cons, List.sum_cons]
  omega

theorem rowSelectors_eq : ∀ {names : List String} (row : Row Request names),
    rowSelectors row = (row.entries.reverse.map Prod.snd).flatMap selectors
  | _, .nil => rfl
  | _, .cons child rest => by
    rw [rowSelectors, rowSelectors_eq rest, Row.entries, List.reverse_cons, List.map_append, List.flatMap_append]
    simp

theorem selectors_eq (request : Request) :
    request.selectors = request.under.names.toList ++ request.stacked.flatMap selectors := by
  obtain ⟨wantsText, names, under⟩ := request
  rw [selectors, rowSelectors_eq]
  rfl

/-- A stack comes to the selectors of its requests, those of the one on top first. -/
theorem unstack_eq (stack : List Request) : unstack stack = stack.flatMap selectors := by
  fun_induction unstack stack with
  | case1 => rfl
  | case2 request stack ih =>
    rw [ih, List.flatMap_append, List.flatMap_cons, selectors_eq, List.append_assoc]

end SubtreeHarvest.Request
