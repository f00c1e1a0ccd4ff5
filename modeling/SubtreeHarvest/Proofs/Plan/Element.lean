/-
What a request reads from one element. It reads a text and attributes in any case; whether it reads
anything depends on the relative selectors and on what their requests read from the elements that
they reach. One element may be reached by several of them, or from several elements, and is then read
each time anew. Every failure comes from a selector.
-/
import Mathlib.Data.List.Forall2
import SubtreeHarvest.Proofs.Plan.Compiled

namespace SubtreeHarvest

theorem Except.exists_of_bind {ε α β : Type} {x : Except ε α} {f : α → Except ε β} {b : β}
    (h : x >>= f = .ok b) : ∃ a, x = .ok a ∧ f a = .ok b := by
  cases x with
  | error e => cases h
  | ok a => exact ⟨a, rfl, h⟩

theorem Except.error_of_bind {ε α β : Type} {x : Except ε α} {f : α → Except ε β} {e : ε}
    (h : x >>= f = .error e) : x = .error e ∨ ∃ a, x = .ok a ∧ f a = .error e := by
  cases x with
  | error e' => cases h; exact .inl rfl
  | ok a => exact .inr ⟨a, rfl, h⟩

/-- A list of calls succeeds exactly when each of them does. -/
theorem Except.mapM_eq_ok_iff {ε α β : Type} {f : α → Except ε β} : ∀ {as : List α} {bs : List β},
    as.mapM f = .ok bs ↔ List.Forall₂ (fun a b => f a = .ok b) as bs
  | [], bs => by
    rw [List.mapM_nil, List.forall₂_nil_left_iff]
    exact ⟨fun h => (Except.ok.inj h).symm, fun h => h ▸ rfl⟩
  | a :: as, bs => by
    rw [List.mapM_cons, List.forall₂_cons_left_iff]
    constructor
    · intro h
      obtain ⟨b, hb, h⟩ := Except.exists_of_bind h
      obtain ⟨more, hm, h⟩ := Except.exists_of_bind h
      exact ⟨b, more, hb, mapM_eq_ok_iff.1 hm, (Except.ok.inj h).symm⟩
    · rintro ⟨b, more, hb, hm, rfl⟩
      rw [hb, mapM_eq_ok_iff.2 hm]
      rfl

/-- The first call that fails is one of them. -/
theorem Except.exists_of_mapM_error {ε α β : Type} {f : α → Except ε β} {e : ε} : ∀ {as : List α},
    as.mapM f = .error e → ∃ a ∈ as, f a = .error e
  | [], h => nomatch h
  | a :: as, h => by
    rw [List.mapM_cons] at h
    rcases Except.error_of_bind h with first | ⟨b, -, h⟩
    · exact ⟨a, List.mem_cons_self, first⟩
    · rcases Except.error_of_bind h with later | ⟨more, -, h⟩
      · obtain ⟨other, hm, fails⟩ := exists_of_mapM_error later
        exact ⟨other, List.mem_cons_of_mem _ hm, fails⟩
      · cases h

namespace Plan

variable {compiled : CompiledSelectors} {document : Document} {path : List Nat}

/-! ## Success -/

/-- What one relative selector, with the request for the elements it reaches, reads from the element
at a path. -/
def Reads (compiled : CompiledSelectors) (document : Document) (path : List Nat)
    (asked : String × Request) (read : String × List Reading) : Prop :=
  read.1 = asked.1 ∧ ∃ paths, reach compiled document path asked.1 = .ok paths ∧
    List.Forall₂ (fun path reading => readElement compiled document path asked.2 = .ok reading)
      paths read.2

theorem readRow_eq_ok_iff : ∀ {selectors : List String} {row : Row Request selectors}
    {readings : Row (List Reading) selectors}, readRow compiled document path row = .ok readings ↔
      List.Forall₂ (Reads compiled document path) row.entries readings.entries
  | _, .nil, .nil => ⟨fun _ => .nil, fun _ => rfl⟩
  | selector :: _, .cons request rest, .cons found others => by
    rw [readRow, Row.entries, Row.entries, List.forall₂_cons]
    constructor
    · intro h
      obtain ⟨paths, reached, h⟩ := Except.exists_of_bind h
      obtain ⟨found, each, h⟩ := Except.exists_of_bind h
      obtain ⟨others, more, h⟩ := Except.exists_of_bind h
      cases h
      exact ⟨⟨rfl, paths, reached, Except.mapM_eq_ok_iff.1 each⟩, readRow_eq_ok_iff.1 more⟩
    · rintro ⟨⟨-, paths, reached, each⟩, more⟩
      simp only [reached, Except.mapM_eq_ok_iff.2 each, readRow_eq_ok_iff.2 more, bind, Except.bind, pure,
        Except.pure]

theorem readElement_eq_ok_iff {request : Request} {reading : Reading} :
    readElement compiled document path request = .ok reading ↔
      reading.text = (if request.wantsText then some (textAt document path) else none) ∧
      reading.values = .ofNames request.names (attributeAt document path) ∧
      reading.under.names = request.under.names ∧
      List.Forall₂ (Reads compiled document path) request.children reading.children := by
  obtain ⟨wantsText, names, under⟩ := request
  obtain ⟨text, values, ⟨selectors, readings⟩⟩ := reading
  rw [readElement]
  constructor
  · intro h
    obtain ⟨found, read, h⟩ := Except.exists_of_bind h
    cases h
    exact ⟨rfl, rfl, rfl, readRow_eq_ok_iff.1 read⟩
  · rintro ⟨rfl, rfl, rfl, read⟩
    rw [readRow_eq_ok_iff.2 read]
    rfl

/-! ## Failure -/

theorem isMalformed_of_reach {selector : String} {failure : Failure}
    (h : reach compiled document path selector = .error failure) : failure.IsMalformed := by
  unfold reach at h
  split at h
  · cases h
    exact Failure.isMalformed_malformedExpression ..
  · split at h <;> cases h
    exact Failure.isMalformed_malformedExpression ..

/-- Selectors fail to read where one of them does: it reaches nothing that can be told, or its request
fails to read an element that it reaches. -/
theorem exists_of_readRow_error {failure : Failure} : ∀ {selectors : List String} {row : Row Request selectors},
    readRow compiled document path row = .error failure →
      ∃ selector child, (selector, child) ∈ row.entries ∧
        (reach compiled document path selector = .error failure ∨
          ∃ paths next, reach compiled document path selector = .ok paths ∧ next ∈ paths ∧
            readElement compiled document next child = .error failure)
  | _, .nil, h => nomatch h
  | selector :: _, .cons child rest, h => by
    rw [readRow] at h
    rcases Except.error_of_bind h with fails | ⟨paths, reached, h⟩
    · exact ⟨selector, child, List.mem_cons_self, .inl fails⟩
    rcases Except.error_of_bind h with fails | ⟨readings, -, h⟩
    · obtain ⟨next, hm, fails⟩ := Except.exists_of_mapM_error fails
      exact ⟨selector, child, List.mem_cons_self, .inr ⟨paths, next, reached, hm, fails⟩⟩
    rcases Except.error_of_bind h with fails | ⟨others, -, h⟩
    · obtain ⟨later, child, hm, fails⟩ := exists_of_readRow_error fails
      exact ⟨later, child, List.mem_cons_of_mem _ hm, fails⟩
    · cases h

theorem readRow_of_readElement_error {request : Request} {failure : Failure}
    (h : readElement compiled document path request = .error failure) :
    readRow compiled document path request.under.row = .error failure := by
  obtain ⟨wantsText, names, under⟩ := request
  rw [readElement] at h
  rcases Except.error_of_bind h with fails | ⟨_, -, h⟩
  · exact fails
  · cases h

/-- A request fails to read an element only where some selector does. -/
theorem isMalformed_of_readElement {failure : Failure} (request : Request) : ∀ {path : List Nat},
    readElement compiled document path request = .error failure → failure.IsMalformed := by
  induction request using Request.induct with
  | step request ih =>
    intro path h
    obtain ⟨selector, child, hm, fails | ⟨paths, next, -, -, fails⟩⟩ :=
      exists_of_readRow_error (readRow_of_readElement_error h)
    · exact isMalformed_of_reach fails
    · exact ih selector child hm fails

/-! ## Texts -/

/-- A text is no document, whatever the plan, or has an element at its top that every plan reads. -/
theorem read_cases (text : String) :
    (∃ failure, failure.kind = .unreadableFragment ∧ ∀ plan : Plan, plan.read text = .error failure) ∨
    ∃ document path, ∀ plan : Plan,
      plan.read text = readElement plan.compiled document path plan.request := by
  cases hp : Document.parse text with
  | error failure =>
    have kind : failure.kind = .unreadableFragment := by
      unfold Document.parse at hp
      split at hp <;> cases hp
      rfl
    exact .inl ⟨failure, kind, fun plan => by rw [read, hp]; rfl⟩
  | ok document =>
    have parsed (plan : Plan) : plan.read text = plan.readDocument document := by
      rw [read, hp]
      rfl
    cases hr : document.rootIndex? with
    | none => exact .inl ⟨_, rfl, fun plan => by rw [parsed, readDocument, hr]⟩
    | some i => exact .inr ⟨document, [i], fun plan => by rw [parsed, readDocument, hr]⟩

end Plan

end SubtreeHarvest
