/-
Compiling the selectors of a request. A plan is made exactly when every selector of the request, at
whatever level, writes an expression; it then holds under each the expression that the selector
writes. Otherwise some selector of the request is malformed, and the failure names it.

The selectors are compiled one after the other, some of them perhaps more than once, and the table
that is carried along holds nothing but what its selectors write.
-/
import SubtreeHarvest.Plan
import SubtreeHarvest.Proofs.Request.Basic

namespace SubtreeHarvest

/-- A failure of an expression that is malformed, or has no value where it is evaluated. -/
def Failure.IsMalformed (failure : Failure) : Prop :=
  ∃ expression, failure.kind = .malformedExpression expression

theorem Failure.isMalformed_malformedExpression (expression reason : String) :
    (Failure.malformedExpression expression reason).IsMalformed :=
  ⟨expression, rfl⟩

theorem Path.isMalformed_of_compile {selector : String} {failure : Failure}
    (h : Path.compile selector = .error failure) : failure.IsMalformed := by
  unfold Path.compile at h
  split at h <;> cases h
  all_goals exact Failure.isMalformed_malformedExpression ..

namespace CompiledSelectors

variable {compiled : CompiledSelectors} {selector other : String} {expression : Path.Expression}

/-- Under each selector stands what the selector writes. -/
def Sound (compiled : CompiledSelectors) : Prop :=
  ∀ selector expression, compiled.get? selector = some expression →
    Path.compile selector = .ok expression

theorem sound_empty : Sound .empty :=
  fun _ _ h => nomatch h

theorem Sound.enter (h : compiled.Sound) (hc : Path.compile selector = .ok expression) :
    Sound (compiled.enter selector expression) := by
  intro other found hf
  rw [Table.get?_enter] at hf
  split at hf
  · rename_i same
    cases hf
    exact same ▸ hc
  · exact h other found hf

/-- Under each of some selectors stands what the selector writes. -/
def Holds (compiled : CompiledSelectors) (selectors : List String) : Prop :=
  ∀ selector ∈ selectors, ∃ expression, Path.compile selector = .ok expression ∧
    compiled.get? selector = some expression

/-- Under a selector that both of two tables hold they have the same. -/
theorem Holds.get?_eq {others : CompiledSelectors} {selectors others' : List String}
    (h : compiled.Holds selectors) (ho : others.Holds others') (hs : selector ∈ selectors)
    (hs' : selector ∈ others') : compiled.get? selector = others.get? selector := by
  obtain ⟨expression, hc, hf⟩ := h selector hs
  obtain ⟨expression', hc', hf'⟩ := ho selector hs'
  cases hc.symm.trans hc'
  rw [hf, hf']

end CompiledSelectors

namespace Plan

open CompiledSelectors

variable {compiled : CompiledSelectors} {selector : String} {expression : Path.Expression}

theorem compileSelector_of_error {failure : Failure} (sound : compiled.Sound)
    (h : Path.compile selector = .error failure) : compileSelector compiled selector = .error failure := by
  rw [compileSelector]
  split
  · rename_i found hf
    cases h.symm.trans (sound selector found hf)
  · rw [h]
    rfl

/-- A selector that writes an expression is in the table behind it, and what was in the table stays. -/
theorem compileSelector_of_ok (sound : compiled.Sound) (h : Path.compile selector = .ok expression) :
    ∃ more : CompiledSelectors, compileSelector compiled selector = .ok more ∧ more.Sound ∧
      more.get? selector = some expression ∧
      ∀ other found, compiled.get? other = some found → more.get? other = some found := by
  rw [compileSelector]
  split
  · rename_i found hf
    cases h.symm.trans (sound selector found hf)
    exact ⟨compiled, rfl, sound, hf, fun _ _ => id⟩
  · rename_i new
    refine ⟨compiled.enter selector expression, by rw [h]; rfl, sound.enter h, ?_, ?_⟩
    · rw [Table.get?_enter, if_pos rfl]
    · intro other found hf
      have differs : selector ≠ other := by
        rintro rfl
        cases new.symm.trans hf
      rw [Table.get?_enter, if_neg differs, hf]

/-- Compiling selectors one after the other either stops at one that is malformed or holds them all. -/
theorem foldlM_compileSelector : ∀ (selectors : List String) {compiled : CompiledSelectors},
    compiled.Sound →
      (∃ selector ∈ selectors, ∃ failure, Path.compile selector = .error failure ∧
        selectors.foldlM compileSelector compiled = .error failure) ∨
      ∃ more : CompiledSelectors, selectors.foldlM compileSelector compiled = .ok more ∧
        more.Holds selectors ∧
        ∀ other found, compiled.get? other = some found → more.get? other = some found
  | [], compiled, _ => .inr ⟨compiled, rfl, List.forall_mem_nil _, fun _ _ => id⟩
  | selector :: selectors, compiled, sound => by
    rw [List.foldlM_cons]
    cases hc : Path.compile selector with
    | error failure =>
      refine .inl ⟨selector, List.mem_cons_self, failure, hc, ?_⟩
      rw [compileSelector_of_error sound hc]
      rfl
    | ok expression =>
      obtain ⟨next, step, sound, here, keeps⟩ := compileSelector_of_ok sound hc
      rw [step]
      rcases foldlM_compileSelector selectors sound with ⟨bad, hm, failure, he, hf⟩ | ⟨more, hf, holds, grows⟩
      · exact .inl ⟨bad, List.mem_cons_of_mem _ hm, failure, he, hf⟩
      · refine .inr ⟨more, hf, List.forall_mem_cons.2 ⟨⟨expression, hc, grows _ _ here⟩, holds⟩, ?_⟩
        exact fun other found h => grows other found (keeps other found h)

/-- A request is refused for one of its selectors, or compiled with all of them. -/
theorem compile_cases (request : Request) :
    (∃ selector ∈ request.selectors, ∃ failure, Path.compile selector = .error failure ∧
      compile request = .error failure) ∨
    ∃ compiled : CompiledSelectors, compile request = .ok ⟨request, compiled⟩ ∧
      compiled.Holds request.selectors := by
  rw [compile]
  rcases foldlM_compileSelector request.selectors sound_empty with
    ⟨selector, hm, failure, hc, hf⟩ | ⟨compiled, hf, holds, -⟩
  · exact .inl ⟨selector, hm, failure, hc, by rw [hf]; rfl⟩
  · exact .inr ⟨compiled, by rw [hf]; rfl, holds⟩

/-- A plan was made from its request, and holds all its selectors. -/
theorem holds_of_compile {request : Request} {plan : Plan} (h : compile request = .ok plan) :
    plan.request = request ∧ plan.compiled.Holds request.selectors := by
  rcases compile_cases request with ⟨_, _, failure, -, hf⟩ | ⟨compiled, hf, holds⟩
  · cases h.symm.trans hf
  · cases h.symm.trans hf
    exact ⟨rfl, holds⟩

/-- A request is compiled exactly when each of its selectors writes an expression. -/
theorem compile_eq_ok_iff (request : Request) : (∃ plan, compile request = .ok plan) ↔
    ∀ selector ∈ request.selectors, ∃ expression, Path.compile selector = .ok expression := by
  constructor
  · rintro ⟨plan, h⟩ selector hm
    obtain ⟨expression, hc, -⟩ := (holds_of_compile h).2 selector hm
    exact ⟨expression, hc⟩
  · intro h
    rcases compile_cases request with ⟨selector, hm, failure, hc, -⟩ | ⟨compiled, hf, -⟩
    · obtain ⟨expression, ho⟩ := h selector hm
      cases hc.symm.trans ho
    · exact ⟨_, hf⟩

end Plan

end SubtreeHarvest
