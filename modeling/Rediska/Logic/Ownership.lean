import Mathlib.Data.List.Nodup
import Mathlib.Logic.Function.Basic

/-! Tokens that one holder at a time uses and that are recycled through a pool. -/

namespace Rediska.Logic

variable {ι κ : Type}

/-- Every token in circulation is in one place, in the pool or with one holder. Tokens
that were not made yet are in none. -/
structure Exclusive (pool : List κ) (holds : ι → Option κ) (made : κ → Prop) : Prop where
  once : pool.Nodup
  apart : ∀ i token, holds i = some token → token ∉ pool
  single : ∀ i j token, holds i = some token → holds j = some token → i = j
  held : ∀ i token, holds i = some token → made token
  pooled : ∀ token ∈ pool, made token

namespace Exclusive
variable {pool : List κ} {holds : ι → Option κ} {made : κ → Prop}

/-- A holder that gives up what it has for a token nobody else has. -/
theorem hand [DecidableEq ι] (exclusive : Exclusive pool holds made) (i : ι) {token : κ} (outside : token ∉ pool)
    (unheld : ∀ j, j ≠ i → holds j ≠ some token) (known : made token) :
    Exclusive pool (Function.update holds i (some token)) made := by
  have cases_of : ∀ j other, Function.update holds i (some token) j = some other →
      (j = i ∧ other = token) ∨ (j ≠ i ∧ holds j = some other) := by
    intro j other has
    by_cases same : j = i
    · subst same
      rw [Function.update_self] at has
      exact .inl ⟨rfl, (Option.some.inj has).symm⟩
    · rw [Function.update_of_ne same] at has
      exact .inr ⟨same, has⟩
  refine ⟨exclusive.once, ?_, ?_, ?_, exclusive.pooled⟩
  · intro j other has
    rcases cases_of j other has with ⟨_, rfl⟩ | ⟨_, has⟩
    · exact outside
    · exact exclusive.apart j other has
  · intro j k other first second
    rcases cases_of j other first with ⟨rfl, rfl⟩ | ⟨notFirst, before⟩
    · rcases cases_of k _ second with ⟨rfl, _⟩ | ⟨notSecond, before⟩
      · rfl
      · exact absurd before (unheld k notSecond)
    · rcases cases_of k other second with ⟨_, rfl⟩ | ⟨_, also⟩
      · exact absurd before (unheld j notFirst)
      · exact exclusive.single j k other before also
  · intro j other has
    rcases cases_of j other has with ⟨_, rfl⟩ | ⟨_, has⟩
    · exact known
    · exact exclusive.held j other has

/-- A holder drops its token. -/
theorem release [DecidableEq ι] (exclusive : Exclusive pool holds made) (i : ι) :
    Exclusive pool (Function.update holds i none) made := by
  have still : ∀ j token, Function.update holds i none j = some token → holds j = some token := by
    intro j token has
    by_cases same : j = i
    · subst same
      rw [Function.update_self] at has
      cases has
    · rwa [Function.update_of_ne same] at has
  exact ⟨exclusive.once, fun j token has => exclusive.apart j token (still j token has),
    fun j k token first second => exclusive.single j k token (still j token first) (still k token second),
    fun j token has => exclusive.held j token (still j token has), exclusive.pooled⟩

/-- The pool drops a token. -/
theorem drop [DecidableEq κ] (exclusive : Exclusive pool holds made) (token : κ) :
    Exclusive (pool.erase token) holds made :=
  ⟨exclusive.once.erase token, fun i other has inside => exclusive.apart i other has (List.mem_of_mem_erase inside),
    exclusive.single, exclusive.held, fun other inside => exclusive.pooled other (List.mem_of_mem_erase inside)⟩

theorem take [DecidableEq ι] [DecidableEq κ] (exclusive : Exclusive pool holds made) (i : ι) {token : κ} (stored : token ∈ pool) :
    Exclusive (pool.erase token) (Function.update holds i (some token)) made := by
  apply (exclusive.drop token).hand i
  · exact exclusive.once.not_mem_erase
  · intro j _ has
    exact exclusive.apart j token has stored
  · exact exclusive.pooled token stored

theorem make [DecidableEq ι] {more : κ → Prop} (exclusive : Exclusive pool holds made) (i : ι) {token : κ}
    (fresh : ¬ made token) (known : more token) (grows : ∀ other, made other → more other) :
    Exclusive pool (Function.update holds i (some token)) more := by
  have larger : Exclusive pool holds more := ⟨exclusive.once, exclusive.apart, exclusive.single,
    fun j other has => grows other (exclusive.held j other has), fun other inside => grows other (exclusive.pooled other inside)⟩
  apply larger.hand i
  · intro inside
    exact fresh (exclusive.pooled token inside)
  · intro j _ has
    exact fresh (exclusive.held j token has)
  · exact known

theorem put [DecidableEq ι] (exclusive : Exclusive pool holds made) {i : ι} {token : κ} (has : holds i = some token) :
    Exclusive (token :: pool) (Function.update holds i none) made := by
  have released := exclusive.release i
  refine ⟨List.nodup_cons.mpr ⟨exclusive.apart i token has, exclusive.once⟩, ?_, released.single, released.held, ?_⟩
  · intro j other holding inside
    rcases List.mem_cons.mp inside with rfl | pooled
    · by_cases same : j = i
      · subst same
        rw [Function.update_self] at holding
        cases holding
      · rw [Function.update_of_ne same] at holding
        exact same (exclusive.single j i other holding has)
    · exact released.apart j other holding pooled
  · intro other inside
    rcases List.mem_cons.mp inside with rfl | pooled
    · exact exclusive.held i other has
    · exact exclusive.pooled other pooled

end Exclusive
end Rediska.Logic
