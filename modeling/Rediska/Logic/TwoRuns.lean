import Rediska.Go.Loop

/-! Two runs of fallible steps, side by side. -/

namespace Rediska.Logic
open Go

theorem related_cases {α β : Type} {related : α → β → Prop} {o : Option α} {o' : Option β} (both : Option.Rel related o o') :
    (o = none ∧ o' = none) ∨ ∃ a b, o = some a ∧ o' = some b ∧ related a b := by
  cases both with
  | none => exact .inl ⟨rfl, rfl⟩
  | some holds => exact .inr ⟨_, _, rfl, rfl, holds⟩

section
variable {ε α β σ τ : Type} {fails : Prop} {link : σ → τ → Prop}

/-- The same result from linked states to linked states, or the same failure where
failures are allowed. -/
inductive Together (fails : Prop) (link : σ → τ → Prop) : Except ε (α × σ) → Except ε (α × τ) → Prop
  | ok {a : α} {s : σ} {t : τ} (linked : link s t) : Together fails link (.ok (a, s)) (.ok (a, t))
  | error {e : ε} (allowed : fails) : Together fails link (.error e) (.error e)

namespace Together

theorem bind {first : Except ε (α × σ)} {first' : Except ε (α × τ)} {next : α × σ → Except ε (β × σ)}
    {next' : α × τ → Except ε (β × τ)} (together : Together fails link first first')
    (rest : ∀ a s t, link s t → Together fails link (next (a, s)) (next' (a, t))) :
    Together fails link (first >>= next) (first' >>= next') := by
  cases together with
  | ok linked => exact rest _ _ _ linked
  | error allowed => exact .error allowed

/-- A step that is the same in both runs and looks at no state. -/
theorem after (allowed : fails) {step : Except ε α} {next : α → Except ε (β × σ)} {next' : α → Except ε (β × τ)}
    (rest : ∀ a, Together fails link (next a) (next' a)) : Together fails link (step >>= next) (step >>= next') := by
  cases step with
  | error e => exact .error allowed
  | ok a => exact rest a

theorem outcomes {first : Except ε (α × σ)} {first' : Except ε (α × τ)} (together : Together fails link first first') :
    (fails ∧ ∃ e, first = .error e ∧ first' = .error e) ∨ ∃ a s t, first = .ok (a, s) ∧ first' = .ok (a, t) ∧ link s t := by
  cases together with
  | ok linked => exact .inr ⟨_, _, _, rfl, rfl, linked⟩
  | error allowed => exact .inl ⟨allowed, _, rfl, rfl⟩

theorem returns {first : Except ε (α × σ)} {first' : Except ε (α × τ)} (together : Together False link first first') :
    ∃ a s t, first = .ok (a, s) ∧ first' = .ok (a, t) ∧ link s t :=
  together.outcomes.resolve_left And.left

end Together
end

/-! Sequences. -/

section
variable {α ι σ τ : Type} {link : σ → τ → Prop} (tells : ι → σ → τ → Prop) (step : σ → ι → Panics (α × σ))
  (step' : τ → ι → Panics (α × τ))

/-- No step of the two runs is one that tells them apart. -/
def NeverTells : List ι → σ → τ → Prop
  | [], _, _ => True
  | item :: rest, s, t =>
    ¬ tells item s t ∧ ∀ a s' a' t', step s item = .ok (a, s') → step' t item = .ok (a', t') → NeverTells rest s' t'

variable {tells step step'}

/-- Two runs give the same results exactly if no step tells them apart: all other steps
keep the states linked. -/
theorem same_results_iff {items : List ι} {s : σ} {t : τ} (linked : link s t)
    (quiet : ∀ item ∈ items, ∀ s t, link s t → ¬ tells item s t → Together False link (step s item) (step' t item))
    (loud : ∀ item ∈ items, ∀ s t, link s t → tells item s t →
      ∃ a s' a' t', step s item = .ok (a, s') ∧ step' t item = .ok (a', t') ∧ a ≠ a') :
    (∃ results s' t', runAll step s items = .ok (results, s') ∧ runAll step' t items = .ok (results, t')) ↔
      NeverTells tells step step' items s t := by
  induction items generalizing s t with
  | nil => exact iff_of_true ⟨[], s, t, rfl, rfl⟩ trivial
  | cons item rest ih =>
    have rest_iff {s : σ} {t : τ} (linked : link s t) := ih linked (fun i later => quiet i (List.mem_cons_of_mem item later))
      (fun i later => loud i (List.mem_cons_of_mem item later))
    by_cases told : tells item s t
    · obtain ⟨a, s', a', t', first, first', different⟩ := loud item List.mem_cons_self s t linked told
      refine iff_of_false ?_ (fun never => never.1 told)
      intro ⟨results, _, _, ran, ran'⟩
      obtain ⟨others, _, all⟩ := (runAll_cons first).mp ran
      obtain ⟨others', _, all'⟩ := (runAll_cons first').mp ran'
      exact different (List.cons.inj (all.symm.trans all')).1
    · obtain ⟨a, s', t', first, first', linked'⟩ := (quiet item List.mem_cons_self s t linked told).returns
      have never : NeverTells tells step step' (item :: rest) s t ↔ NeverTells tells step step' rest s' t' := by
        refine ⟨fun never => never.2 a s' a t' first first', fun later => ⟨told, ?_⟩⟩
        intro b u b' u' ran ran'
        rw [first] at ran
        rw [first'] at ran'
        cases ran
        cases ran'
        exact later
      rw [never, ← rest_iff linked']
      constructor
      · intro ⟨results, last, last', ran, ran'⟩
        obtain ⟨others, later, all⟩ := (runAll_cons first).mp ran
        obtain ⟨others', later', all'⟩ := (runAll_cons first').mp ran'
        exact ⟨others, last, last', later, (List.cons.inj (all.symm.trans all')).2 ▸ later'⟩
      · intro ⟨others, last, last', later, later'⟩
        exact ⟨a :: others, last, last', (runAll_cons first).mpr ⟨others, later, rfl⟩, (runAll_cons first').mpr ⟨others, later', rfl⟩⟩

end
end Rediska.Logic
