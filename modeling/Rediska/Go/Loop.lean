import Rediska.Go.Basic

/-! Loops and sequencing of code that may panic. -/

namespace Rediska.Go

abbrev Panics (α : Type) := Except Panic α

theorem bind_error {α β : Type} (p : Panic) (next : α → Panics β) : (Except.error p >>= next) = .error p := rfl

theorem ok_bind {α β : Type} (a : α) (next : α → Panics β) : (Except.ok a >>= next) = next a := rfl

/-- A sequence succeeds if its parts do, one after the other. -/
theorem bind_eq_ok {ε α β : Type} {first : Except ε α} {next : α → Except ε β} {result : β} :
    (first >>= next) = .ok result ↔ ∃ value, first = .ok value ∧ next value = .ok result := by
  cases first with
  | error e => exact iff_of_false nofun nofun
  | ok value =>
    constructor
    · exact fun ran => ⟨value, rfl, ran⟩
    · rintro ⟨_, ⟨⟩, ran⟩
      exact ran

theorem bind_ok {α β : Type} {first : Panics α} {next : α → Panics β} {result : β}
    (ran : (first >>= next) = .ok result) : ∃ value, first = .ok value ∧ next value = .ok result :=
  bind_eq_ok.mp ran

theorem map_ok {α β : Type} {result : Panics α} {f : α → β} {b : β} (ran : result.map f = .ok b) :
    ∃ a, result = .ok a ∧ f a = b := by
  cases result with
  | error p => cases ran
  | ok a => exact ⟨a, rfl, Except.ok.inj ran⟩

theorem mapM_returns {α β : Type} {f : α → Panics β} (each : ∀ a, ∃ b, f a = .ok b) (items : List α) :
    ∃ results, items.mapM f = .ok results := by
  induction items with
  | nil => exact ⟨[], rfl⟩
  | cons item rest ih =>
    obtain ⟨b, first⟩ := each item
    obtain ⟨results, others⟩ := ih
    exact ⟨b :: results, by rw [List.mapM_cons, first, others]; rfl⟩

theorem mapM_all {α β : Type} {f : α → Panics β} {holds : β → Prop} (each : ∀ a b, f a = .ok b → holds b) {items : List α}
    {results : List β} (ran : items.mapM f = .ok results) : ∀ b ∈ results, holds b := by
  induction items generalizing results with
  | nil =>
    cases ran
    exact fun _ impossible => nomatch impossible
  | cons item rest ih =>
    rw [List.mapM_cons] at ran
    obtain ⟨b, first, ran⟩ := bind_ok ran
    obtain ⟨others, more, ran⟩ := bind_ok ran
    cases ran
    intro result inside
    rcases List.mem_cons.mp inside with rfl | later
    · exact each item _ first
    · exact ih more result later

/-- `s[i]` -/
def byteAt (s : Bytes) (i : Nat) : Panics UInt8 :=
  match s[i]? with
  | some b => .ok b
  | none => .error .indexOutOfRange

/-- `s[first:last]` -/
def slice (s : Bytes) (first last : Nat) : Panics Bytes :=
  if first ≤ last ∧ last ≤ s.length then .ok ((s.take last).drop first) else .error .sliceBounds

theorem byteAt_inside {s : Bytes} {i : Nat} (inside : i < s.length) : byteAt s i = .ok s[i] := by
  simp only [byteAt, List.getElem?_eq_getElem inside]

/-- `for i := 0; i < n; i++` -/
def forRange {σ : Type} (n : Nat) (body : Nat → σ → Panics σ) (state : σ) : Panics σ :=
  match n with
  | 0 => .ok state
  | n + 1 => forRange n body state >>= body n

/-- What each iteration carries on holds at the end, and no iteration panics. -/
theorem forRange_invariant {σ : Type} (n : Nat) (body : Nat → σ → Panics σ) (state : σ) (holds : Nat → σ → Prop)
    (start : holds 0 state)
    (step : ∀ i current, i < n → holds i current → ∃ next, body i current = .ok next ∧ holds (i + 1) next) :
    ∃ final, forRange n body state = .ok final ∧ holds n final := by
  induction n with
  | zero => exact ⟨state, rfl, start⟩
  | succ n ih =>
    obtain ⟨current, ran, carried⟩ := ih (fun i current inside => step i current (by omega))
    obtain ⟨final, last, kept⟩ := step n current (Nat.lt_succ_self n) carried
    exact ⟨final, by simp only [forRange, ran]; exact last, kept⟩

/-- `for _, item := range items` -/
def forEach {α σ : Type} (items : List α) (body : α → σ → Panics σ) (state : σ) : Panics σ :=
  match items with
  | [] => .ok state
  | item :: rest => body item state >>= forEach rest body

theorem forEach_append {α σ : Type} (items more : List α) (body : α → σ → Panics σ) (state : σ) :
    forEach (items ++ more) body state = forEach items body state >>= forEach more body := by
  induction items generalizing state with
  | nil => rfl
  | cons item rest ih =>
    rw [List.cons_append, forEach, forEach]
    cases body item state with
    | error p => rfl
    | ok state => exact ih state

theorem forEach_congr {α σ : Type} {items : List α} {body body' : α → σ → Panics σ}
    (same : ∀ item ∈ items, body' item = body item) (state : σ) : forEach items body' state = forEach items body state := by
  induction items generalizing state with
  | nil => rfl
  | cons item rest ih =>
    have later : forEach rest body' = forEach rest body := funext (ih fun i among => same i (List.mem_cons_of_mem item among))
    rw [forEach, forEach, same item List.mem_cons_self, later]

/-- Items processed one after the other, with a result for each. -/
def runAll {α β σ : Type} (run : σ → α → Panics (β × σ)) (state : σ) : List α → Panics (List β × σ)
  | [] => .ok ([], state)
  | item :: rest => do
    let (result, state) ← run state item
    let (results, state) ← runAll run state rest
    .ok (result :: results, state)

theorem runAll_cons {α β σ : Type} {run : σ → α → Panics (β × σ)} {start next final : σ} {item : α} {rest : List α} {result : β}
    {results : List β} (first : run start item = .ok (result, next)) :
    runAll run start (item :: rest) = .ok (results, final) ↔
      ∃ others, runAll run next rest = .ok (others, final) ∧ results = result :: others := by
  simp only [runAll, first, ok_bind]
  constructor
  · intro ran
    obtain ⟨⟨others, last⟩, later, ran⟩ := bind_ok ran
    cases ran
    exact ⟨others, later, rfl⟩
  · intro ⟨others, later, all⟩
    rw [later, all, ok_bind]

theorem runAll_uncons {α β σ : Type} {run : σ → α → Panics (β × σ)} {start final : σ} {item : α} {rest : List α} {results : List β}
    (ran : runAll run start (item :: rest) = .ok (results, final)) :
    ∃ result next others, run start item = .ok (result, next) ∧ runAll run next rest = .ok (others, final) ∧ results = result :: others := by
  obtain ⟨⟨result, next⟩, first, _⟩ := bind_ok ran
  obtain ⟨others, later, all⟩ := (runAll_cons first).mp ran
  exact ⟨result, next, others, first, later, all⟩

theorem runAll_append_eq {α β σ : Type} (run : σ → α → Panics (β × σ)) (start : σ) (items more : List α) :
    runAll run start (items ++ more) = runAll run start items >>= fun first => runAll run first.2 more >>= fun second =>
      .ok (first.1 ++ second.1, second.2) := by
  induction items generalizing start with
  | nil =>
    simp only [List.nil_append, runAll, ok_bind]
    cases runAll run start more <;> rfl
  | cons item rest ih =>
    simp only [List.cons_append, runAll, ih, bind_assoc, ok_bind, List.cons_append]

theorem runAll_append {α β σ : Type} {run : σ → α → Panics (β × σ)} {start final : σ} {items more : List α} {results : List β} :
    runAll run start (items ++ more) = .ok (results, final) ↔
      ∃ first others middle, runAll run start items = .ok (first, middle) ∧ runAll run middle more = .ok (others, final) ∧
        results = first ++ others := by
  rw [runAll_append_eq]
  constructor
  · intro ran
    obtain ⟨⟨first, middle⟩, before, ran⟩ := bind_ok ran
    obtain ⟨⟨others, last⟩, after, ran⟩ := bind_ok ran
    cases ran
    exact ⟨first, others, middle, before, after, rfl⟩
  · rintro ⟨first, others, middle, before, after, rfl⟩
    simp only [before, after, ok_bind]

theorem runAll_snoc {α β σ : Type} {run : σ → α → Panics (β × σ)} {start middle final : σ} {items : List α} {item : α}
    {results : List β} {result : β} (before : runAll run start items = .ok (results, middle))
    (last : run middle item = .ok (result, final)) :
    runAll run start (items ++ [item]) = .ok (results ++ [result], final) :=
  runAll_append.mpr ⟨results, [result], middle, before, (runAll_cons last).mpr ⟨[], rfl, rfl⟩, rfl⟩

theorem runAll_returns {α β σ : Type} {run : σ → α → Panics (β × σ)} (each : ∀ state item, ∃ result, run state item = .ok result)
    (start : σ) (items : List α) : ∃ result, runAll run start items = .ok result := by
  induction items generalizing start with
  | nil => exact ⟨_, rfl⟩
  | cons item rest ih =>
    obtain ⟨result, one⟩ := each start item
    obtain ⟨results, others⟩ := ih result.2
    exact ⟨(result.1 :: results.1, results.2), (runAll_cons one).mpr ⟨_, others, rfl⟩⟩

theorem runAll_length {α β σ : Type} {run : σ → α → Panics (β × σ)} {start final : σ} {items : List α} {results : List β}
    (ran : runAll run start items = .ok (results, final)) : results.length = items.length := by
  induction items generalizing start results with
  | nil =>
    cases ran
    rfl
  | cons item rest ih =>
    obtain ⟨result, next, others, one, later, rfl⟩ := runAll_uncons ran
    rw [List.length_cons, List.length_cons, ih later]

/-- A result is that of its item, in the state that the items before have led to. -/
theorem runAll_at {α β σ : Type} {run : σ → α → Panics (β × σ)} {start final : σ} {items : List α} {results : List β} {j : Nat} {result : β}
    (ran : runAll run start items = .ok (results, final)) (said : results[j]? = some result) :
    ∃ item middle next, items[j]? = some item ∧ runAll run start (items.take j) = .ok (results.take j, middle) ∧
      run middle item = .ok (result, next) := by
  induction items generalizing start results j with
  | nil =>
    cases ran
    cases said
  | cons first rest ih =>
    obtain ⟨value, state, others, one, later, rfl⟩ := runAll_uncons ran
    cases j with
    | zero =>
      cases said
      exact ⟨first, start, state, rfl, rfl, one⟩
    | succ j =>
      obtain ⟨item, middle, next, there, before, now⟩ := ih later said
      exact ⟨item, middle, next, there, (runAll_cons one).mpr ⟨_, before, rfl⟩, now⟩

/-- The property holds of each state in which an item is taken up. -/
def Before {α β σ : Type} (run : σ → α → Panics (β × σ)) (holds : σ → Prop) (state : σ) : List α → Prop
  | [] => True
  | item :: rest => holds state ∧ ∀ result next, run state item = .ok (result, next) → Before run holds next rest

/-- The property holds of the first state, of the last, and of each between. -/
def Throughout {α β σ : Type} (run : σ → α → Panics (β × σ)) (holds : σ → Prop) (state : σ) : List α → Prop
  | [] => holds state
  | item :: rest => holds state ∧ ∀ result next, run state item = .ok (result, next) → Throughout run holds next rest

/-- What one item keeps under a condition, all items keep exactly if each of them meets it. -/
theorem throughout_iff_before {α β σ : Type} {run : σ → α → Panics (β × σ)} {given meets holds : σ → Prop}
    {state final : σ} {items : List α} {results : List β}
    (step : ∀ item ∈ items, ∀ state result next, holds state → given state → run state item = .ok (result, next) →
      (holds next ↔ meets state))
    (start : holds state) (each : Before run given state items)
    (ran : runAll run state items = .ok (results, final)) : Throughout run holds state items ↔ Before run meets state items := by
  induction items generalizing state results with
  | nil => exact iff_of_true start trivial
  | cons item rest ih =>
    obtain ⟨result, next, others, first, later, _⟩ := runAll_uncons ran
    have one := step item List.mem_cons_self state result next start each.1 first
    have more (kept : holds next) := ih (fun item inside => step item (List.mem_cons_of_mem _ inside)) kept (each.2 result next first) later
    constructor
    · intro ⟨_, through⟩
      have kept : holds next := by
        have after := through result next first
        cases rest with
        | nil => exact after
        | cons => exact after.1
      refine ⟨one.mp kept, ?_⟩
      intro result' next' same
      rw [first] at same
      cases same
      exact (more kept).mp (through result next first)
    · intro ⟨met, before⟩
      refine ⟨start, ?_⟩
      intro result' next' same
      rw [first] at same
      cases same
      exact (more (one.mpr met)).mpr (before result next first)

end Rediska.Go
