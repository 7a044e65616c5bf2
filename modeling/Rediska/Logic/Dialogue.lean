import Rediska.Go.Loop

/-! Programs that ask a server and go on with its answers. The program says what it asks
and what it makes of any answer; who answers, and when, is left to whatever runs it. -/

namespace Rediska.Logic
open Go

inductive Dialogue (Q R α : Type)
  | done (result : α)
  | ask (question : Q) (next : R → Dialogue Q R α)
  | failed (p : Panic)

variable {Q R α β σ : Type}

namespace Dialogue

def bind : Dialogue Q R α → (α → Dialogue Q R β) → Dialogue Q R β
  | .done a, rest => rest a
  | .ask q next, rest => .ask q fun r => (next r).bind rest
  | .failed p, _ => .failed p

instance : Monad (Dialogue Q R) where
  pure := .done
  bind := bind

/-- A program alone with its server. -/
def run (serve : σ → Q → Panics (R × σ)) : Dialogue Q R α → σ → Panics (α × σ)
  | .done a, s => .ok (a, s)
  | .ask q next, s => do
    let (r, s) ← serve s q
    (next r).run serve s
  | .failed p, _ => .error p

/-- Whatever the answers are, a result is of this kind, and so is a failure. -/
inductive Ends (post : α → Prop) (fails : Panic → Prop) : Dialogue Q R α → Prop
  | done {a : α} (holds : post a) : Ends post fails (.done a)
  | ask {q : Q} {next : R → Dialogue Q R α} (later : ∀ r, Ends post fails (next r)) : Ends post fails (.ask q next)
  | failed {p : Panic} (cause : fails p) : Ends post fails (.failed p)

variable {serve : σ → Q → Panics (R × σ)} {post : α → Prop} {fails : Panic → Prop} {program : Dialogue Q R α}

theorem Ends.ran (ends : program.Ends post fails) {s : σ} {result : α × σ} (ran : program.run serve s = .ok result) : post result.1 := by
  induction ends generalizing s with
  | done holds =>
    cases ran
    exact holds
  | ask _ ih =>
    obtain ⟨⟨r, t⟩, _, ran⟩ := bind_ok ran
    exact ih r ran
  | failed => cases ran

end Dialogue

/-! A loop whose body is such a program. -/

section
variable (body : α → Dialogue Q R α) (ended : α → Bool)

/-- The loop alone with its server. -/
def loopWith (serve : σ → Q → Panics (R × σ)) : Nat → α → σ → Panics (α × σ)
  | 0, _, _ => .error .outOfFuel
  | fuel + 1, a, s =>
    if ended a then .ok (a, s)
    else do
      let (a, s) ← (body a).run serve s
      loopWith serve fuel a s

/-- What is left of the round the loop is in, after so many rounds begun and this exchange
of questions and answers, whoever answered. -/
inductive Talk (start : α) : Nat → List (Q × R) → Dialogue Q R α → Prop
  | begin : Talk start 0 [] (.done start)
  | again {rounds : Nat} {exchange : List (Q × R)} {a : α} (talk : Talk start rounds exchange (.done a)) (goes : ended a = false) :
      Talk start (rounds + 1) exchange (body a)
  | hear {rounds : Nat} {exchange : List (Q × R)} {q : Q} {next : R → Dialogue Q R α}
      (talk : Talk start rounds exchange (.ask q next)) (r : R) : Talk start rounds (exchange ++ [(q, r)]) (next r)

variable {body ended} {serve : σ → Q → Panics (R × σ)}

theorem loopWith_ended {a : α} (stopped : ended a = true) (fuel : Nat) (s : σ) : loopWith body ended serve (fuel + 1) a s = .ok (a, s) := by
  rw [loopWith, if_pos stopped]

/-- A server that gives the same answers brings the loop alone to the same point. -/
theorem Talk.alone {start : α} {rounds : Nat} {exchange : List (Q × R)} {now : Dialogue Q R α} (talk : Talk body ended start rounds exchange now)
    {s t : σ} (answers : runAll serve s (exchange.map (·.1)) = .ok (exchange.map (·.2), t)) (fuel : Nat) :
    loopWith body ended serve (rounds + fuel) start s = now.run serve t >>= fun result => loopWith body ended serve fuel result.1 result.2 := by
  induction talk generalizing t fuel with
  | begin =>
    cases answers
    rw [Nat.zero_add]
    rfl
  | @again rounds exchange a talk goes ih =>
    have before := ih answers (fuel + 1)
    rw [Nat.add_right_comm, Nat.add_assoc, before]
    simp only [Dialogue.run, ok_bind, loopWith, goes, Bool.false_eq_true, if_false]
  | @hear rounds exchange q next talk r ih =>
    rw [List.map_append, List.map_append] at answers
    obtain ⟨first, others, middle, earlier, last, all⟩ := runAll_append.mp answers
    obtain ⟨said, after, _, one, ⟨⟩, rfl⟩ := runAll_uncons last
    obtain ⟨rfl, same⟩ := List.append_inj all (by rw [runAll_length earlier, List.length_map, List.length_map])
    cases same
    rw [ih earlier fuel]
    simp only [Dialogue.run]
    rw [one]
    rfl

/-- What each round of the loop keeps, the loop keeps. -/
theorem Talk.ends {start : α} {rounds : Nat} {exchange : List (Q × R)} {now : Dialogue Q R α} (talk : Talk body ended start rounds exchange now)
    {post : α → Prop} {fails : Panic → Prop} (begins : post start) (keeps : ∀ a, post a → ended a = false → (body a).Ends post fails) :
    now.Ends post fails := by
  induction talk with
  | begin => exact .done begins
  | again _ goes ih =>
    cases ih with
    | done holds => exact keeps _ holds goes
  | hear _ r ih =>
    cases ih with
    | ask later => exact later r

end
end Rediska.Logic
