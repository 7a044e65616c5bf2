import Rediska.Spec.Deadlines

/-! Keyspaces with the same live part, and the three commands that tell them apart. -/

namespace Rediska.Spec
open Go Core Hll Storage Commands

/-- Results a client cannot tell apart at a time: the same answer, and the same live
part left behind. -/
inductive Agree (now : Int) {α : Type} : Panics (α × Keyspace) → Panics (α × Keyspace) → Prop
  | ok {a : α} {K K' : Keyspace} (same : K.live now = K'.live now) : Agree now (.ok (a, K)) (.ok (a, K'))
  | error {p : Panic} : Agree now (.error p) (.error p)

theorem Agree.bind {now : Int} {α β : Type} {first first' : Panics (α × Keyspace)} {next next' : α × Keyspace → Panics (β × Keyspace)}
    (agree : Agree now first first')
    (rest : ∀ a K K', K.live now = K'.live now → Agree now (next (a, K)) (next' (a, K'))) :
    Agree now (first >>= next) (first' >>= next') := by
  cases agree with
  | ok same => exact rest _ _ _ same
  | error => exact .error

theorem Agree.of_ok {now : Int} {α : Type} {a a' : α} {K K' : Keyspace} (agree : Agree now (.ok (a, K)) (.ok (a', K'))) :
    a = a' ∧ K.live now = K'.live now := by
  generalize left : Except.ok (a, K) = first at agree
  generalize right : Except.ok (a', K') = second at agree
  cases agree with
  | ok same =>
    obtain ⟨rfl, rfl⟩ := Prod.mk.inj (Except.ok.inj left)
    obtain ⟨rfl, rfl⟩ := Prod.mk.inj (Except.ok.inj right)
    exact ⟨rfl, same⟩
  | error => cases left

theorem Agree.after {now : Int} {β : Type} (step : Panics Unit) {next next' : Unit → Panics (β × Keyspace)}
    (rest : Agree now (next ()) (next' ())) : Agree now (step >>= next) (step >>= next') := by
  cases step with
  | ok => exact rest
  | error => exact .error

namespace Keyspace
variable {rules : Rules} {now : Int} {K K' : Keyspace} {key : Bytes} {item : Item}

theorem live_of_none (absent : K key = none) : K.live now key = none := by rw [live, absent]; rfl

theorem live_of_dead (held : K key = some item) (dead : item.dead now = true) : K.live now key = none := by
  simp [live, held, dead]

theorem live_of_alive (held : K key = some item) (alive : item.dead now = false) : K.live now key = some item := by
  simp [live, held, alive]

theorem of_live (held : K.live now key = some item) : K key = some item ∧ item.dead now = false := by
  obtain ⟨held, alive⟩ := Option.filter_eq_some_iff.mp held
  exact ⟨held, by simpa using alive⟩

theorem live_live (K : Keyspace) : (K.live now).live now = K.live now := by
  funext key
  simp [live, Option.filter_filter]

theorem live_put (K : Keyspace) (key : Bytes) (item : Item) (j : Bytes) :
    (K.put key item).live now j = if j = key then (some item).filter (fun item => ! item.dead now) else K.live now j := by
  rw [live, put_apply]
  split <;> rfl

theorem put_live (same : K.live now = K'.live now) (key : Bytes) (item : Item) :
    (K.put key item).live now = (K'.put key item).live now := by
  funext j
  rw [live_put, live_put, same]

theorem drop_live (K : Keyspace) (key : Bytes) : (K.drop key).live now = (K.live now).drop key := by
  funext j
  rw [live, drop_apply, drop_apply]
  split <;> rfl

theorem drop_absent (absent : K key = none) : K.drop key = K := by
  funext j
  rw [drop_apply]
  split
  next here => rw [here, absent]
  next => rfl

/-- Looking a key up finds its live item and leaves the live part alone. -/
theorem find_live (K : Keyspace) (now : Int) (key : Bytes) :
    ∃ left, K.find now key = (K.live now key, left) ∧ left.live now = K.live now := by
  unfold find
  cases held : K key with
  | none => exact ⟨K, by rw [live_of_none held], rfl⟩
  | some item =>
    cases dead : item.dead now with
    | true =>
      refine ⟨K.drop key, by simp only [dead, if_true, live_of_dead held dead], ?_⟩
      rw [drop_live, drop_absent (live_of_dead held dead)]
    | false => exact ⟨K, by simp only [dead, Bool.false_eq_true, if_false, live_of_alive held dead], rfl⟩

/-- Where the live parts are the same, a key is found with the same item. -/
theorem finds_alike (same : K.live now = K'.live now) (key : Bytes) :
    ∃ item left left', K.find now key = (item, left) ∧ K'.find now key = (item, left') ∧ left.live now = left'.live now := by
  obtain ⟨left, found, kept⟩ := K.find_live now key
  obtain ⟨left', found', kept'⟩ := K'.find_live now key
  exact ⟨_, left, left', found, by rw [found', same], by rw [kept, kept', same]⟩

theorem get_agrees (rules : Rules) (same : K.live now = K'.live now) (key : Bytes) :
    Agree now (K.get rules now key) (K'.get rules now key) := by
  obtain ⟨item, left, left', found, found', final⟩ := finds_alike same key
  unfold get
  rw [found, found']
  cases item with
  | none => exact .ok final
  | some item => exact .after _ (.ok final)

theorem getInt_agrees (rules : Rules) (same : K.live now = K'.live now) (key : Bytes) :
    Agree now (K.getInt rules now key) (K'.getInt rules now key) := by
  obtain ⟨item, left, left', found, found', final⟩ := finds_alike same key
  unfold getInt
  rw [found, found']
  cases item with
  | none => exact .ok final
  | some item =>
    refine .after _ ?_
    cases item.content <;> exact .ok final

theorem pfAdd_agrees (rules : Rules) (same : K.live now = K'.live now) (key : Bytes) (values : List Bytes) :
    Agree now (K.pfAdd rules now key values) (K'.pfAdd rules now key values) := by
  obtain ⟨item, left, left', found, found', final⟩ := finds_alike same key
  unfold pfAdd
  rw [found, found']
  cases item with
  | none => exact .ok (put_live final key _)
  | some item =>
    dsimp only
    cases item.content with
    | sketch table => exact .after _ (.ok (put_live final key _))
    | int | embstr | raw => exact .ok final

theorem getEncoding_agrees (same : K.live now = K'.live now) (key : Bytes) :
    (K.getEncoding now key).1 = (K'.getEncoding now key).1 ∧
      (K.getEncoding now key).2.live now = (K'.getEncoding now key).2.live now := by
  obtain ⟨item, left, left', found, found', final⟩ := finds_alike same key
  unfold getEncoding
  rw [found, found']
  exact ⟨rfl, final⟩

theorem ttl_agrees (same : K.live now = K'.live now) (key : Bytes) :
    (K.ttl now key).1 = (K'.ttl now key).1 ∧ (K.ttl now key).2.live now = (K'.ttl now key).2.live now := by
  obtain ⟨item, left, left', found, found', final⟩ := finds_alike same key
  rw [ttl_eq_find, ttl_eq_find, found, found']
  cases item with
  | none => exact ⟨rfl, final⟩
  | some item =>
    dsimp only
    cases item.deadline <;> exact ⟨rfl, final⟩

/-- Deleting counts the live item and takes it out of the live part. -/
theorem deleteOne_live (K : Keyspace) (now removed : Int) (key : Bytes) :
    (K.deleteOne now removed key).1 = (if (K.live now key).isSome then removed + 1 else removed) ∧
      (K.deleteOne now removed key).2.live now = (K.live now).drop key := by
  unfold deleteOne
  cases held : K key with
  | none =>
    rw [live_of_none held]
    exact ⟨rfl, (drop_absent (live_of_none held)).symm⟩
  | some item =>
    refine ⟨?_, K.drop_live key⟩
    cases dead : item.dead now with
    | true => rw [live_of_dead held dead]; simp [dead]
    | false => rw [live_of_alive held dead]; simp [dead]

theorem delete_agrees (same : K.live now = K'.live now) (i : Nat) (removed : Int) (keys : List Bytes) :
    (delete (fun _ => now) i removed K keys).1 = (delete (fun _ => now) i removed K' keys).1 ∧
      (delete (fun _ => now) i removed K keys).2.live now = (delete (fun _ => now) i removed K' keys).2.live now := by
  induction keys generalizing K K' i removed with
  | nil => exact ⟨rfl, same⟩
  | cons key rest ih =>
    obtain ⟨count, left⟩ := K.deleteOne_live now removed key
    obtain ⟨count', left'⟩ := K'.deleteOne_live now removed key
    have counted : (K.deleteOne now removed key).1 = (K'.deleteOne now removed key).1 := by rw [count, count', same]
    simp only [delete, counted]
    exact ih (by rw [left, left', same]) (i + 1) _

/-- The union is the least table above the sketches of all the keys. -/
theorem union_le {keys : List Bytes} {table : Table} : K.union keys ≤ table ↔ ∀ key ∈ keys, K.tableAt key ≤ table := by
  have fold (start : Table) : keys.foldl (fun table key => table ⊔ K.tableAt key) start ≤ table ↔
      start ≤ table ∧ ∀ key ∈ keys, K.tableAt key ≤ table := by
    induction keys generalizing start with
    | nil => simp
    | cons key rest ih => rw [List.foldl_cons, ih, sup_le_iff, List.forall_mem_cons, and_assoc]
  rw [union, fold]
  exact and_iff_right bot_le

theorem tableAt_le_union {keys : List Bytes} (inside : key ∈ keys) : K.tableAt key ≤ K.union keys :=
  union_le.mp (le_refl _) key inside

/-- The union is one of the sketches at each register. -/
theorem union_lt {keys : List Bytes} {i : Fin registers} {bound : Nat} (positive : 0 < bound)
    (below : ∀ key ∈ keys, K.tableAt key i < bound) :
    K.union keys i < bound := by
  have cut : K.union keys ≤ Function.update (K.union keys) i (bound - 1) := by
    rw [union_le]
    intro key inside j
    by_cases here : j = i
    · subst here
      rw [Function.update_self]
      exact Nat.le_sub_one_of_lt (below key inside)
    · rw [Function.update_of_ne here]
      exact tableAt_le_union inside j
  have most : K.union keys i ≤ bound - 1 := Function.update_self i (bound - 1) (K.union keys) ▸ cut i
  exact Nat.lt_of_le_sub_one positive most

theorem tableAt_sketch {table : Table} (held : K key = some item) (sketch : item.content = .sketch table) :
    K.tableAt key = table := by
  obtain ⟨content, deadline⟩ := item
  obtain rfl := sketch
  rw [tableAt, held]

theorem sketch_of_tableAt {i : Fin registers} (positive : 0 < K.tableAt key i) :
    ∃ item table, K key = some item ∧ item.content = .sketch table := by
  cases held : K key with
  | none =>
    rw [tableAt, held] at positive
    exact absurd positive (Nat.not_lt_zero _)
  | some item =>
    cases kind : item.content with
    | sketch table => exact ⟨item, table, rfl, kind⟩
    | int | embstr | raw =>
      obtain ⟨content, deadline⟩ := item
      obtain rfl := kind
      rw [tableAt, held] at positive
      exact absurd positive (Nat.not_lt_zero _)

theorem tableAt_live_le (K : Keyspace) (key : Bytes) : (K.live now).tableAt key ≤ K.tableAt key := by
  cases held : K.live now key with
  | none => rw [tableAt, held]; exact bot_le
  | some item => rw [tableAt, held, tableAt, (of_live held).1]

end Keyspace

theorem ShrunkAt.live {now : Int} {K left : Keyspace} (shrunk : ShrunkAt now K left) : left.live now = K.live now := by
  funext key
  rcases shrunk key with same | ⟨⟨item, held, dead⟩, gone⟩
  · rw [Keyspace.live, same, Keyspace.live]
  · rw [Keyspace.live_of_dead held dead, Keyspace.live_of_none gone]

/-! The three commands that look at dead entries. -/

/-- The request shows a dead entry: it appends to one, counts one as more than zero, or
merges one with a register above those of the live sketches it names. -/
def Request.exposed (estimate : List Nat → Nat) (now : Int) (K : Keyspace) : Request → Prop
  | .append key _ => ∃ item, K key = some item ∧ item.dead now = true
  | .pfcount key => ∃ item table, K key = some item ∧ item.dead now = true ∧ item.content = .sketch table ∧
      estimate (histogram table) ≠ 0
  | .pfmerge dest sources => ∃ key ∈ dest :: sources, ∃ item table i, K key = some item ∧ item.dead now = true ∧
      item.content = .sketch table ∧ ∀ other ∈ dest :: sources, (K.live now).tableAt other i < table i
  | _ => False

section
variable {rules : Rules} {now : Int} {K : Keyspace}

theorem pfCount_sketch {key : Bytes} {item : Item} {table : Table} (held : K key = some item)
    (sketch : item.content = .sketch table) : K.pfCount rules key = wrap64 (rules.estimate (histogram table)) := by
  obtain ⟨content, deadline⟩ := item
  obtain rfl := sketch
  rw [Keyspace.pfCount, held]

theorem pfCount_absent {key : Bytes} (absent : K key = none) : K.pfCount rules key = 0 := by rw [Keyspace.pfCount, absent]

theorem wrap64_natCast_eq_zero {n : Nat} (small : n < 2 ^ 64) : wrap64 n = 0 ↔ n = 0 := by
  constructor
  · intro zero
    have divides := Int.dvd_of_bmod_eq_zero zero
    omega
  · rintro rfl
    rfl

theorem pfCount_live_iff (small : ∀ histo, rules.estimate histo < 2 ^ 64) (key : Bytes) :
    K.pfCount rules key = (K.live now).pfCount rules key ↔ ¬ (Request.pfcount key).exposed rules.estimate now K := by
  cases held : K key with
  | none =>
    rw [pfCount_absent held, pfCount_absent (Keyspace.live_of_none held)]
    refine iff_of_true rfl ?_
    rintro ⟨item, _, found, _⟩
    rw [held] at found
    cases found
  | some item =>
    cases dead : item.dead now with
    | false =>
      refine iff_of_true ?_ ?_
      · rw [Keyspace.pfCount, Keyspace.pfCount, held, Keyspace.live_of_alive held dead]
      · rintro ⟨other, _, found, gone, _⟩
        rw [held] at found
        cases found
        rw [dead] at gone
        cases gone
    | true =>
      rw [pfCount_absent (Keyspace.live_of_dead held dead)]
      cases kind : item.content with
      | sketch table =>
        rw [pfCount_sketch held kind, wrap64_natCast_eq_zero (small _)]
        constructor
        · rintro none ⟨other, table, found, _, sketch, counted⟩
          rw [held] at found
          cases found
          rw [kind] at sketch
          cases sketch
          exact counted none
        · intro hidden
          by_contra counted
          exact hidden ⟨item, table, held, dead, kind, counted⟩
      | int | embstr | raw =>
        refine iff_of_true ?_ ?_
        · obtain ⟨content, deadline⟩ := item
          obtain rfl := kind
          rw [Keyspace.pfCount, held]
        · rintro ⟨other, table, found, _, sketch, _⟩
          rw [held] at found
          cases found
          rw [kind] at sketch
          cases sketch

theorem union_live_iff (estimate : List Nat → Nat) (dest : Bytes) (sources : List Bytes) :
    K.union (dest :: sources) = (K.live now).union (dest :: sources) ↔
      ¬ (Request.pfmerge dest sources).exposed estimate now K := by
  constructor
  · rintro same ⟨key, inside, item, table, i, held, _, sketch, above⟩
    have positive : 0 < table i := Nat.lt_of_le_of_lt (Nat.zero_le _) (above dest List.mem_cons_self)
    have least : table i ≤ K.union (dest :: sources) i := by
      rw [← Keyspace.tableAt_sketch held sketch]
      exact Keyspace.tableAt_le_union inside i
    have less := Keyspace.union_lt positive above
    rw [← same] at less
    exact absurd least (Nat.not_le.mpr less)
  · intro hidden
    apply le_antisymm
    · rw [Keyspace.union_le]
      intro key inside i
      by_contra higher
      have higher : (K.live now).union (dest :: sources) i < K.tableAt key i := not_le.mp higher
      obtain ⟨item, table, held, sketch⟩ := Keyspace.sketch_of_tableAt (Nat.lt_of_le_of_lt (Nat.zero_le _) higher)
      rw [Keyspace.tableAt_sketch held sketch] at higher
      have above : ∀ other ∈ dest :: sources, (K.live now).tableAt other i < table i :=
        fun other named => lt_of_le_of_lt (Keyspace.tableAt_le_union named i) higher
      refine hidden ⟨key, inside, item, table, i, held, ?_, sketch, above⟩
      by_contra alive
      -- A live sketch is one of those the register stands above.
      have live := Keyspace.live_of_alive held (Bool.not_eq_true _ ▸ alive)
      have less := above key inside
      rw [Keyspace.tableAt_sketch live sketch] at less
      exact Nat.lt_irrefl _ less
    · rw [Keyspace.union_le]
      intro key inside
      exact (K.tableAt_live_le key).trans (Keyspace.tableAt_le_union inside)

theorem append_agrees (rules : Rules) {K K' : Keyspace} {key : Bytes} (same : K.live now = K'.live now) (here : K key = K' key)
    (value : Bytes) : Agree now (K.append rules key value) (K'.append rules key value) := by
  unfold Keyspace.append
  rw [here]
  cases K' key with
  | none => exact .ok (Keyspace.put_live same key _)
  | some item =>
    dsimp only
    cases item.content.text with
    | none => exact .error
    | some text => exact .after _ (.ok (Keyspace.put_live same key _))

/-- What is not exposed depends on the live part only. -/
theorem Request.run_agrees {K K' : Keyspace} (small : ∀ histo, rules.estimate histo < 2 ^ 64)
    (same : K.live now = K'.live now) {request : Request} (hidden : ¬ request.exposed rules.estimate now K)
    (hidden' : ¬ request.exposed rules.estimate now K') :
    Agree now (request.run rules (fun _ => now) K) (request.run rules (fun _ => now) K') := by
  cases request with
  | get key =>
    refine (Keyspace.get_agrees rules same key).bind ?_
    intro value K K' same
    exact .ok same
  | set key value duration => exact .ok (Keyspace.put_live same key _)
  | expire key duration =>
    refine (Keyspace.get_agrees rules same key).bind ?_
    intro value K K' same
    cases value with
    | none => exact .ok same
    | some value => exact .ok (Keyspace.put_live same key _)
  | ttl key =>
    obtain ⟨seconds, final⟩ := Keyspace.ttl_agrees same key
    simp only [Request.run, seconds]
    exact .ok final
  | incr key =>
    refine (Keyspace.getInt_agrees rules same key).bind ?_
    intro read K K' same
    cases read with
    | notInteger => exact .ok same
    | absent => exact .ok (Keyspace.put_live same key _)
    | value n deadline => exact .ok (Keyspace.put_live same key _)
  | append key value =>
    have alive {K : Keyspace} (hidden : ¬ (Request.append key value).exposed rules.estimate now K) : K key = K.live now key := by
      cases held : K key with
      | none => rw [Keyspace.live_of_none held]
      | some item =>
        cases dead : item.dead now with
        | true => exact absurd ⟨item, held, dead⟩ hidden
        | false => rw [Keyspace.live_of_alive held dead]
    refine (append_agrees rules same ?_ value).bind ?_
    · rw [alive hidden, same, ← alive hidden']
    · intro newLen K K' same
      exact .ok same
  | pfadd key values =>
    refine (Keyspace.pfAdd_agrees rules same key values).bind ?_
    intro changed K K' same
    exact .ok same
  | pfcount key =>
    have counted : K.pfCount rules key = K'.pfCount rules key := by
      rw [(pfCount_live_iff small key).mpr hidden, same, ← (pfCount_live_iff small key).mpr hidden']
    simp only [Request.run, counted]
    exact .ok same
  | pfmerge dest sources =>
    have merged : K.union (dest :: sources) = K'.union (dest :: sources) := by
      rw [(union_live_iff _ dest sources).mpr hidden, same, ← (union_live_iff _ dest sources).mpr hidden']
    simp only [Request.run, Keyspace.pfMerge, merged]
    exact .ok (Keyspace.put_live same dest _)
  | del keys =>
    obtain ⟨count, final⟩ := Keyspace.delete_agrees same 0 0 keys
    simp only [Request.run, count]
    exact .ok final
  | encoding key =>
    obtain ⟨encoding, final⟩ := Keyspace.getEncoding_agrees same key
    simp only [Request.run, encoding]
    exact .ok final

/-- Nothing is dead in the live part. -/
theorem Request.live_hidden (estimate : List Nat → Nat) (now : Int) (K : Keyspace) (request : Request) :
    ¬ request.exposed estimate now (K.live now) := by
  have alive {key : Bytes} {item : Item} (held : K.live now key = some item) (dead : item.dead now = true) : False := by
    rw [(Keyspace.of_live held).2] at dead
    cases dead
  cases request <;> first | exact id | skip
  · rintro ⟨item, held, dead⟩
    exact alive held dead
  · rintro ⟨item, table, held, dead, _⟩
    exact alive held dead
  · rintro ⟨key, _, item, table, i, held, dead, _⟩
    exact alive held dead

/-- What is exposed differs from the same request on the live part alone. -/
theorem Request.run_differs (small : ∀ histo, rules.estimate histo < 2 ^ 64) {request : Request}
    (exposed : request.exposed rules.estimate now K) :
    ¬ Agree now (request.run rules (fun _ => now) K) (request.run rules (fun _ => now) (K.live now)) := by
  intro agree
  cases request with
  | append key value =>
    obtain ⟨item, held, dead⟩ := exposed
    simp only [Request.run, Keyspace.append, held, Keyspace.live_of_dead held dead, ok_bind] at agree
    cases string : item.content.text with
    | none =>
      simp only [string, bind_error] at agree
      cases agree
    | some text =>
      cases touched : Keyspace.touch rules with
      | error p =>
        simp only [string, touched, bind_error] at agree
        cases agree
      | ok =>
        simp only [string, touched, ok_bind] at agree
        -- The grown text keeps its deadline and is dead, the new one has none.
        have here := congrFun agree.of_ok.2 key
        have gone : (⟨.raw (text ++ value), item.deadline⟩ : Item).dead now = true := dead
        rw [Keyspace.live_of_dead (K.put_self key _) gone, Keyspace.live_of_alive (Keyspace.put_self _ key _) rfl] at here
        cases here
  | pfcount key =>
    have replies := agree.of_ok.1
    have lines := List.append_cancel_right replies
    have counted := itoa_injective (List.append_cancel_left lines)
    exact absurd exposed ((pfCount_live_iff small key).mp counted)
  | pfmerge dest sources =>
    have here := congrFun agree.of_ok.2 dest
    simp only [Keyspace.pfMerge] at here
    rw [Keyspace.live_of_alive (K.put_self dest _) rfl, Keyspace.live_of_alive (Keyspace.put_self _ dest _) rfl] at here
    have merged := Content.sketch.inj (Item.mk.inj (Option.some.inj here)).1
    exact absurd exposed ((union_live_iff _ dest sources).mp merged)
  | get | set | expire | ttl | incr | pfadd | del | encoding => exact exposed

end
end Rediska.Spec
