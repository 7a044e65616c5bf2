import Rediska.Proofs.StoreRefinement

/-! Merging sketches in the store: the registers of the destination become the maxima
over the keys named, in whatever order and however often. -/

namespace Rediska.Proofs
open Go Hll Logic Storage Spec

/-- Sketches come from their package, whose fields nobody else can write. -/
def Sketched (s : Store) : Prop :=
  ∀ key e, s.data.lookup key = some e → e.encoding = .hll → ∃ h seen, e.hllVal = some h ∧ Built h seen

/-- The sketch at a key, if the key holds one. -/
def sketchAt (s : Store) (key : Bytes) : Option HLL :=
  (s.data.lookup key).bind fun e => if e.encoding = .hll then e.hllVal else none

/-- A register of the sketch at a key, zero where there is none. -/
def registerAt (s : Store) (key : Bytes) (i : Nat) : Nat :=
  match sketchAt s key with
  | none => 0
  | some h =>
    match readRegister h i with
    | .ok value => value.toNat
    | .error _ => 0

theorem sketchAt_some {s : Store} {key : Bytes} {e : Entry} (held : s.data.lookup key = some e) (tag : e.encoding = .hll) :
    sketchAt s key = e.hllVal := by
  rw [sketchAt, held, Option.bind_some, if_pos tag]

theorem registerAt_holds {s : Store} {key : Bytes} {h : HLL} {table : Table} (found : sketchAt s key = some h)
    (holds : Holds h table) (i : Fin registers) : registerAt s key i = table i := by
  obtain ⟨value, read, held⟩ := holds.read i
  rw [registerAt, found]
  simp only [read, held]

theorem registerAt_congr {s after : Store} {key : Bytes} (same : after.data.lookup key = s.data.lookup key) (i : Nat) :
    registerAt after key i = registerAt s key i := by
  simp only [registerAt, sketchAt, same]

theorem SketchAt.congr {s after : Store} {key : Bytes} {table : Table} (source : SketchAt s key table)
    (same : after.data.lookup key = s.data.lookup key) : SketchAt after key table := by
  cases source with
  | none other => exact .none (same ▸ other)
  | some held tag value holds => exact .some (same.trans held) tag value holds

/-- Every key brings its registers to a merge. -/
theorem Sketched.sketchAt {s : Store} (sketched : Sketched s) (key : Bytes) : SketchAt s key fun i => registerAt s key i := by
  by_cases sketch : ∃ e, s.data.lookup key = some e ∧ e.encoding = .hll
  · obtain ⟨e, held, tag⟩ := sketch
    obtain ⟨h, seen, value, built⟩ := sketched key e held tag
    have found : Proofs.sketchAt s key = some h := (sketchAt_some held tag).trans value
    have table : (fun i : Fin registers => registerAt s key i) = seen.sup point := funext (registerAt_holds found built.holds)
    rw [table]
    exact .some held tag value built.holds
  · have other (e : Entry) (held : s.data.lookup key = some e) : e.encoding ≠ .hll := fun tag => sketch ⟨e, held, tag⟩
    have nothing : Proofs.sketchAt s key = none := by
      rw [Proofs.sketchAt, Option.bind_eq_none_iff]
      intro e held
      rw [if_neg (other e held)]
    have table : (fun i : Fin registers => registerAt s key i) = ⊥ := by
      funext i
      rw [registerAt, nothing]
      rfl
    rw [table]
    exact .none other

/-- The sketch a call has put at a key, with its table and its cache. -/
structure Stored (env : Env) (s : Store) (key : Bytes) (table : Table) : Prop where
  sketch : ∃ e h, s.data.lookup key = some e ∧ e.encoding = .hll ∧ e.hllVal = some h ∧ Holds h table ∧ Cached env.estimate h table

variable {env : Env} {s : Store} {key : Bytes}

theorem Stored.insert {after : Store} {e : Entry} {h : HLL} {table : Table} (data : after.data = s.data.insert key e)
    (tag : e.encoding = .hll) (value : e.hllVal = some h) (holds : Holds h table) (cached : Cached env.estimate h table) :
    Stored env after key table :=
  ⟨e, h, by rw [data, lookup_insert_if, if_pos rfl], tag, value, holds, cached⟩

theorem Stored.register {table : Table} (stored : Stored env s key table) (i : Fin registers) : registerAt s key i = table i := by
  obtain ⟨e, h, held, tag, value, holds, _⟩ := stored.sketch
  exact registerAt_holds ((sketchAt_some held tag).trans value) holds i

theorem Stored.source {table : Table} (stored : Stored env s key table) : SketchAt s key table := by
  obtain ⟨e, h, held, tag, value, holds, _⟩ := stored.sketch
  exact .some held tag value holds

theorem Stored.congr {after : Store} {table : Table} (stored : Stored env s key table)
    (same : after.data.lookup key = s.data.lookup key) : Stored env after key table := by
  obtain ⟨e, h, held, rest⟩ := stored.sketch
  exact ⟨e, h, same.trans held, rest⟩

theorem Stored.count {table : Table} (stored : Stored env s key table) :
    ∃ after, s.pfCount env key = .ok (wrap64 (env.estimate (histogram table)), after) := by
  obtain ⟨e, h, held, tag, value, holds, cached⟩ := stored.sketch
  obtain ⟨counted, ran, _⟩ := holds.count_eq cached
  simp only [Store.pfCount, held]
  rw [if_neg (by rw [tag]; decide), value]
  simp only [ran]
  exact ⟨_, rfl⟩

/-- The merge of any tables, as a whole. -/
theorem pfMerge_stored (env : Env) {tables : Bytes → Table} {dest : Bytes} {keys : List Bytes}
    (sources : ∀ key ∈ dest :: keys, SketchAt s key (tables key)) :
    ∃ after, s.pfMerge env dest keys = .ok after ∧ Stored env after dest ((dest :: keys).toFinset.sup tables) ∧
      ∀ key, key ≠ dest → after.data.lookup key = s.data.lookup key := by
  obtain ⟨acc, stamp, after, ran, _, data, holds, cached⟩ := pfMerge_joins env sources
  rw [foldl_sup_eq, bot_sup_eq] at holds cached
  refine ⟨after, ran, .insert data rfl rfl holds cached, ?_⟩
  intro key other
  rw [data, lookup_insert_if, if_neg other]

/-- Merged into the union once more, the tables are below it already. -/
theorem pfMerge_again (env : Env) {tables : Bytes → Table} {dest : Bytes} {keys : List Bytes}
    (sources : ∀ key ∈ dest :: keys, SketchAt s key (tables key)) {after : Store}
    (stored : Stored env after dest ((dest :: keys).toFinset.sup tables))
    (frame : ∀ key, key ≠ dest → after.data.lookup key = s.data.lookup key) :
    ∃ again, after.pfMerge env dest keys = .ok again ∧ Stored env again dest ((dest :: keys).toFinset.sup tables) ∧
      ∀ key, key ≠ dest → again.data.lookup key = after.data.lookup key := by
  let union := (dest :: keys).toFinset.sup tables
  have sources' : ∀ key ∈ dest :: keys, SketchAt after key (Function.update tables dest union key) := by
    intro key inside
    by_cases same : key = dest
    · subst same
      rw [Function.update_self]
      exact stored.source
    · rw [Function.update_of_ne same]
      exact (sources key inside).congr (frame key same)
  have unchanged : (dest :: keys).toFinset.sup (Function.update tables dest union) = union := by
    apply le_antisymm
    · apply Finset.sup_le
      intro key inside
      by_cases same : key = dest
      · rw [same, Function.update_self]
      · rw [Function.update_of_ne same]
        exact Finset.le_sup inside
    · calc union = Function.update tables dest union dest := by rw [Function.update_self]
        _ ≤ _ := Finset.le_sup (List.mem_toFinset.mpr List.mem_cons_self)
  obtain ⟨again, ran, stored', frame'⟩ := pfMerge_stored env sources'
  rw [unchanged] at stored'
  exact ⟨again, ran, stored', frame'⟩

/-- A key that was not there holds what was added to it. -/
theorem pfAdd_stored (env : Env) (absent : s.data.lookup key = none) (values : List Bytes) :
    ∃ after, s.pfAdd env key values = .ok (some true, after) ∧ Stored env after key (values.toFinset.sup point) ∧
      ∀ other, other ≠ key → after.data.lookup other = s.data.lookup other := by
  obtain ⟨h, grew, ran, holds, cached, _⟩ := addValues_joins Holds.new (Cached.new env) values true
  rw [Keyspace.joinAll, foldl_sup_eq, bot_sup_eq] at holds cached
  have added : s.pfAdd env key values = .ok (some true, Store.record { (s.stampNew env).2 with
      keys := (s.stampNew env).2.keys + 1 } key ⟨.hll, 0, none, some h, none, (s.stampNew env).1⟩) := by
    simp only [Store.pfAdd, absent, ran, Bool.true_or]
    rfl
  refine ⟨_, added, .insert (s := s) rfl rfl rfl holds cached, ?_⟩
  intro other different
  exact (lookup_insert_if _ _ _ _).trans (if_neg different)

/-- Two sketches and a destination that is one of them or new: the union of the two. -/
theorem pfMerge_pair (env : Env) {a b d : Bytes} {first second : Table} (apart : a ≠ b) (storedA : Stored env s a first)
    (storedB : Stored env s b second) (fresh : d ≠ a → d ≠ b → s.data.lookup d = none) :
    ∃ after, s.pfMerge env d [a, b] = .ok after ∧ Stored env after d (first ⊔ second) := by
  let tables : Bytes → Table := fun key => if key = a then first else if key = b then second else ⊥
  have atA : tables a = first := if_pos rfl
  have atB : tables b = second := by rw [show tables b = _ from if_neg (Ne.symm apart), if_pos rfl]
  have sources : ∀ key ∈ d :: [a, b], SketchAt s key (tables key) := by
    intro key inside
    by_cases isA : key = a
    · rw [isA, atA]
      exact storedA.source
    by_cases isB : key = b
    · rw [isB, atB]
      exact storedB.source
    obtain rfl : key = d := by simpa [isA, isB] using inside
    rw [show tables key = _ from if_neg isA, if_neg isB]
    exact .none (by simp [fresh isA isB])
  have below : tables d ≤ first ⊔ second := by
    by_cases isA : d = a
    · rw [isA, atA]
      exact le_sup_left
    by_cases isB : d = b
    · rw [isB, atB]
      exact le_sup_right
    rw [show tables d = _ from if_neg isA, if_neg isB]
    exact bot_le
  have union : (d :: [a, b]).toFinset.sup tables = first ⊔ second := by
    rw [List.toFinset_cons, List.toFinset_cons, List.toFinset_cons, List.toFinset_nil, Finset.sup_insert, Finset.sup_insert,
      Finset.sup_insert, Finset.sup_empty, sup_bot_eq, atA, atB, sup_eq_right]
    exact below
  obtain ⟨after, ran, stored, _⟩ := pfMerge_stored env sources
  rw [union] at stored
  exact ⟨after, ran, stored⟩

/-- After PFMERGE the registers at the destination are the maxima over it and the
sources; nothing else changed; order and repetition of the sources do not matter; a second
time nothing grows. Two sketches merged are the sketch of all their data. -/
theorem pfMerge_is_union (env : Env) :
    (∀ (s : Store) (dest : Bytes) (sources : List Bytes), Sketched s → ∃ after, s.pfMerge env dest sources = .ok after ∧
      (∀ i : Fin registers, registerAt after dest i = (dest :: sources).toFinset.sup fun key => registerAt s key i) ∧
      (∀ key, key ≠ dest → after.data.lookup key = s.data.lookup key) ∧
      (∀ others, (∀ key, key ∈ others ↔ key ∈ sources) → ∃ after', s.pfMerge env dest others = .ok after' ∧
        ∀ i : Fin registers, registerAt after' dest i = registerAt after dest i) ∧
      ∃ again, after.pfMerge env dest sources = .ok again ∧
        ∀ key (i : Fin registers), registerAt again key i = registerAt after key i) ∧
    ∀ (s : Store) (a b d : Bytes) (xs ys : List Bytes), a ≠ b → s.data.lookup a = none → s.data.lookup b = none →
      s.data.lookup d = none →
      ∃ first second merged direct, s.pfAdd env a xs = .ok (some true, first) ∧ first.pfAdd env b ys = .ok (some true, second) ∧
        second.pfMerge env d [a, b] = .ok merged ∧ s.pfAdd env d (xs ++ ys) = .ok (some true, direct) ∧
        (∀ i : Fin registers, registerAt merged d i = registerAt direct d i) ∧
        ∃ n counted counted', merged.pfCount env d = .ok (n, counted) ∧ direct.pfCount env d = .ok (n, counted') := by
  refine ⟨?_, ?_⟩
  · intro s dest sources sketched
    obtain ⟨after, ran, stored, frame⟩ := pfMerge_stored env fun key (_ : key ∈ dest :: sources) => sketched.sketchAt key
    obtain ⟨again, ran', stored', frame'⟩ := pfMerge_again env (fun key _ => sketched.sketchAt key) stored frame
    refine ⟨after, ran, ?_, frame, ?_, again, ran', ?_⟩
    · intro i
      rw [stored.register, Finset.sup_apply]
    · intro others same
      obtain ⟨after', ran'', stored'', _⟩ := pfMerge_stored env fun key (_ : key ∈ dest :: others) => sketched.sketchAt key
      refine ⟨after', ran'', ?_⟩
      have keys : (dest :: others).toFinset = (dest :: sources).toFinset := by
        ext key
        simp [same]
      intro i
      rw [stored''.register, stored.register, keys]
    · intro key i
      by_cases here : key = dest
      · rw [here, stored'.register, stored.register]
      · exact registerAt_congr (frame' key here) i
  · intro s a b d xs ys apart noA noB noD
    obtain ⟨first, added, storedA, frameA⟩ := pfAdd_stored env noA xs
    obtain ⟨second, added', storedB, frameB⟩ := pfAdd_stored env ((frameA b (Ne.symm apart)).trans noB) ys
    obtain ⟨direct, added'', storedD, _⟩ := pfAdd_stored env noD (xs ++ ys)
    have absent (notA : d ≠ a) (notB : d ≠ b) : second.data.lookup d = none := by rw [frameB d notB, frameA d notA, noD]
    obtain ⟨merged, ran, storedM⟩ := pfMerge_pair env apart (storedA.congr (frameB a apart)) storedB absent
    rw [← Finset.sup_union, ← List.toFinset_append] at storedM
    obtain ⟨counted, count⟩ := storedM.count
    obtain ⟨counted', count'⟩ := storedD.count
    refine ⟨first, second, merged, direct, added, added', ran, added'', ?_, _, counted, counted', count, count'⟩
    intro i
    rw [storedM.register, storedD.register]

/-- An empty sketch at `a`, merged; and two sketches of one element each. -/
theorem pfMerge_is_union_of_two :
    (∃ after, (Store.record (.new .noeviction) (ascii "a") ⟨.hll, 0, none, some .new, none, 0⟩).pfMerge (.still 0) (ascii "d")
      [ascii "a"] = .ok after ∧ registerAt after (ascii "d") 7 = 0) ∧
    ∃ first second merged direct, (Store.new .noeviction).pfAdd (.still 0) (ascii "a") [ascii "x"] = .ok (some true, first) ∧
      first.pfAdd (.still 0) (ascii "b") [ascii "y"] = .ok (some true, second) ∧
      second.pfMerge (.still 0) (ascii "d") [ascii "a", ascii "b"] = .ok merged ∧
      (Store.new .noeviction).pfAdd (.still 0) (ascii "d") [ascii "x", ascii "y"] = .ok (some true, direct) ∧
      ∀ i : Fin registers, registerAt merged (ascii "d") i = registerAt direct (ascii "d") i := by
  have sketched : Sketched (Store.record (.new .noeviction) (ascii "a") ⟨.hll, 0, none, some .new, none, 0⟩) := by
    intro key e held _
    rw [Store.record, lookup_insert_if] at held
    split at held
    · cases held
      exact ⟨.new, ∅, rfl, .new⟩
    · cases held
  obtain ⟨union, pairs⟩ := pfMerge_is_union (.still 0)
  refine ⟨?_, ?_⟩
  · obtain ⟨after, ran, maxima, _⟩ := union _ (ascii "d") [ascii "a"] sketched
    refine ⟨after, ran, (maxima ⟨7, by decide⟩).trans ?_⟩
    decide +kernel
  · obtain ⟨first, second, merged, direct, added, added', ran, added'', same, _⟩ :=
      pairs (.new .noeviction) (ascii "a") (ascii "b") (ascii "d") [ascii "x"] [ascii "y"] (by decide) rfl rfl rfl
    exact ⟨first, second, merged, direct, added, added', ran, added'', same⟩

end Rediska.Proofs
