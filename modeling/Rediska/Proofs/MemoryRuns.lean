import Rediska.Proofs.KeyspaceRuns
import Rediska.Proofs.MemoryBurden
import Rediska.Proofs.MemoryLimit

/-! The memory limit over whole runs. Memory is checked before a command runs and not after
it, and EXPIRE is not checked at all. What is in use stays near the limit all the same. -/

namespace Rediska.Proofs
open Go Core Storage Commands Server Spec

variable {env : Env} {cfg : Config} {policy : Policy} {s after : Store} {K : Keyspace} {args : List Bytes} {reply : Bytes}

def argBytes (args : List Bytes) : Nat := (args.map List.length).sum

/-- What a command can add to the weight of the store. -/
def allowance (name : CommandName) (args : List Bytes) : Int := if denyOOMCommands name then argBytes args + 4 * 2 ^ 20 else 0

theorem within_allowance (name : CommandName) (args : List Bytes) (less : burden after ≤ burden s) :
    burden after ≤ burden s + allowance name args := by
  unfold allowance
  split <;> omega

theorem Refused.burden (refused : Refused s reply after) : burden after ≤ burden s := by
  rw [refused.same]

theorem handleExpire_burden (same : Represents env policy s K) (ran : handleExpire env s args = .ok (reply, after)) :
    burden after ≤ burden s := by
  rcases handleExpire_cases ran with refused | ⟨key, amount, n, value, middle, _, _, got, ⟨_, rfl, _⟩ | ⟨text, rfl, rfl⟩⟩
  · exact refused.burden
  · exact burden_readKey (get_eq env s key ▸ got)
  · exact burden_expire same got _

theorem handleIncr_burden (ran : handleIncr env s args = .ok (reply, after)) : burden after ≤ burden s + allowance .incr args := by
  rcases handleIncr_cases ran with refused | ⟨key, read, middle, rfl, got, written⟩
  · exact within_allowance _ _ refused.burden
  · have less : burden middle ≤ burden s := burden_readKey (getInt_eq env s key ▸ got)
    have room : allowance .incr [key] = key.length + 4 * 2 ^ 20 := by simp [allowance, denyOOMCommands, argBytes]
    rcases written with ⟨_, rfl, _⟩ | ⟨_, rfl⟩ | ⟨n, expiry, _, rfl⟩
    · omega
    · have set := burden_set env middle key (itoa 1) 0
      have short := itoa_length (n := 1) (by decide)
      omega
    · have ticked : burden (untilExpiry env middle expiry).2 = burden middle := by cases expiry <;> rfl
      have set := burden_set env (untilExpiry env middle expiry).2 key (itoa (wrap64 (n + 1))) (untilExpiry env middle expiry).1
      have short := itoa_length (isInt64_wrap64 (n + 1))
      omega

/-- The commands that memory is checked for grow by what they bring, and by what Append
reserves. The others do not grow at all. -/
theorem runHandler_burden {name : CommandName} (tight : TightGrowth env.growth) (same : Represents env policy s K)
    (ran : runHandler env cfg name s args = .ok (reply, after)) : burden after ≤ burden s + allowance name args := by
  obtain ⟨left, kept⟩ := handler_keeps same ran
  cases name with
  | set =>
    rcases handleSet_cases ran with refused | ⟨key, value, options, ttl, rfl, rfl⟩
    · exact within_allowance _ _ refused.burden
    · have set := burden_set env s key value ttl
      simp only [allowance, denyOOMCommands, if_true, argBytes, List.map_cons, List.sum_cons]
      omega
  | expire => exact within_allowance _ _ (handleExpire_burden same ran)
  | object =>
    rcases handleObject_cases ran with refused | ⟨key, rfl | rfl⟩
    · exact within_allowance _ _ refused.burden
    · exact within_allowance _ _ (burden_getEncoding env s key)
    · exact within_allowance _ _ (burden_getFreq env s key)
  | incr => exact handleIncr_burden ran
  | get =>
    rcases handleGet_cases ran with refused | ⟨key, value, _, got⟩
    · exact within_allowance _ _ refused.burden
    · exact within_allowance _ _ (burden_readKey (get_eq env s key ▸ got))
  | ttl =>
    rcases handleTTL_cases ran with refused | ⟨key, _, rfl⟩
    · exact within_allowance _ _ refused.burden
    · exact within_allowance _ _ (burden_ttl env s key)
  | append =>
    rcases handleAppend_cases ran with refused | ⟨key, value, newLen, rfl, appended⟩
    · exact within_allowance _ _ refused.burden
    · have grown := burden_append tight same appended
      simp only [allowance, denyOOMCommands, if_true, argBytes, List.map_cons, List.map_nil, List.sum_cons, List.sum_nil]
      omega
  | pfadd =>
    rcases handlePFAdd_cases ran with refused | ⟨key, values, changed, rfl, added, _⟩
    · exact within_allowance _ _ refused.burden
    · have grown := burden_pfAdd kept added
      simp only [allowance, denyOOMCommands, if_true, argBytes, List.map_cons, List.sum_cons]
      omega
  | pfcount =>
    rcases handlePFCount_cases ran with refused | ⟨key, count, _, counted, _⟩
    · exact within_allowance _ _ refused.burden
    · exact within_allowance _ _ (burden_pfCount counted)
  | pfmerge =>
    rcases handlePFMerge_cases ran with refused | ⟨dest, sources, rfl, merged, _⟩
    · exact within_allowance _ _ refused.burden
    · have grown := burden_pfMerge kept merged
      simp only [allowance, denyOOMCommands, if_true, argBytes, List.map_cons, List.sum_cons]
      omega
  | del =>
    rcases handleDel_cases ran with refused | rfl
    · exact within_allowance _ _ refused.burden
    · exact within_allowance _ _ (burden_delete env (0, s) args)
  | ping | info | debug =>
    cases ran
    exact within_allowance _ _ (Int.le_refl _)
  | cluster =>
    obtain ⟨_, _, unchanged⟩ := map_ok ran
    cases unchanged
    exact within_allowance _ _ (Int.le_refl _)
  | expiry =>
    cases ran
    exact within_allowance _ _ (burden_deleteExpired env _ 0 0 { s with tick := s.tick + 1 })

/-! Runs. -/

/-- What holds of the store at any time, when no command so far has brought more than so
many bytes. -/
structure NearLimit (env : Env) (policy : Policy) (limit largest : Int) (s : Store) : Prop where
  represents : ∃ K, Represents env policy s K
  accounted : Accounted s
  light : 8 * burden s ≤ 9 * limit + 8 * (largest + 4 * 2 ^ 20)

section
variable {limit largest : Int}

theorem NearLimit.usedMemory (near : NearLimit env policy limit largest s) : 8 * s.usedMemory ≤ 9 * limit + 8 * (largest + 4 * 2 ^ 20) := by
  have below := near.accounted.burden_le.1
  have light := near.light
  omega

theorem checkMemory_burden {name : CommandName} {fits : Bool} (checked : checkMemory env cfg name s = .ok (after, fits)) :
    burden after ≤ burden s := by
  rcases checkMemory_evicts checked with rfl | ⟨samples, maxBytes, evicted⟩
  · exact Int.le_refl _
  · exact burden_performEvictions evicted

/-- A command that memory is checked for starts within the limit, and any other one adds
nothing. -/
theorem dispatch_light {w next : World} {cmd : Command} (limited : 0 < cfg.maxMemory) (fits : cfg.maxMemory * 2 ^ 20 ≤ maxInt64)
    (tight : TightGrowth env.growth) (near : NearLimit env policy (cfg.maxMemory * 2 ^ 20) largest w.store)
    (small : argBytes cmd.args ≤ largest) (ran : dispatch env cfg w cmd = .ok (reply, next)) :
    8 * burden next.store ≤ 9 * (cfg.maxMemory * 2 ^ 20) + 8 * (largest + 4 * 2 ^ 20) := by
  have light := near.light
  cases dispatched ran with
  | unknown | refused => exact light
  | full known _ checked =>
    have less := checkMemory_burden checked
    dsimp only
    omega
  | @ran name room left _ known passed checked handled =>
    rw [appendAOF_store]
    obtain ⟨K, same⟩ := near.represents
    obtain ⟨kept, same', _⟩ := checkMemory_thins same checked
    have less := checkMemory_burden checked
    have grown := runHandler_burden tight same' handled
    unfold allowance at grown
    split at grown
    next grows =>
      have within : room.usedMemory ≤ cfg.maxMemory * 2 ^ 20 := by
        have never := checkMemory_within checked grows
        have exact_ : wrap64 (cfg.maxMemory * 2 ^ 20) = cfg.maxMemory * 2 ^ 20 := wrap64_of_isInt64 ⟨by simp only [minInt64]; omega, fits⟩
        by_contra above
        refine never ⟨limited, ?_⟩
        rw [exact_, Store.overMemory, Bool.and_eq_true, decide_eq_true_eq, decide_eq_true_eq]
        omega
      have bound := (near.accounted.moved (checkMemory_moves checked)).burden_le.2
      dsimp only
      omega
    next =>
      dsimp only
      omega

theorem NearLimit.run {w next : World} {cmds : List Command} {replies : List Bytes} (limited : 0 < cfg.maxMemory)
    (fits : cfg.maxMemory * 2 ^ 20 ≤ maxInt64) (tight : TightGrowth env.growth)
    (near : NearLimit env policy (cfg.maxMemory * 2 ^ 20) largest w.store) (small : ∀ cmd ∈ cmds, argBytes cmd.args ≤ largest)
    (ran : runAll (dispatch env cfg) w cmds = .ok (replies, next)) : NearLimit env policy (cfg.maxMemory * 2 ^ 20) largest next.store := by
  induction cmds generalizing w replies with
  | nil =>
    cases ran
    exact near
  | cons cmd rest ih =>
    obtain ⟨⟨reply, middle⟩, first, ran⟩ := bind_ok ran
    obtain ⟨⟨others, last⟩, later, ran⟩ := bind_ok ran
    cases ran
    obtain ⟨K, same⟩ := near.represents
    have light := dispatch_light limited fits tight near (small cmd List.mem_cons_self) first
    have step : NearLimit env policy (cfg.maxMemory * 2 ^ 20) largest middle.store :=
      ⟨dispatch_keeps same first, near.accounted.moved (dispatch_moves first), light⟩
    exact ih step (fun cmd listed => small cmd (List.mem_cons_of_mem _ listed)) later

/-- With a memory limit the server never has more than an eighth above it in use, and what
a single command brings or reserves, whatever the clients do and whatever the policy is. -/
theorem memory_stays_near_limit {initial : World} {s : System} {most : Nat} (limited : 0 < cfg.maxMemory)
    (fits : cfg.maxMemory * 2 ^ 20 ≤ maxInt64)
    (tight : TightGrowth env.growth) (same : Represents env policy initial.store K) (accounted : Accounted initial.store)
    (begins : initial.store.usedMemory ≤ cfg.maxMemory * 2 ^ 20) (run : Relation.ReflTransGen (Step env cfg) (.start initial) s)
    (small : ∀ done ∈ s.ran, argBytes done.2.args ≤ most) :
    s.world.store.usedMemory ≤ cfg.maxMemory * (2 ^ 20 + 2 ^ 17) + most + 4 * 2 ^ 20 := by
  obtain ⟨replies, ran⟩ := ran_returned run
  have near : NearLimit env policy (cfg.maxMemory * 2 ^ 20) most initial.store := by
    have bound := accounted.burden_le.2
    exact ⟨⟨K, same⟩, accounted, by omega⟩
  have each : ∀ cmd ∈ s.ran.map (·.2), (argBytes cmd.args : Int) ≤ most := by
    intro cmd listed
    obtain ⟨done, inside, rfl⟩ := List.mem_map.mp listed
    exact Int.ofNat_le.mpr (small done inside)
  have final := near.run limited fits tight each ran
  have used := final.usedMemory
  omega

end

/-- A key is set on a server that may use one megabyte. -/
theorem set_stays_near_limit :
    ∃ s, Relation.ReflTransGen (Step (Env.still 0) (Config.ofOneMegabyte .noeviction)) (.start ⟨.new .noeviction, none⟩) s ∧
      s.ran.map (·.2) = [⟨ascii "SET", [ascii "k", ascii "v"]⟩] ∧
      s.world.store.usedMemory ≤ 1 * (2 ^ 20 + 2 ^ 17) + (2 : Nat) + 4 * 2 ^ 20 := by
  have run : ∃ s, Relation.ReflTransGen (Step (Env.still 0) (Config.ofOneMegabyte .noeviction)) (.start ⟨.new .noeviction, none⟩) s ∧
      s.ran.map (·.2) = [⟨ascii "SET", [ascii "k", ascii "v"]⟩] :=
    ⟨_, .head (.main (.accept rfl)) <|
      .head (.producer (.getNew (i := 1) ⟨⟨ascii "SET", [ascii "k", ascii "v"]⟩, [], []⟩ (by decide) rfl)) <|
      .head (.producer (.send (i := 1) rfl rfl (by decide))) <| .head (.worker (.take rfl rfl)) <|
      .head (.worker (.run rfl rfl)) .refl, rfl⟩
  obtain ⟨s, run, ran⟩ := run
  have tight : TightGrowth (Env.still 0).growth := by
    intro cap needed
    simp only [Env.still]
    omega
  refine ⟨s, run, ran, memory_stays_near_limit (by decide) (by decide) tight (.new _ _) (.new _) (by decide) run ?_⟩
  intro done inside
  have only : done.2 ∈ s.ran.map (·.2) := List.mem_map_of_mem inside
  rw [ran] at only
  rw [List.mem_singleton.mp only]
  decide

end Rediska.Proofs
