import Erllama.MetaSrv.EvictBytes
import Erllama.MetaSrv.Availability
import Erllama.Opts.LoadConfig
import Mathlib.Algebra.Order.Floor.Ring
import Mathlib.Data.Rat.Floor

namespace Erllama.Scheduler

open Lib MetaSrv Opts

/-!
# Memory pressure (`erllama_scheduler`)

The scheduler samples how much memory is used, and when the ratio is at the high watermark or
above it asks the cache to evict.  What it asks for is the distance between the watermarks, and
not the distance from the sample to the low one, so it is enough only when the sample lies at
the high watermark, or when the rows are coarse.  Ratios are rational numbers here.

* `Watermarks` — two ratios that `watermarks_ok/2` lets through.
* `validateConfig`, `init`, `checkOnce` — the module.
* `checkOnce_relieves_iff` — exactly when one check gets the ratio down to the low watermark.
-/

/-! ### The config -/

/-- The watermarks of a validated config. -/
structure Watermarks where
  high : ℚ
  low : ℚ
  low_nonneg : 0 ≤ low
  low_lt_high : low < high
  high_le_one : high ≤ 1

/-- The number that a term is. -/
def number : Term → Option ℚ
  | .int n   => some n
  | .float q => some q
  | _        => none

/-- `watermarks_ok/2`, with the watermarks it lets through; the guards of `set_thresholds/2`
    are the same. -/
def watermarksOk (h l : Term) : Option Watermarks :=
  match number h, number l with
  | some h, some l =>
    if hok : 0 ≤ l ∧ l < h ∧ h ≤ 1 then some ⟨h, l, hok.1, hok.2.1, hok.2.2⟩ else none
  | _, _           => none

/-- What `code:ensure_loaded/1` and `function_exported(Mod, evict_one, 0)` say. -/
structure Modules where
  ensureLoaded : String → Bool
  exportsEvictOne : String → Bool

/-- `config()`.  The keys that are not validated have the types that the record gives them;
    `none` is an absent key, and `all` tiers are `some none`. -/
structure Config where
  enabled : Option Bool
  intervalMs : Option Term
  highWatermark : Option Term
  lowWatermark : Option Term
  minEvictBytes : Option Int
  evictTiers : Option (Option (List Tier))
  unloadModelsUnderPressure : Option Term
  modelEvictor : Option Term

/-- `{invalid_config, {Key, Text}}`. -/
structure InvalidConfig where
  key : String
  text : String
deriving DecidableEq

/-- `evictor_ok/1`, with the evictor. -/
def evictorOk (modules : Modules) : Term → Except InvalidConfig (Option String)
  | .atom name =>
    if name = "undefined" then .ok none
    else if modules.ensureLoaded name then
      if modules.exportsEvictOne name then .ok (some name)
      else .error ⟨"model_evictor", "module must export evict_one/0"⟩
    else .error ⟨"model_evictor", "module cannot be loaded"⟩
  | _          => .error ⟨"model_evictor", "must be a module atom or undefined"⟩

/-- `validate_model_unload/1`, with what it lets through. -/
def validateModelUnload (modules : Modules) (cfg : Config) :
    Except InvalidConfig (Bool × Option String) :=
  match cfg.unloadModelsUnderPressure.getD (.atom "false") with
  | .atom "true"  => (evictorOk modules (cfg.modelEvictor.getD (.atom "undefined"))).map (true, ·)
  | .atom "false" => (evictorOk modules (cfg.modelEvictor.getD (.atom "undefined"))).map (false, ·)
  | _             => .error ⟨"unload_models_under_pressure", "must be a boolean"⟩

/-- `validate_config/1`, with what it lets through. -/
def validateConfig (modules : Modules) (cfg : Config) :
    Except InvalidConfig (Watermarks × Bool × Option String) :=
  let h := cfg.highWatermark.getD (.float (85 / 100))
  let l := cfg.lowWatermark.getD (.float (75 / 100))
  match watermarksOk h l with
  | none       => .error ⟨"watermarks", "require 0.0 <= low < high <= 1.0"⟩
  | some marks =>
    -- the watermarks are checked first
    if (cfg.intervalMs.getD (.int 5000)).posInt then
      (validateModelUnload modules cfg).map (marks, ·)
    else .error ⟨"interval_ms", "must be a positive integer"⟩

/-! ### The scheduler -/

/-- `#state{}`, without the timer. -/
structure Sched where
  enabled : Bool
  marks : Watermarks
  minEvictBytes : Int
  evictTiers : Option (List Tier)
  unloadModelsUnderPressure : Bool
  modelEvictor : Option String
  lastUsed : Nat
  lastTotal : Nat
  lastEvictedBytes : Nat
  sampledAt : Option Int
  lastEvictedAt : Option Int
  modelsUnloadedTotal : Nat
  lastModelUnloaded : Option Bytes
  lastModelUnloadedAt : Option Int

/-- `init/1`. -/
def init (modules : Modules) (cfg : Config) : Except InvalidConfig Sched :=
  (validateConfig modules cfg).map fun ok =>
    { enabled := cfg.enabled.getD false
      marks := ok.1
      minEvictBytes := cfg.minEvictBytes.getD (1024 * 1024)
      evictTiers := cfg.evictTiers.getD (some [.ram, .ramFile])
      unloadModelsUnderPressure := ok.2.1
      modelEvictor := ok.2.2
      lastUsed := 0
      lastTotal := 1
      lastEvictedBytes := 0
      sampledAt := none
      lastEvictedAt := none
      modelsUnloadedTotal := 0
      lastModelUnloaded := none
      lastModelUnloadedAt := none }

/-- Why nothing was done. -/
inductive Skipped where
  | disabled | belowWatermark | nothingToEvict
deriving DecidableEq

/-- What a check comes to. -/
inductive CheckResult where
  | evicted (n bytes : Nat)
  | unloadedModel (id : Bytes)
  | skipped (why : Skipped)
deriving DecidableEq

/-- What a check meets: the sample of the pressure source, the clock, the surroundings of the
    meta server's callback, and what `erllama_model_evictor:evict_one/1` comes to. -/
structure Outside where
  used : Nat
  total : Nat
  nowNs : Int
  env : Env
  frm : From
  evictOne : String → Option Bytes

section Check

variable (deps : Deps) (x : Outside)

/-- `erllama_cache:evict_bytes/2`, a call of the meta server. -/
def evictBytes (target : Nat) (tiers : Option (List Tier)) (c : State) : (Nat × Nat) × State :=
  let c' := MetaSrv.step deps c ⟨x.env, x.frm, .evictBytes target tiers⟩
  match c'.answer with
  | some (.evictedBytes n bytes) => ((n, bytes), c')
  | _                            => ((0, 0), c')

/-- `cache_result/3`. -/
def cacheResult (n bytes : Nat) : CheckResult :=
  if n = 0 ∧ bytes = 0 then .skipped .nothingToEvict else .evicted n bytes

/-- `maybe_unload_model/4`. -/
def maybeUnloadModel (n bytes : Nat) (s : Sched) : CheckResult × Sched :=
  match s.unloadModelsUnderPressure, s.modelEvictor.bind x.evictOne with
  | true, some id =>
    (.unloadedModel id,
      { s with
        modelsUnloadedTotal := s.modelsUnloadedTotal + 1
        lastModelUnloaded := some id
        lastModelUnloadedAt := some x.nowNs })
  | _, _          => (cacheResult n bytes, s)

/-- `do_evict/3`. -/
def doEvict (target : Int) (s : Sched) (c : State) : (CheckResult × Sched) × State :=
  if target ≤ 0 then ((.skipped .belowWatermark, s), c)
  else
    let r := evictBytes deps x target.toNat s.evictTiers c
    let s1 :=
      if 0 < r.1.2 then { s with lastEvictedBytes := r.1.2, lastEvictedAt := some x.nowNs } else s
    if target ≤ r.1.2 then ((.evicted r.1.1 r.1.2, s1), r.2)
    else (maybeUnloadModel x r.1.1 r.1.2 s1, r.2)

/-- `trunc/1`. -/
def trunc (q : ℚ) : Int := if 0 ≤ q then ⌊q⌋ else ⌈q⌉

/-- What `maybe_evict/4` asks for: the distance between the watermarks, or the least that is
    worth an eviction. -/
def Sched.target (s : Sched) (total : Nat) : Int :=
  max (trunc ((s.marks.high - s.marks.low) * total)) s.minEvictBytes

/-- `maybe_evict/4`. -/
def maybeEvict (used total : Nat) (s : Sched) (c : State) : (CheckResult × Sched) × State :=
  if s.marks.high ≤ (used : ℚ) / total then doEvict deps x (s.target total) s c
  else ((.skipped .belowWatermark, s), c)

/-- `check_once/1`. -/
def checkOnce (s : Sched) (c : State) : (CheckResult × Sched) × State :=
  if s.enabled then
    let s1 := { s with lastUsed := x.used, lastTotal := x.total, sampledAt := some x.nowNs }
    if x.total = 0 then ((.skipped .belowWatermark, s1), c)
    else maybeEvict deps x x.used x.total s1 c
  else ((.skipped .disabled, s), c)

end Check

/-! ### Bytes -/

/-- The bytes of the rows in the table. -/
def cacheBytes (c : State) : Nat := (c.metaTbl.values.map Row.size).sum

/-- The bytes of the rows that may be evicted. -/
def evictableBytes (tiers : Option (List Tier)) (c : State) : Nat :=
  ((c.metaTbl.values.filter fun row =>
    row.status = .available ∧ row.refcount = 0 ∧ tierPred tiers row.tier = true).map Row.size).sum

/-- The bytes that a check takes out of the cache. -/
def freed (deps : Deps) (x : Outside) (s : Sched) (c : State) : ℚ :=
  (cacheBytes c : ℚ) - cacheBytes (checkOnce deps x s c).2

/-- The bytes of some rows. -/
abbrev bytesOf (rows : List KeyedRow) : Nat := (rows.map fun c => c.2.size).sum

variable {deps : Deps} {x : Outside} {s : Sched} {c : State}

/-- The ranking holds the evictable rows. -/
theorem bytesOf_ranked (tiers : Option (List Tier)) (now : Int) (c : State) :
    bytesOf (ranked deps tiers now c) = evictableBytes tiers c := by
  unfold ranked evictableBytes
  refine ((List.perm_insertionSort _ _).map _).sum_eq.trans ?_
  rw [List.map_reverse, List.sum_reverse, List.map_map, AList.values, List.filter_map, List.map_map]
  rfl

/-- Each row that leaves takes its bytes. -/
theorem cacheBytes_foldl_evictRow (env : Env) {rows : List KeyedRow} {c : State}
    (hnodup : (rows.map Prod.fst).Nodup) (hrows : ∀ r ∈ rows, c.metaTbl.lookup r.1 = some r.2) :
    cacheBytes (rows.foldl (evictRow env) c) + bytesOf rows = cacheBytes c := by
  induction rows generalizing c with
  | nil => rfl
  | cons r rows ih =>
    obtain ⟨hnew, hnodup⟩ := List.nodup_cons.mp hnodup
    have hone : cacheBytes (evictRow env c r) + r.2.size = cacheBytes c := by
      have hperm := AList.values_perm_of_lookup (hrows r List.mem_cons_self)
      rw [cacheBytes, cacheBytes, metaTbl_evictRow, (hperm.map Row.size).sum_eq, List.map_cons,
        List.sum_cons, Nat.add_comm]
    have hrest : ∀ r' ∈ rows, (evictRow env c r).metaTbl.lookup r'.1 = some r'.2 := by
      intro r' hr'
      have hne : r'.1 ≠ r.1 := fun heq => hnew (heq ▸ List.mem_map_of_mem hr')
      rw [lookup_evictRow, if_neg hne]
      exact hrows r' (List.mem_cons_of_mem r hr')
    have htail := ih hnodup hrest
    have hcons : bytesOf (r :: rows) = r.2.size + bytesOf rows := List.sum_cons
    rw [List.foldl_cons, hcons]
    omega

/-- An eviction with a positive target frees the rows that it takes from the front. -/
theorem cacheBytes_evictBytes (deps : Deps) (x : Outside) {target : Nat} (ht : 0 < target)
    (tiers : Option (List Tier)) (c : State) :
    cacheBytes (evictBytes deps x target tiers c).2 +
      bytesOf (shortestCover (fun c : KeyedRow => c.2.size) target
        (ranked deps tiers (x.env.monotonicNs c.reads) c)) = cacheBytes c := by
  have hstep : (evictBytes deps x target tiers c).2 =
      MetaSrv.step deps c ⟨x.env, x.frm, .evictBytes target tiers⟩ := by
    unfold evictBytes
    dsimp only
    split <;> rfl
  have hranking : Ranking deps tiers (x.env.monotonicNs c.reads) c
      (ranked deps tiers (x.env.monotonicNs c.reads) c) := ranked_ranking tiers _ c
  have hpre := (shortestCover_spec (fun c : KeyedRow => c.2.size) target
    (ranked deps tiers (x.env.monotonicNs c.reads) c)).isPrefix
  rw [hstep, step_evictBytes deps x.env x.frm ht tiers c]
  refine cacheBytes_foldl_evictRow (c := c.startCallback.readClock) x.env
    (hranking.nodup.sublist (hpre.sublist.map Prod.fst)) fun r hr => ?_
  exact ((hranking.mem r).mp (hpre.subset hr)).1

/-! ### Exactly when a check is enough -/

/-- Below the high watermark nothing is evicted. -/
theorem checkOnce_of_below (h : (x.used : ℚ) / x.total < s.marks.high) :
    (checkOnce deps x s c).2 = c := by
  unfold checkOnce maybeEvict
  by_cases hon : s.enabled = true
  · rw [if_pos hon]
    split
    · rfl
    · rw [if_neg (not_le.mpr h)]
  · rw [if_neg hon]

/-- From the high watermark on, an enabled scheduler goes on with its target. -/
theorem checkOnce_of_above (hon : s.enabled = true)
    (h : s.marks.high ≤ (x.used : ℚ) / x.total) :
    (checkOnce deps x s c).2 =
      if s.target x.total ≤ 0 then c
      else (evictBytes deps x (s.target x.total).toNat s.evictTiers c).2 := by
  have htotal : x.total ≠ 0 := by
    intro hzero
    rw [hzero, Nat.cast_zero, div_zero] at h
    exact absurd (lt_of_le_of_lt s.marks.low_nonneg s.marks.low_lt_high) (not_lt.mpr h)
  unfold checkOnce maybeEvict doEvict
  rw [if_pos hon]
  dsimp only
  rw [if_neg htotal, if_pos h]
  by_cases htarget : s.target x.total ≤ 0
  · rw [if_pos htarget]
    exact congrArg Prod.snd (if_pos htarget)
  · rw [if_neg htarget]
    refine (congrArg Prod.snd (if_neg htarget)).trans ?_
    exact (apply_ite Prod.snd _ _ _).trans (ite_self _)

/-- **Relief.**  At the high watermark or above it, with enough bytes to evict, one check gets
    the ratio down to the low watermark iff the scheduler is enabled and no rows from the front
    of the eviction order reach the target and leave the ratio above the low watermark; and
    below the high watermark it evicts nothing. -/
theorem checkOnce_relieves_iff (deps : Deps) (x : Outside) (s : Sched) (c : State) :
    (s.marks.high ≤ (x.used : ℚ) / x.total →
      x.used - s.marks.low * x.total ≤ evictableBytes s.evictTiers c →
      (x.used - freed deps x s c ≤ s.marks.low * x.total ↔
        s.enabled = true ∧
          ∀ rows, rows <+: ranked deps s.evictTiers (x.env.monotonicNs c.reads) c →
            s.target x.total ≤ bytesOf rows → x.used - bytesOf rows ≤ s.marks.low * x.total)) ∧
      ((x.used : ℚ) / x.total < s.marks.high → (checkOnce deps x s c).2 = c) := by
  refine ⟨fun habove henough => ?_, checkOnce_of_below⟩
  -- the sample is above the low watermark, so something has to go
  have hneed : s.marks.low * x.total < x.used := by
    have htotal : (0 : ℚ) < x.total := by
      have hpos := lt_of_lt_of_le (lt_of_le_of_lt s.marks.low_nonneg s.marks.low_lt_high) habove
      by_contra hzero
      have heq : (x.total : ℚ) = 0 := le_antisymm (not_lt.mp hzero) (Nat.cast_nonneg _)
      rw [heq, div_zero] at hpos
      exact lt_irrefl _ hpos
    calc s.marks.low * x.total < s.marks.high * x.total :=
          mul_lt_mul_of_pos_right s.marks.low_lt_high htotal
      _ ≤ x.used := (le_div_iff₀ htotal).mp habove
  -- A check that evicts nothing leaves the sample above the low watermark.
  have hnothing : ∀ hsame : (checkOnce deps x s c).2 = c,
      ¬ (x.used - freed deps x s c ≤ s.marks.low * x.total) := by
    intro hsame
    rw [freed, hsame, sub_self, sub_zero]
    exact not_le.mpr hneed
  by_cases hon : s.enabled = true
  · have hstate : (checkOnce deps x s c).2 = if s.target x.total ≤ 0 then c
        else (evictBytes deps x (s.target x.total).toNat s.evictTiers c).2 :=
      checkOnce_of_above hon habove
    -- A target of nothing is reached by the empty list of rows.
    by_cases htarget : s.target x.total ≤ 0
    · rw [if_pos htarget] at hstate
      refine iff_of_false (hnothing hstate) fun hrows => ?_
      have hempty := hrows.2 [] List.nil_prefix htarget
      simp only [bytesOf, List.map_nil, List.sum_nil, Nat.cast_zero, sub_zero] at hempty
      exact absurd hneed (not_lt.mpr hempty)
    · rw [if_neg htarget] at hstate
      have hpos : 0 < (s.target x.total).toNat := by omega
      -- What goes is the shortest list of rows that reaches the target.
      have hbytes := cacheBytes_evictBytes deps x hpos s.evictTiers c
      have hcover := shortestCover_iff (w := fun c : KeyedRow => c.2.size)
        (t := (s.target x.total).toNat)
        (l := ranked deps s.evictTiers (x.env.monotonicNs c.reads) c)
        (P := fun n => (x.used : ℚ) - n ≤ s.marks.low * x.total) ?_ ?_
      · have hfreed : freed deps x s c = bytesOf (shortestCover (fun c : KeyedRow => c.2.size)
            (s.target x.total).toNat
            (ranked deps s.evictTiers (x.env.monotonicNs c.reads) c)) := by
          rw [freed, hstate, ← hbytes]
          push_cast
          ring
        rw [hfreed]
        refine hcover.trans ⟨fun h => ⟨hon, fun rows hrows hreach => h rows hrows ?_⟩,
          fun h rows hrows hreach => h.2 rows hrows ?_⟩
        · exact Int.toNat_le.mpr hreach
        · exact Int.toNat_le.mp hreach
      -- More rows relieve no less.
      · intro m n hmn hm
        have hcast : (m : ℚ) ≤ n := Nat.cast_le.mpr hmn
        linarith
      -- All rows together are enough.
      · have hall : bytesOf (ranked deps s.evictTiers (x.env.monotonicNs c.reads) c) =
            evictableBytes s.evictTiers c := bytesOf_ranked _ _ c
        rw [show ((ranked deps s.evictTiers (x.env.monotonicNs c.reads) c).map
          fun c => c.2.size).sum = evictableBytes s.evictTiers c from hall]
        linarith
  · have hsame : (checkOnce deps x s c).2 = c := by
      rw [checkOnce, if_neg hon]
    exact iff_of_false (hnothing hsame) fun hrows => hon hrows.1

/-- No module can be loaded. -/
def noModules : Modules where
  ensureLoaded _ := false
  exportsEvictOne _ := false

/-- `#{enabled => true}`. -/
def enabledConfig : Config where
  enabled := some true
  intervalMs := none
  highWatermark := none
  lowWatermark := none
  minEvictBytes := none
  evictTiers := none
  unloadModelsUnderPressure := none
  modelEvictor := none

/-- The scheduler of `enabledConfig`. -/
def defaultSched : Sched where
  enabled := true
  marks := ⟨85 / 100, 75 / 100, by norm_num, by norm_num, by norm_num⟩
  minEvictBytes := 1024 * 1024
  evictTiers := some [.ram, .ramFile]
  unloadModelsUnderPressure := false
  modelEvictor := none
  lastUsed := 0
  lastTotal := 1
  lastEvictedBytes := 0
  sampledAt := none
  lastEvictedAt := none
  modelsUnloadedTotal := 0
  lastModelUnloaded := none
  lastModelUnloadedAt := none

/-- A gigabyte machine with all of its memory in use. -/
def fullMachine : Outside where
  used := 1000 * 2 ^ 20
  total := 1000 * 2 ^ 20
  nowNs := 0
  env := steadyEnv
  frm := 9
  evictOne _ := none

/-- Three RAM slabs of `100 MiB`. -/
def threeSlabs : State :=
  run (MetaSrv.step noFileDeps) (State.init fun _ => none)
    [⟨steadyEnv, 1, .insertAvailable (.fill 1) .ram (100 * 2 ^ 20) [] .ram none 0⟩,
     ⟨steadyEnv, 1, .insertAvailable (.fill 2) .ram (100 * 2 ^ 20) [] .ram none 0⟩,
     ⟨steadyEnv, 1, .insertAvailable (.fill 3) .ram (100 * 2 ^ 20) [] .ram none 0⟩]

/-- With all memory in use one check of the default scheduler asks for a tenth of it and goes
    down to `90 %`, though the evictable slabs are enough for `75 %`. -/
theorem checkOnce_fullMachine :
    init noModules enabledConfig = .ok defaultSched ∧
      defaultSched.marks.high ≤ (fullMachine.used : ℚ) / fullMachine.total ∧
      fullMachine.used - defaultSched.marks.low * fullMachine.total ≤
        evictableBytes defaultSched.evictTiers threeSlabs ∧
      ¬ (fullMachine.used - freed noFileDeps fullMachine defaultSched threeSlabs ≤
          defaultSched.marks.low * fullMachine.total) := by
  refine ⟨?_, ?_, ?_, ?_⟩
  · have hmarks : watermarksOk (.float (85 / 100)) (.float (75 / 100)) =
        some defaultSched.marks := dif_pos (by norm_num)
    simp only [init, validateConfig, enabledConfig, Option.getD_none, hmarks]
    rfl
  · decide +kernel
  · decide +kernel
  · decide +kernel

/-- The same machine with its memory at the high watermark. -/
def highMark : Outside := { fullMachine with used := 850 * 2 ^ 20 }

/-- At the high watermark the target is the way down to the low one, and one check goes it. -/
theorem checkOnce_highMark :
    highMark.used - freed noFileDeps highMark defaultSched threeSlabs ≤
      defaultSched.marks.low * highMark.total := by
  have habove : defaultSched.marks.high ≤ (highMark.used : ℚ) / highMark.total := by
    decide +kernel
  have henough : highMark.used - defaultSched.marks.low * highMark.total ≤
      evictableBytes defaultSched.evictTiers threeSlabs := by
    decide +kernel
  refine ((checkOnce_relieves_iff noFileDeps highMark defaultSched threeSlabs).1
    habove henough).mpr ⟨rfl, fun rows _ hreach => ?_⟩
  have htarget : defaultSched.target highMark.total = ((100 * 2 ^ 20 : Nat) : Int) := by
    decide +kernel
  have hlow : defaultSched.marks.low * highMark.total = 750 * 2 ^ 20 := by
    decide +kernel
  generalize bytesOf rows = freedBytes at hreach ⊢
  rw [htarget, Int.ofNat_le] at hreach
  have hcast : ((100 * 2 ^ 20 : Nat) : ℚ) ≤ freedBytes := Nat.cast_le.mpr hreach
  have hused : (highMark.used : ℚ) = 850 * 2 ^ 20 := by
    decide +kernel
  rw [hlow, hused]
  push_cast at hcast
  linarith

end Erllama.Scheduler
