import Erllama.Basic

namespace Erllama.Opts

/-!
# Validation of a load config (`erllama_opts:load_config/1`)

The config is a map of terms.  Each step returns the config it was given or the error that the
caller sees, so what an accepted config satisfies is what every step checked of it.

* `Term` — the terms a config is made of; `World` — what the checks ask of the node.
* `loadConfig` — the steps, in the source's order.
* `loadConfig_accepts` — an accepted config passes every step as it is returned.
* `accepted_policy` — what is known of its policy: a map of known keys, each a natural number
  or `infinity`.
-/

/-- The terms of a config.  Maps and lists are proper, and a map is its entries. -/
inductive Term where
  | int (n : Int)
  | float (q : Rat)
  | atom (name : String)
  | bin (bytes : Bytes)
  | pid (n : Nat)
  | list (elems : List Term)
  | tuple (elems : List Term)
  | map (entries : List (Term × Term))

/-- The entries of a map. -/
abbrev Entries := List (Term × Term)

/-- The reasons of `{error, Reason}`. -/
inductive ConfigError where
  | missingConfig (key : String)
  | invalidConfig (key : String) (value : Term)
  | unknownOption (option : Term)

/-- What the checks ask of the node: `code:ensure_loaded/1`, `filelib:is_regular/1`,
    `whereis/1`, and `erllama_cache_disk_srv:tier_of/1`, which is `none` where the call exits. -/
structure World where
  ensureLoaded : String → Bool
  isRegular : Term → Bool
  whereis : String → Bool
  tierOf : String → Option String

/-! ### Predicates on terms -/

namespace Term

/-- The term is this atom. -/
def isAtom (name : String) : Term → Bool
  | .atom a => a = name
  | _       => false

/-- `is_atom/1`. -/
def isAnyAtom : Term → Bool
  | .atom _ => true
  | _       => false

/-- `lists:member/2` for a list of atoms. -/
def memberOf (names : List String) (t : Term) : Bool := names.any fun name => t.isAtom name

/-- `is_integer/1`. -/
def isInteger : Term → Bool
  | .int _ => true
  | _      => false

/-- `is_number/1`. -/
def isNumber : Term → Bool
  | .int _ | .float _ => true
  | _                 => false

/-- `pos_int/1`. -/
def posInt : Term → Bool
  | .int n => 0 < n
  | _      => false

/-- `non_neg_int/1`. -/
def nonNegInt : Term → Bool
  | .int n => 0 ≤ n
  | _      => false

/-- `is_boolean/1`. -/
def isBoolean (t : Term) : Bool := t.memberOf ["true", "false"]

/-- `is_binary/1`. -/
def isBinary : Term → Bool
  | .bin _ => true
  | _      => false

/-- `is_binary(V) andalso V =/= <<>>`. -/
def isNonEmptyBinary : Term → Bool
  | .bin bytes => !bytes.isEmpty
  | _          => false

/-- `is_binary(V) andalso byte_size(V) =:= 32`. -/
def isHash : Term → Bool
  | .bin bytes => bytes.length = 32
  | _          => false

/-- `is_map/1`. -/
def isMap : Term → Bool
  | .map _ => true
  | _      => false

/-- `is_pid/1`. -/
def isPid : Term → Bool
  | .pid _ => true
  | _      => false

/-- One character of `io_lib:printable_unicode_list/1`. -/
def isPrintable : Term → Bool
  | .int c =>
    (32 ≤ c && c ≤ 126) || (0xA0 ≤ c && c < 0xD800) || (0xDFFF < c && c < 0xFFFE) ||
      (0xFFFF < c && c ≤ 0x10FFFF) || (8 ≤ c && c ≤ 13) || c = 27
  | _      => false

/-- `is_path/1`. -/
def isPath : Term → Bool
  | .bin _      => true
  | .list elems => elems.all isPrintable
  | _           => false

end Term

/-! ### Maps -/

/-- `maps:find/2` at an atom. -/
def find (key : String) (m : Entries) : Option Term :=
  (m.find? fun e => e.1.isAtom key).map Prod.snd

/-- `maps:get/3` at an atom. -/
def get (key : String) (m : Entries) (default : Term) : Term := (find key m).getD default

/-- `maps:is_key/2` at an atom. -/
def isKey (key : String) (m : Entries) : Bool := (find key m).isSome

/-- `Map#{Key => Value}` at an atom. -/
def put (key : String) (value : Term) (m : Entries) : Entries :=
  (.atom key, value) :: m.filter fun e => !e.1.isAtom key

/-- An entry that was put is found. -/
@[simp] theorem find_put_self (key : String) (value : Term) (m : Entries) :
    find key (put key value m) = some value := by
  simp [find, put, Term.isAtom]

/-! ### Helpers -/

variable {α ε : Type}

/-- `steps/2`: each function is given what the one before returned. -/
def steps (v : α) : List (α → Except ε α) → Except ε α
  | []      => .ok v
  | f :: fs =>
    match f v with
    | .ok v'   => steps v' fs
    | .error e => .error e

/-- A step that only checks: what it returns is what it was given. -/
def Keeps (f : α → Except ε α) : Prop := ∀ v v', f v = .ok v' → v' = v

/-- Steps that only check return the value, and all of them accepted it. -/
theorem steps_ok {fs : List (α → Except ε α)} {v v' : α} (hkeeps : ∀ f ∈ fs, Keeps f)
    (h : steps v fs = .ok v') : v' = v ∧ ∀ f ∈ fs, f v = .ok v := by
  induction fs generalizing v with
  | nil => exact ⟨(Except.ok.inj h).symm, nofun⟩
  | cons f fs ih =>
    rw [steps] at h
    cases hf : f v with
    | error e => rw [hf] at h; exact nomatch h
    | ok v₁ =>
      rw [hf] at h
      obtain rfl : v₁ = v := hkeeps f (List.mem_cons_self ..) v v₁ hf
      obtain ⟨rfl, hrest⟩ := ih (fun g hg => hkeeps g (List.mem_cons_of_mem _ hg)) h
      exact ⟨rfl, List.forall_mem_cons.mpr ⟨hf, hrest⟩⟩

/-- The keys of a map that are not known. -/
def unknownKeys (m : Entries) (known : List String) : List Term :=
  (m.map Prod.fst).filter fun k => !k.memberOf known

/-- `unknown/2`. -/
def unknown (known : List String) (m : Entries) : Except ConfigError Entries :=
  match unknownKeys m known with
  | []     => .ok m
  | k :: _ => .error (.unknownOption k)

/-- `sub_keys/3`. -/
def subKeys (key : String) (known : List String) (c : Entries) : Except ConfigError Entries :=
  match get key c (.map []) with
  | .map sub =>
    match unknownKeys sub known with
    | []     => .ok c
    | k :: _ => .error (.unknownOption (.tuple [.atom key, k]))
  | other => .error (.invalidConfig key other)

/-- `check_types/3` under the tag of a load config. -/
def checkTypes (m : Entries) : List (String × (Term → Bool)) → Except ConfigError Unit
  | [] => .ok ()
  | (key, pred) :: checks =>
    match find key m with
    | none   => checkTypes m checks
    | some v => if pred v then checkTypes m checks else .error (.invalidConfig key v)

/-- A map that passes its checks has only values that pass theirs. -/
theorem checkTypes_ok {m : Entries} {checks : List (String × (Term → Bool))}
    (h : checkTypes m checks = .ok ()) {key : String} {pred : Term → Bool}
    (hcheck : (key, pred) ∈ checks) {v : Term} (hv : find key m = some v) : pred v := by
  induction checks with
  | nil => exact nomatch hcheck
  | cons c checks ih =>
    obtain ⟨key', pred'⟩ := c
    rw [checkTypes] at h
    rcases List.mem_cons.mp hcheck with heq | htail
    · cases heq
      rw [hv] at h
      by_contra hp
      exact nomatch (if_neg hp).symm.trans h
    · cases hfind : find key' m with
      | none   => rw [hfind] at h; exact ih h htail
      | some w =>
        rw [hfind] at h
        by_cases hw : pred' w
        · exact ih ((if_pos hw).symm.trans h) htail
        · exact nomatch (if_neg hw).symm.trans h

/-! ### The keys and their checks -/

/-- `LOAD_KEYS`. -/
def loadKeys : List String :=
  ["backend", "model_path", "model_opts", "context_opts", "fingerprint", "fingerprint_mode",
   "quant_type", "quant_bits", "ctx_params_hash", "context_size", "tier", "tier_srv", "policy",
   "thinking_markers", "chat_template", "model_id", "progress_to",
   -- `erllama_model_stub` only
   "step_delay_ms", "thinking_capable", "fail_seq_rm_last", "fail_kv_unpack", "fail_seq_cp",
   "spec_draft", "spec_draft_len", "media_caps", "media_n_pos", "fail_media_prefill",
   "mmproj_path", "mmproj_opts"]

/-- `MODEL_OPT_KEYS`. -/
def modelOptKeys : List String :=
  ["n_gpu_layers", "main_gpu", "use_mmap", "use_mlock", "load_mode", "vocab_only", "split_mode",
   "tensor_split", "devices", "cpu_moe", "tensor_buft_overrides", "fit"]

/-- `CONTEXT_OPT_KEYS`. -/
def contextOptKeys : List String :=
  ["n_ctx", "n_batch", "n_ubatch", "n_seq_max", "n_rs_seq", "n_threads", "n_threads_batch",
   "embeddings", "offload_kqv", "kv_unified", "flash_attn", "type_k", "type_v",
   "decode_budget_ms"]

/-- The keys of a policy. -/
inductive PolicyKey where
  | minTokens | coldMinTokens | coldMaxTokens | continuedInterval | boundaryTrimTokens
  | boundaryAlignTokens | sessionResumeWaitMs | prefillChunkSize | ladderInterval
  | maxLadderRows
deriving DecidableEq

/-- The atom of a key. -/
def PolicyKey.name : PolicyKey → String
  | .minTokens           => "min_tokens"
  | .coldMinTokens       => "cold_min_tokens"
  | .coldMaxTokens       => "cold_max_tokens"
  | .continuedInterval   => "continued_interval"
  | .boundaryTrimTokens  => "boundary_trim_tokens"
  | .boundaryAlignTokens => "boundary_align_tokens"
  | .sessionResumeWaitMs => "session_resume_wait_ms"
  | .prefillChunkSize    => "prefill_chunk_size"
  | .ladderInterval      => "ladder_interval"
  | .maxLadderRows       => "max_ladder_rows"

/-- `POLICY_KEYS`. -/
def policyKeys : List PolicyKey :=
  [.minTokens, .coldMinTokens, .coldMaxTokens, .continuedInterval, .boundaryTrimTokens,
   .boundaryAlignTokens, .sessionResumeWaitMs, .prefillChunkSize, .ladderInterval,
   .maxLadderRows]

/-- `KV_TYPES`. -/
def kvTypes : List String := ["auto", "f16", "f32", "bf16", "q4_0", "q5_0", "q5_1", "q8_0"]

/-- The list of keys is complete. -/
theorem mem_policyKeys (k : PolicyKey) : k ∈ policyKeys := by cases k <;> decide

/-- `mmproj_opts_check/1`. -/
def mmprojOptsCheck : Term → Bool
  | .map m =>
    (unknownKeys m ["use_gpu", "n_threads", "image_min_tokens", "image_max_tokens"]).isEmpty &&
      (get "use_gpu" m (.atom "true")).isBoolean && (get "n_threads" m (.int 1)).posInt &&
      (get "image_min_tokens" m (.int 1)).posInt && (get "image_max_tokens" m (.int 1)).posInt
  | _ => false

/-- `base_load_checks/0`. -/
def baseLoadChecks : List (String × (Term → Bool)) :=
  [("fingerprint", Term.isHash),
   ("fingerprint_mode", Term.memberOf ["safe", "gguf_chunked", "fast_unsafe"]),
   ("quant_type", Term.isAnyAtom), ("quant_bits", Term.posInt),
   ("ctx_params_hash", Term.isHash), ("context_size", Term.posInt),
   ("tier", Term.memberOf ["ram", "ram_file", "disk"]), ("tier_srv", Term.isAnyAtom),
   ("thinking_markers", Term.isMap), ("chat_template", Term.isBinary),
   ("model_id", Term.isBinary), ("progress_to", Term.isPid), ("model_opts", Term.isMap),
   ("context_opts", Term.isMap), ("policy", Term.isMap), ("mmproj_path", Term.isPath),
   ("mmproj_opts", mmprojOptsCheck)]

/-- `backend_load_checks/0`. -/
def backendLoadChecks : List (String × (Term → Bool)) :=
  [("step_delay_ms", Term.nonNegInt), ("thinking_capable", Term.isBoolean),
   ("fail_seq_rm_last", Term.isBoolean), ("fail_kv_unpack", Term.isBoolean),
   ("fail_seq_cp", Term.isBoolean), ("spec_draft", Term.memberOf ["perfect", "wrong", "none"]),
   ("spec_draft_len", Term.posInt), ("media_caps", Term.isMap), ("media_n_pos", Term.posInt),
   ("fail_media_prefill", Term.isBoolean)]

/-- `cpu_moe_opt/1`. -/
def cpuMoeOpt (v : Term) : Bool := v.isAtom "true" || v.posInt

/-- `devices_opt/1`. -/
def devicesOpt : Term → Bool
  | .list elems =>
    !elems.isEmpty && elems.length ≤ 16 && elems.all Term.isNonEmptyBinary
  | v => v.isAtom "none"

/-- One override of `tbo_opt/1`. -/
def tboEntry : Term → Bool
  | .tuple [p, d] => p.isNonEmptyBinary && (d.isAtom "cpu" || d.isNonEmptyBinary)
  | _             => false

/-- `tbo_opt/1`. -/
def tboOpt : Term → Bool
  | .list elems => elems.length ≤ 4096 && elems.all tboEntry
  | _           => false

/-- `margin_ok/1`. -/
def marginOk : Term → Bool
  | .list elems => !elems.isEmpty && elems.length ≤ 16 && elems.all Term.posInt
  | v           => v.posInt

/-- `fit_opt/1`. -/
def fitOpt : Term → Bool
  | .map m =>
    (unknownKeys m ["margin_mib", "n_ctx", "min_ctx"]).isEmpty &&
      marginOk (get "margin_mib" m (.int 1)) && (get "n_ctx" m (.atom "auto")).isAtom "auto" &&
      (get "min_ctx" m (.int 1)).posInt && (!isKey "min_ctx" m || isKey "n_ctx" m)
  | v => v.isAtom "true"

/-- The check of `tensor_split`. -/
def tensorSplitOpt : Term → Bool
  | .list elems => elems.all Term.isNumber
  | _           => false

/-- `model_opt_checks/0`. -/
def modelOptChecks : List (String × (Term → Bool)) :=
  [("n_gpu_layers", Term.isInteger), ("main_gpu", Term.nonNegInt), ("use_mmap", Term.isBoolean),
   ("use_mlock", Term.isBoolean),
   ("load_mode", Term.memberOf ["auto", "none", "mmap", "mlock", "mmap_mlock", "direct_io"]),
   ("vocab_only", Term.isBoolean),
   ("split_mode", Term.memberOf ["none", "layer", "row", "tensor"]),
   ("tensor_split", tensorSplitOpt), ("devices", devicesOpt), ("cpu_moe", cpuMoeOpt),
   ("tensor_buft_overrides", tboOpt), ("fit", fitOpt)]

/-- `context_opt_checks/0`. -/
def contextOptChecks : List (String × (Term → Bool)) :=
  [("n_ctx", Term.posInt), ("n_batch", Term.posInt), ("n_ubatch", Term.posInt),
   ("n_seq_max", Term.posInt), ("n_rs_seq", Term.nonNegInt), ("n_threads", Term.posInt),
   ("n_threads_batch", Term.posInt), ("embeddings", Term.isBoolean),
   ("offload_kqv", Term.isBoolean), ("kv_unified", Term.isBoolean),
   ("flash_attn", Term.memberOf ["auto", "true", "false", "enabled", "disabled"]),
   ("type_k", Term.memberOf kvTypes), ("type_v", Term.memberOf kvTypes),
   ("decode_budget_ms", Term.posInt)]

/-- `policy_checks/0`: one check for every key. -/
def policyChecks : List (String × (Term → Bool)) :=
  policyKeys.map fun k => (k.name, fun v => v.nonNegInt || v.isAtom "infinity")

/-! ### The steps -/

/-- `check_backend/1`. -/
def checkBackend (w : World) (c : Entries) : Except ConfigError Entries :=
  match get "backend" c (.atom "undefined") with
  | .atom b => if w.ensureLoaded b then .ok c else .error (.invalidConfig "backend" (.atom b))
  | other   => .error (.invalidConfig "backend" other)

/-- `check_model_path/1`. -/
def checkModelPath (w : World) (c : Entries) : Except ConfigError Entries :=
  if (get "backend" c (.atom "undefined")).isAtom "erllama_model_stub" then .ok c
  else
    match find "model_path" c with
    | some path =>
      if path.isPath && w.isRegular path then .ok c
      else .error (.invalidConfig "model_path" path)
    | none => .error (.missingConfig "model_path")

/-- The entries of a sub map; a sub map that is not given is empty. -/
def subMap (key : String) (c : Entries) : Entries :=
  match get key c (.map []) with
  | .map sub => sub
  | _        => []

/-- `check_sub_types/1`. -/
def checkSubTypes (c : Entries) : Except ConfigError Entries :=
  match checkTypes (subMap "model_opts" c) modelOptChecks with
  | .error e => .error e
  | .ok _ =>
    match checkTypes (subMap "context_opts" c) contextOptChecks with
    | .error e => .error e
    | .ok _ =>
      match checkTypes (subMap "policy" c) policyChecks with
      | .error e => .error e
      | .ok _    => .ok c

/-- `check_load_types/1`. -/
def checkLoadTypes (c : Entries) : Except ConfigError Entries :=
  match checkTypes c (baseLoadChecks ++ backendLoadChecks) with
  | .error e => .error e
  | .ok _    => checkSubTypes c

/-- `{incompatible, Key}`. -/
def incompatible (key : String) : Term := .tuple [.atom "incompatible", .atom key]

/-- `check_devices_none_split/2`. -/
def checkDevicesNoneSplit (c mOpts : Entries) : Except ConfigError Entries :=
  if (get "devices" mOpts (.atom "undefined")).isAtom "none" &&
      (get "split_mode" mOpts (.atom "layer")).isAtom "tensor" then
    .error (.invalidConfig "devices" (incompatible "split_mode"))
  else .ok c

/-- The keys that `fit` excludes. -/
def fitConflicts : List String :=
  ["n_gpu_layers", "tensor_split", "cpu_moe", "tensor_buft_overrides", "vocab_only"]

/-- `check_fit_exclusive/1`. -/
def checkFitExclusive (c : Entries) : Except ConfigError Entries :=
  match find "model_opts" c with
  | some (.map mOpts) =>
    -- the automatic fit sets these options itself
    if isKey "fit" mOpts then
      match fitConflicts.filter fun k => isKey k mOpts with
      | []     =>
        if (get "split_mode" mOpts (.atom "layer")).memberOf ["tensor", "row"] then
          .error (.invalidConfig "fit" (incompatible "split_mode"))
        else checkDevicesNoneSplit c mOpts
      | k :: _ => .error (.invalidConfig "fit" (incompatible k))
    else checkDevicesNoneSplit c mOpts
  | _ => .ok c

/-- `check_tier/1`: the tier must be what its server says it is. -/
def checkTier (w : World) (c : Entries) : Except ConfigError Entries :=
  let tier := get "tier" c (.atom "ram")
  let srv := get "tier_srv" c (.atom "erllama_cache_ram")
  if tier.isAtom "ram" then
    -- the RAM tier has one server, and no other tier may use it
    if srv.isAtom "erllama_cache_ram" then .ok c else .error (.invalidConfig "tier_srv" srv)
  else if srv.isAtom "erllama_cache_ram" then .error (.invalidConfig "tier" tier)
  else
    match srv with
    | .atom name =>
      -- the server has to be running, and of this tier
      if w.whereis name then
        match w.tierOf name with
        | some t => if tier.isAtom t then .ok c else .error (.invalidConfig "tier" tier)
        | none   => .error (.invalidConfig "tier" tier)
      else .error (.invalidConfig "tier_srv" srv)
    | other => .error (.invalidConfig "tier_srv" other)

/-- The steps of `load_config/1`. -/
def loadSteps (w : World) : List (Entries → Except ConfigError Entries) :=
  [unknown loadKeys, checkBackend w, checkModelPath w, subKeys "model_opts" modelOptKeys,
   subKeys "context_opts" contextOptKeys, subKeys "policy" (policyKeys.map PolicyKey.name),
   checkLoadTypes, checkFitExclusive, checkTier w]

/-- `load_config/1`: the config with its backend defaulted. -/
def loadConfig (w : World) : Term → Except ConfigError Entries
  | .map config =>
    steps (put "backend" (get "backend" config (.atom "erllama_model_llama")) config) (loadSteps w)
  | other => .error (.invalidConfig "config" other)

/-! ### What acceptance says -/

/-- The check for unknown keys. -/
theorem keeps_unknown (known : List String) : Keeps (unknown known) := by
  intro c c' h
  unfold unknown at h
  split at h
  · exact (Except.ok.inj h).symm
  · exact nomatch h

/-- The same check inside a map. -/
theorem keeps_subKeys (key : String) (known : List String) : Keeps (subKeys key known) := by
  intro c c' h
  unfold subKeys at h
  split at h
  · split at h
    · exact (Except.ok.inj h).symm
    · exact nomatch h
  · exact nomatch h

/-- The check of the backend. -/
theorem keeps_checkBackend (w : World) : Keeps (checkBackend w) := by
  intro c c' h
  unfold checkBackend at h
  split at h
  · split at h
    · exact (Except.ok.inj h).symm
    · exact nomatch h
  · exact nomatch h

/-- The check of the model's path. -/
theorem keeps_checkModelPath (w : World) : Keeps (checkModelPath w) := by
  intro c c' h
  unfold checkModelPath at h
  split at h
  · exact (Except.ok.inj h).symm
  · split at h
    · split at h
      · exact (Except.ok.inj h).symm
      · exact nomatch h
    · exact nomatch h

/-- An accepted map of sub maps passes the three tables. -/
theorem checkSubTypes_ok {c c' : Entries} (h : checkSubTypes c = .ok c') :
    c' = c ∧ checkTypes (subMap "model_opts" c) modelOptChecks = .ok () ∧
      checkTypes (subMap "context_opts" c) contextOptChecks = .ok () ∧
      checkTypes (subMap "policy" c) policyChecks = .ok () := by
  unfold checkSubTypes at h
  split at h
  · exact nomatch h
  · rename_i hmodel
    split at h
    · exact nomatch h
    · rename_i hcontext
      split at h
      · exact nomatch h
      · rename_i hpolicy
        exact ⟨(Except.ok.inj h).symm, hmodel, hcontext, hpolicy⟩

/-- An accepted config passes the table of its own keys, and its sub maps theirs. -/
theorem checkLoadTypes_ok {c c' : Entries} (h : checkLoadTypes c = .ok c') :
    checkTypes c (baseLoadChecks ++ backendLoadChecks) = .ok () ∧ checkSubTypes c = .ok c' := by
  unfold checkLoadTypes at h
  split at h
  · exact nomatch h
  · rename_i hbase
    exact ⟨hbase, h⟩

/-- The check of the types. -/
theorem keeps_checkLoadTypes : Keeps checkLoadTypes := fun _ _ h =>
  (checkSubTypes_ok (checkLoadTypes_ok h).2).1

/-- The check of the devices against the split mode. -/
theorem keeps_checkDevicesNoneSplit (mOpts c c' : Entries)
    (h : checkDevicesNoneSplit c mOpts = .ok c') : c' = c := by
  unfold checkDevicesNoneSplit at h
  split at h
  · exact nomatch h
  · exact (Except.ok.inj h).symm

/-- The check of the fit options. -/
theorem keeps_checkFitExclusive : Keeps checkFitExclusive := by
  intro c c' h
  unfold checkFitExclusive at h
  split at h
  · split at h
    · split at h
      · split at h
        · exact nomatch h
        · exact keeps_checkDevicesNoneSplit _ c c' h
      · exact nomatch h
    · exact keeps_checkDevicesNoneSplit _ c c' h
  · exact (Except.ok.inj h).symm

/-- The check of the tier. -/
theorem keeps_checkTier (w : World) : Keeps (checkTier w) := by
  intro c c' h
  unfold checkTier at h
  dsimp only at h
  split at h
  · split at h
    · exact (Except.ok.inj h).symm
    · exact nomatch h
  · split at h
    · exact nomatch h
    · split at h
      · split at h
        · split at h
          · split at h
            · exact (Except.ok.inj h).symm
            · exact nomatch h
          · exact nomatch h
        · exact nomatch h
      · exact nomatch h

/-- Every check keeps the configuration. -/
theorem keeps_loadSteps (w : World) : ∀ f ∈ loadSteps w, Keeps f := by
  simp only [loadSteps, List.forall_mem_cons, List.not_mem_nil, false_imp_iff, implies_true,
    and_true]
  exact ⟨keeps_unknown _, keeps_checkBackend w, keeps_checkModelPath w, keeps_subKeys _ _,
    keeps_subKeys _ _, keeps_subKeys _ _, keeps_checkLoadTypes, keeps_checkFitExclusive,
    keeps_checkTier w⟩

/-- An accepted config is the one given with its backend defaulted, and every step accepts it
    as it is returned. -/
theorem loadConfig_accepts {w : World} {config : Term} {c : Entries}
    (h : loadConfig w config = .ok c) :
    (∃ given, config = .map given ∧
      c = put "backend" (get "backend" given (.atom "erllama_model_llama")) given) ∧
      ∀ f ∈ loadSteps w, f c = .ok c := by
  cases config with
  | map given =>
    obtain ⟨rfl, hsteps⟩ := steps_ok (keeps_loadSteps w) h
    exact ⟨⟨given, rfl, rfl⟩, hsteps⟩
  | _ => exact nomatch h

/-- An accepted config passes the tables of types. -/
theorem accepted_types {w : World} {config : Term} {c : Entries}
    (h : loadConfig w config = .ok c) : checkLoadTypes c = .ok c :=
  (loadConfig_accepts h).2 checkLoadTypes (by simp [loadSteps])

/-- What is known of a value of an accepted policy, whose keys are all known. -/
theorem accepted_policy {w : World} {config : Term} {c : Entries}
    (h : loadConfig w config = .ok c) :
    unknownKeys (subMap "policy" c) (policyKeys.map PolicyKey.name) = [] ∧
      ∀ (k : PolicyKey) (v : Term), find k.name (subMap "policy" c) = some v →
        v.nonNegInt ∨ v.isAtom "infinity" := by
  constructor
  · have hkeys : subKeys "policy" (policyKeys.map PolicyKey.name) c = .ok c :=
      (loadConfig_accepts h).2 _ (by simp [loadSteps])
    unfold subKeys at hkeys
    unfold subMap
    split at hkeys
    · rename_i sub hsub
      split at hkeys
      · rename_i hknown
        simpa only [hsub] using hknown
      · exact nomatch hkeys
    · exact nomatch hkeys
  · intro k v hv
    have htypes := (checkSubTypes_ok (checkLoadTypes_ok (accepted_types h)).2).2.2.2
    have hcheck : (k.name, fun v : Term => v.nonNegInt || v.isAtom "infinity") ∈ policyChecks :=
      List.mem_map.mpr ⟨k, mem_policyKeys k, rfl⟩
    have hpass := checkTypes_ok htypes hcheck hv
    exact Bool.or_eq_true_iff.mp hpass

end Erllama.Opts
