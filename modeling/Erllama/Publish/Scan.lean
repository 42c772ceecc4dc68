import Erllama.Publish.Confined

namespace Erllama.Publish

open Lib MetaSrv Kvc

/-!
# Starting a tier server (`erllama_cache_disk_srv:init/1`)

A tier server that starts deletes the temporary files of its directory, reads the metadata of
every checkpoint it finds, and installs a row for each in the meta server, pinning those saved
as a namespace's static prefix.

* `sweepTmps`, `scanDir`, `registerExisting`, `startTier` — the steps of `init/1`.
* `foundAt`, `scanDir_eq` — what a scan finds, name by name.
* `registerExisting_eq` — the rows and pins it installs.
-/

/-! ### The steps -/

/-- `filename:join(Root, E)`. -/
def joinName (root name : Bytes) : Path := root ++ [47] ++ name

/-- `_ = prim_file:delete(Path)`. -/
def removeFile (env : Env) (p : Path) (s : State) : State :=
  if env.fails .delete p then s else setFile p none s

section Definitions

variable (sha256 : Bytes → Digest) (hitBias : Nat → Int → Int) (env : Env) (root : Path)

/-- `sweep_tmps/1`, over the names that `list_dir` gave. -/
def sweepTmps (names : List Bytes) (s : State) : State :=
  names.foldl (fun s name =>
    if tmpSuffix <:+ name then removeFile env (joinName root name) s else s) s

/-- What `scan_entry_row/2` returns. -/
structure Found where
  key : CacheKey
  header : Bytes
  size : Nat
  tokensBin : Bytes
  textBytes : Nat
  pinNs : Option Digest
deriving DecidableEq

/-- `scan_entry_row/2`. -/
def scanEntryRow (bin : Bytes) (info : Info) : Found where
  key := makeText sha256 info.fingerprint info.quantType info.ctxParamsHash info.promptText
  header := bin.take 48
  size := bin.length
  tokensBin := encodeTokens info.tokens
  textBytes := info.promptText.length
  -- a static prefix is pinned again under its namespace
  pinNs :=
    if info.header.saveReason = .agentPrefix then
      some (namespaceKey sha256 info.fingerprint info.quantType info.ctxParamsHash)
    else none

/-- `scan_kvc/2`: a file whose metadata cannot be read is deleted. -/
def scanKvc (path : Path) (r : List Found × State) : List Found × State :=
  match MetaSrv.readFile env r.2 (some path) with
  | none     => r
  | some bin =>
    match parseMeta bin with
    | .ok info => (scanEntryRow sha256 bin info :: r.1, r.2)
    | .error _ => (r.1, removeFile env path r.2)

/-- The names that `scan_entry/3` looks at. -/
def isKvcName (name : Bytes) : Prop := kvcSuffix <:+ name ∧ ¬ tmpSuffix <:+ name

instance (name : Bytes) : Decidable (isKvcName name) := inferInstanceAs (Decidable (_ ∧ _))

/-- `scan_entry/3`. -/
def scanEntry (r : List Found × State) (name : Bytes) : List Found × State :=
  if isKvcName name then scanKvc sha256 env (joinName root name) r else r

/-- `scan_dir/1`, over the names that `list_dir` gave. -/
def scanDir (names : List Bytes) (s : State) : List Found × State :=
  names.foldl (scanEntry sha256 env root) ([], s)

/-- One entry of `register_existing/2`: install the row, then pin it. -/
def registerOne (tier : Tier) (frm : From) (s : State) (f : Found) : State :=
  let s := step (deps sha256 hitBias) s ⟨env, frm, .insertAvailable f.key tier f.size f.header
    (locationFor tier (some (finalPath root f.key))) (some f.tokensBin) f.textBytes⟩
  match f.pinNs with
  | none    => s
  | some ns => step (deps sha256 hitBias) s ⟨env, frm, .pinRow ns f.key⟩

/-- `register_existing/2`. -/
def registerExisting (tier : Tier) (frm : From) (entries : List Found) (s : State) : State :=
  entries.foldl (registerOne sha256 hitBias env root tier frm) s

/-- `init/1` of a tier server: `tmps` and `names` are the two listings of the directory. -/
def startTier (tier : Tier) (frm : From) (tmps names : List Bytes) (s : State) : State :=
  let r := scanDir sha256 env root names (sweepTmps env root tmps s)
  registerExisting sha256 hitBias env root tier frm r.1 r.2

/-- What a scan finds under a name. -/
def foundAt (files : Files) (name : Bytes) : Option Found :=
  if isKvcName name then
    match files (joinName root name) with
    | none     => none
    | some bin =>
      match parseMeta bin with
      | .ok info => some (scanEntryRow sha256 bin info)
      | .error _ => none
  else none

end Definitions

variable {sha256 : Bytes → Digest} {hitBias : Nat → Int → Int} {env : Env} {root : Path}
  {s t : State} {name : Bytes} {key : CacheKey}

/-- Two names in a directory are two paths. -/
theorem joinName_inj {a b : Bytes} : joinName root a = joinName root b ↔ a = b := by
  simp [joinName]

/-- The name of a key's final file in its directory. -/
theorem finalPath_eq_joinName (key : CacheKey) :
    finalPath root key = joinName root (binToHex key.bytes ++ kvcSuffix) := by
  simp [finalPath, joinName]

/-- A final file has the suffix of the store. -/
theorem isKvcName_final (key : CacheKey) : isKvcName (binToHex key.bytes ++ kvcSuffix) := by
  refine ⟨List.suffix_append _ _, fun h => ?_⟩
  have hsame : tmpSuffix = kvcSuffix :=
    (List.suffix_of_suffix_length_le h (List.suffix_append _ _) (by decide)).eq_of_length rfl
  revert hsame
  decide

/-- A temporary name ends in `".tmp"`. -/
theorem IsTmp.suffix (h : IsTmp root (joinName root name)) : tmpSuffix <:+ name := by
  obtain ⟨key, pid, unique, heq⟩ := h
  have hname : name =
      binToHex key.bytes ++ kvcSuffix ++ [46] ++ writerSuffix pid unique ++ tmpSuffix := by
    rw [← @joinName_inj root, heq]
    simp [tmpPath, finalPath, joinName]
  rw [hname]
  exact List.suffix_append _ _

/-! ### Sweeping -/

/-- No file operation of the server fails. -/
def Env.Calm (env : Env) : Prop := ∀ op p, env.fails op p = false

/-- On a calm disk a removed file is gone. -/
theorem removeFile_eq (henv : Env.Calm env) (p : Path) (s : State) :
    removeFile env p s = setFile p none s := by
  rw [removeFile, henv, if_neg Bool.false_ne_true]

/-- On a calm disk a file is read as it is. -/
theorem readFile_eq (henv : Env.Calm env) (p : Path) (s : State) :
    MetaSrv.readFile env s (some p) = s.files p := by
  rw [MetaSrv.readFile, Option.bind_some, henv, if_neg Bool.false_ne_true]

/-- The sweep of the directory removes the temporary files. -/
theorem files_sweepTmps (henv : Env.Calm env) (names : List Bytes) (s : State) (p : Path) :
    (sweepTmps env root names s).files p =
      if ∃ name ∈ names, tmpSuffix <:+ name ∧ joinName root name = p then none
      else s.files p := by
  induction names generalizing s with
  | nil => simp [sweepTmps]
  | cons name names ih =>
    show (sweepTmps env root names (if tmpSuffix <:+ name then
      removeFile env (joinName root name) s else s)).files p = _
    rw [ih]
    by_cases htail : ∃ name ∈ names, tmpSuffix <:+ name ∧ joinName root name = p
    · rw [if_pos htail, if_pos]
      obtain ⟨n, hn, h⟩ := htail
      exact ⟨n, List.mem_cons_of_mem _ hn, h⟩
    · rw [if_neg htail]
      by_cases htmp : tmpSuffix <:+ name
      · rw [if_pos htmp, removeFile_eq henv]
        by_cases hp : joinName root name = p
        · subst hp
          rw [files_setFile_self, if_pos ⟨name, List.mem_cons_self, htmp, rfl⟩]
        · rw [files_setFile_of_ne (Ne.symm hp), if_neg]
          rintro ⟨n, hn, hsuffix, heq⟩
          rcases List.mem_cons.mp hn with rfl | hn
          · exact hp heq
          · exact htail ⟨n, hn, hsuffix, heq⟩
      · rw [if_neg htmp, if_neg]
        rintro ⟨n, hn, hsuffix, heq⟩
        rcases List.mem_cons.mp hn with rfl | hn
        · exact htmp hsuffix
        · exact htail ⟨n, hn, hsuffix, heq⟩

variable (env root) in
/-- A sweep changes files only. -/
theorem sweepTmps_frame (names : List Bytes) (s : State) :
    ∃ files, sweepTmps env root names s = { s with files := files } := by
  induction names generalizing s with
  | nil => exact ⟨s.files, rfl⟩
  | cons name names ih =>
    show ∃ files, sweepTmps env root names (if tmpSuffix <:+ name then
      removeFile env (joinName root name) s else s) = { s with files := files }
    by_cases htmp : tmpSuffix <:+ name
    · rw [if_pos htmp]
      unfold removeFile
      split
      · exact ih s
      · exact ih (setFile (joinName root name) none s)
    · rw [if_neg htmp]
      exact ih s

/-! ### Scanning -/

/-- Some files without readable metadata have left. -/
structure Pruned (files files' : Files) : Prop where
  sub : ∀ p bin, files' p = some bin → files p = some bin
  keep : ∀ p bin info, files p = some bin → parseMeta bin = .ok info → files' p = some bin

/-- Nothing was removed. -/
theorem Pruned.refl (files : Files) : Pruned files files :=
  ⟨fun _ _ => id, fun _ _ _ h _ => h⟩

/-- A file that does not parse may go. -/
theorem Pruned.remove {files files' : Files} (h : Pruned files files') {p : Path} {bin : Bytes}
    {e : KvcError} (hbin : files' p = some bin) (hmeta : parseMeta bin = .error e) :
    Pruned files (Function.update files' p none) := by
  refine ⟨fun q b hq => ?_, fun q b info hq hb => ?_⟩
  · by_cases hqp : q = p
    · subst hqp
      rw [Function.update_self] at hq
      cases hq
    · rw [Function.update_of_ne hqp] at hq
      exact h.sub q b hq
  · by_cases hqp : q = p
    · subst hqp
      have hsame : b = bin := Option.some.inj (hq.symm.trans (h.sub _ _ hbin))
      rw [hsame, hmeta] at hb
      cases hb
    · rw [Function.update_of_ne hqp]
      exact h.keep q b info hq hb

/-- A file that has left was not found before either. -/
theorem foundAt_pruned {files files' : Files} (h : Pruned files files') (name : Bytes) :
    foundAt sha256 root files' name = foundAt sha256 root files name := by
  unfold foundAt
  split
  · cases hfile : files' (joinName root name) with
    | some bin => rw [h.sub _ _ hfile]
    | none     =>
      cases hold : files (joinName root name) with
      | none     => rfl
      | some bin =>
        cases hmeta : parseMeta bin with
        | error e => simp only [hmeta]
        | ok info =>
          rw [h.keep _ _ _ hold hmeta] at hfile
          cases hfile
  · rfl

variable (sha256 root) in
/-- One entry: what is found goes to the front, and only a file without metadata leaves. -/
theorem scanEntry_eq (henv : Env.Calm env) (r : List Found × State) (name : Bytes) :
    (scanEntry sha256 env root r name).1 =
        (foundAt sha256 root r.2.files name).toList ++ r.1 ∧
      ((scanEntry sha256 env root r name).2 = r.2 ∨
        (∃ bin e, r.2.files (joinName root name) = some bin ∧ parseMeta bin = .error e) ∧
        (scanEntry sha256 env root r name).2 = setFile (joinName root name) none r.2) := by
  unfold scanEntry foundAt
  by_cases hname : isKvcName name
  · rw [if_pos hname, if_pos hname]
    rw [scanKvc, readFile_eq henv]
    cases hfile : r.2.files (joinName root name) with
    | none     => exact ⟨rfl, Or.inl rfl⟩
    | some bin =>
      dsimp only
      cases hmeta : parseMeta bin with
      | ok info => exact ⟨rfl, Or.inl rfl⟩
      | error e =>
        exact ⟨rfl, Or.inr ⟨⟨bin, e, rfl, hmeta⟩, removeFile_eq henv _ _⟩⟩
  · rw [if_neg hname, if_neg hname]
    exact ⟨rfl, Or.inl rfl⟩

variable (sha256 root) in
/-- **Scan.** The entries are what is found name by name, the last name first; files whose
    metadata can be read stay, and no file appears. -/
theorem scanDir_eq (henv : Env.Calm env) (names : List Bytes) (s : State) :
    (scanDir sha256 env root names s).1 =
        (names.filterMap (foundAt sha256 root s.files)).reverse ∧
      ∃ files, (scanDir sha256 env root names s).2 = { s with files := files } ∧
        Pruned s.files files := by
  have hgen : ∀ (r : List Found × State) (files : Files), r.2 = { s with files := files } →
      Pruned s.files files →
      (names.foldl (scanEntry sha256 env root) r).1 =
          (names.filterMap (foundAt sha256 root s.files)).reverse ++ r.1 ∧
        ∃ files, (names.foldl (scanEntry sha256 env root) r).2 = { s with files := files } ∧
          Pruned s.files files := by
    induction names with
    | nil => exact fun r files hr hpruned => ⟨rfl, files, hr, hpruned⟩
    | cons name names ih =>
      intro r files hr hpruned
      have hfiles : r.2.files = files := by rw [hr]
      obtain ⟨hlist, hstate⟩ := scanEntry_eq sha256 root henv r name
      rw [hfiles, foundAt_pruned hpruned] at hlist
      have hcons : ((name :: names).filterMap (foundAt sha256 root s.files)).reverse ++ r.1 =
          (names.filterMap (foundAt sha256 root s.files)).reverse ++
            (scanEntry sha256 env root r name).1 := by
        rw [hlist]
        cases h : foundAt sha256 root s.files name with
        | none   => simp [h]
        | some f => simp [h]
      rw [hcons, List.foldl_cons]
      rcases hstate with heq | ⟨⟨bin, e, hbin, hmeta⟩, heq⟩
      · exact ih _ files (heq.trans hr) hpruned
      · refine ih _ (Function.update files (joinName root name) none) (by rw [heq, hr]; rfl) ?_
        exact hpruned.remove (hfiles ▸ hbin) hmeta
  have h := hgen ([], s) s.files rfl (Pruned.refl _)
  rw [List.append_nil] at h
  exact h

/-! ### Registering -/

/-- What the row of a key says about its file. -/
def rowFacts (s : State) (key : CacheKey) : Option (Entry × Nat) :=
  (s.metaTbl.lookup key).map fun r => (r.entry, r.hits)

/-- The row that is installed for an entry of the scan. -/
def Found.facts (root : Path) (tier : Tier) (f : Found) : Entry × Nat :=
  (⟨.available, tier, f.size, f.header, locationFor tier (some (finalPath root f.key)),
    some f.tokensBin, f.textBytes⟩, hitsFromHeader f.header)

/-- A pin flag is no fact of a row. -/
theorem rowFacts_setPinnedFlag (key k : CacheKey) (b : Bool) (s : State) :
    rowFacts (setPinnedFlag key b s) k = rowFacts s k := by
  simp only [rowFacts, setPinnedFlag, AList.lookup_update]
  split
  · rename_i h
    rw [h, Option.map_map]
    rfl
  · rfl

/-- Nor are its waiters. -/
theorem rowFacts_notifyWaiters (key k : CacheKey) (s : State) :
    rowFacts (notifyWaiters key s) k = rowFacts s k := by
  rw [rowFacts, metaTbl_notifyWaiters]
  rfl

/-- Nor is the pin of its namespace. -/
theorem rowFacts_doPinRow (ns : Digest) (key k : CacheKey) (s : State) :
    rowFacts (doPinRow ns key s) k = rowFacts s k := by
  have hpin : ∀ s1 : State, rowFacts s1 k = rowFacts s k →
      rowFacts ({ setPinnedFlag key true s1 with
        pinned := (setPinnedFlag key true s1).pinned.insert ns key } : State) k =
        rowFacts s k := fun s1 h => (rowFacts_setPinnedFlag key k true s1).trans h
  unfold doPinRow
  refine hpin _ ?_
  split
  · rfl
  · split
    · rfl
    · exact rowFacts_setPinnedFlag _ k false s

/-- Only pins and rows change when a key is pinned. -/
theorem doPinRow_pinned (ns ns' : Digest) (key : CacheKey) (s : State) :
    (doPinRow ns key s).pinned.lookup ns' =
        (if ns' = ns then some key else s.pinned.lookup ns') ∧
      (doPinRow ns key s).files = s.files := by
  unfold doPinRow
  dsimp only
  split
  · exact ⟨AList.lookup_insert_ite _ _ _ _, rfl⟩
  · split
    · exact ⟨AList.lookup_insert_ite _ _ _ _, rfl⟩
    · exact ⟨AList.lookup_insert_ite _ _ _ _, rfl⟩

/-- Nor is a restored pin. -/
theorem rowFacts_maybeRestorePin (key k : CacheKey) (s : State) :
    rowFacts (maybeRestorePin key s) k = rowFacts s k := by
  unfold maybeRestorePin
  split
  · exact rowFacts_setPinnedFlag key k true s
  · rfl

variable (env) in
/-- An available row has the facts it was installed with. -/
theorem rowFacts_installAvailableRow (key k : CacheKey) (tier : Tier) (size : Nat)
    (header : Bytes) (loc : Location) (tokensBin : Option Bytes) (textBytes : Nat) (s : State) :
    rowFacts (installAvailableRow env key tier size header loc tokensBin textBytes s) k =
      if k = key then some (⟨.available, tier, size, header, loc, tokensBin, textBytes⟩,
        hitsFromHeader header)
      else rowFacts s k := by
  simp only [rowFacts, installAvailableRow, AList.lookup_insert_ite]
  split <;> rfl

variable (sha256 hitBias env) in
/-- So has a row that was inserted available. -/
theorem rowFacts_insertAvailable (frm : From) (key k : CacheKey) (tier : Tier) (size : Nat)
    (header : Bytes) (loc : Location) (tokensBin : Option Bytes) (textBytes : Nat) (s : State) :
    rowFacts (step (deps sha256 hitBias) s
        ⟨env, frm, .insertAvailable key tier size header loc tokensBin textBytes⟩) k =
      if k = key then some (⟨.available, tier, size, header, loc, tokensBin, textBytes⟩,
        hitsFromHeader header)
      else rowFacts s k := by
  have hstep : rowFacts (step (deps sha256 hitBias) s
      ⟨env, frm, .insertAvailable key tier size header loc tokensBin textBytes⟩) k =
      rowFacts (maybeRestorePin key (installAvailableRow env key tier size header loc tokensBin
        textBytes s.startCallback)) k :=
    rowFacts_notifyWaiters key k _
  rw [hstep, rowFacts_maybeRestorePin, rowFacts_installAvailableRow]
  rfl

variable (sha256 hitBias env) in
/-- Inserting a row keeps files and pins. -/
theorem insertAvailable_frame (frm : From) (key : CacheKey) (tier : Tier) (size : Nat)
    (header : Bytes) (loc : Location) (tokensBin : Option Bytes) (textBytes : Nat) (s : State) :
    (step (deps sha256 hitBias) s
        ⟨env, frm, .insertAvailable key tier size header loc tokensBin textBytes⟩).pinned =
        s.pinned ∧
      (step (deps sha256 hitBias) s
        ⟨env, frm, .insertAvailable key tier size header loc tokensBin textBytes⟩).files =
        s.files := by
  have hstep : step (deps sha256 hitBias) s
      ⟨env, frm, .insertAvailable key tier size header loc tokensBin textBytes⟩ =
      (notifyWaiters key (maybeRestorePin key (installAvailableRow env key tier size header loc
        tokensBin textBytes s.startCallback))).emit (.reply frm .ok) := rfl
  obtain ⟨ws, out, hnotify, -⟩ := notifyWaiters_frame (maybeRestorePin key
    (installAvailableRow env key tier size header loc tokensBin textBytes s.startCallback)) key key
  rw [hstep, hnotify]
  unfold maybeRestorePin
  split <;> exact ⟨rfl, rfl⟩

section Register

variable {tier : Tier} {frm : From}

variable (sha256 hitBias env root tier frm) in
/-- Registering a file gives its row the facts of the file. -/
theorem registerOne_eq (f : Found) (s : State) :
    (∀ k, rowFacts (registerOne sha256 hitBias env root tier frm s f) k =
      if k = f.key then some (f.facts root tier) else rowFacts s k) ∧
    (∀ ns, (registerOne sha256 hitBias env root tier frm s f).pinned.lookup ns =
      if f.pinNs = some ns then some f.key else s.pinned.lookup ns) ∧
    (registerOne sha256 hitBias env root tier frm s f).files = s.files := by
  have hrows := fun k => rowFacts_insertAvailable sha256 hitBias env frm
    f.key k tier f.size f.header
    (locationFor tier (some (finalPath root f.key))) (some f.tokensBin) f.textBytes s
  obtain ⟨hpinned, hfiles⟩ := insertAvailable_frame sha256 hitBias env frm
    f.key tier f.size f.header
    (locationFor tier (some (finalPath root f.key))) (some f.tokensBin) f.textBytes s
  unfold registerOne
  dsimp only
  -- of the state in which the key is pinned only these three facts matter
  generalize step (deps sha256 hitBias) s ⟨env, frm, .insertAvailable f.key tier f.size f.header
    (locationFor tier (some (finalPath root f.key))) (some f.tokensBin) f.textBytes⟩ = s1
    at hrows hpinned hfiles ⊢
  cases f.pinNs with
  | none    => exact ⟨hrows, fun ns => by rw [hpinned]; rfl, hfiles⟩
  | some ns =>
    have hpin := fun ns' => doPinRow_pinned ns ns' f.key s1.startCallback
    refine ⟨fun k => ?_, fun ns' => ?_, ?_⟩
    · exact (rowFacts_doPinRow ns f.key k s1.startCallback).trans (hrows k)
    · refine (hpin ns').1.trans ?_
      have hstart : s1.startCallback.pinned = s1.pinned := rfl
      rw [hstart, hpinned]
      by_cases h : ns' = ns
      · rw [if_pos h, if_pos (by rw [h])]
      · rw [if_neg h, if_neg fun heq => h (Option.some.inj heq).symm]
    · exact (hpin ns).2.trans hfiles

variable (sha256 hitBias env root tier frm) in
/-- **Registration.** The last entry of a key gives its row, the last entry pinned for a
    namespace gives its pin. -/
theorem registerExisting_eq (entries : List Found) (s : State) :
    (∀ k, rowFacts (registerExisting sha256 hitBias env root tier frm entries s) k =
      ((entries.reverse.find? fun f => f.key = k).map (Found.facts root tier)).or
        (rowFacts s k)) ∧
    (∀ ns, (registerExisting sha256 hitBias env root tier frm entries s).pinned.lookup ns =
      ((entries.reverse.find? fun f => f.pinNs = some ns).map Found.key).or
        (s.pinned.lookup ns)) ∧
    (registerExisting sha256 hitBias env root tier frm entries s).files = s.files := by
  induction entries using List.reverseRecOn with
  | nil => exact ⟨fun _ => rfl, fun _ => rfl, rfl⟩
  | append_singleton entries f ih =>
    obtain ⟨hrows, hpinned, hfiles⟩ := ih
    obtain ⟨hrows', hpinned', hfiles'⟩ := registerOne_eq sha256 hitBias env root
      tier frm f
      (registerExisting sha256 hitBias env root tier frm entries s)
    have hlast : registerExisting sha256 hitBias env root tier frm (entries ++ [f]) s =
        registerOne sha256 hitBias env root tier frm
          (registerExisting sha256 hitBias env root tier frm entries s) f := by
      simp only [registerExisting, List.foldl_append, List.foldl_cons, List.foldl_nil]
    rw [hlast, List.reverse_append, List.reverse_singleton, List.singleton_append]
    refine ⟨fun k => ?_, fun ns => ?_, hfiles'.trans hfiles⟩
    · rw [hrows', hrows]
      by_cases hk : k = f.key
      · simp [hk]
      · simp [hk, Ne.symm hk]
    · rw [hpinned', hpinned]
      by_cases hns : f.pinNs = some ns
      · simp [hns]
      · simp [hns]

end Register

end Erllama.Publish
