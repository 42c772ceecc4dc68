import Erllama.Publish.Orphans
import Erllama.Publish.Scan

namespace Erllama.Publish

open Lib MetaSrv Kvc

/-!
# Restarting a tier

When everything stops and the meta server and the tier server start again, the index is rebuilt
from the directory alone.  Rows come back from the files; pins come back from the save reason
in the files, in the order of the directory listing.

* `Ours` — what a directory holds, in every run (`tidy_run`).
* `Named` — the final files name their own keys; `Tidy.named` — they do below 4 GiB.
* `Restarted` — what a restart should restore; `PinsRecorded` — the pins the files speak of.
* `restart_iff`, `run_restart_iff` — a restart restores everything exactly when the files
  speak of the pins.
-/

section Definitions

variable (sha256 : Bytes → Digest) (hitBias : Nat → Int → Int) (env : Env) (root : Path)

/-- A directory holds final and temporary files of the cache only. -/
def Ours (files : Files) : Prop :=
  ∀ name, files (joinName root name) ≠ none →
    IsFinal root (joinName root name) ∨ IsTmp root (joinName root name)

/-- What `list_dir` gives: the names of the files that are there, in any order. -/
def Lists (files : Files) (names : List Bytes) : Prop :=
  ∀ name, name ∈ names ↔ files (joinName root name) ≠ none

/-- A final file whose metadata can be read names its own key. -/
def Named (files : Files) : Prop :=
  ∀ key bin info, files (finalPath root key) = some bin → parseMeta bin = .ok info →
    info.key sha256 = key

/-- Everything stops, and the meta server and the tier server start again. -/
def restart (tier : Tier) (frm : From) (tmps names : List Bytes) (s : State) : State :=
  startTier sha256 hitBias env root tier frm tmps names (State.init s.files)

/-- The key of the first checkpoint of the listing that was saved as the namespace's static
    prefix. -/
def firstAgentPrefix (files : Files) (names : List Bytes) (ns : Digest) : Option CacheKey :=
  ((names.filterMap (foundAt sha256 root files)).find? fun f => f.pinNs = some ns).map Found.key

/-- Every pinned available key is the one the listing gives for its namespace. -/
def PinsRecorded (names : List Bytes) (s : State) : Prop :=
  ∀ ns key row, s.pinned.lookup ns = some key → s.metaTbl.lookup key = some row →
    row.status = .available → firstAgentPrefix sha256 root s.files names ns = some key

/-- What a restart should restore: the rows of the valid files and no others, the pins, and a
    directory without temporary files. -/
structure Restarted (tier : Tier) (s t : State) : Prop where
  rows : ∀ key bin info payload, s.files (finalPath root key) = some bin →
    parse sha256 bin key = .ok (info, payload) →
    t.files (finalPath root key) = some bin ∧
      ∃ row, t.metaTbl.lookup key = some row ∧ row.hits = info.header.hitCount ∧
        row.entry = ⟨.available, tier, bin.length, bin.take 48,
          locationFor tier (some (finalPath root key)), some (encodeTokens info.tokens),
          info.promptText.length⟩
  backed : ∀ key row, t.metaTbl.lookup key = some row → t.files (finalPath root key) ≠ none
  tmps : ∀ name, tmpSuffix <:+ name → t.files (joinName root name) = none
  pins : ∀ ns key row, s.pinned.lookup ns = some key → s.metaTbl.lookup key = some row →
    row.status = .available → t.pinned.lookup ns = some key

end Definitions

variable {sha256 : Bytes → Digest} {hitBias : Nat → Int → Int} {env : Env} {root : Path}
  {K : CacheKey → Prop} {i j : Index} {d : Deps} {key : CacheKey} {s t : State}

/-! ### The header of a file -/

/-- The parser's hit count is that of the header pattern. -/
theorem rawHeader_of_parseMeta {bin : Bytes} {info : Info} (h : parseMeta bin = .ok info) :
    ∃ raw rest, rawHeader.run bin = some (raw, rest) ∧ info.header.hitCount = raw.hitCount := by
  unfold parseMeta at h
  simp only [bind, Except.bind] at h
  cases hhead : takeHeader bin with
  | error e => simp [hhead] at h
  | ok p =>
    obtain ⟨hd, rest⟩ := p
    have hheader : info.header = hd := by
      rw [hhead] at h
      dsimp only at h
      cases htrailer : takeTrailer rest with
      | error e => simp [htrailer] at h
      | ok q =>
        simp only [htrailer] at h
        cases htext : takeLengthPrefixed q.2 with
        | error e => simp [htext] at h
        | ok r =>
          simp only [htext] at h
          cases htlv : takeLengthPrefixed r.2 with
          | error e => simp [htlv] at h
          | ok v =>
            simp only [htlv] at h
            cases hfields : decodeTlv v.1 with
            | error e => simp [hfields] at h
            | ok f =>
              simp only [hfields] at h
              exact (validateMetaConsistency_ok h).1
    unfold takeHeader at hhead
    cases hraw : rawHeader.run bin with
    | none   => simp [hraw] at hhead
    | some q =>
      refine ⟨q.1, q.2, rfl, ?_⟩
      simp only [hraw] at hhead
      split at hhead
      · cases hhead
      · cases hreason : saveReasonAtom q.1.saveReasonByte with
        | none        => simp [hreason] at hhead
        | some reason =>
          simp only [hreason] at hhead
          cases hhead
          rw [hheader]

/-- The hit count the server reads in a header is the one the parser reads. -/
theorem hitsFromHeader_eq {bin : Bytes} {info : Info} (h : parseMeta bin = .ok info) :
    hitsFromHeader (bin.take 48) = info.header.hitCount := by
  obtain ⟨raw, rest, hraw, hhits⟩ := rawHeader_of_parseMeta h
  rw [hhits]
  -- the hit count is the four bytes behind the first twelve
  rw [rawHeader_eq, StateT.run_bind] at hraw
  obtain ⟨⟨x, mid⟩, hx, hraw⟩ := Option.bind_eq_some_iff.mp hraw
  obtain ⟨⟨n, mid'⟩, hn, hraw⟩ := Option.bind_eq_some_iff.mp hraw
  obtain ⟨⟨y, end'⟩, -, hraw⟩ := Option.bind_eq_some_iff.mp hraw
  obtain ⟨w, hw, hbin, -⟩ := beforeHits_takes _ _ _ hx
  obtain ⟨v, hv, hmid, hread⟩ := u32_takes _ _ _ hn
  replace hmid : mid = v ++ mid' := hmid
  have hcount : raw.hitCount = n := by
    obtain ⟨rfl, -⟩ := Prod.mk.inj (Option.some.inj hraw)
    rfl
  have hdrop : (bin.take 48).drop 12 = (v ++ mid').take 36 := by
    rw [List.drop_take, hbin, hmid, List.drop_left' hw]
  match v, hv, hread, hdrop with
  | [b0, b1, b2, b3], _, hread, hdrop =>
    have hvalue : u32leValue b0 b1 b2 b3 = n := (Prod.mk.inj (Option.some.inj (hread []))).1
    rw [hcount, ← hvalue, hitsFromHeader, hdrop]
    rfl

/-! ### What a directory holds -/

/-- One file is written, linked or removed. -/
theorem Ours.update {files : Files} (h : Ours root files) {p : Path} {content : Option Bytes}
    (hp : content = none ∨ IsFinal root p ∨ IsTmp root p) :
    Ours root (Function.update files p content) := by
  intro name hname
  by_cases heq : joinName root name = p
  · rcases hp with hnone | hp
    · rw [heq, Function.update_self] at hname
      exact absurd hnone hname
    · exact heq ▸ hp
  · rw [Function.update_of_ne heq] at hname
    exact h name hname

/-- A deleted file leaves the others the store's own. -/
theorem Ours.unlink (h : Ours root i.files) (path : Option Path) :
    Ours root (i.unlink env path).files := by
  cases path with
  | none   => exact h
  | some p =>
    simp only [Index.unlink]
    split
    · exact h
    · exact h.update (Or.inl rfl)

/-- So does cleaning up after a writer. -/
theorem Ours.cleanup (h : Ours root i.files) (c : Claim) :
    Ours root (i.cleanup key d env c).files := by
  unfold Index.cleanup
  cases c.stage with
  | preLink  => exact h
  | postLink =>
    cases i.validate key d env c.path with
    | some a => exact h
    | none   => exact h.unlink c.path

/-- The index's moves leave the store's own files. -/
theorem Ours.moves {D : CacheKey → Prop} (hs : Sound sha256 root K i) (h : Ours root i.files)
    (hmoves : Index.Moves d env D i j) : Ours root j.files := by
  induction hmoves with
  | refl => exact h
  | @tail j j' hpre hmove ih =>
    have hsound : Sound sha256 root K j := (moved_moves hs hpre).sound
    cases hmove with
    | tick n hn         => exact ih
    | cleanup key c _ _ => exact ih.cleanup c
    | touch key e hits n he hav hn =>
      obtain ⟨htier, hloc, -⟩ := (hsound key).located e he hav
      show Ours root (j.touch env e.location hits).files
      rw [hloc]
      rcases files_touch root env j htier key hits with hf | hf
      · rw [hf]
        exact ih
      · rw [hf]
        exact ih.update (Or.inr (Or.inl ⟨key, rfl⟩))
    | evict key e he hav =>
      show Ours root (j.deletePayload env e.tier e.location).files
      unfold Index.deletePayload
      split
      · exact ih.unlink _
      · exact ih.unlink _
      · exact ih

/-- So does a message of the pipeline. -/
theorem Ours.pipeline {s : State} {frm : From} {msg : Msg} (h : Ours root s.files)
    (hmsg : isPipeline msg = true) : Ours root (step d s ⟨env, frm, msg⟩).files := by
  set s0 := s.startCallback with hs0
  have h0 : Ours root s0.index.files := h
  have hgoal : ∀ t : State, Ours root t.index.files → Ours root t.files := fun _ => id
  apply hgoal
  cases msg with
  | reserveSave key tier pid =>
    have hstep : step d s ⟨env, frm, .reserveSave key tier pid⟩ =
        doReserveSave d env key tier pid frm s0 := rfl
    rw [hstep]
    -- A reservation may delete a file, but writes none.
    rcases index_doReserveSave d env s0 key tier pid frm with
      ⟨hsame, -⟩ | ⟨-, -, ⟨-, heq⟩ | ⟨c, -, heq⟩⟩
    · rw [hsame]
      exact h0
    · rw [heq]
      exact h0
    · rw [heq]
      exact h0.cleanup c
  | checkReservation key token =>
    have hindex : (step d s ⟨env, frm, .checkReservation key token⟩).index = s.index :=
      index_handleCheckReservation s0 key token frm
    rw [hindex]
    exact h
  | markPublished key token path =>
    have hstep : step d s ⟨env, frm, .markPublished key token path⟩ =
        handleMarkPublished env key token path frm s0 := rfl
    rw [hstep]
    cases hr : s0.reservationWith key token with
    -- The other messages of a writer touch no file.
    | none   =>
      simp only [handleMarkPublished, hr]
      exact h0
    | some r =>
      rw [index_handleMarkPublished s0 key hr]
      exact h0
  | announceSaved key token size header tokensBin textBytes =>
    have hstep : step d s ⟨env, frm, .announceSaved key token size header tokensBin textBytes⟩ =
        handleAnnounceSaved env key token size header tokensBin textBytes frm s0 := rfl
    rw [hstep]
    cases hr : s0.reservationWith key token with
    | none   =>
      simp only [handleAnnounceSaved, hr]
      exact h0
    | some r =>
      rw [index_handleAnnounceSaved s0 key hr]
      exact h0
  | cancelReservation key token =>
    have hstep : step d s ⟨env, frm, .cancelReservation key token⟩ =
        handleCancelReservation key token frm s0 := rfl
    rw [hstep]
    cases hr : s0.reservationWith key token with
    | none   =>
      simp only [handleCancelReservation, hr]
      exact h0
    | some r =>
      rw [index_handleCancelReservation s0 key hr]
      exact h0
  | _ => cases hmsg

/-- So does every confined act. -/
theorem Ours.perform {frm : From} {fault : Fault} {a : Act} (hs : Sound sha256 root K s.index)
    (h : Ours root s.files) (ha : a.Confined root) :
    Ours root (Publish.perform d env frm fault a s).2.files := by
  cases a with
  | call msg =>
    rcases ha with hbg | hpipe
    · exact Ours.moves hs h (index_background s frm hbg)
    · exact h.pipeline hpipe
  | openExclusive p =>
    simp only [Publish.perform]
    split
    · exact h
    · cases s.files p with
      | none   => exact h.update (Or.inr (Or.inr ha))
      | some _ => exact h
  | write p data =>
    simp only [Publish.perform]
    cases s.files p with
    | none   => exact h
    | some _ =>
      dsimp only
      split <;> exact h.update (Or.inr (Or.inr ha))
  | makeLink src dst =>
    simp only [Publish.perform]
    split
    · exact h
    · cases s.files src with
      | none   => exact h
      | some _ =>
        cases s.files dst with
        | some _ => exact h
        | none   => exact h.update (Or.inr (Or.inl ha))
  | delete p =>
    rcases perform_delete d env frm fault p s with ht | ht
    · rw [ht]
      exact h
    · rw [ht]
      exact h.update (Or.inl rfl)
  | readFile p | readFileInfo p | datasync p | fsyncDir p =>
    rw [perform_quiet rfl s]
    exact h

/-- The invariant of any run: the index and the directory agree on names. -/
structure Tidy (sha256 : Bytes → Digest) (hitBias : Nat → Int → Int) (root : Path) (s : Sys) :
    Prop where
  sound : SysSound sha256 hitBias root (fun _ => False) s
  confined : SysConfined root s
  ours : Ours root s.srv.files

/-- Every event leaves the directory tidy. -/
theorem tidy_step {s : Sys} (h : Tidy sha256 hitBias root s) (e : Event) :
    Tidy sha256 hitBias root (sysStep sha256 hitBias root s e) := by
  refine ⟨sysSound_step h.sound (spares_none s e), sysConfined_step h.confined e, ?_⟩
  cases e with
  | spawn job => exact h.ours
  | crash u   => exact h.ours
  | act u env fault =>
    have hstep : sysStep sha256 hitBias root s (.act u env fault) =
        s.act sha256 hitBias u env fault := rfl
    rw [hstep]
    rcases act_cases sha256 hitBias s u env fault with ⟨-, heq⟩ | ⟨a, k, -, hnext, heq⟩
    · rw [heq]
      exact h.ours
    · rw [heq]
      exact Ours.perform h.sound.1 h.ours (h.confined.nextAct hnext)
  | server env frm msg =>
    simp only [sysStep]
    split
    · rename_i hbg
      exact Ours.moves h.sound.1 h.ours (index_background s.srv frm hbg)
    · exact h.ours

/-- Every run of a tier leaves cache files only in its directory. -/
theorem tidy_run {s : Sys} (h : Started sha256 root s) (hours : Ours root s.srv.files)
    (es : List Event) : Tidy sha256 hitBias root (run (sysStep sha256 hitBias root) s es) := by
  refine AllSteps.invariant (I := Tidy sha256 hitBias root) (fun _ e hs _ => tidy_step hs e)
    ⟨h.sysSound, fun u p hp => ?_, hours⟩
    (AllSteps.of_forall (P := fun _ _ => True) (fun _ _ => trivial) s es)
  rw [h.threads] at hp
  cases hp

/-! ### Rebuilding the index -/

/-- What a scan finds is a final file, under the key it names. -/
theorem final_of_found {files : Files} (hours : Ours root files) (hnamed : Named sha256 root files)
    {names : List Bytes} {f : Found} (hf : f ∈ names.filterMap (foundAt sha256 root files)) :
    ∃ bin info, files (finalPath root f.key) = some bin ∧ parseMeta bin = .ok info ∧
      f = scanEntryRow sha256 bin info := by
  obtain ⟨name, -, hfound⟩ := List.mem_filterMap.mp hf
  unfold foundAt at hfound
  split at hfound
  · rename_i hname
    cases hfile : files (joinName root name) with
    | none     => simp [hfile] at hfound
    | some bin =>
      simp only [hfile] at hfound
      cases hmeta : parseMeta bin with
      | error e => simp [hmeta] at hfound
      | ok info =>
        simp only [hmeta] at hfound
        cases hfound
        rcases hours name (by simp [hfile]) with ⟨key, hkey⟩ | htmp
        · have hself : info.key sha256 = key := hnamed key bin info (hkey ▸ hfile) hmeta
          refine ⟨bin, info, ?_, hmeta, rfl⟩
          have hpath : finalPath root (info.key sha256) = joinName root name := by
            rw [hself, hkey]
          exact (congrArg files hpath).trans hfile
        · exact absurd htmp.suffix hname.2
  · cases hfound

section Rebuild

variable {tier : Tier} {frm : From} {tmps names : List Bytes}

/-- Sweeping leaves the files that are scanned. -/
theorem swept_files (henv : Env.Calm env) {name : Bytes} (hname : ¬ tmpSuffix <:+ name) :
    (sweepTmps env root tmps s).files (joinName root name) = s.files (joinName root name) := by
  rw [files_sweepTmps henv, if_neg]
  rintro ⟨name', -, hsuffix, heq⟩
  exact hname (joinName_inj.mp heq ▸ hsuffix)

/-- The sweep keeps the final files. -/
theorem swept_final (henv : Env.Calm env) (key : CacheKey) :
    (sweepTmps env root tmps s).files (finalPath root key) = s.files (finalPath root key) := by
  rw [finalPath_eq_joinName]
  exact swept_files henv (isKvcName_final key).2

/-- The sweep changes nothing of what the scan finds. -/
theorem swept_foundAt (henv : Env.Calm env) (names : List Bytes) :
    names.filterMap (foundAt sha256 root (sweepTmps env root tmps s).files) =
      names.filterMap (foundAt sha256 root s.files) := by
  refine List.filterMap_congr fun name _ => ?_
  by_cases hname : isKvcName name
  · simp only [foundAt, swept_files henv hname.2]
  · simp only [foundAt, if_neg hname]

variable (sha256 hitBias root tier frm names) in
/-- **Restart.** What the new server holds: the rows and the pins of the files that are found,
    and a directory without temporary files in which every readable checkpoint stays. -/
theorem restart_eq (henv : Env.Calm env) (htmps : Lists root s.files tmps) :
    (∀ k, rowFacts (restart sha256 hitBias env root tier frm tmps names s) k =
      ((names.filterMap (foundAt sha256 root s.files)).find? fun f => f.key = k).map
        (Found.facts root tier)) ∧
    (∀ ns, (restart sha256 hitBias env root tier frm tmps names s).pinned.lookup ns =
      firstAgentPrefix sha256 root s.files names ns) ∧
    (∀ key bin info, s.files (finalPath root key) = some bin → parseMeta bin = .ok info →
      (restart sha256 hitBias env root tier frm tmps names s).files (finalPath root key) =
        some bin) ∧
    ∀ name, tmpSuffix <:+ name →
      (restart sha256 hitBias env root tier frm tmps names s).files (joinName root name) =
        none := by
  set swept := sweepTmps env root tmps (State.init s.files) with hswept
  obtain ⟨files, hframe⟩ := sweepTmps_frame env root tmps (State.init s.files)
  obtain ⟨hentries, files', hscan, hpruned⟩ := scanDir_eq sha256 root henv
    names swept
  obtain ⟨hrows, hpinned, hfiles⟩ := registerExisting_eq sha256 hitBias env root
    tier frm (scanDir sha256 env root names swept).1 (scanDir sha256 env root names swept).2
  have hempty : ∀ k, rowFacts (scanDir sha256 env root names swept).2 k = none := by
    intro k
    rw [hscan, hswept, hframe]
    rfl
  have hunpinned : ∀ ns, (scanDir sha256 env root names swept).2.pinned.lookup ns = none := by
    intro ns
    rw [hscan, hswept, hframe]
    rfl
  have hreverse : (scanDir sha256 env root names swept).1.reverse =
      names.filterMap (foundAt sha256 root s.files) := by
    rw [hentries, List.reverse_reverse, hswept]
    exact swept_foundAt henv names
  rw [hreverse] at hrows hpinned
  have hkept : (scanDir sha256 env root names swept).2.files = files' := by rw [hscan]
  refine ⟨fun k => ?_, fun ns => ?_, fun key bin info hbin hmeta => ?_, fun name hname => ?_⟩
  · exact (hrows k).trans (by rw [hempty, Option.or_none])
  · exact (hpinned ns).trans (by rw [hunpinned, Option.or_none]; rfl)
  · have hfinal : swept.files (finalPath root key) = some bin :=
      (swept_final henv key).trans hbin
    have hkeep := hpruned.keep _ _ _ hfinal hmeta
    exact (congrFun (hfiles.trans hkept) _).trans hkeep
  · have hgone : swept.files (joinName root name) = none := by
      rw [hswept, files_sweepTmps henv]
      by_cases hthere : s.files (joinName root name) = none
      · split
        · rfl
        · exact hthere
      · rw [if_pos ⟨name, (htmps name).mpr hthere, hname, rfl⟩]
    refine (congrFun (hfiles.trans hkept) _).trans ?_
    cases hfile : files' (joinName root name) with
    | none     => rfl
    | some bin =>
      rw [hpruned.sub _ _ hfile] at hgone
      cases hgone

/-- **A restart.** It restores everything that a restart should exactly when the pins are
    recorded in the files, in the order of the listing. -/
theorem restart_iff (hours : Ours root s.files) (hnamed : Named sha256 root s.files)
    (henv : Env.Calm env) (htmps : Lists root s.files tmps)
    (hnames : Lists root (sweepTmps env root tmps (State.init s.files)).files names) :
    Restarted sha256 root tier s (restart sha256 hitBias env root tier frm tmps names s) ↔
      PinsRecorded sha256 root names s := by
  obtain ⟨hrows, hpinned, hkeep, hgone⟩ := restart_eq sha256 hitBias root tier frm
    names henv htmps
  constructor
  · intro h ns key row hpin hrow hav
    rw [← hpinned]
    exact h.pins ns key row hpin hrow hav
  · intro h
    refine ⟨fun key bin info payload hbin hparse => ?_, fun key row hrow => ?_, hgone,
      fun ns key row hpin hrow hav => (hpinned ns).trans (h ns key row hpin hrow hav)⟩
    · obtain ⟨hmeta, hself⟩ := parseMeta_of_parse hparse
      refine ⟨hkeep key bin info hbin hmeta, ?_⟩
      have hlisted : binToHex key.bytes ++ kvcSuffix ∈ names := by
        rw [hnames, ← finalPath_eq_joinName, swept_final henv]
        simp [State.init, hbin]
      have hfound : foundAt sha256 root s.files (binToHex key.bytes ++ kvcSuffix) =
          some (scanEntryRow sha256 bin info) := by
        rw [foundAt, if_pos (isKvcName_final key), ← finalPath_eq_joinName, hbin]
        simp only [hmeta]
      have hmem := List.mem_filterMap.mpr ⟨_, hlisted, hfound⟩
      obtain ⟨f, hf⟩ : ∃ f, ((names.filterMap (foundAt sha256 root s.files)).find? fun f =>
          f.key = key) = some f := by
        rw [← Option.isSome_iff_exists, List.find?_isSome]
        exact ⟨_, hmem, decide_eq_true hself⟩
      -- every entry of the key was read from the same file
      have hkey : f.key = key := by simpa using List.find?_some hf
      obtain ⟨bin', info', hbin', hmeta', rfl⟩ := final_of_found hours hnamed
        (List.mem_of_find?_eq_some hf)
      rw [hkey, hbin] at hbin'
      cases hbin'
      rw [hmeta] at hmeta'
      cases hmeta'
      have hfacts := hrows key
      rw [hf, Option.map_some] at hfacts
      obtain ⟨row, hrow, hpair⟩ := Option.map_eq_some_iff.mp hfacts
      obtain ⟨hentry, hhits⟩ := Prod.mk.inj hpair
      refine ⟨row, hrow, hhits.trans (hitsFromHeader_eq hmeta), hentry.trans ?_⟩
      rw [hkey]
      rfl
    · have hfacts := hrows key
      rw [rowFacts, hrow, Option.map_some] at hfacts
      obtain ⟨f, hf, -⟩ := Option.map_eq_some_iff.mp hfacts.symm
      have hkey : f.key = key := by simpa using List.find?_some hf
      obtain ⟨bin, info, hbin, hmeta, -⟩ := final_of_found hours hnamed
        (List.mem_of_find?_eq_some hf)
      rw [hkey] at hbin
      simp [hkeep key bin info hbin hmeta]

end Rebuild

/-- A file that a save of the key wrote, and whose payload starts below 4 GiB, names the key. -/
theorem Whole.named {bin : Bytes} {info : Info} (h : Whole sha256 key bin)
    (hmeta : parseMeta bin = .ok info) (hsmall : info.trailer.payloadOffset < 2 ^ 32) :
    info.key sha256 = key := by
  obtain ⟨w, built, rfl, hbuild, hsame⟩ := h
  obtain ⟨b, hmode, hfile⟩ := build_eq_builtFile hbuild
  have hsize := w.size_lt built hbuild
  rw [hfile] at hsame hsize
  obtain ⟨hits, hmeta'⟩ := parseMeta_sameButHits hsame.symm hmeta
  have hoffset := payloadOffset_of_parse_builtFile hsize hmeta'
  -- the offset bounds the sections before it, so that the parser reads what was written
  have hfits : Fits w.runtime w.buildMeta b w.payload := by
    have hbelow : builtOffset w.runtime w.buildMeta b < 2 ^ 32 := hoffset ▸ hsmall
    rw [length_builtFile] at hsize
    rw [builtOffset] at hbelow
    exact ⟨by omega, by omega, by omega⟩
  rw [parseMeta_builtFile hmode hfits, quantAtom_quantByte] at hmeta'
  by_cases hnamed : w.buildMeta.quantType.isNamed = true
  · rw [if_pos hnamed] at hmeta'
    have hkey : (info.withHits hits).key sha256 = w.key sha256 := by
      rw [← Except.ok.inj hmeta']
      rfl
    exact hkey
  · rw [if_neg hnamed] at hmeta'
    cases hmeta'

/-- In every run, the final files whose payload starts below 4 GiB name their keys. -/
theorem Tidy.named {s : Sys} (h : Tidy sha256 hitBias root s)
    (hsmall : ∀ key bin info, s.srv.files (finalPath root key) = some bin →
      parseMeta bin = .ok info → info.trailer.payloadOffset < 2 ^ 32) :
    Named sha256 root s.srv.files := by
  intro key bin info hbin hmeta
  rcases (h.sound.1 key).whole bin hbin with hwhole | hshort
  · exact hwhole.named hmeta (hsmall key bin info hbin hmeta)
  · have hle := le_length_of_parseMeta hmeta
    omega

/-- **Restarts of runs.** In every state that saves, loads, crashes, pins, sweeps and evictions
    reach, a restart restores everything exactly when the pins are recorded. -/
theorem run_restart_iff (sha256 : Bytes → Digest) (hitBias : Nat → Int → Int) (root : Path)
    (s : Sys) (h : Started sha256 root s) (hours : Ours root s.srv.files) (es : List Event)
    (env : Env) (henv : Env.Calm env) (tier : Tier) (frm : From) (tmps names : List Bytes)
    (htmps : Lists root (run (sysStep sha256 hitBias root) s es).srv.files tmps)
    (hnames : Lists root (sweepTmps env root tmps (State.init
      (run (sysStep sha256 hitBias root) s es).srv.files)).files names)
    (hnamed : Named sha256 root (run (sysStep sha256 hitBias root) s es).srv.files) :
    Restarted sha256 root tier (run (sysStep sha256 hitBias root) s es).srv
        (restart sha256 hitBias env root tier frm tmps names
          (run (sysStep sha256 hitBias root) s es).srv) ↔
      PinsRecorded sha256 root names (run (sysStep sha256 hitBias root) s es).srv :=
  restart_iff (tidy_run h hours es).ours hnamed henv htmps hnames

/-! ### A pin that comes back -/

set_option maxRecDepth 4000 in
/-- The static prefix of a namespace, with the text of `sampleSave`. -/
def prefixSave : Save where
  tier := .disk
  pid := 8
  runtime := ⟨1, [104], none⟩
  buildMeta := { sampleMeta with saveReason := .agentPrefix }
  payload := [1]
  tier_ne := disk_ne_ram
  size_lt := by
    intro built h
    cases h
    decide

/-- The namespace of `sampleMeta`. -/
def sampleNs : Digest :=
  namespaceKey sampleSha sampleMeta.fingerprint sampleMeta.quantType sampleMeta.ctxParamsHash

/-- A writer dies with its temporary file written, and a sweep drops its reservation; the save of
    the static prefix publishes the key, and its model pins the row. -/
def prefixRun : List Event :=
  let late : Int := 100000000000
  [.spawn (.save (sampleSave 7))] ++ List.replicate 4 (acts 0 0) ++
    [.crash 0, .server (sampleEnv late) 1 .sweep, .spawn (.save prefixSave)] ++
    List.replicate 12 (acts 1 late) ++
    [.server (sampleEnv late) 1 (.pinRow sampleNs ((sampleSave 7).key sampleSha))]

/-- The file that `sampleSave` writes. -/
def sampleFile : Bytes :=
  match build ⟨1, [104], none⟩ sampleMeta [1] with
  | .ok built => built ++ [1]
  | .error _  => []

/-- The file that `prefixSave` writes. -/
def prefixFile : Bytes :=
  match build ⟨1, [104], none⟩ { sampleMeta with saveReason := .agentPrefix } [1] with
  | .ok built => built ++ [1]
  | .error _  => []

/-- The final name of the key, in the directory. -/
def sampleName : Bytes := binToHex ((sampleSave 7).key sampleSha).bytes ++ kvcSuffix

/-- The temporary name that the dead writer leaves. -/
def leftName : Bytes := sampleName ++ [46] ++ writerSuffix 7 0 ++ tmpSuffix

set_option maxRecDepth 40000 in
/-- The files after the run. -/
theorem prefixRun_files (p : Path) :
    (run (sysStep sampleSha (fun _ _ => 0) [114]) emptySys prefixRun).srv.files p =
      Function.update (Function.update (Function.update (Function.update (Function.update
        (Function.update (fun _ => none)
        (tmpPath [114] ((sampleSave 7).key sampleSha) 7 0) (some []))
        (tmpPath [114] ((sampleSave 7).key sampleSha) 7 0) (some sampleFile))
        (tmpPath [114] ((sampleSave 7).key sampleSha) 8 1) (some []))
        (tmpPath [114] ((sampleSave 7).key sampleSha) 8 1) (some prefixFile))
        (finalPath [114] ((sampleSave 7).key sampleSha)) (some prefixFile))
        (tmpPath [114] ((sampleSave 7).key sampleSha) 8 1) none p := by
  rfl

/-- The directory holds the final file and the temporary one of the dead writer. -/
theorem prefixRun_files_iff (p : Path) :
    (run (sysStep sampleSha (fun _ _ => 0) [114]) emptySys prefixRun).srv.files p ≠ none ↔
      p = joinName [114] leftName ∨ p = joinName [114] sampleName := by
  have hfinal : finalPath [114] ((sampleSave 7).key sampleSha) = joinName [114] sampleName := rfl
  have hleft : tmpPath [114] ((sampleSave 7).key sampleSha) 7 0 = joinName [114] leftName := rfl
  have hne : joinName [114] leftName ≠ joinName [114] sampleName :=
    tmpPath_ne_finalPath [114] ((sampleSave 7).key sampleSha) ((sampleSave 7).key sampleSha) 7 0
  have hgone : tmpPath [114] ((sampleSave 7).key sampleSha) 8 1 ≠ joinName [114] sampleName :=
    tmpPath_ne_finalPath [114] ((sampleSave 7).key sampleSha) ((sampleSave 7).key sampleSha) 8 1
  have hother : tmpPath [114] ((sampleSave 7).key sampleSha) 8 1 ≠ joinName [114] leftName := by
    decide +kernel
  rw [prefixRun_files, hfinal, hleft]
  by_cases htmp : p = tmpPath [114] ((sampleSave 7).key sampleSha) 8 1
  · simp [htmp, hgone, hother]
  · by_cases hlast : p = joinName [114] sampleName
    · simp [hlast, hgone.symm]
    · by_cases hdead : p = joinName [114] leftName
      · simp [hdead, hne, hother.symm]
      · simp [htmp, hlast, hdead]

/-- What a listing of the directory then shows. -/
theorem prefixRun_lists :
    Lists [114] (run (sysStep sampleSha (fun _ _ => 0) [114]) emptySys prefixRun).srv.files
      [leftName, sampleName] := by
  intro name
  rw [prefixRun_files_iff, joinName_inj, joinName_inj]
  simp

/-- A fresh server finds the files as they are. -/
theorem files_init (files : Files) : (State.init files).files = files := rfl

/-- After the sweep of the temporary names, one file is left. -/
theorem prefixRun_swept :
    Lists [114] (sweepTmps (sampleEnv 3) [114] [leftName, sampleName] (State.init
      (run (sysStep sampleSha (fun _ _ => 0) [114]) emptySys prefixRun).srv.files)).files
      [sampleName] := by
  have hne : leftName ≠ sampleName := by decide +kernel
  have hkept : ¬ tmpSuffix <:+ sampleName := (isKvcName_final ((sampleSave 7).key sampleSha)).2
  intro name
  rw [files_sweepTmps (fun _ _ => rfl), List.mem_singleton]
  by_cases hname : name = leftName
  · rw [if_pos ⟨leftName, by simp, ⟨_, rfl⟩, by rw [hname]⟩]
    simp [hname, hne]
  · rw [if_neg]
    · have hthere := prefixRun_files_iff (joinName [114] name)
      rw [joinName_inj, joinName_inj, or_iff_right hname] at hthere
      rw [files_init, hthere]
    · rintro ⟨name', hmem, hsuffix, heq⟩
      cases joinName_inj.mp heq
      rcases List.mem_cons.mp hmem with hleft | hlast
      · exact hname hleft
      · exact hkept (List.mem_singleton.mp hlast ▸ hsuffix)

set_option maxRecDepth 40000 in
/-- An agent's prefix, published and pinned, and a file that was left behind. -/
theorem run_restart_iff_prefixRun :
    let s := (run (sysStep sampleSha (fun _ _ => 0) [114]) emptySys prefixRun).srv
    let t := restart sampleSha (fun _ _ => 0) (sampleEnv 3) [114] .disk 1 [leftName, sampleName]
      [sampleName] s
    (Restarted sampleSha [114] .disk s t ↔ PinsRecorded sampleSha [114] [sampleName] s) ∧
      s.pinned.lookup sampleNs = some ((sampleSave 7).key sampleSha) ∧
      t.pinned.lookup sampleNs = some ((sampleSave 7).key sampleSha) ∧
      (t.metaTbl.lookup ((sampleSave 7).key sampleSha)).map Row.status = some .available := by
  have hours : Ours [114] emptySys.srv.files := fun _ h => absurd rfl h
  have hnamed : Named sampleSha [114]
      (run (sysStep sampleSha (fun _ _ => 0) [114]) emptySys prefixRun).srv.files := by
    intro key bin info hbin _
    have hthere := (prefixRun_files_iff _).mp (Option.ne_none_iff_exists'.mpr ⟨bin, hbin⟩)
    rcases hthere with hleft | hfinal
    · exact absurd hleft.symm (tmpPath_ne_finalPath [114] ((sampleSave 7).key sampleSha) key 7 0)
    · have hfinal' : finalPath [114] key = finalPath [114] ((sampleSave 7).key sampleSha) := hfinal
      rw [finalPath_inj.mp hfinal']
      rfl
  exact ⟨run_restart_iff sampleSha (fun _ _ => 0) [114] emptySys emptySys_started hours prefixRun
    (sampleEnv 3) (fun _ _ => rfl) .disk 1 [leftName, sampleName] [sampleName] prefixRun_lists
    prefixRun_swept hnamed, by decide +kernel, by decide +kernel, by decide +kernel⟩

/-! ### A pin that the files do not tell -/

/-- A cold save publishes the key; the save of the static prefix is told that it is already
    present, and its model pins the row. -/
def pinnedRun : List Event :=
  [.spawn (.save (sampleSave 7))] ++ List.replicate 12 (acts 0 0) ++
    [.spawn (.save prefixSave), acts 1 1,
      .server (sampleEnv 2) 1 (.pinRow sampleNs ((sampleSave 7).key sampleSha))]

set_option maxRecDepth 40000 in
/-- The files after the run. -/
theorem pinnedRun_files (p : Path) :
    (run (sysStep sampleSha (fun _ _ => 0) [114]) emptySys pinnedRun).srv.files p =
      Function.update (Function.update (Function.update (Function.update (fun _ => none)
        (tmpPath [114] ((sampleSave 7).key sampleSha) 7 0) (some []))
        (tmpPath [114] ((sampleSave 7).key sampleSha) 7 0) (some sampleFile))
        (finalPath [114] ((sampleSave 7).key sampleSha)) (some sampleFile))
        (tmpPath [114] ((sampleSave 7).key sampleSha) 7 0) none p := by
  rfl

/-- The directory holds the one final file. -/
theorem pinnedRun_files_iff (p : Path) :
    (run (sysStep sampleSha (fun _ _ => 0) [114]) emptySys pinnedRun).srv.files p ≠ none ↔
      p = finalPath [114] ((sampleSave 7).key sampleSha) := by
  have hne := tmpPath_ne_finalPath [114] ((sampleSave 7).key sampleSha)
    ((sampleSave 7).key sampleSha) 7 0
  rw [pinnedRun_files]
  by_cases htmp : p = tmpPath [114] ((sampleSave 7).key sampleSha) 7 0
  · simp [htmp, hne]
  · by_cases hfinal : p = finalPath [114] ((sampleSave 7).key sampleSha)
    · simp [hfinal, hne.symm]
    · simp [htmp, hfinal]

/-- What a listing of the directory then shows. -/
theorem pinnedRun_lists :
    Lists [114] (run (sysStep sampleSha (fun _ _ => 0) [114]) emptySys pinnedRun).srv.files
      [binToHex ((sampleSave 7).key sampleSha).bytes ++ kvcSuffix] := by
  intro name
  rw [pinnedRun_files_iff, finalPath_eq_joinName, joinName_inj, List.mem_singleton]

set_option maxRecDepth 40000 in
/-- **A pin is lost.** The key was first saved for another reason, so its file does not speak of
    the pin. -/
theorem pinnedRun_not_restarted :
    let s := (run (sysStep sampleSha (fun _ _ => 0) [114]) emptySys pinnedRun).srv
    let names := [binToHex ((sampleSave 7).key sampleSha).bytes ++ kvcSuffix]
    Started sampleSha [114] emptySys ∧ Lists [114] s.files names ∧
      Lists [114] (sweepTmps (sampleEnv 3) [114] names (State.init s.files)).files names ∧
      Named sampleSha [114] s.files ∧
      ¬ Restarted sampleSha [114] .disk s
        (restart sampleSha (fun _ _ => 0) (sampleEnv 3) [114] .disk 1 names names s) := by
  refine ⟨emptySys_started, pinnedRun_lists, pinnedRun_lists, ?_, fun h => ?_⟩
  · intro key bin info hbin _
    have hthere : finalPath [114] key = finalPath [114] ((sampleSave 7).key sampleSha) :=
      (pinnedRun_files_iff _).mp (by simp [hbin])
    rw [finalPath_inj.mp hthere]
    rfl
  · have hpinned : (run (sysStep sampleSha (fun _ _ => 0) [114]) emptySys
        pinnedRun).srv.pinned.lookup sampleNs = some ((sampleSave 7).key sampleSha) := by
      decide +kernel
    have hrow : ((run (sysStep sampleSha (fun _ _ => 0) [114]) emptySys
        pinnedRun).srv.metaTbl.lookup ((sampleSave 7).key sampleSha)).map Row.status =
          some .available := by
      decide +kernel
    have hlost : (restart sampleSha (fun _ _ => 0) (sampleEnv 3) [114] .disk 1
        [binToHex ((sampleSave 7).key sampleSha).bytes ++ kvcSuffix]
        [binToHex ((sampleSave 7).key sampleSha).bytes ++ kvcSuffix]
        (run (sysStep sampleSha (fun _ _ => 0) [114]) emptySys pinnedRun).srv).pinned.lookup
          sampleNs = none := by
      decide +kernel
    obtain ⟨row, hlookup, hav⟩ := Option.map_eq_some_iff.mp hrow
    have hkept := h.pins sampleNs _ row hpinned hlookup hav
    rw [hlost] at hkept
    cases hkept

end Erllama.Publish
