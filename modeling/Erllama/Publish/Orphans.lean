import Erllama.MetaSrv.Deletions
import Erllama.Publish.Confined

namespace Erllama.Publish

open Lib MetaSrv Kvc

/-!
# No published file is lost

A final file that parses takes space that eviction reclaims only through the index, so its key
should have an available row, or a reservation that will install one.  The link and the call
that marks the reservation are two steps; what matters is when the link is made, and what
drops a reservation.

* `Covered` — every final file that parses has an available entry or a claim.
* `Event.KeepsTrack` — the steps that keep it: a link is made under a reservation, no
  reservation of such a file is dropped unseen, and no deletion of such a file fails.
* `run_noOrphan` — the runs of such steps leave no orphan.
-/

section Definitions

variable (sha256 : Bytes → Digest) (hitBias : Nat → Int → Int) (root : Path)

/-- The key has an available entry, or somebody is about to publish it. -/
def Listed (i : Index) (key : CacheKey) : Prop :=
  i.claim key ≠ none ∨ ∃ e, i.entry key = some e ∧ e.status = .available

/-- Every final file that parses is listed. -/
def Covered (i : Index) : Prop := ∀ key, Valid sha256 root i.files key → Listed i key

/-- The callback drops no reservation of a final file that parses, and where it deletes such a
    file, the deletion does not fail. -/
structure CallbackKeepsTrack (s : State) (e : MetaSrv.Event) : Prop where
  dropped : ∀ key ∈ dropped s e, ¬ Valid sha256 root s.files key
  deletes : ∀ key, Valid sha256 root s.files key → Deleted (step (deps sha256 hitBias) s e) key →
    e.env.fails .delete (finalPath root key) = false

/-- A final name is linked under a reservation of its key; for a call, see
    `CallbackKeepsTrack`. -/
def Act.KeepsTrack (s : State) (env : Env) (frm : From) : Act → Prop
  | .call msg       => CallbackKeepsTrack sha256 hitBias root s ⟨env, frm, msg⟩
  | .makeLink _ dst => ∀ key, dst = finalPath root key → s.reservations.lookup key ≠ none
  | _               => True

/-- The step loses track of no final file that parses. -/
def Event.KeepsTrack (s : Sys) : Event → Prop
  | .act u env _        => ∀ a, s.nextAct u = some a →
    a.KeepsTrack sha256 hitBias root s.srv env u
  | .server env frm msg => CallbackKeepsTrack sha256 hitBias root s.srv ⟨env, frm, msg⟩
  | _                   => True

/-- A final file that parses, and whose key nobody has reserved, is available. -/
def NoOrphan (s : Sys) : Prop :=
  ∀ key, s.srv.reservations.lookup key = none → Valid sha256 root s.srv.files key →
    ∃ row, s.srv.metaTbl.lookup key = some row ∧ row.status = .available

end Definitions

variable {sha256 : Bytes → Digest} {hitBias : Nat → Int → Int} {root : Path}
  {K : CacheKey → Prop} {i j : Index} {d : Deps} {env : Env} {key : CacheKey}

/-! ### One key at a time -/

/-- A step at one key. -/
theorem covered_of_key (h : Covered sha256 root i) (key : CacheKey)
    (hentry : ∀ k, k ≠ key → j.entry k = i.entry k)
    (hclaim : ∀ k, k ≠ key → j.claim k = i.claim k)
    (hfiles : ∀ k, k ≠ key → Valid sha256 root j.files k → Valid sha256 root i.files k)
    (hkey : Valid sha256 root j.files key → Listed j key) : Covered sha256 root j := by
  intro k hv
  by_cases hk : k = key
  · subst hk
    exact hkey hv
  · have hlists := h k (hfiles k hk hv)
    rwa [Listed, ← hentry k hk, ← hclaim k hk] at hlists

/-- Fewer final files that parse, under the same index. -/
theorem covered_of_files (h : Covered sha256 root i) (hentry : j.entry = i.entry)
    (hclaim : j.claim = i.claim)
    (hfiles : ∀ k, Valid sha256 root j.files k → Valid sha256 root i.files k) :
    Covered sha256 root j := by
  intro k hv
  have hlists := h k (hfiles k hv)
  rwa [Listed, ← hentry, ← hclaim] at hlists

/-- Removing a file makes no final file parse. -/
theorem valid_of_remove {files : Files} {p : Path} {k : CacheKey}
    (h : Valid sha256 root (Function.update files p none) k) : Valid sha256 root files k := by
  obtain ⟨bin, info, payload, hbin, hparse⟩ := h
  by_cases hp : finalPath root k = p
  · rw [hp, Function.update_self] at hbin
    cases hbin
  · rw [Function.update_of_ne hp] at hbin
    exact ⟨bin, info, payload, hbin, hparse⟩

/-- What is valid after a deletion was so before. -/
theorem valid_of_unlink {path : Option Path} {k : CacheKey}
    (h : Valid sha256 root (i.unlink env path).files k) : Valid sha256 root i.files k := by
  cases path with
  | none   => exact h
  | some p =>
    simp only [Index.unlink] at h
    split at h
    · exact h
    · exact valid_of_remove h

/-- A file that still parses after its deletion: the deletion failed. -/
theorem fails_of_valid_unlink
    (h : Valid sha256 root (i.unlink env (some (finalPath root key))).files key) :
    env.fails .delete (finalPath root key) = true := by
  obtain ⟨bin, info, payload, hbin, -⟩ := h
  by_contra hworks
  simp [Index.unlink, hworks] at hbin

/-- What is valid after a writer was cleaned up was so before. -/
theorem valid_of_cleanup {c : Claim} {k : CacheKey}
    (h : Valid sha256 root (i.cleanup key d env c).files k) : Valid sha256 root i.files k := by
  unfold Index.cleanup at h
  cases hstage : c.stage with
  | preLink  =>
    rw [hstage] at h
    exact h
  | postLink =>
    rw [hstage] at h
    dsimp only at h
    cases hval : i.validate key d env c.path with
    | some a =>
      rw [hval] at h
      exact h
    | none   =>
      rw [hval] at h
      exact valid_of_unlink h

/-- A published key is listed. -/
theorem listed_publish (i : Index) (key : CacheKey) (tier : Tier) (path : Option Path)
    (size : Nat) (header : Bytes) (tokensBin : Option Bytes) (textBytes : Nat) :
    Listed (i.publish key tier path size header tokensBin textBytes) key := by
  have hentry : (i.publish key tier path size header tokensBin textBytes).entry key =
      some ⟨.available, tier, size, header, locationFor tier path, tokensBin, textBytes⟩ := by
    simp [Index.publish]
  exact Or.inr ⟨_, hentry, rfl⟩

/-! ### The moves of the server -/

/-- Its deletion failed: the key has lost its entry and its claim, and the file is there. -/
def Lost (root : Path) (env : Env) (i : Index) (key : CacheKey) : Prop :=
  i.Ended key ∧ env.fails .delete (finalPath root key) = true

/-- A cleanup looks at the disk, or its key has no file that parses. -/
theorem listed_cleanup (hs : Sound sha256 root K i) {c : Claim} (hc : i.claim key = some c)
    (hdrop : c.stage = .preLink → ¬ Valid sha256 root i.files key)
    (hv : Valid sha256 root (i.cleanup key d env c).files key) :
    Listed (i.cleanup key d env c) key ∨ Lost root env (i.cleanup key d env c) key := by
  unfold Index.cleanup at hv ⊢
  cases hstage : c.stage with
  | preLink  =>
    rw [hstage] at hv
    exact absurd hv (hdrop hstage)
  | postLink =>
    obtain ⟨hpath, -⟩ := (hs key).marked c hc hstage
    rw [hstage] at hv
    dsimp only at hv ⊢
    cases hval : i.validate key d env c.path with
    | some a => exact Or.inl (listed_publish i key _ _ _ _ _ _)
    | none   =>
      rw [hval, hpath] at hv
      refine Or.inr ⟨?_, fails_of_valid_unlink hv⟩
      simp [Index.Ended, Index.forget]

/-- An eviction takes the file with the row, and nobody else has claimed its key. -/
theorem lost_evict (hs : Sound sha256 root K i) {e : Entry} (he : i.entry key = some e)
    (hav : e.status = .available)
    (hv : Valid sha256 root ((i.deletePayload env e.tier e.location).setEntry key none).files key) :
    Lost root env ((i.deletePayload env e.tier e.location).setEntry key none) key := by
  obtain ⟨htier, hloc, -⟩ := (hs key).located e he hav
  have hpayload : i.deletePayload env e.tier e.location =
      i.unlink env (some (finalPath root key)) := by
    rw [hloc]
    cases ht : e.tier with
    | ram     => exact absurd ht htier
    | disk    => rfl
    | ramFile => rfl
  have hclaim : i.claim key = none := by
    by_contra hne
    obtain ⟨c, hc⟩ := Option.ne_none_iff_exists'.mp hne
    obtain ⟨-, e', he', hwriting⟩ := (hs key).claimed c hc
    cases he.symm.trans he'
    cases hav.symm.trans hwriting
  rw [hpayload] at hv ⊢
  refine ⟨⟨by simp, ?_⟩, fails_of_valid_unlink hv⟩
  simpa using hclaim

/-- What is valid after an eviction was so before, at another key. -/
theorem valid_of_evict (hs : Sound sha256 root K i) {e : Entry} (he : i.entry key = some e)
    (hav : e.status = .available) {k : CacheKey}
    (hv : Valid sha256 root ((i.deletePayload env e.tier e.location).setEntry key none).files k) :
    Valid sha256 root i.files k := by
  obtain ⟨htier, hloc, -⟩ := (hs key).located e he hav
  rw [hloc] at hv
  cases ht : e.tier with
  | ram => exact absurd ht htier
  | _   =>
    rw [ht] at hv
    exact valid_of_unlink hv

/-- Whatever the server does beside the save pipeline: a final file that parses stays listed, or
    its key is lost. -/
theorem listed_moves {D : CacheKey → Prop} (hs : Sound sha256 root K i)
    (h : Covered sha256 root i) (hdrop : ∀ key, D key → ¬ Valid sha256 root i.files key)
    (hmoves : Index.Moves d env D i j) :
    (∀ k, Valid sha256 root j.files k → Listed j k ∨ Lost root env j k) ∧
      ∀ k, Valid sha256 root j.files k → Valid sha256 root i.files k := by
  -- what keeps the entry and the claim of a key keeps it listed, or lost
  have hsame : ∀ {i j : Index} {k}, j.entry k = i.entry k → j.claim k = i.claim k →
      Listed i k ∨ Lost root env i k → Listed j k ∨ Lost root env j k := by
    intro i j k he hc hk
    rwa [Listed, Lost, Index.Ended, he, hc]
  induction hmoves with
  | refl => exact ⟨fun k hv => Or.inl (h k hv), fun _ => id⟩
  | @tail j j' hpre hmove ih =>
    obtain ⟨hcov, hshrink⟩ := ih
    have hsound : Sound sha256 root K j := (moved_moves hs hpre).sound
    cases hmove with
    | tick n hn => exact ⟨hcov, hshrink⟩
    | touch key e hits n he hav hn =>
      obtain ⟨htier, hloc, -⟩ := (hsound key).located e he hav
      obtain ⟨hentry, hclaim, -⟩ := Index.touch_frame env j e.location hits
      have hvalid : ∀ k, Valid sha256 root (j.touch env e.location hits).files k →
          Valid sha256 root j.files k := by
        intro k hv
        rw [hloc] at hv
        exact (valid_touch _ hsound htier key k hits).mp hv
      exact ⟨fun k hv => hsame (congrFun hentry k) (congrFun hclaim k) (hcov k (hvalid k hv)),
        fun k hv => hshrink k (hvalid k hv)⟩
    | cleanup key c hc hd =>
      refine ⟨fun k hv => ?_, fun k hv => hshrink k (valid_of_cleanup hv)⟩
      by_cases hk : k = key
      · subst hk
        refine listed_cleanup hsound hc (fun hstage hv' => ?_) hv
        exact hdrop k (hd hstage) (hshrink k hv')
      · refine hsame (Index.entry_cleanup_of_ne j hk c) ?_ (hcov k (valid_of_cleanup hv))
        rw [Index.claim_cleanup, if_neg hk]
    | evict key e he hav =>
      refine ⟨fun k hv => ?_, fun k hv => hshrink k (valid_of_evict hsound he hav hv)⟩
      by_cases hk : k = key
      · subst hk
        exact Or.inr (lost_evict hsound he hav hv)
      · obtain ⟨hentry, hclaim, -⟩ := Index.deletePayload_frame env j e.tier e.location
        refine hsame ?_ (congrFun hclaim k) (hcov k (valid_of_evict hsound he hav hv))
        rw [Index.entry_setEntry, if_neg hk, hentry]

/-- A listed key that a background message ends, and whose reservation it does not drop, is one
    whose payload it deletes. -/
theorem locates_of_listed {D : CacheKey → Prop} (hs : Sound sha256 root K i)
    (hlisted : Listed i key) (hdrop : ¬ D key) (hmoves : Index.Moves d env D i j)
    (hend : j.Ended key) : i.Locates key := by
  cases hclaim : i.claim key with
  | some c =>
    cases hstage : c.stage with
    | preLink =>
      rcases hmoves.claim key with hsame | ⟨-, hdropped⟩
      · cases hend.2.symm.trans (hsame.trans hclaim)
      · exact absurd (hdropped c hclaim hstage) hdrop
    | postLink =>
      obtain ⟨hpath, -⟩ := (hs key).marked c hclaim hstage
      exact Or.inr ⟨c, _, hclaim, hstage, hpath⟩
  | none =>
    obtain ⟨e, he, hav⟩ := hlisted.resolve_left fun hne => hne hclaim
    obtain ⟨-, hloc, -⟩ := (hs key).located e he hav
    exact Or.inl ⟨hclaim, e, _, he, hloc⟩

/-! ### The calls of the save pipeline -/

/-- A grant leaves the key claimed, whatever was cleaned up before it. -/
theorem covered_reserve (h : Covered sha256 root i) (tier : Tier) (pid : Pid)
    (hentry : ∀ k, k ≠ key → j.entry k = i.entry k)
    (hclaim : ∀ k, k ≠ key → j.claim k = i.claim k)
    (hfiles : ∀ k, Valid sha256 root j.files k → Valid sha256 root i.files k) :
    Covered sha256 root (j.reserve key tier pid) :=
  covered_of_key h key (fun k hk => by simp [hk, hentry k hk])
    (fun k hk => by simp [hk, hclaim k hk]) (fun k _ => hfiles k) fun _ => Or.inl (by simp)

/-- A call of the save pipeline that cancels no reservation of a final file that parses. -/
theorem covered_pipeline {s : State} {frm : From} {msg : Msg} (h : Covered sha256 root s.index)
    (hmsg : isPipeline msg = true)
    (hdrop : ∀ key ∈ dropped s ⟨env, frm, msg⟩, ¬ Valid sha256 root s.files key) :
    Covered sha256 root (step d s ⟨env, frm, msg⟩).index := by
  set s0 := s.startCallback with hs0
  have h0 : Covered sha256 root s0.index := h
  cases msg with
  -- A reservation keeps the claim of its key, whatever the cleanup found there.
  | reserveSave key tier pid =>
    have hstep : step d s ⟨env, frm, .reserveSave key tier pid⟩ =
        doReserveSave d env key tier pid frm s0 := rfl
    rw [hstep]
    rcases index_doReserveSave d env s0 key tier pid frm with
      ⟨hsame, -⟩ | ⟨-, -, ⟨-, heq⟩ | ⟨c, -, heq⟩⟩
    · rw [hsame]
      exact h0
    · rw [heq]
      exact covered_reserve h0 tier pid (fun _ _ => rfl) (fun _ _ => rfl) fun _ => id
    · rw [heq]
      exact covered_reserve h0 tier pid (fun k hk => Index.entry_cleanup_of_ne _ hk c)
        (fun k hk => by rw [Index.claim_cleanup, if_neg hk]) fun k => valid_of_cleanup
  | checkReservation key token =>
    have hindex : (step d s ⟨env, frm, .checkReservation key token⟩).index = s.index :=
      index_handleCheckReservation s0 key token frm
    rw [hindex]
    exact h
  | markPublished key token path =>
    have hstep : step d s ⟨env, frm, .markPublished key token path⟩ =
        handleMarkPublished env key token path frm s0 := rfl
    rw [hstep]
    cases hr : s0.reservationWith key token with
    | none =>
      have hsame : (handleMarkPublished env key token path frm s0).index = s0.index := by
        simp only [handleMarkPublished, hr]
        rfl
      rw [hsame]
      exact h0
    | some r =>
      -- a published claim is a claim
      rw [index_handleMarkPublished s0 key hr]
      exact covered_of_key h0 key (fun _ _ => rfl) (fun k hk => by simp [Index.mark, hk])
        (fun _ _ => id) fun _ => Or.inl (by simp [Index.mark])
  | announceSaved key token size header tokensBin textBytes =>
    have hstep : step d s ⟨env, frm, .announceSaved key token size header tokensBin textBytes⟩ =
        handleAnnounceSaved env key token size header tokensBin textBytes frm s0 := rfl
    rw [hstep]
    cases hr : s0.reservationWith key token with
    | none =>
      have hsame : (handleAnnounceSaved env key token size header tokensBin textBytes frm
          s0).index = s0.index := by
        simp only [handleAnnounceSaved, hr]
        rfl
      rw [hsame]
      exact h0
    | some r =>
      -- the announced row is listed
      rw [index_handleAnnounceSaved s0 key hr]
      exact covered_of_key h0 key (fun k hk => by simp [Index.publish, hk])
        (fun k hk => by simp [Index.publish, hk]) (fun _ _ => id)
        fun _ => listed_publish _ _ _ _ _ _ _ _
  | cancelReservation key token =>
    have hstep : step d s ⟨env, frm, .cancelReservation key token⟩ =
        handleCancelReservation key token frm s0 := rfl
    rw [hstep]
    cases hr : s0.reservationWith key token with
    | none =>
      have hsame : (handleCancelReservation key token frm s0).index = s0.index := by
        simp only [handleCancelReservation, hr]
        rfl
      rw [hsame]
      exact h0
    | some r =>
      -- The cancelled key is dropped, so its file is not a valid one.
      have hr' : s.reservationWith key token = some r := hr
      have hdropped : key ∈ dropped s ⟨env, frm, .cancelReservation key token⟩ := by
        simp [dropped, hr']
      rw [index_handleCancelReservation s0 key hr]
      exact covered_of_key h0 key (fun k hk => by simp [Index.forget, hk])
        (fun k hk => by simp [Index.forget, hk]) (fun _ _ => id)
        fun hv => absurd hv (hdrop key hdropped)
  | _ => cases hmsg

/-- A callback that keeps track. -/
theorem covered_callback {s : State} {frm : From} {msg : Msg}
    (hs : Sound sha256 root K s.index) (h : Covered sha256 root s.index)
    (hmsg : msg.isBackground = true ∨ isPipeline msg = true)
    (hkeep : CallbackKeepsTrack sha256 hitBias root s ⟨env, frm, msg⟩) :
    Covered sha256 root (step (deps sha256 hitBias) s ⟨env, frm, msg⟩).index := by
  rcases hmsg with hbg | hpipe
  · have hmoves : Index.Moves (deps sha256 hitBias) env (· ∈ dropped s ⟨env, frm, msg⟩) s.index
        (step (deps sha256 hitBias) s ⟨env, frm, msg⟩).index := index_background s frm hbg
    obtain ⟨hlisted, hshrink⟩ := listed_moves hs h hkeep.dropped hmoves
    intro key hv
    refine (hlisted key hv).resolve_right fun hlost => ?_
    -- its file was deleted, and that did not fail
    have hv' := hshrink key hv
    have hlocates : s.index.Locates key :=
      locates_of_listed hs (h key hv') (fun hd => hkeep.dropped key hd hv') hmoves hlost.1
    have hworks := hkeep.deletes key hv' (background_deletes hbg hlocates hlost.1)
    cases hworks.symm.trans hlost.2
  · exact covered_pipeline h hpipe hkeep.dropped

/-! ### The actions of a process -/

/-- Writing under a temporary name concerns no final file. -/
theorem covered_setTmp {s : State} (h : Covered sha256 root s.index) {p : Path}
    (hp : IsTmp root p) (content : Option Bytes) :
    Covered sha256 root (setFile p content s).index := by
  refine covered_of_files h rfl rfl fun k => (valid_congr _ ?_).mp
  exact Function.update_of_ne (hp.ne_finalPath k).symm _ _

/-- **Actions.** An action that keeps track keeps every final file that parses listed. -/
theorem covered_perform {s : State} {frm : From} {fault : Fault} {a : Act}
    (hs : Sound sha256 root K s.index) (h : Covered sha256 root s.index)
    (ha : a.Confined root) (hkeep : a.KeepsTrack sha256 hitBias root s env frm) :
    Covered sha256 root (perform (deps sha256 hitBias) env frm fault a s).2.index := by
  cases a with
  | call msg => exact covered_callback hs h ha hkeep
  | openExclusive p =>
    simp only [perform]
    split
    · exact h
    · cases s.files p with
      | none   => exact covered_setTmp h ha _
      | some _ => exact h
  | write p data =>
    simp only [perform]
    cases s.files p with
    | none   => exact h
    | some _ =>
      dsimp only
      split
      · exact covered_setTmp h ha _
      · exact covered_setTmp h ha _
  | makeLink src dst =>
    obtain ⟨key, rfl⟩ := ha
    simp only [perform]
    split
    · exact h
    · cases s.files src with
      | none     => exact h
      | some bin =>
        cases s.files (finalPath root key) with
        | some _ => exact h
        | none   =>
          -- the reservation under which the link is made lists the new file
          refine covered_of_key h key (fun _ _ => rfl) (fun _ _ => rfl) (fun k hk => ?_)
            fun _ => Or.inl ?_
          · exact (valid_update_of_ne hk _).mp
          · have hres := hkeep key rfl
            simpa [setFile] using hres
  | delete p =>
    rcases perform_delete (deps sha256 hitBias) env frm fault p s with ht | ht
    · rw [ht]
      exact h
    · rw [ht]
      exact covered_of_files h rfl rfl fun k => valid_of_remove
  | readFile p | readFileInfo p | datasync p | fsyncDir p =>
    rw [perform_quiet rfl s]
    exact h

/-! ### Runs -/

/-- The invariant of a run that keeps track. -/
structure TracksAll (sha256 : Bytes → Digest) (hitBias : Nat → Int → Int) (root : Path)
    (s : Sys) : Prop where
  sound : SysSound sha256 hitBias root (fun _ => False) s
  confined : SysConfined root s
  covered : Covered sha256 root s.srv.index

/-- **Step.** A step that keeps track keeps the invariant. -/
theorem tracksAll_step {s : Sys} (h : TracksAll sha256 hitBias root s) {e : Event}
    (he : e.KeepsTrack sha256 hitBias root s) :
    TracksAll sha256 hitBias root (sysStep sha256 hitBias root s e) := by
  refine ⟨sysSound_step h.sound (spares_none s e), sysConfined_step h.confined e, ?_⟩
  cases e with
  | spawn job => exact h.covered
  | crash u   => exact h.covered
  | act u env fault =>
    have hstep : sysStep sha256 hitBias root s (.act u env fault) =
        s.act sha256 hitBias u env fault := rfl
    rw [hstep]
    rcases act_cases sha256 hitBias s u env fault with ⟨-, heq⟩ | ⟨a, k, -, hnext, heq⟩
    · rw [heq]
      exact h.covered
    · rw [heq]
      exact covered_perform h.sound.1 h.covered (h.confined.nextAct hnext) (he a hnext)
  | server env frm msg =>
    simp only [sysStep]
    split
    · rename_i hbg
      exact covered_callback h.sound.1 h.covered (Or.inl hbg) he
    · exact h.covered

/-- **No orphan.** In every run of saves, loads, crashes, sweeps and evictions whose steps keep
    track, from a tier whose files are indexed: a final file that parses and that nobody has
    reserved is available. -/
theorem run_noOrphan (sha256 : Bytes → Digest) (hitBias : Nat → Int → Int) (root : Path) (s : Sys)
    (h : Started sha256 root s)
    (hrows : ∀ key, Valid sha256 root s.srv.files key → s.srv.metaTbl.lookup key ≠ none)
    (es : List Event)
    (hes : AllSteps (sysStep sha256 hitBias root)
      (fun s e => e.KeepsTrack sha256 hitBias root s) s es) :
    NoOrphan sha256 root (run (sysStep sha256 hitBias root) s es) := by
  have hstart : TracksAll sha256 hitBias root s := by
    refine ⟨h.sysSound, fun u p hp => ?_, fun key hv => Or.inr ?_⟩
    · rw [h.threads] at hp
      cases hp
    · obtain ⟨row, hrow⟩ := Option.ne_none_iff_exists'.mp (hrows key hv)
      exact ⟨row.entry, by simp [hrow], (h.rows key row hrow).1⟩
  have hinv := AllSteps.invariant (I := TracksAll sha256 hitBias root)
    (fun _ _ hs he => tracksAll_step hs he) hstart hes
  intro key hnone hv
  rcases hinv.covered key hv with hclaim | ⟨e, he, hav⟩
  · rw [index_claim, hnone] at hclaim
    exact absurd rfl hclaim
  · obtain ⟨row, hrow, rfl⟩ := Option.map_eq_some_iff.mp he
    exact ⟨row, hrow, hav⟩

/-! ### A link that nobody remembers -/

/-- A file that is there and is accepted by the parser. -/
theorem valid_of_isOk {files : Files} {key : CacheKey}
    (h : (files (finalPath root key)).map (fun bin => (parse sha256 bin key).isOk) = some true) :
    Valid sha256 root files key := by
  obtain ⟨bin, hbin, hok⟩ := Option.map_eq_some_iff.mp h
  cases hparse : parse sha256 bin key with
  | error e =>
    rw [hparse] at hok
    cases hok
  | ok x => exact ⟨bin, x.1, x.2, hbin, hparse⟩

section Checks

variable (sha256 : Bytes → Digest) (hitBias : Nat → Int → Int) (root : Path)

/-- The reservations that the callback drops are of free names, and its deletions work. -/
def callbackTracks (s : State) (e : MetaSrv.Event) : Bool :=
  ((dropped s e).all fun key => (s.files (finalPath root key)).isNone) &&
    (step (deps sha256 hitBias) s e).out.all fun
      | .deleteSlab key | .deleteFile key _ => !e.env.fails .delete (finalPath root key)
      | _                                   => true

/-- A name is linked only while a key of that name is reserved. -/
def Act.tracks (s : State) (env : Env) (frm : From) : Act → Bool
  | .call msg       => callbackTracks sha256 hitBias root s ⟨env, frm, msg⟩
  | .makeLink _ dst => s.reservations.keys.any fun key => finalPath root key = dst
  | _               => true

/-- The step keeps track of every file, whether it parses or not. -/
def Event.tracks (s : Sys) : Event → Bool
  | .act u env _        => ((s.nextAct u).map (·.tracks sha256 hitBias root s.srv env u)).getD true
  | .server env frm msg => callbackTracks sha256 hitBias root s.srv ⟨env, frm, msg⟩
  | _                   => true

end Checks

/-- The test on callbacks that runs evaluate. -/
theorem callbackKeepsTrack_of_tracks {s : State} {e : MetaSrv.Event}
    (h : callbackTracks sha256 hitBias root s e = true) :
    CallbackKeepsTrack sha256 hitBias root s e := by
  rw [callbackTracks, Bool.and_eq_true, List.all_eq_true, List.all_eq_true] at h
  refine ⟨fun key hdrop => ?_, fun key _ ⟨o, ho, hdel⟩ => ?_⟩
  · rintro ⟨bin, info, payload, hbin, -⟩
    have hfree := h.1 key hdrop
    rw [hbin] at hfree
    cases hfree
  · have hworks := h.2 o ho
    cases o with
    | deleteSlab k   => exact (hdel : k = key) ▸ (by simpa using hworks)
    | deleteFile k p => exact (hdel : k = key) ▸ (by simpa using hworks)
    | _              => exact hdel.elim

/-- The same on events. -/
theorem Event.keepsTrack_of_tracks {s : Sys} {e : Event}
    (h : e.tracks sha256 hitBias root s = true) : e.KeepsTrack sha256 hitBias root s := by
  cases e with
  | act u env fault =>
    intro a ha
    simp only [Event.tracks, ha, Option.map_some, Option.getD_some] at h
    cases a with
    | call msg => exact callbackKeepsTrack_of_tracks h
    | makeLink src dst =>
      rintro key rfl
      obtain ⟨k, hk, heq⟩ := List.any_eq_true.mp h
      have hkey : k = key := finalPath_inj.mp (of_decide_eq_true heq)
      subst hkey
      exact Option.isSome_iff_ne_none.mp (AList.lookup_isSome.mpr (AList.mem_keys.mp hk))
    | _ => trivial
  | server env frm msg => exact callbackKeepsTrack_of_tracks h
  | _ => trivial

/-- A save publishes and its row is evicted with its file; a second writer dies after its
    temporary file is written, and a sweep drops its reservation, in a callback that could
    delete nothing; a third save publishes. -/
def trackedRun : List Event :=
  let late : Int := 100000000000
  [.spawn (.save (sampleSave 7))] ++ List.replicate 12 (acts 0 0) ++
    [.server (sampleEnv 0) 1 .gc, .spawn (.save (sampleSave 8))] ++
    List.replicate 4 (acts 1 0) ++
    [.crash 1, .server { sampleEnv late with fails := fun _ _ => true } 1 .sweep,
      .spawn (.save (sampleSave 9))] ++ List.replicate 12 (acts 2 late)

set_option maxRecDepth 4000 in
/-- A saved file is listed, and still valid. -/
theorem run_noOrphan_trackedRun :
    NoOrphan sampleSha [114] (run (sysStep sampleSha (fun _ _ => 0) [114]) emptySys trackedRun) ∧
      Valid sampleSha [114]
        (run (sysStep sampleSha (fun _ _ => 0) [114]) emptySys trackedRun).srv.files
        ((sampleSave 9).key sampleSha) := by
  have htracks : AllSteps (sysStep sampleSha (fun _ _ => 0) [114])
      (fun s e => e.tracks sampleSha (fun _ _ => 0) [114] s = true) emptySys trackedRun := by
    decide +kernel
  refine ⟨run_noOrphan sampleSha (fun _ _ => 0) [114] emptySys emptySys_started ?_ trackedRun ?_,
    valid_of_isOk (by decide +kernel)⟩
  · rintro key ⟨bin, info, payload, hbin, -⟩
    cases hbin
  · exact AllSteps.mono (fun _ _ => Event.keepsTrack_of_tracks) htracks

/-- A save whose directory sync fails after the link. -/
def failedSyncRun : List Event :=
  [.spawn (.save (sampleSave 7))] ++ List.replicate 7 (acts 0 0) ++
    [.act 0 (sampleEnv 0) ⟨true, 0⟩] ++ List.replicate 2 (acts 0 0)

set_option maxRecDepth 4000 in
/-- **An orphan.** The save cancels its reservation and leaves the file it has linked: nobody is
    at work, nobody has reserved the key, the file parses, and there is no row. -/
theorem failedSyncRun_orphan : Started sampleSha [114] emptySys ∧
    (∀ u, (run (sysStep sampleSha (fun _ _ => 0) [114]) emptySys failedSyncRun).nextAct u =
      none) ∧
    ¬ NoOrphan sampleSha [114]
      (run (sysStep sampleSha (fun _ _ => 0) [114]) emptySys failedSyncRun) := by
  refine ⟨emptySys_started, fun u => ?_, fun h => ?_⟩
  · cases u with
    | zero   => exact Option.isNone_iff_eq_none.mp (by decide +kernel)
    | succ n => rfl
  · have hfile : ((run (sysStep sampleSha (fun _ _ => 0) [114]) emptySys failedSyncRun).srv.files
        (finalPath [114] ((sampleSave 7).key sampleSha))).map (fun bin =>
          (parse sampleSha bin ((sampleSave 7).key sampleSha)).isOk) = some true := by
      decide +kernel
    have hres : (run (sysStep sampleSha (fun _ _ => 0) [114]) emptySys
        failedSyncRun).srv.reservations.lookup ((sampleSave 7).key sampleSha) = none := by
      decide +kernel
    have hrow : (run (sysStep sampleSha (fun _ _ => 0) [114]) emptySys
        failedSyncRun).srv.metaTbl.lookup ((sampleSave 7).key sampleSha) = none := by
      decide +kernel
    obtain ⟨row, hlookup, -⟩ := h _ hres (valid_of_isOk hfile)
    rw [hrow] at hlookup
    cases hlookup

end Erllama.Publish
