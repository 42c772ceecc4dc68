import Erllama.Kvc.Wellformed
import Erllama.MetaSrv.Holders
import Erllama.Publish.Metadata

namespace Erllama.Publish

open Lib MetaSrv Kvc

/-!
# The tokens that a load pairs with its payload

A load takes the token list from the row, at its checkout, and the payload from the file, which
it reads later.  The two belong together if every row says what its file says, and if the row and
the file stay what they are while the load holds the row.

* `FileTells` — the file of a key has this token list.
* `Event.Tells` — the steps that keep it so: an announce says what the file says, and no `DOWN`
  ends a checkout whose load is at work.
* `told_callback`, `told_perform` — every step keeps the rows true.
* `entry_held` — and the row of a held key what it is.
* `Phase` — where a process stands, and what it holds.
* `run_pairs` — the runs of such steps.
* `saved_row_pairs` — when the row of a save describes its file, and that loads pair.
-/

section Definitions

variable (sha256 : Bytes → Digest) (root : Path)

/-- The final file of the key parses, and this is its token list. -/
def FileTells (files : Files) (key : CacheKey) (tokensBin : Option Bytes) : Prop :=
  ∃ bin info payload, files (finalPath root key) = some bin ∧
    parse sha256 bin key = .ok (info, payload) ∧ tokensBin = some (encodeTokens info.tokens)

/-- Every available entry has the token list of its file. -/
def Told (i : Index) : Prop :=
  ∀ key e, i.entry key = some e → e.status = .available →
    FileTells sha256 root i.files key e.tokensRef

/-- An announce that is accepted hands over the token list of the file under the final name. -/
def Act.Tells (s : State) : Act → Prop
  | .call (.announceSaved key token _ _ tokensBin _) =>
    (s.reservationWith key token).isSome → FileTells sha256 root s.files key tokensBin
  | _ => True

/-- A load is between its checkout, under this reference, and its read. -/
def Sys.ReadsUnder (s : Sys) (ref : Ref) : Prop :=
  ∃ u key tier tokensBin,
    s.threads u = some (afterCheckout sha256 root key ref tier tokensBin)

/-- A process announces what the file says, and nobody else ends the checkout of a load that is
    between its checkout and its read. -/
def Event.Tells (s : Sys) : Event → Prop
  | .act u _ _                 => ∀ a, s.nextAct u = some a → a.Tells sha256 root s.srv
  | .server _ _ (.down ref)    => ¬ s.ReadsUnder sha256 root ref
  | .server _ _ (.checkin ref) => ¬ s.ReadsUnder sha256 root ref
  | _                          => True

/-- What a load returned: the token list of the file that it has its payload from, and that
    file is a whole one. -/
def Outcome.Paired : Outcome → Prop
  | .loaded key tokens info payload => tokens = info.tokens ∧
    ∃ bin, Whole sha256 key bin ∧ parse sha256 bin key = .ok (info, payload)
  | _ => True

/-- Every available row has the token list of its file, and every load that has ended paired its
    payload with the tokens it was built from. -/
def Pairs (s : Sys) : Prop :=
  (∀ key row, s.srv.metaTbl.lookup key = some row → row.status = .available →
    FileTells sha256 root s.srv.files key row.tokensRef) ∧
  ∀ u o, s.threads u = some (.ret o) → o.Paired sha256

end Definitions

variable {sha256 : Bytes → Digest} {hitBias : Nat → Int → Int} {root : Path}
  {K : CacheKey → Prop} {i j : Index} {d : Deps} {env : Env} {key : CacheKey}

/-! ### Rows that say what their files say -/

/-- What a file tells is a matter of its bytes. -/
theorem fileTells_congr {files files' : Files} {tokensBin : Option Bytes}
    (h : files' (finalPath root key) = files (finalPath root key))
    (ht : FileTells sha256 root files key tokensBin) :
    FileTells sha256 root files' key tokensBin := by
  obtain ⟨bin, info, payload, hbin, hrest⟩ := ht
  exact ⟨bin, info, payload, h.trans hbin, hrest⟩

/-- One key at a time. -/
theorem told_of_key (h : Told sha256 root i) (key : CacheKey)
    (hentry : ∀ k, k ≠ key → j.entry k = i.entry k)
    (hfiles : ∀ k, k ≠ key → j.files (finalPath root k) = i.files (finalPath root k))
    (hkey : ∀ e, j.entry key = some e → e.status = .available →
      FileTells sha256 root j.files key e.tokensRef) : Told sha256 root j := by
  intro k e he hav
  by_cases hk : k = key
  · subst hk
    exact hkey e he hav
  · exact fileTells_congr (hfiles k hk) (h k e (hentry k hk ▸ he) hav)

/-- A rewritten hit count leaves the token list of a whole file. -/
theorem fileTells_touch {tokensBin : Option Bytes} {tier : Tier} {hits : Nat}
    (hs : Sound sha256 root K i) (htier : tier ≠ .ram) (key' : CacheKey)
    (h : FileTells sha256 root i.files key tokensBin) :
    FileTells sha256 root (i.touch env (locationFor tier (some (finalPath root key'))) hits).files
      key tokensBin := by
  rcases files_touch root env i htier key' hits with hf | hf
  · rwa [hf]
  rw [hf]
  by_cases hk : key = key'
  · subst hk
    obtain ⟨bin, info, payload, hbin, hparse, htokens⟩ := h
    have hwhole : Whole sha256 key bin := by
      refine ((hs key).whole bin hbin).resolve_right fun hshort => ?_
      exact parse_of_short (by omega) hparse
    have hlen := hwhole.le_length
    obtain ⟨hits', hparse'⟩ :=
      hwhole.parse_sameButHits (sameButHits_writeAt (by omega) hits) hparse
    refine ⟨writeAt 12 (u32le hits) bin, info.withHits hits', payload, ?_, hparse', htokens⟩
    rw [Function.update_self, hbin]
    rfl
  · exact fileTells_congr (Function.update_of_ne (fun hp => hk (finalPath_inj.mp hp)) _ _) h

/-- What is adopted from the disk is what the file says. -/
theorem fileTells_validate {a : Adopted}
    (h : i.validate key (deps sha256 hitBias) env (some (finalPath root key)) = some a) :
    FileTells sha256 root i.files key (some a.tokensBin) := by
  obtain ⟨bin, hbin, hparsed⟩ := Option.bind_eq_some_iff.mp h
  obtain ⟨parsed, hparse, rfl⟩ := Option.map_eq_some_iff.mp hparsed
  rw [Option.bind_some] at hbin
  split at hbin
  · cases hbin
  · simp only [deps] at hparse
    split at hparse
    · rename_i info payload hok
      cases hparse
      exact ⟨bin, info, payload, hbin, hok, rfl⟩
    · cases hparse

/-- A cleanup leaves the final files of other keys alone. -/
theorem files_cleanup_of_ne {k : CacheKey} {c : Claim} (hs : Sound sha256 root K i)
    (hc : i.claim key = some c) (hk : k ≠ key) :
    (i.cleanup key d env c).files (finalPath root k) = i.files (finalPath root k) := by
  unfold Index.cleanup
  cases hstage : c.stage with
  | preLink  => rfl
  | postLink =>
    obtain ⟨hpath, -⟩ := (hs key).marked c hc hstage
    dsimp only
    cases i.validate key d env c.path with
    | some a => rfl
    | none   =>
      rw [hpath]
      exact files_unlink i _ _ fun hp => hk (finalPath_inj.mp hp)

/-- What a cleanup leaves available says what its file says. -/
theorem told_cleanup {c : Claim} {e : Entry} (hs : Sound sha256 root K i)
    (hc : i.claim key = some c)
    (he : (i.cleanup key (deps sha256 hitBias) env c).entry key = some e) :
    FileTells sha256 root (i.cleanup key (deps sha256 hitBias) env c).files key e.tokensRef := by
  unfold Index.cleanup at he ⊢
  cases hstage : c.stage with
  | preLink =>
    rw [hstage] at he
    simp [Index.forget] at he
  | postLink =>
    obtain ⟨hpath, -⟩ := (hs key).marked c hc hstage
    rw [hstage] at he
    dsimp only at he ⊢
    cases hval : i.validate key (deps sha256 hitBias) env c.path with
    | none =>
      rw [hval] at he
      simp [Index.forget] at he
    | some a =>
      rw [hval] at he
      rw [hpath] at hval
      simp only [Index.publish, Index.entry_setClaim, Index.entry_setEntry, if_true,
        Option.some.injEq] at he
      rw [← he]
      exact fileTells_validate hval

/-- So does an eviction. -/
theorem files_evict_of_ne {k : CacheKey} {e : Entry} (hs : Sound sha256 root K i)
    (he : i.entry key = some e) (hav : e.status = .available) (hk : k ≠ key) :
    (i.deletePayload env e.tier e.location).files (finalPath root k) =
      i.files (finalPath root k) := by
  obtain ⟨htier, hloc, -⟩ := (hs key).located e he hav
  have hne : finalPath root k ≠ finalPath root key := fun hp => hk (finalPath_inj.mp hp)
  rw [hloc]
  cases ht : e.tier with
  | ram     => exact absurd ht htier
  | disk    => exact files_unlink i _ _ hne
  | ramFile => exact files_unlink i _ _ hne

/-- Whatever the server does beside the save pipeline keeps the rows true. -/
theorem told_moves {D : CacheKey → Prop} (hs : Sound sha256 root K i) (h : Told sha256 root i)
    (hmoves : Index.Moves (deps sha256 hitBias) env D i j) : Told sha256 root j := by
  induction hmoves with
  | refl => exact h
  | @tail j j' hpre hmove ih =>
    have hsound : Sound sha256 root K j := (moved_moves hs hpre).sound
    cases hmove with
    | tick n hn => exact ih
    | touch key e hits n he hav hn =>
      obtain ⟨htier, hloc, -⟩ := (hsound key).located e he hav
      obtain ⟨hentry, -, -⟩ := Index.touch_frame env j e.location hits
      intro k e' he' hav'
      have htells := ih k e' ((congrFun hentry k).symm.trans he') hav'
      have hfiles : FileTells sha256 root
          (j.touch env (locationFor e.tier (some (finalPath root key))) hits).files k
          e'.tokensRef :=
        fileTells_touch hsound htier key htells
      rwa [← hloc] at hfiles
    | cleanup key c hc hd =>
      refine told_of_key ih key (fun k hk => Index.entry_cleanup_of_ne j hk c) (fun k hk => ?_)
        fun e he _ => ?_
      · exact files_cleanup_of_ne hsound hc hk
      · exact told_cleanup hsound hc he
    | evict key e he hav =>
      obtain ⟨htier, hloc, -⟩ := (hsound key).located e he hav
      obtain ⟨hentry, -, -⟩ := Index.deletePayload_frame env j e.tier e.location
      refine told_of_key ih key (fun k hk => ?_) (fun k hk => ?_) fun e' he' _ => ?_
      · rw [Index.entry_setEntry, if_neg hk, hentry]
      · exact files_evict_of_ne hsound he hav hk
      · rw [Index.entry_setEntry, if_pos rfl] at he'
        cases he'

/-- The claim behind an accepted token. -/
theorem claim_of_reservationWith {s : State} {token : Ref} {r : Reservation}
    (h : s.reservationWith key token = some r) : s.index.claim key = some r.claim := by
  rw [index_claim, ((reservationWith_eq_some_iff s key).mp h).1]
  rfl

/-- A call of the save pipeline keeps the rows true if its announce says what the file says. -/
theorem told_pipeline {s : State} {frm : From} {msg : Msg} (hs : Sound sha256 root K s.index)
    (h : Told sha256 root s.index) (hmsg : isPipeline msg = true)
    (htells : (Act.call msg).Tells sha256 root s) :
    Told sha256 root (step (deps sha256 hitBias) s ⟨env, frm, msg⟩).index := by
  set s0 := s.startCallback with hs0
  have h0 : Told sha256 root s0.index := h
  have hsound0 : Sound sha256 root K s0.index := hs
  have hreserve : ∀ {i : Index} {key tier pid}, Told sha256 root i →
      Told sha256 root (i.reserve key tier pid) := by
    intro i key tier pid hi
    refine told_of_key hi key (fun k hk => by simp [hk]) (fun _ _ => rfl) fun e he hav => ?_
    simp only [Index.entry_reserve, if_true, Option.some.injEq] at he
    rw [← he] at hav
    cases hav
  cases msg with
  -- The reservation may adopt a file, which says what its row then says.
  | reserveSave key tier pid =>
    have hstep : step (deps sha256 hitBias) s ⟨env, frm, .reserveSave key tier pid⟩ =
        doReserveSave (deps sha256 hitBias) env key tier pid frm s0 := rfl
    rw [hstep]
    rcases index_doReserveSave (deps sha256 hitBias) env s0 key tier pid frm with
      ⟨hsame, -⟩ | ⟨-, -, ⟨-, heq⟩ | ⟨c, hc, heq⟩⟩
    · rw [hsame]
      exact h0
    · rw [heq]
      exact hreserve h0
    · rw [heq]
      have hmove : Index.Moves (deps sha256 hitBias) env (fun _ => True) s0.index
          (s0.index.cleanup key (deps sha256 hitBias) env c) :=
        Relation.ReflTransGen.single (.cleanup s0.index key c hc fun _ => trivial)
      exact hreserve (told_moves hsound0 h0 hmove)
  | checkReservation key token =>
    have hindex : (step (deps sha256 hitBias) s ⟨env, frm, .checkReservation key token⟩).index =
        s.index := index_handleCheckReservation s0 key token frm
    rwa [hindex]
  | markPublished key token path =>
    have hstep : step (deps sha256 hitBias) s ⟨env, frm, .markPublished key token path⟩ =
        handleMarkPublished env key token path frm s0 := rfl
    rw [hstep]
    -- A token that is not the right one changes nothing.
    cases hr : s0.reservationWith key token with
    | none =>
      simp only [handleMarkPublished, hr, index_emit]
      exact h0
    | some r =>
      rw [index_handleMarkPublished s0 key hr]
      exact h0
  | announceSaved key token size header tokensBin textBytes =>
    have hstep : step (deps sha256 hitBias) s
        ⟨env, frm, .announceSaved key token size header tokensBin textBytes⟩ =
        handleAnnounceSaved env key token size header tokensBin textBytes frm s0 := rfl
    rw [hstep]
    cases hr : s0.reservationWith key token with
    | none =>
      simp only [handleAnnounceSaved, hr, index_emit]
      exact h0
    | some r =>
      rw [index_handleAnnounceSaved s0 key hr]
      -- The row that is announced says what the writer knows of its file.
      refine told_of_key h0 key (fun k hk => by simp [Index.publish, hk]) (fun _ _ => rfl)
        fun e he _ => ?_
      simp only [Index.publish, Index.entry_setClaim, Index.entry_setEntry, if_true,
        Option.some.injEq] at he
      have hsome : (s.reservationWith key token).isSome = true := by
        rw [show s.reservationWith key token = some r from hr]
        rfl
      rw [← he]
      exact htells hsome
  | cancelReservation key token =>
    have hstep : step (deps sha256 hitBias) s ⟨env, frm, .cancelReservation key token⟩ =
        handleCancelReservation key token frm s0 := rfl
    rw [hstep]
    cases hr : s0.reservationWith key token with
    | none =>
      simp only [handleCancelReservation, hr, index_emit]
      exact h0
    | some r =>
      rw [index_handleCancelReservation s0 key hr]
      refine told_of_key h0 key (fun k hk => by simp [Index.forget, hk]) (fun _ _ => rfl)
        fun e he _ => ?_
      simp [Index.forget] at he
  | _ => cases hmsg

/-- **Callbacks.** A callback keeps the rows true. -/
theorem told_callback {s : State} {frm : From} {msg : Msg} (hs : Sound sha256 root K s.index)
    (h : Told sha256 root s.index) (hmsg : msg.isBackground = true ∨ isPipeline msg = true)
    (htells : (Act.call msg).Tells sha256 root s) :
    Told sha256 root (step (deps sha256 hitBias) s ⟨env, frm, msg⟩).index := by
  rcases hmsg with hbg | hpipe
  · exact told_moves hs h (index_background s frm hbg)
  · exact told_pipeline hs h hpipe htells

/-- **Actions.** An action that spares the files that parse keeps the rows true. -/
theorem told_perform {s : State} {frm : From} {fault : Fault} {a : Act}
    (hs : Sound sha256 root K s.index) (h : Told sha256 root s.index) (ha : a.Confined root)
    (hspares : a.Spares sha256 root (fun _ => True) s.files) (htells : a.Tells sha256 root s) :
    Told sha256 root (perform (deps sha256 hitBias) env frm fault a s).2.index := by
  -- a file that an available row speaks of is there and parses
  have hset : ∀ (p : Path) (content : Option Bytes),
      (∀ key, p = finalPath root key → ∀ tokensBin, ¬ FileTells sha256 root s.files key tokensBin) →
      Told sha256 root (setFile p content s).index := by
    intro p content hp key e he hav
    have htold := h key e he hav
    refine fileTells_congr (Function.update_of_ne (fun heq => ?_) _ _) htold
    exact hp key heq.symm _ htold
  have htmp : ∀ {p : Path}, IsTmp root p → ∀ key, p = finalPath root key →
      ∀ tokensBin, ¬ FileTells sha256 root s.files key tokensBin :=
    fun hp key heq => absurd heq (hp.ne_finalPath key)
  cases a with
  | call msg => exact told_callback hs h ha htells
  | openExclusive p =>
    simp only [perform]
    split
    · exact h
    · cases s.files p with
      -- A new file is a temporary one.
      | none   => exact hset p _ (htmp ha)
      | some _ => exact h
  | write p data =>
    simp only [perform]
    cases s.files p with
    | none   => exact h
    | some _ =>
      dsimp only
      split
      -- So is what is written to.
      · exact hset p _ (htmp ha)
      · exact hset p _ (htmp ha)
  | makeLink src dst =>
    simp only [perform]
    split
    · exact h
    · cases s.files src with
      | none     => exact h
      | some bin =>
        cases hdst : s.files dst with
        | some _ => exact h
        | none   =>
          -- a link goes where no file was, so no row speaks of it
          refine hset dst _ fun key heq tokensBin ht => ?_
          obtain ⟨bin', info, payload, hbin', -⟩ := ht
          rw [← heq, hdst] at hbin'
          cases hbin'
  | delete p =>
    rcases perform_delete (deps sha256 hitBias) env frm fault p s with ht | ht
    · rw [ht]
      exact h
    · rw [ht]
      refine hset p none fun key heq tokensBin ht => hspares key trivial heq ?_
      obtain ⟨bin, info, payload, hbin, hparse, -⟩ := ht
      exact ⟨bin, info, payload, hbin, hparse⟩
  -- Reading and syncing change nothing.
  | readFile p | readFileInfo p | datasync p | fsyncDir p =>
    rw [perform_quiet rfl s]
    exact h

/-! ### Rows that are held -/

/-- A held key has an available entry and no claim. -/
theorem unclaimed_of_held {s : State} (hs : Sound sha256 root K s.index) (hc : ClaimsSound s)
    (hheld : 0 < holderCount s key) :
    s.index.claim key = none ∧ ∃ e, s.index.entry key = some e ∧ e.status = .available := by
  obtain ⟨row, hrow, hav⟩ := Option.map_eq_some_iff.mp (hc.held key hheld)
  have hentry : s.index.entry key = some row.entry := by
    rw [index_entry, hrow]
    rfl
  refine ⟨?_, row.entry, hentry, hav⟩
  by_contra hne
  obtain ⟨c, hclaim⟩ := Option.ne_none_iff_exists'.mp hne
  obtain ⟨-, e, he, hwriting⟩ := (hs key).claimed c hclaim
  cases hentry.symm.trans he
  exact absurd (hav.symm.trans hwriting) nofun

/-- So no callback of the tier rewrites or deletes the row of a held key. -/
theorem not_touchesHeld {s : State} {frm : From} {msg : Msg} (hs : Sound sha256 root K s.index)
    (hc : ClaimsSound s) (hmsg : msg.isBackground = true ∨ isPipeline msg = true) :
    ¬ TouchesHeld s ⟨env, frm, msg⟩ := by
  have hclaimed : ∀ {k r}, s.reservations.lookup k = some r → ¬ 0 < holderCount s k := by
    intro k r hr hheld
    have hnone := (unclaimed_of_held hs hc hheld).1
    rw [index_claim, hr] at hnone
    cases hnone
  have htoken : ∀ {k token}, (s.reservationWith k token).isSome = true →
      ¬ 0 < holderCount s k := by
    intro k token hsome
    obtain ⟨r, hr⟩ := Option.isSome_iff_exists.mp hsome
    exact hclaimed ((reservationWith_eq_some_iff s k).mp hr).1
  cases msg with
  | announceSaved k token _ _ _ _ => exact fun h => htoken h.1 h.2
  | cancelReservation k token     => exact fun h => htoken h.1 h.2
  | down ref =>
    rintro ⟨-, k, r, hfind, hheld⟩
    exact hclaimed (lookup_of_find hfind) hheld
  | sweep =>
    rintro ⟨k, hmem, hheld⟩
    obtain ⟨e, he, rfl⟩ := List.mem_map.mp hmem
    exact hclaimed (lookup_of_mem_stale (r := e.2) he) hheld
  | insertAvailable _ _ _ _ _ _ _ => rcases hmsg with h | h <;> cases h
  | filesChange _                 => rcases hmsg with h | h <;> cases h
  | _ => exact id

/-- A callback keeps the claims sound and the held rows. -/
theorem safe_callback {s : State} {frm : From} {msg : Msg} (hs : Sound sha256 root K s.index)
    (hc : ClaimsSound s) (hmsg : msg.isBackground = true ∨ isPipeline msg = true) :
    MetaSrv.Safe s.startCallback (step (deps sha256 hitBias) s ⟨env, frm, msg⟩) :=
  step_safe s ⟨env, frm, msg⟩ hc (not_touchesHeld hs hc hmsg)

/-- **Held rows.** A callback keeps the entry of every held key. -/
theorem entry_held {s : State} {frm : From} {msg : Msg} (hs : Sound sha256 root K s.index)
    (hc : ClaimsSound s) (hmsg : msg.isBackground = true ∨ isPipeline msg = true)
    (hheld : 0 < holderCount s key) :
    (step (deps sha256 hitBias) s ⟨env, frm, msg⟩).index.entry key = s.index.entry key := by
  obtain ⟨hclaim, e, he, hav⟩ := unclaimed_of_held hs hc hheld
  set s0 := s.startCallback with hs0
  -- The key has no claim, so a reservation that is found is of another key.
  have hother : ∀ {k token r}, s0.reservationWith k token = some r → key ≠ k := by
    rintro k token r hr rfl
    have hsome : s.index.claim key = some r.claim := claim_of_reservationWith hr
    rw [hclaim] at hsome
    cases hsome
  rcases hmsg with hbg | hpipe
  · have hmoves : Index.Moves (deps sha256 hitBias) env (· ∈ dropped s ⟨env, frm, msg⟩)
        s.index (step (deps sha256 hitBias) s ⟨env, frm, msg⟩).index := index_background s frm hbg
    rcases (hmoves.entry_unclaimed hclaim).2 with hsame | hnone
    · exact hsame
    · -- an eviction takes unheld rows only
      have hsafe : MetaSrv.Safe s.startCallback (step (deps sha256 hitBias) s ⟨env, frm, msg⟩) :=
        safe_callback hs hc (Or.inl hbg)
      obtain ⟨row, hrow, -⟩ := Option.map_eq_some_iff.mp (hsafe.held key hheld).1
      rw [index_entry, hrow] at hnone
      cases hnone
  · cases msg with
    | reserveSave k tier pid =>
      have hstep : step (deps sha256 hitBias) s ⟨env, frm, .reserveSave k tier pid⟩ =
          doReserveSave (deps sha256 hitBias) env k tier pid frm s0 := rfl
      rw [hstep]
      rcases index_doReserveSave (deps sha256 hitBias) env s0 k tier pid frm with
        -- A reservation of this key would have found a row being written, and the row is available.
        ⟨hsame, -⟩ | ⟨hwriting, -, hindex⟩
      · rw [hsame]
        rfl
      · have hne : key ≠ k := by
          rintro rfl
          exact absurd (hav.symm.trans (hwriting e he)) nofun
        rcases hindex with ⟨-, heq⟩ | ⟨c, -, heq⟩
        · rw [heq, Index.entry_reserve, if_neg hne]
          rfl
        · rw [heq, Index.entry_reserve, if_neg hne, Index.entry_cleanup_of_ne _ hne]
          rfl
    | checkReservation k token =>
      have hindex : (step (deps sha256 hitBias) s ⟨env, frm, .checkReservation k token⟩).index =
          s.index := index_handleCheckReservation s0 k token frm
      rw [hindex]
    | markPublished k token path =>
      show (handleMarkPublished env k token path frm s0).index.entry key = s.index.entry key
      -- A token of another key, or none at all.
      cases hr : s0.reservationWith k token with
      | none =>
        simp only [handleMarkPublished, hr]
        rfl
      | some r =>
        rw [index_handleMarkPublished s0 k hr]
        rfl
    | announceSaved k token size header tokensBin textBytes =>
      show (handleAnnounceSaved env k token size header tokensBin textBytes frm s0).index.entry
        key = s.index.entry key
      cases hr : s0.reservationWith k token with
      | none =>
        simp only [handleAnnounceSaved, hr]
        rfl
      | some r =>
        rw [index_handleAnnounceSaved s0 k hr]
        simp [Index.publish, hother hr, hs0]
    | cancelReservation k token =>
      show (handleCancelReservation k token frm s0).index.entry key = s.index.entry key
      cases hr : s0.reservationWith k token with
      | none =>
        simp only [handleCancelReservation, hr]
        rfl
      | some r =>
        rw [index_handleCancelReservation s0 k hr]
        simp [Index.forget, hother hr, hs0]
    | _ => cases hpipe

/-! ### What a process holds -/

/-- The process ends no checkout but its own. -/
def Act.CallsOf (own : Option Ref) : Act → Prop
  | .call (.checkin ref) => own = some ref
  | .call (.down _)      => False
  | _                    => True

/-- Where a process stands: nothing it returns depends on a row any more, or it is a load before
    its checkout, or a load that holds a row and has the row's tokens. -/
inductive Phase (sha256 : Bytes → Digest) (root : Path) (s : State) :
    Option Ref → Program Outcome → Prop
  | settled {own : Option Ref} {p : Program Outcome} (hacts : p.All (Act.CallsOf own))
      (hret : p.Returns (Outcome.Paired sha256)) : Phase sha256 root s own p
  | waiting (key : CacheKey) (pid : Pid) :
      Phase sha256 root s none (pinAndLoad sha256 root key pid)
  | reading {key : CacheKey} {monRef : Ref} {pid : Pid} {e : Entry} (tier : Tier)
      (hheld : s.holders.lookup monRef = some (pid, key)) (he : s.index.entry key = some e) :
      Phase sha256 root s (some monRef) (afterCheckout sha256 root key monRef tier e.tokensRef)

/-- A save returns no load. -/
theorem doSave_returns (u : Nat) (w : Save) :
    (doSave sha256 root u w).Returns (Outcome.Paired sha256) := by
  have hpublished : ∀ (key : CacheKey) (token : Ref) (m : BuildMeta) (final header : Bytes)
      (size : Nat), (afterPublish key token m final header size).Returns
        (Outcome.Paired sha256) := by
    intro key token m final header size r
    rcases r with _ | r
    · trivial
    cases r with
    | ok =>
      intro r
      rcases r with _ | r
      · trivial
      cases r <;> trivial
    | _ => trivial
  have hchecked : ∀ (key : CacheKey) (token : Ref) (m : BuildMeta) (out : WriteOut),
      (afterWriteTmp sha256 key token m out).Returns (Outcome.Paired sha256) := by
    intro key token m out r
    rcases r with _ | r
    · trivial
    cases r with
    | ok =>
      refine Prog.Returns.bind (p := publish sha256 out) fun r => ?_
      cases r with
      | ok header size => exact hpublished key token m out.final header size
      | error e        => exact fun _ _ => trivial
      | crash          => trivial
    | expired => exact fun _ => trivial
    | _       => trivial
  intro r
  rcases r with _ | r
  · trivial
  cases r with
  | token token =>
    refine Prog.Returns.bind (p := writeTmp sha256 root u w) fun r => ?_
    cases r with
    | ok out  => exact hchecked _ token w.buildMeta out
    | error e => exact fun _ => trivial
  | _ => trivial

/-- A save is settled: it checks nothing out and loads nothing. -/
theorem doSave_settled (s : State) (u : Nat) (w : Save) :
    Phase sha256 root s none (doSave sha256 root u w) := by
  refine .settled ((doSave_ofSave w).mono fun a ha => ?_) (doSave_returns u w)
  cases a with
  | call msg => cases msg <;> trivial
  | _        => trivial

/-- What is unpacked is paired, if the row's token list is the file's. -/
theorem paired_unpackRow {bin payload : Bytes} {info : Info} {tokensBin : Option Bytes}
    (hwhole : Whole sha256 key bin) (hparse : parse sha256 bin key = .ok (info, payload))
    (htokens : tokensBin = some (encodeTokens info.tokens)) :
    (unpackRow key tokensBin (.ok info payload)).Paired sha256 := by
  obtain ⟨s, -, -, -, -, -, hlt, -⟩ := sections_of_parseMeta (parseMeta_of_parse hparse).1
  have hdecode := decodeTokens_encodeTokens hlt
  subst htokens
  unfold unpackRow
  dsimp only
  split
  · trivial
  · rw [Option.elim_some, hdecode]
    exact ⟨rfl, bin, hwhole, hparse⟩

/-- A load that has its answer is settled. -/
theorem settled_close (s : State) (key : CacheKey) (monRef : Ref) (tokensBin : Option Bytes)
    {r : Loaded} (hr : (unpackRow key tokensBin r).Paired sha256) :
    Phase sha256 root s (some monRef)
      (call (.checkin monRef) >>= fun _ => Prog.ret (unpackRow key tokensBin r)) :=
  .settled ⟨rfl, fun _ => trivial⟩ fun _ => hr

/-- The next action of a process ends no checkout but its own. -/
theorem Phase.callsOf {s : State} {own : Option Ref} {p : Program Outcome} {a : Act}
    {k : a.Ans → Program Outcome} (h : Phase sha256 root s own p) (hp : p = .act a k) :
    a.CallsOf own := by
  cases h with
  | settled hacts hret =>
    rw [hp] at hacts
    exact hacts.1
  | waiting key pid =>
    have ha : a = .call (.checkout key pid) := by
      cases hp
      rfl
    rw [ha]
    trivial
  | reading tier hheld he =>
    unfold afterCheckout loadPayload at hp
    split at hp
    · cases hp
      rfl
    · cases hp
      trivial

/-- What another does keeps a phase, if it keeps the checkout and the row. -/
theorem Phase.keep {s t : State} {own : Option Ref} {p : Program Outcome}
    (h : Phase sha256 root s own p)
    (hheld : ∀ monRef key pid, own = some monRef → (∃ tier tokensBin,
        p = afterCheckout sha256 root key monRef tier tokensBin) →
      s.holders.lookup monRef = some (pid, key) →
      t.holders.lookup monRef = some (pid, key) ∧ t.index.entry key = s.index.entry key) :
    Phase sha256 root t own p := by
  cases h with
  | settled hacts hret => exact .settled hacts hret
  | waiting key pid    => exact .waiting key pid
  | reading tier hh he =>
    obtain ⟨hh', he'⟩ := hheld _ _ _ rfl ⟨tier, _, rfl⟩ hh
    exact .reading tier hh' (he'.trans he)

/-- What is looked up in the holders map counts. -/
theorem holderCount_pos {s : State} {ref : Ref} {pid : Pid}
    (h : s.holders.lookup ref = some (pid, key)) : 0 < holderCount s key := by
  have hkey : decide ((pid, key).2 = key) = true := decide_eq_true rfl
  rw [holderCount, AList.countValues_erase_of_lookup_some h, if_pos hkey]
  omega

/-- **Phases.** What a process is after its action; a checkout takes the next reference. -/
theorem Phase.act (hitBias : Nat → Int → Int) (u : Nat) (env : Env) (fault : Fault) {s : State}
    {own : Option Ref} {a : Act} {k : a.Ans → Program Outcome} (hs : Sound sha256 root K s.index)
    (htold : Told sha256 root s.index) (hc : ClaimsSound s)
    (h : Phase sha256 root s own (.act a k)) :
    ∃ own', (own' = own ∨ own' = some s.nextRef ∧
        s.nextRef < (perform (deps sha256 hitBias) env u fault a s).2.nextRef) ∧
      Phase sha256 root (perform (deps sha256 hitBias) env u fault a s).2 own'
        (k (perform (deps sha256 hitBias) env u fault a s).1) := by
  generalize hp : (Prog.act a k : Program Outcome) = p at h
  cases h with
  | settled hacts hret =>
    subst hp
    exact ⟨own, Or.inl rfl, .settled (hacts.2 _) (hret _)⟩
  | waiting key pid =>
    cases hp
    -- the answer decides whether it holds the row
    generalize hperform : perform (deps sha256 hitBias) env u fault (.call (.checkout key pid)) s =
      res
    obtain ⟨r, t⟩ := res
    obtain ⟨rfl, hr⟩ := perform_call hperform
    have hother : ∀ p : Program Outcome, p = .ret .missed →
        ∃ own', (own' = none ∨ own' = some s.nextRef ∧ s.nextRef <
          (step (deps sha256 hitBias) s ⟨env, u, .checkout key pid⟩).nextRef) ∧
        Phase sha256 root (step (deps sha256 hitBias) s ⟨env, u, .checkout key pid⟩) own' p := by
      rintro p rfl
      exact ⟨none, Or.inl rfl, .settled trivial trivial⟩
    dsimp only
    rcases r with _ | r
    · exact hother _ rfl
    cases r with
    | checkedOut monRef tier loc header tokensBin =>
      have hanswer : (handleCheckout env key pid u s.startCallback).answer =
          some (.checkedOut monRef tier loc header tokensBin) := hr.symm
      obtain ⟨rfl, hholders, e, he, -, rfl⟩ := handleCheckout_spec hanswer
      have hheld : (step (deps sha256 hitBias) s ⟨env, u, .checkout key pid⟩).holders.lookup
          s.nextRef = some (pid, key) := by
        show (handleCheckout env key pid u s.startCallback).holders.lookup s.nextRef = _
        rw [hholders]
        exact AList.lookup_insert _
      have hsafe : MetaSrv.Safe s.startCallback
          (step (deps sha256 hitBias) s ⟨env, u, .checkout key pid⟩) :=
        safe_callback hs hc (Or.inl rfl)
      refine ⟨some s.nextRef, Or.inr ⟨rfl, ?_⟩, .reading tier hheld he⟩
      by_contra hle
      rw [hsafe.claims.fresh s.nextRef (Nat.not_lt.mp hle)] at hheld
      cases hheld
    | _ => exact hother _ rfl
  -- It holds the row: whatever the read gives, the row is checked in behind it.
  | @reading key monRef pid e tier hheld he =>
    refine ⟨some monRef, Or.inl rfl, ?_⟩
    have hmiss : (unpackRow key e.tokensRef .miss).Paired sha256 := trivial
    have hfail : ∀ reason, (unpackRow key e.tokensRef (.error reason)).Paired sha256 :=
      fun _ => trivial
    unfold afterCheckout loadPayload at hp
    split at hp
    · cases hp
      exact .settled trivial hmiss
    · cases hp
      generalize hread : perform (deps sha256 hitBias) env u fault
        (.readFile (finalPath root key)) s = res
      obtain ⟨r, t⟩ := res
      have ht : t = s := (congrArg Prod.snd hread).symm.trans (perform_quiet rfl s)
      subst ht
      dsimp only
      cases r with
      | error e' =>
        have hfailed : Phase sha256 root t (some monRef) (call (.checkin monRef) >>= fun _ =>
            Prog.ret (unpackRow key e.tokensRef (.error (.posix e')))) :=
          settled_close t key monRef e.tokensRef (hfail (.posix e'))
        cases e' with
        | enoent => exact settled_close t key monRef e.tokensRef hmiss
        | _      => exact hfailed
      | ok bin =>
        -- the row is held, so it is available, and says what the file says
        obtain ⟨-, e', he', hav⟩ := unclaimed_of_held hs hc (holderCount_pos hheld)
        cases he.symm.trans he'
        obtain ⟨bin', info, payload, hbin, hparse, htokens⟩ := htold key e he hav
        have hsame : bin' = bin := by
          have hr := congrArg Prod.fst hread
          rw [perform_readFile, show t.files (finalPath root key) = some bin' from hbin] at hr
          split at hr
          · cases hr
          · exact Except.ok.inj hr
        subst hsame
        -- A file of the key is whole, or too short to parse.
        have hwhole : Whole sha256 key bin' := by
          refine ((hs key).whole bin' hbin).resolve_right fun hshort => ?_
          exact parse_of_short (by omega) hparse
        have hopen : parseOrDrop sha256 bin' key (finalPath root key) =
            .ret (.ok info payload) := by
          unfold parseOrDrop
          rw [hparse]
          rfl
        simp only [Prog.bind]
        rw [hopen]
        exact settled_close t key monRef e.tokensRef (paired_unpackRow hwhole hparse htokens)

/-! ### Runs -/

/-- What the tier of a coherent system keeps through a step: its claims, and the checkouts and
    rows of the holders that the step does not end. -/
structure Steady (ended : Ref → Prop) (s t : State) : Prop where
  claims : ClaimsSound t
  nextRef : s.nextRef ≤ t.nextRef
  held : ∀ ref pid key, ¬ ended ref → s.holders.lookup ref = some (pid, key) →
    t.holders.lookup ref = some (pid, key) ∧ t.index.entry key = s.index.entry key

/-- The checkout that a message ends. -/
def endedBy (msg : Msg) (ref : Ref) : Prop := msg = .checkin ref ∨ msg = .down ref

/-- A callback is steady. -/
theorem steady_callback {s : State} {frm : From} {msg : Msg}
    (hs : Sound sha256 root K s.index) (hc : ClaimsSound s)
    (hmsg : msg.isBackground = true ∨ isPipeline msg = true) :
    Steady (endedBy msg) s (step (deps sha256 hitBias) s ⟨env, frm, msg⟩) where
  claims := (safe_callback hs hc hmsg).claims
  nextRef := nextRef_step_le s ⟨env, frm, msg⟩
  held _ _ _ hends hheld :=
    ⟨lookup_holders_step hc hheld (fun h => hends (Or.inl h)) (fun h => hends (Or.inr h)),
      entry_held hs hc hmsg (holderCount_pos hheld)⟩

/-- So is the action of a process, which ends no checkout but its own. -/
theorem steady_perform {s : State} {frm : From} {fault : Fault} {a : Act} {own : Option Ref}
    (hs : Sound sha256 root K s.index) (hc : ClaimsSound s) (ha : a.Confined root)
    (hown : a.CallsOf own) :
    Steady (fun ref => own = some ref) s
      (perform (deps sha256 hitBias) env frm fault a s).2 := by
  by_cases hcall : ∃ msg, a = .call msg
  · obtain ⟨msg, rfl⟩ := hcall
    have hsteady : Steady (endedBy msg) s (step (deps sha256 hitBias) s ⟨env, frm, msg⟩) :=
      steady_callback hs hc ha
    refine ⟨hsteady.claims, hsteady.nextRef, fun ref pid key hends => ?_⟩
    refine hsteady.held ref pid key fun hmsg => ?_
    rcases hmsg with rfl | rfl
    · exact hends hown
    · exact hown
  · obtain ⟨files, heq⟩ := perform_noCall (deps sha256 hitBias) env frm fault
      (fun msg h => hcall ⟨msg, h⟩) s
    rw [heq]
    exact ⟨⟨hc.counts, hc.held, hc.fresh⟩, le_rfl, fun _ _ _ _ hheld => ⟨hheld, rfl⟩⟩

/-- The invariant of the runs: rows that say what their files say, and processes that know which
    checkout is theirs. -/
structure Coherent (sha256 : Bytes → Digest) (hitBias : Nat → Int → Int) (root : Path)
    (s : Sys) : Prop where
  sound : SysSound sha256 hitBias root (fun _ => True) s
  confined : SysConfined root s
  claims : ClaimsSound s.srv
  told : Told sha256 root s.srv.index
  phases : ∃ own : Nat → Option Ref, (∀ u v ref, own u = some ref → own v = some ref → u = v) ∧
    (∀ u ref, own u = some ref → ref < s.srv.nextRef) ∧
    ∀ u p, s.threads u = some p → Phase sha256 root s.srv (own u) p

/-- Where a process starts. -/
theorem phase_program (s : State) (job : Job) (u : Nat) :
    Phase sha256 root s none (job.program sha256 root u) := by
  cases job with
  | save w       => exact doSave_settled s u w
  | load key pid => exact .waiting key pid

/-- A new writer or loader. -/
theorem Coherent.spawn {s : Sys} (h : Coherent sha256 hitBias root s) (job : Job) :
    Coherent sha256 hitBias root (sysStep sha256 hitBias root s (.spawn job)) := by
  obtain ⟨own, hinj, hlt, hphase⟩ := h.phases
  refine ⟨sysSound_step h.sound trivial, sysConfined_step h.confined _, h.claims, h.told,
    Function.update own s.next none, ?_, ?_, ?_⟩
  · intro u v ref hu hv
    rw [Function.update_apply] at hu hv
    split at hu
    · cases hu
    split at hv
    · cases hv
    exact hinj u v ref hu hv
  · intro u ref hu
    rw [Function.update_apply] at hu
    split at hu
    · cases hu
    exact hlt u ref hu
  · intro u p hp
    change Function.update s.threads s.next (some (job.program sha256 root s.next)) u = some p
      at hp
    rw [Function.update_apply] at hp ⊢
    split at hp
    · rename_i hu
      rw [if_pos hu]
      cases hp
      exact phase_program s.srv job s.next
    · rename_i hu
      rw [if_neg hu]
      exact hphase u p hp

/-- A process that crashes. -/
theorem Coherent.crash {s : Sys} (h : Coherent sha256 hitBias root s) (u : Nat) :
    Coherent sha256 hitBias root (sysStep sha256 hitBias root s (.crash u)) := by
  obtain ⟨own, hinj, hlt, hphase⟩ := h.phases
  refine ⟨sysSound_step h.sound trivial, sysConfined_step h.confined _, h.claims, h.told,
    own, hinj, hlt, fun v p hp => ?_⟩
  change Function.update s.threads u none v = some p at hp
  rw [Function.update_apply] at hp
  split at hp
  · cases hp
  · exact hphase v p hp

/-- A message of the server's own ends no checkout of a load that is yet to read. -/
theorem Coherent.server {s : Sys} (h : Coherent sha256 hitBias root s) {env : Env} {frm : From}
    {msg : Msg} (htells : (Event.server env frm msg).Tells sha256 root s) :
    Coherent sha256 hitBias root (sysStep sha256 hitBias root s (.server env frm msg)) := by
  have hsound' : SysSound sha256 hitBias root (fun _ => True)
      (sysStep sha256 hitBias root s (.server env frm msg)) := sysSound_step h.sound trivial
  have hconf' : SysConfined root (sysStep sha256 hitBias root s (.server env frm msg)) :=
    sysConfined_step h.confined _
  by_cases hbg : msg.isBackground = true
  · have hstep : sysStep sha256 hitBias root s (.server env frm msg) =
        { s with srv := step (deps sha256 hitBias) s.srv ⟨env, frm, msg⟩ } := if_pos hbg
    rw [hstep] at hsound' hconf' ⊢
    have hsteady : Steady (endedBy msg) s.srv
        (step (deps sha256 hitBias) s.srv ⟨env, frm, msg⟩) :=
      steady_callback h.sound.1 h.claims (Or.inl hbg)
    have htold : Told sha256 root (step (deps sha256 hitBias) s.srv ⟨env, frm, msg⟩).index :=
      told_moves h.sound.1 h.told (index_background s.srv frm hbg)
    obtain ⟨own, hinj, hlt, hphase⟩ := h.phases
    refine ⟨hsound', hconf', hsteady.claims, htold, own, hinj,
      fun u ref hu => (hlt u ref hu).trans_le hsteady.nextRef, fun u p hp => ?_⟩
    refine (hphase u p hp).keep fun ref key pid _ hreads => hsteady.held ref pid key fun hends => ?_
    obtain ⟨tier, tokensBin, heq⟩ := hreads
    have hat : s.ReadsUnder sha256 root ref := ⟨u, key, tier, tokensBin, heq ▸ hp⟩
    rcases hends with rfl | rfl
    · exact htells hat
    · exact htells hat
  · have hstep : sysStep sha256 hitBias root s (.server env frm msg) = s := if_neg hbg
    rw [hstep]
    exact h

/-- A process that acts keeps the phases of all the others, and has its next one. -/
theorem Coherent.act {s : Sys} (h : Coherent sha256 hitBias root s) {u : Nat} {env : Env}
    {fault : Fault} (hspares : (Event.act u env fault).Spares sha256 root (fun _ => True) s)
    (htells : (Event.act u env fault).Tells sha256 root s) :
    Coherent sha256 hitBias root (sysStep sha256 hitBias root s (.act u env fault)) := by
  have hsound' : SysSound sha256 hitBias root (fun _ => True)
      (sysStep sha256 hitBias root s (.act u env fault)) := sysSound_step h.sound hspares
  have hconf' : SysConfined root (sysStep sha256 hitBias root s (.act u env fault)) :=
    sysConfined_step h.confined _
  have hstep : sysStep sha256 hitBias root s (.act u env fault) =
      s.act sha256 hitBias u env fault := rfl
  rcases act_cases sha256 hitBias s u env fault with ⟨-, heq⟩ | ⟨a, k, hthread, hnext, heq⟩
  · rw [hstep, heq]
    exact h
  rw [hstep, heq] at hsound' hconf' ⊢
  -- Each thread has its own reference, and is in the phase that its program says.
  obtain ⟨own, hinj, hlt, hphase⟩ := h.phases
  have ha : a.Confined root := h.confined.nextAct hnext
  have hmine := hphase u _ hthread
  have hsteady : Steady (fun ref => own u = some ref) s.srv
      (perform (deps sha256 hitBias) env u fault a s.srv).2 :=
    steady_perform h.sound.1 h.claims ha (hmine.callsOf rfl)
  have htold : Told sha256 root (perform (deps sha256 hitBias) env u fault a s.srv).2.index :=
    told_perform h.sound.1 h.told ha (hspares a hnext) (htells a hnext)
  obtain ⟨own', hown', hphase'⟩ := Phase.act hitBias u env fault h.sound.1 h.told h.claims hmine
  -- a reference that it takes is newer than all that are out
  have hnew : ∀ v ref, v ≠ u → own v = some ref → own' ≠ some ref := by
    rintro v ref hv hvref rfl
    rcases hown' with hsame | ⟨hfresh, -⟩
    · exact hv (hinj v u ref hvref hsame.symm)
    · exact Nat.lt_irrefl _ ((hlt v ref hvref).trans_eq (Option.some.inj hfresh).symm)
  refine ⟨hsound', hconf', hsteady.claims, htold, Function.update own u own', ?_, ?_, ?_⟩
  -- No two threads have one reference.
  · intro v w ref hv hw
    rw [Function.update_apply] at hv hw
    split at hv <;> split at hw
    · subst v w
      rfl
    · exact absurd hv (hnew w ref ‹_› hw)
    · exact absurd hw (hnew v ref ‹_› hv)
    · exact hinj v w ref hv hw
  · intro v ref hv
    rw [Function.update_apply] at hv
    split at hv
    · rcases hown' with hsame | ⟨hfresh, hlt'⟩
      · exact (hlt u ref (hsame ▸ hv)).trans_le hsteady.nextRef
      · cases hfresh.symm.trans hv
        exact hlt'
    · exact (hlt v ref hv).trans_le hsteady.nextRef
  · intro v p hp
    -- The others stay in their phases: nobody takes their references away.
    change Function.update s.threads u _ v = some p at hp
    rw [Function.update_apply] at hp ⊢
    split at hp
    · rename_i hv
      rw [if_pos hv]
      cases hp
      exact hphase'
    · rename_i hv
      rw [if_neg hv]
      refine (hphase v p hp).keep fun ref key pid href _ => hsteady.held ref pid key fun hends => ?_
      exact hv (hinj v u ref href hends)

/-- **Step.** -/
theorem coherent_step {s : Sys} (h : Coherent sha256 hitBias root s) {e : Event}
    (hspares : e.Spares sha256 root (fun _ => True) s) (htells : e.Tells sha256 root s) :
    Coherent sha256 hitBias root (sysStep sha256 hitBias root s e) := by
  cases e with
  | spawn job          => exact h.spawn job
  | crash u            => exact h.crash u
  | act u env fault    => exact h.act hspares htells
  | server env frm msg => exact h.server htells

/-- Where the tier may start: the processes and rows of `Started`, no checkout that is not
    counted, and rows that say what their files say. -/
structure Opened (sha256 : Bytes → Digest) (root : Path) (s : Sys) : Prop where
  started : Started sha256 root s
  claims : ClaimsSound s.srv
  told : Told sha256 root s.srv.index

/-- A directory as it is opened. -/
theorem Opened.coherent {s : Sys} (h : Opened sha256 root s) :
    Coherent sha256 hitBias root s where
  sound := h.started.sysSound
  confined u p hp := by
    rw [h.started.threads] at hp
    cases hp
  claims := h.claims
  told := h.told
  phases := by
    refine ⟨fun _ => none, ⟨fun _ _ _ hu => ?_, fun _ _ hu => ?_, fun u p hp => ?_⟩⟩
    · cases hu
    · cases hu
    · rw [h.started.threads] at hp
      cases hp

/-- In a coherent store every row is paired with the tokens its payload was built from. -/
theorem Coherent.pairs {s : Sys} (h : Coherent sha256 hitBias root s) :
    Pairs sha256 root s := by
  refine ⟨fun key row hrow hav => ?_, fun u o hret => ?_⟩
  · have hentry : s.srv.index.entry key = some row.entry := by
      rw [index_entry, hrow]
      rfl
    exact h.told key row.entry hentry hav
  · obtain ⟨own, -, -, hphase⟩ := h.phases
    have hp := hphase u _ hret
    generalize hq : (Prog.ret o : Program Outcome) = q at hp
    generalize own u = mine at hp
    cases hp with
    | settled hacts hreturns =>
      subst hq
      exact hreturns
    | waiting key pid => cases hq
    | reading tier hheld he =>
      unfold afterCheckout loadPayload at hq
      split at hq <;> cases hq

/-- **Runs.** In every run of saves, loads, crashes, sweeps and evictions whose announces say what
    the files say, rows and loads pair tokens with the payload built from them. -/
theorem run_pairs {s : Sys} (h : Opened sha256 root s) {es : List Event}
    (hes : AllSteps (sysStep sha256 hitBias root)
      (fun s e => e.Spares sha256 root (fun _ => True) s ∧ e.Tells sha256 root s) s es) :
    Pairs sha256 root (run (sysStep sha256 hitBias root) s es) :=
  (AllSteps.invariant (I := Coherent sha256 hitBias root)
    (fun _ _ hs he => coherent_step hs he.1 he.2) h.coherent hes).pairs

/-- **Metadata.** The row of a save that answers `{ok, Key}` describes the file at its path
    exactly when what the save announces is what that file says; and in every run whose announces
    do, every load pairs its payload with the token list it was built from. -/
theorem saved_row_pairs (sha256 : Bytes → Digest) (hitBias : Nat → Int → Int) (root : Path) :
    (∀ (u : Nat) (x : Surroundings) (w : Save) (s : State) (key : CacheKey),
      (runAlone sha256 hitBias u x (doSave sha256 root u w) s).1 = .saved key →
        (RowDescribes sha256 root (runAlone sha256 hitBias u x (doSave sha256 root u w) s).2
            (w.key sha256) ↔
          w.Agrees sha256 root x (w.reserved sha256 hitBias u x s))) ∧
    ∀ (s : Sys) (es : List Event), Opened sha256 root s →
      AllSteps (sysStep sha256 hitBias root)
        (fun s e => e.Spares sha256 root (fun _ => True) s ∧ e.Tells sha256 root s) s es →
      Pairs sha256 root (run (sysStep sha256 hitBias root) s es) :=
  ⟨fun u x w s key => saved_rowDescribes_iff sha256 hitBias root u x w s key,
    fun _ _ hopen hes => run_pairs hopen hes⟩

/-! ### Two token lists of one text, one after the other -/

section Checks

variable (sha256 : Bytes → Digest) (root : Path)

/-- An announce that is accepted hands over the token list of the final file. -/
def Act.tells (s : State) : Act → Bool
  | .call (.announceSaved key token _ _ tokensBin _) =>
    (s.reservationWith key token).isNone ||
      ((s.files (finalPath root key)).bind (fileTokens sha256 · key)).map
        (fun tokens => some (encodeTokens tokens)) == some tokensBin
  | _ => true

/-- The announces do, and no checkout ends but by its own load. -/
def Event.tells (s : Sys) : Event → Bool
  | .act u _ _               => ((s.nextAct u).map (·.tells sha256 root s.srv)).getD true
  | .server _ _ (.down _)    => false
  | .server _ _ (.checkin _) => false
  | _                        => true

end Checks

/-- The tokens in the file are the row's. -/
theorem fileTells_of_fileTokens {files : Files} {tokensBin : Option Bytes}
    (h : ((files (finalPath root key)).bind (fileTokens sha256 · key)).map
      (fun tokens => some (encodeTokens tokens)) = some tokensBin) :
    FileTells sha256 root files key tokensBin := by
  obtain ⟨tokens, htokens, heq⟩ := Option.map_eq_some_iff.mp h
  obtain ⟨bin, hbin, hfile⟩ := Option.bind_eq_some_iff.mp htokens
  unfold fileTokens at hfile
  split at hfile
  · rename_i info payload hparse
    cases hfile
    exact ⟨bin, info, payload, hbin, hparse, heq.symm⟩
  · cases hfile

/-- The test on events that runs evaluate. -/
theorem Event.tells_of_tells {s : Sys} {e : Event} (h : e.tells sha256 root s = true) :
    e.Tells sha256 root s := by
  cases e with
  | act u env fault =>
    intro a ha
    simp only [Event.tells, ha, Option.map_some, Option.getD_some] at h
    cases a with
    | call msg =>
      cases msg with
      | announceSaved key token size header tokensBin textBytes =>
        intro hsome
        simp only [Act.tells, Bool.or_eq_true, Option.isNone_iff_eq_none, beq_iff_eq] at h
        refine fileTells_of_fileTokens (h.resolve_left fun hnone => ?_)
        rw [hnone] at hsome
        cases hsome
      | _ => trivial
    | _ => trivial
  | server env frm msg =>
    cases msg with
    | down ref    => cases h
    | checkin ref => cases h
    | _           => trivial
  | _ => trivial

/-- An empty directory is opened. -/
theorem emptySys_opened : Opened sha256 root emptySys where
  started := emptySys_started
  claims := claimsSound_init _
  told _ _ h := by cases h

/-- A save and a load of it; the row is evicted; a save of the same text, tokenised otherwise,
    and a load of that. -/
def pairedRun : List Event :=
  [.spawn (.save (sampleSave 7))] ++ List.replicate 12 (acts 0 0) ++
    [.spawn (.load ((sampleSave 7).key sampleSha) 10)] ++ List.replicate 3 (acts 1 0) ++
    [.server (sampleEnv 0) 1 .gc, .spawn (.save retokenisedSave)] ++
    List.replicate 12 (acts 2 0) ++
    [.spawn (.load ((sampleSave 7).key sampleSha) 10)] ++ List.replicate 3 (acts 3 0)

set_option maxRecDepth 4000 in
/-- The row of the first save describes its file, and each load returns the tokens of the save it
    has its payload from. -/
theorem saved_row_pairs_pairedRun :
    (RowDescribes sampleSha [114] (runAlone sampleSha (fun _ _ => 0) 0 (calm 0)
        (doSave sampleSha [114] 0 (sampleSave 7)) emptySys.srv).2 ((sampleSave 7).key sampleSha) ↔
      (sampleSave 7).Agrees sampleSha [114] (calm 0)
        ((sampleSave 7).reserved sampleSha (fun _ _ => 0) 0 (calm 0) emptySys.srv)) ∧
    Pairs sampleSha [114]
      (run (sysStep sampleSha (fun _ _ => 0) [114]) emptySys pairedRun) ∧
    (run (sysStep sampleSha (fun _ _ => 0) [114]) emptySys pairedRun).loaded 1 =
      some ([7, 8], [1]) ∧
    (run (sysStep sampleSha (fun _ _ => 0) [114]) emptySys pairedRun).loaded 3 =
      some ([9], [1]) := by
  have hchecks : AllSteps (sysStep sampleSha (fun _ _ => 0) [114])
      (fun s e => (e.sparing s && e.tells sampleSha [114] s) = true) emptySys pairedRun := by
    decide +kernel
  obtain ⟨hdescribes, hpairs⟩ := saved_row_pairs sampleSha (fun _ _ => 0) [114]
  refine ⟨hdescribes 0 (calm 0) (sampleSave 7) emptySys.srv ((sampleSave 7).key sampleSha)
    (Outcome.eq_of_savedKey (by decide +kernel)), hpairs emptySys pairedRun emptySys_opened ?_,
    by decide +kernel, by decide +kernel⟩
  refine AllSteps.mono (fun s e h => ?_) hchecks
  rw [Bool.and_eq_true] at h
  exact ⟨Event.spares_of_sparing h.1, Event.tells_of_tells h.2⟩

end Erllama.Publish
