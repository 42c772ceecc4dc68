import Erllama.Publish.Healing
import Erllama.Publish.Orphans

namespace Erllama.Publish

open Lib MetaSrv Kvc

/-!
# The row of a published file

A save that finds its final name taken by a valid file keeps that file, and announces the
header, the size, the token list and the text length.  The size is the file's; the rest is what
the save would have written itself.

* `Surroundings.found`, `Save.linked` — the file that a save keeps, or its own.
* `RowDescribes` — the row says what its file says.
* `ends_doSave` — what a save that answers `{ok, Key}` leaves.
* `saved_rowDescribes_iff` — when its row describes its file.
-/

section Definitions

variable (sha256 : Bytes → Digest) (root : Path)

/-- The file a save builds; empty where it cannot build one. -/
def Save.newFile (w : Save) : Bytes :=
  match build w.runtime w.buildMeta w.payload with
  | .ok built => built ++ w.payload
  | .error _  => []

/-- What a save sees under the final name when its link is refused: its seventh action reads
    the file, and a file it cannot read is replaced like an invalid one. -/
def Surroundings.found (x : Surroundings) (key : CacheKey) (s : State) : Option Bytes :=
  if (x.fault 6).fails then none else s.files (finalPath root key)

/-- The file that is under the final name in the end: the valid file found there, else the
    save's own. -/
def Save.linked (w : Save) (found : Option Bytes) : Bytes :=
  match found with
  | some old => if (parse sha256 old (w.key sha256)).isOk then old else w.newFile
  | none     => w.newFile

/-- The file carries the header bytes, the token list and the text length that the save
    announces. -/
def Save.Carries (w : Save) (bin : Bytes) : Prop :=
  ∃ info payload, parse sha256 bin (w.key sha256) = .ok (info, payload) ∧
    bin.take 48 = w.newFile.take 48 ∧
    encodeTokens info.tokens = encodeTokens w.buildMeta.tokens ∧
    info.promptText.length = w.buildMeta.text.length

/-- The row of the key is available and says what its file says. -/
def RowDescribes (s : State) (key : CacheKey) : Prop :=
  ∃ row bin info payload, s.metaTbl.lookup key = some row ∧ row.status = .available ∧
    row.location = locationFor row.tier (some (finalPath root key)) ∧
    s.files (finalPath root key) = some bin ∧ parse sha256 bin key = .ok (info, payload) ∧
    row.headerBin = bin.take 48 ∧ row.size = bin.length ∧
    row.tokensRef = some (encodeTokens info.tokens) ∧ row.textBytes = info.promptText.length

/-- The token holds the key, and this is under its final name. -/
structure Holding (key : CacheKey) (token : Ref) (content : Option Bytes) (s : State) : Prop where
  claim : ∃ c, s.index.claim key = some c ∧ c.token = token
  final : s.files (finalPath root key) = content

end Definitions

variable {sha256 : Bytes → Digest} {hitBias : Nat → Int → Int} {root : Path} {u : Nat}
  {x : Surroundings} {n : Nat} {s t : State} {p : Path} {key : CacheKey} {token : Ref}
  {pid : Pid} {bin built : Bytes} {content : Option Bytes}

/-- The file a save builds. -/
theorem Save.newFile_eq {w : Save} (h : build w.runtime w.buildMeta w.payload = .ok built) :
    w.newFile = built ++ w.payload ∧ headerOf built = w.newFile.take 48 := by
  have hfile : w.newFile = built ++ w.payload := by rw [Save.newFile, h]
  obtain ⟨b, hmode, hbuilt⟩ := build_eq_builtFile h
  obtain ⟨built', hbuild, hlen, -⟩ := build_eq w.runtime w.payload hmode
  have heq : built = built' := by
    rw [h] at hbuild
    exact Except.ok.inj hbuild
  have h48 : 48 ≤ built.length := by
    rw [heq, hlen, builtOffset]
    omega
  refine ⟨hfile, ?_⟩
  rw [hfile, headerOf, List.take_append_of_le_length h48]

/-- Acts on other files leave what the writer holds. -/
theorem Holding.frame (h : Holding root key token content s) (hf : Frame p s t)
    (hp : finalPath root key ≠ p) : Holding root key token content t :=
  ⟨hf.claim ▸ h.claim, (hf.files _ hp).trans h.final⟩

/-! ### Writing the temporary file -/

/-- Writing the temporary file. -/
theorem ends_writeTemp (tmp : Path) (built payload : Bytes) :
    Ends sha256 hitBias u x (fun m r t => Frame tmp s t ∧
        (r = .ok () → m = n + 3 ∧ t.files tmp = some (built ++ payload))) n
      (writeTemp tmp built payload) s := by
  intro r t hopen
  obtain ⟨hframe, hempty⟩ := does_openExclusive hopen
  cases r with
  | error e => exact ⟨hframe, fun h => by cases h⟩
  | ok _    =>
    intro r t' hwrite
    have htmp := hempty rfl
    obtain ⟨hframe', hwhole⟩ := does_write hwrite (by simp [htmp])
    cases r with
    | error e => exact ⟨hframe.trans hframe', fun h => by cases h⟩
    | ok _    =>
      intro r t'' hsync
      have hsame := does_quiet rfl hsync
      subst hsame
      cases r with
      | error e => exact ⟨hframe.trans hframe', fun h => by cases h⟩
      | ok _    => exact ⟨hframe.trans hframe', fun _ => ⟨rfl, hwhole rfl⟩⟩

/-- A write that succeeds takes three actions and leaves the whole file. -/
theorem ends_writeTmp (w : Save) :
    Ends sha256 hitBias u x (fun m r t => ∀ out, r = .ok out → m = n + 3 ∧
        ∃ built, build w.runtime w.buildMeta w.payload = .ok built ∧
          out = ⟨w.key sha256, tmpPath root (w.key sha256) w.pid u,
            finalPath root (w.key sha256), built, w.payload, root⟩ ∧
          Frame (tmpPath root (w.key sha256) w.pid u) s t ∧
          t.files (tmpPath root (w.key sha256) w.pid u) = some w.newFile) n
      (writeTmp sha256 root u w) s := by
  unfold writeTmp
  dsimp only
  cases hbuild : build w.runtime w.buildMeta w.payload with
  | error e  => exact fun out h => by cases h
  | ok built =>
    refine Prog.Ensures.bind (ends_writeTemp (tmpPath root (w.key sha256) w.pid u) built
      w.payload) fun m r t h => ?_
    cases r with
    | error e => exact fun r t _ out h => by cases h
    | ok _    =>
      rintro out ⟨⟩
      obtain ⟨hframe, hok⟩ := h
      obtain ⟨hm, htmp⟩ := hok rfl
      refine ⟨hm, built, rfl, rfl, hframe, ?_⟩
      rw [htmp, (Save.newFile_eq hbuild).1]

/-! ### Publishing -/

/-- The size `file_size/1` gives for a file that is there. -/
def Surroundings.sized (x : Surroundings) (bin : Bytes) : Nat :=
  if x.statFails then 0 else bin.length

/-- Asking for the size. -/
theorem ends_fileSize (hp : s.files p = some bin) :
    Ends sha256 hitBias u x (fun _ size t => t = s ∧ size = x.sized bin) n (fileSize p) s := by
  intro r t hstat
  obtain ⟨rfl, rfl⟩ := does_readFileInfo hstat
  rw [hp]
  unfold Surroundings.sized
  split <;> exact ⟨rfl, rfl⟩

/-- Validation accepts exactly the files that can be read and that parse. -/
theorem ends_validateAt (hp : s.files p = some bin) :
    Ends sha256 hitBias u x (fun m r t => m = n + 1 ∧ t = s ∧
        (r.isOk ↔ (x.fault n).fails = false ∧ (parse sha256 bin key).isOk)) n
      (validateAt sha256 p key) s := by
  rw [validateAt_eq]
  intro r t hread
  obtain ⟨rfl, rfl⟩ := does_readFile hread
  rw [hp]
  by_cases hfault : (x.fault n).fails = true
  · rw [if_pos hfault]
    refine ⟨rfl, rfl, ?_⟩
    simp [hfault, Except.isOk, Except.toBool, Except.mapError, Except.bind]
  · rw [if_neg hfault]
    show Ends _ _ _ _ _ (n + 1) (.ret ((parse sha256 bin key).mapError Reason.kvc)) t
    cases parse sha256 bin key with
    | error e => exact ⟨rfl, rfl, by simp [Except.isOk, Except.toBool, Except.mapError]⟩
    | ok y    => exact ⟨rfl, rfl, by simp [hfault, Except.isOk, Except.toBool, Except.mapError]⟩

/-- What `publish` returns on success, if the file under the final name is `bin` in the end. -/
def PublishedAs (sha256 : Bytes → Digest) (root : Path) (x : Surroundings) (key : CacheKey)
    (token : Ref) (built bin : Bytes) (_ : Nat) (r : Published) (t : State) : Prop :=
  ∀ header size, r = .ok header size → header = headerOf built ∧ size = x.sized bin ∧
    (parse sha256 bin key).isOk ∧ Holding root key token (some bin) t

/-- Reading back the file that was linked. -/
theorem ends_finalise (h : Holding root key token (some bin) s) :
    Ends sha256 hitBias u x (PublishedAs sha256 root x key token built bin) n
      (finalise sha256 key built (finalPath root key) root) s := by
  intro r t hsync
  have hsame := does_quiet rfl hsync
  subst hsame
  cases r with
  | error e => exact fun header size h => by cases h
  | ok _    =>
    refine Prog.Ensures.bind (p := validateAt sha256 (finalPath root key) key)
      (ends_validateAt h.final) fun m r t' hr => ?_
    obtain ⟨-, rfl, hok⟩ := hr
    cases r with
    | error e => exact fun r t _ header size h => by cases h
    | ok y    =>
      refine Prog.Ensures.bind (p := fileSize (finalPath root key)) (ends_fileSize h.final)
        fun m size t' hsize => ?_
      obtain ⟨rfl, rfl⟩ := hsize
      rintro header size ⟨⟩
      exact ⟨rfl, rfl, (hok.mp rfl).2, h⟩

/-- A link succeeds where the name is free; where it is taken, one action was performed. -/
theorem ends_tryLink (h : Holding root key token content s)
    (htmp : s.files (tmpPath root key pid u) = some bin) :
    Ends sha256 hitBias u x (fun m r t =>
        (r = .ok → content = none ∧ Holding root key token (some bin) t) ∧
        (r = .eexist → m = n + 1 ∧ t = s ∧ content ≠ none)) n
      (tryLink (tmpPath root key pid u) (finalPath root key)) s := by
  have hne : finalPath root key ≠ tmpPath root key pid u :=
    (tmpPath_ne_finalPath root key key pid u).symm
  intro r t hlink
  rcases does_makeLink hlink with ⟨rfl, bin', hsrc, hdst, rfl⟩ | ⟨e, rfl, rfl, hexists⟩
  · -- linked: the temporary name goes
    intro r t' hdelete
    have hbin : bin' = bin := Option.some.inj (hsrc.symm.trans htmp)
    subst hbin
    have hlinked : Holding root key token (some bin')
        (setFile (finalPath root key) (some bin') s) :=
      ⟨h.claim, files_setFile_self _ _ _⟩
    exact ⟨fun _ => ⟨h.final.symm.trans hdst, hlinked.frame (does_delete hdelete) hne⟩, nofun⟩
  · cases e with
    | eexist =>
      exact ⟨nofun, fun _ => ⟨rfl, rfl, fun hc => hexists rfl (h.final.trans hc)⟩⟩
    | enoent | other =>
      intro r t' hdelete
      exact ⟨nofun, nofun⟩

/-- Publishing leaves the valid file that was found, or the save's own. -/
theorem ends_publish {w : Save}
    (h : Holding root (w.key sha256) token (s.files (finalPath root (w.key sha256))) s)
    (htmp : s.files (tmpPath root (w.key sha256) w.pid u) = some w.newFile) :
    Ends sha256 hitBias u x (PublishedAs sha256 root x (w.key sha256) token built
        (w.linked sha256 (x.found root (w.key sha256) s))) 5
      (linkTemp sha256 (w.key sha256) built (tmpPath root (w.key sha256) w.pid u)
        (finalPath root (w.key sha256)) root) s := by
  set key := w.key sha256 with hkey
  have hne : tmpPath root key w.pid u ≠ finalPath root key :=
    tmpPath_ne_finalPath root key key w.pid u
  -- The first link decides: linked, taken by another file, or failed.
  refine Prog.Ensures.bind (p := tryLink (tmpPath root key w.pid u) (finalPath root key))
    (ends_tryLink h htmp) fun m r t hr => ?_
  obtain ⟨hok, hexists⟩ := hr
  cases r with
  | error e => exact nofun
  | ok =>
    obtain ⟨hnone, hlinked⟩ := hok rfl
    have hfound : x.found root key s = none := by
      rw [Surroundings.found, hnone]
      split <;> rfl
    rw [hfound]
    exact ends_finalise hlinked
  | eexist =>
    obtain ⟨rfl, rfl, hold⟩ := hexists rfl
    obtain ⟨old, hfile⟩ := Option.ne_none_iff_exists'.mp hold
    rw [hfile] at h
    have hfound : x.found root key t = if (x.fault 6).fails then none else some old := by
      rw [Surroundings.found, hfile]
    -- The file in its place is read and parsed.
    refine Prog.Ensures.bind (p := validateAt sha256 (finalPath root key) key)
      (ends_validateAt h.final) fun m r t' hr => ?_
    obtain ⟨-, rfl, hvalid⟩ := hr
    cases r with
    | ok y =>
      -- the valid file is kept
      obtain ⟨hread, hparse⟩ := hvalid.mp rfl
      have hlinked : w.linked sha256 (x.found root key t') = old := by
        rw [hfound, hread]
        simp [Save.linked, ← hkey, hparse]
      rw [hlinked]
      intro r t hdelete
      have hkept := h.frame (does_delete hdelete) hne.symm
      intro r t'' hsync
      have hsame := does_quiet rfl hsync
      subst hsame
      cases r with
      | error e => exact nofun
      | ok _    =>
        refine Prog.Ensures.bind (p := fileSize (finalPath root key)) (ends_fileSize hkept.final)
          fun m size v hsize => ?_
        obtain ⟨rfl, rfl⟩ := hsize
        rintro header size ⟨⟩
        exact ⟨rfl, rfl, hparse, hkept⟩
    | error e =>
      -- the file is deleted and the link is tried again
      have hlinked : w.linked sha256 (x.found root key t') = w.newFile := by
        rw [hfound]
        by_cases hread : (x.fault 6).fails = true
        · rw [if_pos hread]
          rfl
        · have hparse : ¬ (parse sha256 old key).isOk = true := fun hp =>
            nomatch hvalid.mpr ⟨by simpa using hread, hp⟩
          rw [if_neg hread]
          simp only [Save.linked, ← hkey, hparse]
          rfl
      rw [hlinked]
      intro r v hdelete
      have hframe := does_delete hdelete
      have hheld : Holding root key token (v.files (finalPath root key)) v :=
        ⟨hframe.claim ▸ h.claim, rfl⟩
      have htmp' : v.files (tmpPath root key w.pid u) = some w.newFile :=
        (hframe.files _ hne).trans htmp
      refine Prog.Ensures.bind (p := tryLink (tmpPath root key w.pid u) (finalPath root key))
        (ends_tryLink hheld htmp') fun m r t'' hr => ?_
      cases r with
      | ok      => exact ends_finalise (hr.1 rfl).2
      | eexist  => exact fun header size h => by cases h
      | error e => exact fun header size h => by cases h

/-! ### Announcing -/

/-- What is left by a save that has announced `bin`. -/
def Announced (sha256 : Bytes → Digest) (root : Path) (x : Surroundings) (w : Save) (bin : Bytes)
    (_ : Nat) (o : Outcome) (t : State) : Prop :=
  ∀ k, o = .saved k → (parse sha256 bin (w.key sha256)).isOk ∧
    t.files (finalPath root (w.key sha256)) = some bin ∧
    ∃ tier, t.index.entry (w.key sha256) = some ⟨.available, tier, x.sized bin,
      w.newFile.take 48, locationFor tier (some (finalPath root (w.key sha256))),
      some (encodeTokens w.buildMeta.tokens), w.buildMeta.text.length⟩

/-- The reservation behind a claim with this token. -/
theorem reservationWith_of_claim {c : Claim} (hc : s.index.claim key = some c)
    (htok : c.token = token) :
    ∃ r, s.startCallback.reservationWith key token = some r ∧ r.claim = c := by
  obtain ⟨r, hr, rfl⟩ := Option.map_eq_some_iff.mp hc
  exact ⟨r, (reservationWith_eq_some_iff s.startCallback key).mpr ⟨hr, htok⟩, rfl⟩

/-- What follows the publication. -/
theorem ends_afterPublish {w : Save} {header : Bytes} {size : Nat}
    (h : Holding root (w.key sha256) token (some bin) s)
    (hheader : header = w.newFile.take 48) (hsize : size = x.sized bin)
    (hparse : (parse sha256 bin (w.key sha256)).isOk) :
    Ends sha256 hitBias u x (Announced sha256 root x w bin) n
      (afterPublish (w.key sha256) token w.buildMeta (finalPath root (w.key sha256)) header
        size) s := by
  intro r t hcall
  obtain ⟨ht, -⟩ := does_call hcall
  rcases r with _ | r
  · rintro _ ⟨⟩
  cases r with
  | ok =>
    obtain ⟨c, hc, htok⟩ := h.claim
    obtain ⟨res, hres, rfl⟩ := reservationWith_of_claim hc htok
    have hmark : t.index = s.startCallback.index.mark (w.key sha256) res.claim
        (finalPath root (w.key sha256)) := by
      rw [ht]
      exact index_handleMarkPublished s.startCallback _ hres _ _
    have hclaim : t.index.claim (w.key sha256) = some { res.claim with
        stage := .postLink, path := some (finalPath root (w.key sha256)) } := by
      rw [hmark]
      simp [Index.mark]
    have hfinal : t.files (finalPath root (w.key sha256)) = some bin := by
      rw [← index_files, hmark]
      exact h.final
    intro r v hcall'
    obtain ⟨hv, -⟩ := does_call hcall'
    obtain ⟨res', hres', hclaim'⟩ := reservationWith_of_claim hclaim htok
    have hpath : res'.path = some (finalPath root (w.key sha256)) := congrArg Claim.path hclaim'
    have hindex : v.index = t.startCallback.index.publish (w.key sha256) res'.tier res'.path size
        header (some (encodeTokens w.buildMeta.tokens)) w.buildMeta.text.length := by
      rw [hv]
      exact index_handleAnnounceSaved t.startCallback _ hres' _ _ _ _ _
    rcases r with _ | r
    · rintro _ ⟨⟩
    cases r with
    | ok =>
      rintro k ⟨⟩
      refine ⟨hparse, ?_, res'.tier, ?_⟩
      · rw [← index_files, hindex]
        exact hfinal
      · rw [hindex, hpath, hheader, hsize]
        simp [Index.publish]
    | _ => rintro _ ⟨⟩
  | _ => rintro _ ⟨⟩

/-! ### The whole save -/

/-- The state once the key is reserved. -/
def Save.reserved (sha256 : Bytes → Digest) (hitBias : Nat → Int → Int) (u : Nat)
    (x : Surroundings) (w : Save) (s : State) : State :=
  (alone sha256 hitBias u x 0 s (.call (.reserveSave (w.key sha256) w.tier w.pid))).2

/-- A granted token holds the key. -/
theorem holding_reserve {env : Env} {tier : Tier}
    (h : (step (deps sha256 hitBias) s ⟨env, u, .reserveSave key tier pid⟩).answer =
      some (.token token)) :
    ∃ c, (step (deps sha256 hitBias) s ⟨env, u, .reserveSave key tier pid⟩).index.claim key =
      some c ∧ c.token = token := by
  have hstep : step (deps sha256 hitBias) s ⟨env, u, .reserveSave key tier pid⟩ =
      doReserveSave (deps sha256 hitBias) env key tier pid u s.startCallback := rfl
  rw [hstep] at h ⊢
  rcases index_doReserveSave (deps sha256 hitBias) env s.startCallback key tier
    pid u with ⟨-, hans⟩ | ⟨-, hans, hindex⟩
  · exact absurd h (hans token)
  · rw [hans] at h
    cases h
    rcases hindex with ⟨-, heq⟩ | ⟨c, -, heq⟩
    · rw [heq]
      exact ⟨_, by simp; rfl, rfl⟩
    · rw [heq]
      refine ⟨_, by simp; rfl, ?_⟩
      rw [Index.nextRef_cleanup]
      rfl

/-- **A save that answers `{ok, Key}`.** It leaves the valid file it found, or its own, and a row
    with the file's size and its own header, tokens and text length. -/
theorem ends_doSave (w : Save) :
    Ends sha256 hitBias u x (Announced sha256 root x w
        (w.linked sha256 (x.found root (w.key sha256) (w.reserved sha256 hitBias u x s)))) 0
      (doSave sha256 root u w) s := by
  intro r t hcall
  have ht : t = w.reserved sha256 hitBias u x s := (congrArg Prod.snd hcall).symm
  obtain ⟨hstep, hans⟩ := does_call hcall
  rw [← ht]
  rcases r with _ | r
  · exact nofun
  cases r with
  | token token =>
    have hheld : Holding root (w.key sha256) token (t.files (finalPath root (w.key sha256))) t := by
      rw [hstep] at hans
      exact ⟨hstep ▸ holding_reserve hans.symm, rfl⟩
    refine Prog.Ensures.bind (p := writeTmp sha256 root u w) (ends_writeTmp w)
      fun m r v hr => ?_
    cases r with
    | error e => exact fun r t _ => nofun
    | ok out =>
      obtain ⟨rfl, built, hbuild, rfl, hframe, htmp⟩ := hr out rfl
      have hne : ∀ k, finalPath root k ≠ tmpPath root (w.key sha256) w.pid u := fun k =>
        (tmpPath_ne_finalPath root (w.key sha256) k w.pid u).symm
      have hheld' := hheld.frame hframe (hne _)
      intro r v' hcheck
      obtain ⟨hv', -⟩ := does_call hcheck
      have hindex : v'.index = v.index := hv' ▸ index_handleCheckReservation _ _ _ _
      have hfiles : v'.files = v.files := congrArg Index.files hindex
      have hheld'' : Holding root (w.key sha256) token
          (v'.files (finalPath root (w.key sha256))) v' := ⟨hindex ▸ hheld'.claim, rfl⟩
      have hfound : x.found root (w.key sha256) v' = x.found root (w.key sha256) t := by
        rw [Surroundings.found, Surroundings.found, hfiles, hframe.files _ (hne _)]
      rcases r with _ | r
      · exact nofun
      cases r with
      | ok =>
        refine Prog.Ensures.bind (p := linkTemp sha256 (w.key sha256) built
          (tmpPath root (w.key sha256) w.pid u) (finalPath root (w.key sha256)) root)
          (ends_publish hheld'' (hfiles ▸ htmp)) fun m r v'' hr => ?_
        rw [hfound] at hr
        cases r with
        | error e => exact fun _ _ _ _ _ _ => nofun
        | crash   => exact nofun
        | ok header size =>
          obtain ⟨hheader, hsize, hparse, hfinal⟩ := hr header size rfl
          exact ends_afterPublish hfinal (hheader.trans (Save.newFile_eq hbuild).2) hsize hparse
      | expired => exact fun _ _ _ => nofun
      | _ => exact nofun
  | _ => exact nofun

/-! ### When the row describes the file -/

/-- The condition under which what the save announces is what the file says: the size can be
    asked for, a valid file that is found carries the save's own metadata, and if there is
    none, the file the save writes does. -/
structure Save.Agrees (sha256 : Bytes → Digest) (root : Path) (x : Surroundings) (w : Save)
    (s : State) : Prop where
  size : x.statFails = false
  kept : ∀ old, x.found root (w.key sha256) s = some old →
    (parse sha256 old (w.key sha256)).isOk → w.Carries sha256 old
  written : (∀ old, x.found root (w.key sha256) s = some old →
    ¬ (parse sha256 old (w.key sha256)).isOk) → w.Carries sha256 w.newFile

/-- A save agrees with the file iff what it found carries its meta. -/
theorem Save.agrees_iff {w : Save} : w.Agrees sha256 root x s ↔
    x.statFails = false ∧
      w.Carries sha256 (w.linked sha256 (x.found root (w.key sha256) s)) := by
  cases hfound : x.found root (w.key sha256) s with
  | none =>
    constructor
    · intro h
      exact ⟨h.size, h.written fun old hold => by rw [hfound] at hold; cases hold⟩
    · rintro ⟨hsize, hcarries⟩
      refine ⟨hsize, fun old hold => ?_, fun _ => hcarries⟩
      rw [hfound] at hold
      cases hold
  | some old =>
    by_cases hparse : (parse sha256 old (w.key sha256)).isOk = true
    · simp only [Save.linked, hparse, if_true]
      constructor
      · exact fun h => ⟨h.size, h.kept old hfound hparse⟩
      · rintro ⟨hsize, hcarries⟩
        refine ⟨hsize, fun old' hold' _ => ?_, fun hno => absurd hparse (hno old hfound)⟩
        rw [hfound] at hold'
        exact Option.some.inj hold' ▸ hcarries
    · simp only [Save.linked, hparse]
      constructor
      · intro h
        refine ⟨h.size, h.written fun old' hold' => ?_⟩
        rw [hfound] at hold'
        exact Option.some.inj hold' ▸ hparse
      · rintro ⟨hsize, hcarries⟩
        refine ⟨hsize, fun old' hold' hparse' => ?_, fun _ => hcarries⟩
        rw [hfound] at hold'
        exact absurd (Option.some.inj hold' ▸ hparse') hparse

/-- Encoding keeps the low 32 bits of a token id. -/
theorem encodeTokens_mod (ts : List Token) :
    encodeTokens (ts.map (· % 2 ^ 32)) = encodeTokens ts := by
  have hword : ∀ t : Nat, u32le (t % 2 ^ 32) = u32le t := by
    intro t
    have hread := u32leValue_u32le t
    simp only [u32le, List.cons.injEq, and_true]
    refine ⟨?_, ?_, ?_, ?_⟩ <;> apply UInt8.toNat_inj.mp <;>
      simp only [UInt8.toNat_ofNat'] <;> omega
  induction ts with
  | nil => rfl
  | cons t ts ih => rw [List.map_cons, encodeTokens_cons, encodeTokens_cons, ih, hword]

/-- The file of a save whose label is named and whose sections fit carries what is announced. -/
theorem Save.carries_newFile {w : Save} (hquant : w.buildMeta.quantType.isNamed = true)
    {b : UInt8} (hmode : fingerprintModeByte w.buildMeta.fingerprintMode = some b)
    (hfits : Fits w.runtime w.buildMeta b w.payload) : w.Carries sha256 w.newFile := by
  obtain ⟨built, hbuild, -, hfile⟩ := build_eq w.runtime w.payload hmode
  refine ⟨builtInfo w.runtime w.buildMeta b w.buildMeta.quantType w.payload, w.payload, ?_, rfl,
    encodeTokens_mod _, rfl⟩
  rw [(Save.newFile_eq hbuild).1, hfile]
  exact parse_builtFile sha256 hmode hquant hfits

/-- **Metadata.** The row of a save that answers `{ok, Key}` describes the file at its path
    exactly when what the save announces is what that file says. -/
theorem saved_rowDescribes_iff (sha256 : Bytes → Digest) (hitBias : Nat → Int → Int)
    (root : Path) (u : Nat) (x : Surroundings) (w : Save) (s : State) (key : CacheKey)
    (hsaved : (runAlone sha256 hitBias u x (doSave sha256 root u w) s).1 = .saved key) :
    RowDescribes sha256 root (runAlone sha256 hitBias u x (doSave sha256 root u w) s).2
        (w.key sha256) ↔
      w.Agrees sha256 root x (w.reserved sha256 hitBias u x s) := by
  have hdone : Ends sha256 hitBias u x (Announced sha256 root x w (w.linked sha256
      (x.found root (w.key sha256) (w.reserved sha256 hitBias u x s)))) 0
      (doSave sha256 root u w) s := ends_doSave w
  obtain ⟨_, hends⟩ := hdone.runAlone
  obtain ⟨hparse, hfinal, tier, hentry⟩ := hends key hsaved
  rw [Save.agrees_iff]
  generalize w.linked sha256 (x.found root (w.key sha256) (w.reserved sha256 hitBias u x s)) =
    bin at hparse hfinal hentry
  generalize (runAlone sha256 hitBias u x (doSave sha256 root u w) s).2 = t at hfinal hentry
  obtain ⟨row, hrow, heq⟩ := Option.map_eq_some_iff.mp hentry
  have hcols : row.status = .available ∧ row.tier = tier ∧ row.size = x.sized bin ∧
      row.headerBin = w.newFile.take 48 ∧
      row.location = locationFor tier (some (finalPath root (w.key sha256))) ∧
      row.tokensRef = some (encodeTokens w.buildMeta.tokens) ∧
      row.textBytes = w.buildMeta.text.length := by
    simpa only [Row.entry, Entry.mk.injEq] using heq
  obtain ⟨hav, htier, hsize, hheader, hloc, htokens, htext⟩ := hcols
  constructor
  · rintro ⟨row', bin', info, payload, hrow', -, -, hbin', hparse', hheader', hsize', htokens',
      htext'⟩
    have hr : row' = row := Option.some.inj (hrow'.symm.trans hrow)
    have hb : bin' = bin := Option.some.inj (hbin'.symm.trans hfinal)
    subst hr hb
    refine ⟨?_, info, payload, hparse', ?_, ?_, ?_⟩
    · -- a file that parses is not empty
      have hlen := le_length_of_parseMeta (parseMeta_of_parse hparse').1
      by_contra hfails
      rw [hsize', Surroundings.sized, if_pos (by simpa using hfails)] at hsize
      omega
    · exact hheader'.symm.trans hheader
    · exact Option.some.inj (htokens'.symm.trans htokens)
    · exact htext'.symm.trans htext
  · rintro ⟨hstat, info, payload, hparse', hheader', htokens', htext'⟩
    refine ⟨row, bin, info, payload, hrow, hav, htier ▸ hloc, hfinal, hparse', ?_, ?_, ?_, ?_⟩
    · exact hheader.trans hheader'.symm
    · rw [hsize, Surroundings.sized, hstat]
      rfl
    · rw [htokens, htokens']
    · exact htext.trans htext'.symm

/-! ### Another token list of the same text -/

/-- The key of a save that was answered `{ok, Key}`. -/
def Outcome.savedKey : Outcome → Option CacheKey
  | .saved key => some key
  | _          => none

/-- An outcome with a key is a save. -/
theorem Outcome.eq_of_savedKey {o : Outcome} {key : CacheKey} (h : o.savedKey = some key) :
    o = .saved key := by
  unfold Outcome.savedKey at h
  split at h
  · rw [Option.some.inj h]
  · cases h

set_option maxRecDepth 4000 in
/-- The text of `sampleSave`, tokenised otherwise. -/
def retokenisedSave : Save where
  tier := .disk
  pid := 8
  runtime := ⟨1, [104], none⟩
  buildMeta := { sampleMeta with tokens := [9] }
  payload := [1]
  tier_ne := disk_ne_ram
  size_lt := by
    intro built h
    cases h
    decide

/-- The tokens a checkpoint of the key carries. -/
def fileTokens (sha256 : Bytes → Digest) (bin : Bytes) (key : CacheKey) : Option (List Token) :=
  match parse sha256 bin key with
  | .ok (info, _) => some info.tokens
  | .error _      => none

/-- **Foreign tokens.** A valid file without a row is under the final name; a save of the same
    text with another token list answers `{ok, Key}`, and its row has the new tokens over the
    old payload. -/
theorem retokenised_not_rowDescribes :
    let s := (run (sysStep sampleSha (fun _ _ => 0) [114]) emptySys failedSyncRun).srv
    let r := runAlone sampleSha (fun _ _ => 0) 1 (calm 1)
      (doSave sampleSha [114] 1 retokenisedSave) s
    r.1 = .saved (retokenisedSave.key sampleSha) ∧
      ¬ RowDescribes sampleSha [114] r.2 (retokenisedSave.key sampleSha) := by
  intro s r
  refine ⟨Outcome.eq_of_savedKey (by decide +kernel), ?_⟩
  have hfile : (r.2.files (finalPath [114] (retokenisedSave.key sampleSha))).bind
      (fun bin => fileTokens sampleSha bin (retokenisedSave.key sampleSha)) = some [7, 8] := by
    decide +kernel
  have hrow : (r.2.metaTbl.lookup (retokenisedSave.key sampleSha)).map Row.tokensRef =
      some (some (encodeTokens [9])) := by
    decide +kernel
  rintro ⟨row, bin, info, payload, hlookup, -, -, hbin, hparse, -, -, htokens, -⟩
  rw [hbin, Option.bind_some, fileTokens, hparse] at hfile
  rw [hlookup, Option.map_some, htokens, Option.some.inj hfile] at hrow
  cases hrow

end Erllama.Publish
