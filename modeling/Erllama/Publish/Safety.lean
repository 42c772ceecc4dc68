import Erllama.Publish.Rules

namespace Erllama.Publish

open Lib MetaSrv Kvc

/-!
# Saves and loads keep the index and the directory in agreement

Each call of the save pipeline moves the index as `Sound` wants it, given what the process
has learnt before: that its token was handed out, that the key's file parses if the token
still holds, that its claim is marked if the token still holds.  Walking through the programs
with these assertions gives the invariant of every run.

* `Fresh`, `Guarded`, `Marked` — what a process knows about its token.
* `kept_reserve`, `kept_mark`, `kept_announce`, … — the calls.
* `runs_doSave`, `runs_pinAndLoad` — the programs.
* `sysSound_run` — the invariant of every run that spares the files of `K`.
-/

section Assertions

variable (sha256 : Bytes → Digest) (root : Path) (K : CacheKey → Prop)

/-- The token was handed out. -/
def Fresh (token : Ref) (s : State) : Prop := token < s.nextRef

/-- While the token holds the key, the key's file parses. -/
def Guarded (key : CacheKey) (token : Ref) (s : State) : Prop :=
  token < s.nextRef ∧ ∀ c, s.index.claim key = some c → c.token = token → K key →
    Valid sha256 root s.files key

/-- While the token holds the key, its claim is marked published. -/
def Marked (key : CacheKey) (token : Ref) (s : State) : Prop :=
  token < s.nextRef ∧ ∀ c, s.index.claim key = some c → c.token = token → c.stage = .postLink

end Assertions

variable {sha256 : Bytes → Digest} {hitBias : Nat → Int → Int} {root : Path}
  {K : CacheKey → Prop} {u : Nat} {s t : State} {key : CacheKey} {token : Ref}

/-- A token stays handed out. -/
theorem Fresh.evolving : Evolving sha256 root K (Fresh token) :=
  fun _ _ h he => h.trans_le he.nextRef

/-- The guard of a save survives what others do. -/
theorem Guarded.evolving : Evolving sha256 root K (Guarded sha256 root K key token) := by
  rintro s t ⟨hlt, hvalid⟩ he
  refine ⟨hlt.trans_le he.nextRef, fun c' hc' htok hK => ?_⟩
  obtain ⟨c, hc, htok', -, hkeep⟩ := he.claim key c' hc' (htok ▸ hlt)
  exact hkeep hK (hvalid c hc (htok'.trans htok) hK)

/-- So does its mark. -/
theorem Marked.evolving : Evolving sha256 root K (Marked key token) := by
  rintro s t ⟨hlt, hmarked⟩ he
  refine ⟨hlt.trans_le he.nextRef, fun c' hc' htok => ?_⟩
  obtain ⟨c, hc, htok', hstage, -⟩ := he.claim key c' hc' (htok ▸ hlt)
  exact hstage (hmarked c hc (htok'.trans htok))

/-! ### Calls of the meta server -/

/-- A call is a step of the server, answered with its reply. -/
theorem perform_call {d : Deps} {env : Env} {frm : From} {fault : Fault} {msg : Msg}
    {r : Option Reply} (h : perform d env frm fault (.call msg) s = (r, t)) :
    t = step d s ⟨env, frm, msg⟩ ∧ r = (step d s ⟨env, frm, msg⟩).answer := by
  cases h
  exact ⟨rfl, rfl⟩

/-- A granted token is handed out. -/
theorem kept_reserve {tier : Tier} (htier : tier ≠ .ram) {pid : Pid} {r : Option Reply}
    (h : Sound sha256 root K s.index)
    (hc : can sha256 hitBias root K s (.call (.reserveSave key tier pid)) r t) :
    Kept sha256 root K u s t ∧ ∀ token, r = some (.token token) → Fresh token t := by
  obtain ⟨-, env, frm, fault, hperform⟩ := hc
  obtain ⟨rfl, rfl⟩ := perform_call hperform
  set s0 := s.startCallback with hs0
  have hstep : step (deps sha256 hitBias) s ⟨env, frm, .reserveSave key tier pid⟩ =
      doReserveSave (deps sha256 hitBias) env key tier pid frm s0 := rfl
  rw [hstep]
  have h0 : Sound sha256 root K s0.index := h
  have hkept : ∀ j : Index, Moved sha256 root K s0.index j →
      (doReserveSave (deps sha256 hitBias) env key tier pid frm s0).index = j →
      Kept sha256 root K u s (doReserveSave (deps sha256 hitBias) env key tier pid frm s0) := by
    rintro j hj rfl
    have hj' : Moved sha256 root K s.index _ := hj
    exact Kept.of_moved hj' u
  rcases index_doReserveSave (deps sha256 hitBias) env s0 key tier pid frm with
    ⟨hsame, hans⟩ | ⟨-, hans, hindex⟩
  · exact ⟨hkept _ (Moved.refl h0) hsame, fun token htoken => absurd htoken (hans token)⟩
  · have hfresh : ∀ j : Index, j.nextRef = s.nextRef →
        (doReserveSave (deps sha256 hitBias) env key tier pid frm s0).index =
          j.reserve key tier pid →
        ∀ token, (doReserveSave (deps sha256 hitBias) env key tier pid frm s0).answer =
          some (.token token) →
          Fresh token (doReserveSave (deps sha256 hitBias) env key tier pid frm s0) := by
      intro j hj hreserve token htoken
      rw [hans] at htoken
      cases htoken
      have hnext : (doReserveSave (deps sha256 hitBias) env key tier pid frm s0).nextRef =
          s.nextRef + 2 := by
        rw [← index_nextRef, hreserve, ← hj]
        rfl
      have hs0 : s0.nextRef = s.nextRef := rfl
      rw [Fresh, hnext, hs0]
      exact Nat.lt_succ_self _
    rcases hindex with ⟨-, heq⟩ | ⟨c, hclaim, heq⟩
    · exact ⟨hkept _ (moved_reserve h0 key htier pid) heq, hfresh _ rfl heq⟩
    · have hclean : Moved sha256 root K s0.index
          (s0.index.cleanup key (deps sha256 hitBias) env c) := moved_cleanup h0 hclaim
      refine ⟨hkept _ (hclean.trans (moved_reserve hclean.sound key htier pid)) heq,
        hfresh _ ?_ heq⟩
      rw [Index.nextRef_cleanup]
      rfl

/-- Checking a reservation changes nothing others rely on. -/
theorem kept_check {r : Option Reply} (h : Sound sha256 root K s.index)
    (hc : can sha256 hitBias root K s (.call (.checkReservation key token)) r t) :
    Kept sha256 root K u s t := by
  obtain ⟨-, env, frm, fault, hperform⟩ := hc
  obtain ⟨rfl, -⟩ := perform_call hperform
  have hindex : (step (deps sha256 hitBias) s ⟨env, frm, .checkReservation key token⟩).index =
      s.index := index_handleCheckReservation s.startCallback key token frm
  refine Kept.of_moved ?_ u
  rw [hindex]
  exact Moved.refl h

/-- Marking the claim of a token whose file parses; afterwards the claim is marked, or the token
    does not hold the key. -/
theorem kept_mark {r : Option Reply} (h : Sound sha256 root K s.index)
    (hg : Guarded sha256 root K key token s)
    (hc : can sha256 hitBias root K s
      (.call (.markPublished key token (finalPath root key))) r t) :
    Kept sha256 root K u s t ∧ Marked key token t := by
  obtain ⟨-, env, frm, fault, hperform⟩ := hc
  obtain ⟨rfl, -⟩ := perform_call hperform
  set s0 := s.startCallback with hs0
  have hstep : step (deps sha256 hitBias) s
      ⟨env, frm, .markPublished key token (finalPath root key)⟩ =
      handleMarkPublished env key token (finalPath root key) frm s0 := rfl
  rw [hstep]
  cases hr : s0.reservationWith key token with
  | none =>
    have hsame : (handleMarkPublished env key token (finalPath root key) frm s0).index =
        s.index := by
      simp only [handleMarkPublished, hr]
      rfl
    refine ⟨Kept.of_moved (Moved.of_eq h hsame) u, ?_, fun c hcl htok => ?_⟩
    · rw [← index_nextRef, hsame]
      exact hg.1
    · rw [hsame] at hcl
      exact absurd htok ((reservationWith_eq_none_iff s0 key token).mp hr c hcl)
  | some res =>
    obtain ⟨hlookup, htoken⟩ := (reservationWith_eq_some_iff s0 key).mp hr
    have hclaim : s.index.claim key = some res.claim :=
      congrArg (Option.map Reservation.claim) hlookup
    have hindex : (handleMarkPublished env key token (finalPath root key) frm s0).index =
        s0.index.mark key res.claim (finalPath root key) :=
      index_handleMarkPublished s0 key hr (finalPath root key) frm
    have hmoved : Moved sha256 root K s.index
        (s.index.mark key res.claim (finalPath root key)) :=
      moved_mark h hclaim (hg.2 res.claim hclaim htoken)
    refine ⟨Kept.of_moved (s := s) (by rw [hindex]; exact hmoved) u, ?_, fun c hcl _ => ?_⟩
    · rw [← index_nextRef, hindex]
      exact hg.1
    · rw [hindex] at hcl
      simp only [Index.mark, Index.claim_setClaim, if_true] at hcl
      cases hcl
      rfl

/-- Announcing a token whose claim is marked. -/
theorem kept_announce {size : Nat} {header : Bytes} {tokensBin : Option Bytes}
    {textBytes : Nat} {r : Option Reply} (h : Sound sha256 root K s.index)
    (hm : Marked key token s)
    (hc : can sha256 hitBias root K s
      (.call (.announceSaved key token size header tokensBin textBytes)) r t) :
    Kept sha256 root K u s t := by
  obtain ⟨-, env, frm, fault, hperform⟩ := hc
  obtain ⟨rfl, -⟩ := perform_call hperform
  set s0 := s.startCallback with hs0
  have hstep : step (deps sha256 hitBias) s
      ⟨env, frm, .announceSaved key token size header tokensBin textBytes⟩ =
      handleAnnounceSaved env key token size header tokensBin textBytes frm s0 := rfl
  rw [hstep]
  refine Kept.of_moved (s := s) ?_ u
  cases hr : s0.reservationWith key token with
  | none =>
    have hsame : (handleAnnounceSaved env key token size header tokensBin textBytes frm
        s0).index = s.index := by
      simp only [handleAnnounceSaved, hr]
      rfl
    exact Moved.of_eq h hsame
  | some res =>
    obtain ⟨hlookup, htoken⟩ := (reservationWith_eq_some_iff s0 key).mp hr
    have hclaim : s.index.claim key = some res.claim :=
      congrArg (Option.map Reservation.claim) hlookup
    rw [index_handleAnnounceSaved s0 key hr]
    exact moved_publish h hclaim (hm.2 res.claim hclaim htoken) size header tokensBin textBytes

/-- Nor does cancelling one. -/
theorem kept_cancel {r : Option Reply} (h : Sound sha256 root K s.index)
    (hc : can sha256 hitBias root K s (.call (.cancelReservation key token)) r t) :
    Kept sha256 root K u s t := by
  obtain ⟨-, env, frm, fault, hperform⟩ := hc
  obtain ⟨rfl, -⟩ := perform_call hperform
  set s0 := s.startCallback with hs0
  have hstep : step (deps sha256 hitBias) s ⟨env, frm, .cancelReservation key token⟩ =
      handleCancelReservation key token frm s0 := rfl
  rw [hstep]
  refine Kept.of_moved (s := s) ?_ u
  cases hr : s0.reservationWith key token with
  | none =>
    have hsame : (handleCancelReservation key token frm s0).index = s.index := by
      simp only [handleCancelReservation, hr]
      rfl
    exact Moved.of_eq h hsame
  | some res =>
    rw [index_handleCancelReservation s0 key hr]
    exact moved_forget h key

/-- A message of the server beside the save pipeline. -/
theorem moved_background {env : Env} {frm : From} {msg : Msg} (h : Sound sha256 root K s.index)
    (hbg : msg.isBackground = true) :
    Moved sha256 root K s.index (step (deps sha256 hitBias) s ⟨env, frm, msg⟩).index :=
  moved_moves h (index_background s frm hbg)

/-- Nor does any message that is not a writer's. -/
theorem kept_background {msg : Msg} {r : Option Reply} (hbg : msg.isBackground = true)
    (h : Sound sha256 root K s.index) (hc : can sha256 hitBias root K s (.call msg) r t) :
    Kept sha256 root K u s t := by
  obtain ⟨-, env, frm, fault, hperform⟩ := hc
  obtain ⟨rfl, -⟩ := perform_call hperform
  exact Kept.of_moved (moved_background h hbg) u

/-! ### Publishing -/

/-- The process knows its token, and its temporary file is the one it wrote. -/
def HasTmp (root : Path) (u : Nat) (key : CacheKey) (token : Ref) (pid : Pid) (bin : Bytes)
    (s : State) : Prop :=
  Fresh token s ∧ s.files (tmpPath root key pid u) = some bin

variable {pid : Pid} {bin built : Bytes} {P : State → Prop}

/-- Nobody else touches the temporary file of a writer. -/
theorem HasTmp.stable : Stable sha256 root K u (HasTmp root u key token pid bin) :=
  fun _ _ h hr => ⟨Fresh.evolving _ _ h.1 hr.1, (hr.2 key pid).trans h.2⟩

/-- What `publish` returns: on success the key's file parses while the token holds. -/
def PublishedOk (sha256 : Bytes → Digest) (root : Path) (K : CacheKey → Prop) (key : CacheKey)
    (token : Ref) (r : Published) (s : State) : Prop :=
  Fresh token s ∧ ∀ header size, r = .ok header size → Guarded sha256 root K key token s

/-- A publication that failed. -/
theorem runs_publishError (r : Published) (hr : ∀ header size, r ≠ .ok header size)
    (h : Fresh token s) :
    Runs sha256 hitBias root K u (PublishedOk sha256 root K key token) (.ret r) s :=
  Runs.done (Fresh.evolving.stable u) h fun _ hf =>
    ⟨hf, fun header size heq => absurd heq (hr header size)⟩

/-- Reading a file that parses: it parses for as long as the token holds. -/
theorem runs_validateAt (hP : Stable sha256 root K u P) (hfresh : ∀ s, P s → Fresh token s)
    (hs : P s) :
    Runs sha256 hitBias root K u
      (fun r s => P s ∧ ∀ x, r = .ok x → Guarded sha256 root K key token s)
      (validateAt sha256 (finalPath root key) key) s := by
  have herror : ∀ (e : Reason) (t : State), P t → Runs sha256 hitBias root K u
      (fun r s => P s ∧ ∀ x, r = Except.ok x → Guarded sha256 root K key token s)
      (.ret (.error e : Except Reason (Info × Bytes))) t := fun e t hp =>
    Runs.done hP hp fun _ hp => ⟨hp, fun _ h => by cases h⟩
  rw [validateAt_eq]
  refine Runs.readFile hP hs (fun e t _ hp => herror _ t hp) fun bin t _ hp hfile => ?_
  show Runs sha256 hitBias root K u
    (fun r s => P s ∧ ∀ x, r = Except.ok x → Guarded sha256 root K key token s)
    (.ret ((parse sha256 bin key).mapError Reason.kvc)) t
  cases hparse : parse sha256 bin key with
  | error e => exact herror _ t hp
  | ok x =>
    have hguard : Guarded sha256 root K key token t :=
      ⟨hfresh t hp, fun _ _ _ _ => ⟨bin, x.1, x.2, hfile, hparse⟩⟩
    have hstable : Stable sha256 root K u fun s => P s ∧ Guarded sha256 root K key token s :=
      fun s t h hr => ⟨hP s t h.1 hr, Guarded.evolving s t h.2 hr.1⟩
    exact Runs.done hstable ⟨hp, hguard⟩ fun _ h => ⟨h.1, fun _ _ => h.2⟩

/-- The size of a file changes nothing that is known. -/
theorem runs_fileSize {β : Type} {post : β → State → Prop} {f : Nat → Program β} {p : Path}
    (hP : Stable sha256 root K u P) (hs : P s)
    (h : ∀ n t, Sound sha256 root K t.index → P t →
      Runs sha256 hitBias root K u post (f n) t) :
    Runs sha256 hitBias root K u post (fileSize p >>= f) s := by
  refine Runs.quiet (a := .readFileInfo p) rfl hP hs fun r t hv hp => ?_
  cases r with
  | error e => exact h 0 t hv hp
  | ok n    => exact h n t hv hp

/-- Reading back the file that was linked. -/
theorem runs_finalise (h : Fresh token s) :
    Runs sha256 hitBias root K u (PublishedOk sha256 root K key token)
      (finalise sha256 key built (finalPath root key) root) s := by
  refine Runs.quiet (a := .fsyncDir root) rfl (Fresh.evolving.stable u) h
    fun r t hvt hf => ?_
  cases r with
  | error e => exact runs_publishError _ (fun _ _ h => by cases h) hf
  | ok _ =>
    refine Runs.bind (p := validateAt sha256 (finalPath root key) key) hvt
      (runs_validateAt (Fresh.evolving.stable u) (fun _ h => h) hf) fun r t hvt hr => ?_
    cases r with
    | ok x =>
      refine runs_fileSize (Guarded.evolving.stable u) (hr.2 x rfl) fun n t _ hg => ?_
      exact Runs.done (Guarded.evolving.stable u) hg fun _ hg => ⟨hg.1, fun _ _ _ => hg⟩
    | error e =>
      refine Runs.any (a := .delete (finalPath root key)) Fresh.evolving hr.1
        (fun s r t hv _ hc => kept_delete_final hv hc) fun r t _ hf => ?_
      exact runs_publishError _ (fun _ _ h => by cases h) hf

/-- Linking: the temporary file is still there when the final name was taken. -/
theorem runs_tryLink (hwhole : Whole sha256 key bin)
    (h : HasTmp root u key token pid bin s) :
    Runs sha256 hitBias root K u
      (fun r s => Fresh token s ∧ (r = .eexist → HasTmp root u key token pid bin s))
      (tryLink (tmpPath root key pid u) (finalPath root key)) s := by
  have hdelete : ∀ (r : Linked) (t : State), r ≠ .eexist → Fresh token t →
      Runs sha256 hitBias root K u
        (fun r s => Fresh token s ∧ (r = .eexist → HasTmp root u key token pid bin s))
        (.act (.delete (tmpPath root key pid u)) fun _ => .ret r) t := by
    intro r t hr hf
    refine Runs.any Fresh.evolving hf (fun s x t hv _ hc => kept_delete_tmp hv hc)
      fun x t _ hf => ?_
    exact Runs.done (Fresh.evolving.stable u) hf fun _ hf => ⟨hf, fun h => absurd h hr⟩
  refine Runs.act HasTmp.stable h fun s r t hv htmp hc => ?_
  obtain ⟨hkept, hr⟩ := kept_makeLink (u := u) hv htmp.2 hwhole hc
  refine ⟨hkept, ?_⟩
  rcases hr with ⟨⟨e, rfl⟩, rfl⟩ | ⟨rfl, rfl⟩
  · cases e with
    | enoent => exact hdelete _ _ (by simp) htmp.1
    | other  => exact hdelete _ _ (by simp) htmp.1
    | eexist => exact Runs.done HasTmp.stable htmp fun _ ht => ⟨ht.1, fun _ => ht⟩
  · exact hdelete _ _ (by simp) htmp.1

/-- The file at the final path is another's: it is adopted if it parses. -/
theorem runs_handleEexist (hv : Sound sha256 root K s.index) (hwhole : Whole sha256 key bin)
    (h : HasTmp root u key token pid bin s) :
    Runs sha256 hitBias root K u (PublishedOk sha256 root K key token)
      (handleEexist sha256 key built (tmpPath root key pid u) (finalPath root key) root) s := by
  refine Runs.bind hv (runs_validateAt HasTmp.stable (fun _ h => h.1) h) fun r t hvt hr => ?_
  cases r with
  | ok x =>
    refine Runs.any (a := .delete (tmpPath root key pid u)) Guarded.evolving (hr.2 x rfl)
      (fun s y t hv _ hc => kept_delete_tmp hv hc) fun y t _ hg => ?_
    refine Runs.quiet (a := .fsyncDir root) rfl (Guarded.evolving.stable u) hg
      fun y t _ hg => ?_
    cases y with
    | error e => exact runs_publishError _ (fun _ _ h => by cases h) hg.1
    | ok _ =>
      refine runs_fileSize (Guarded.evolving.stable u) hg fun n t _ hg => ?_
      exact Runs.done (Guarded.evolving.stable u) hg fun _ hg => ⟨hg.1, fun _ _ _ => hg⟩
  | error e =>
    -- the invalid file makes room for the process's own
    refine Runs.act HasTmp.stable hr.1 fun s y t hv htmp hc => ?_
    have hkept : Kept sha256 root K u s t := kept_delete_final hv hc
    have htmp' : HasTmp root u key token pid bin t := by
      refine ⟨Fresh.evolving s t htmp.1 hkept.evolves, ?_⟩
      obtain ⟨-, env, frm, fault, hperform⟩ := hc
      rcases perform_delete (deps sha256 hitBias) env frm fault
        (finalPath root key) s with ht | ht
      · rw [hperform] at ht
        replace ht : t = s := ht
        exact ht ▸ htmp.2
      · rw [hperform] at ht
        replace ht : t = setFile (finalPath root key) none s := ht
        rw [ht]
        exact (Function.update_of_ne (tmpPath_ne_finalPath root key key pid u) _ _).trans
          htmp.2
    refine ⟨hkept, Runs.bind (p := tryLink (tmpPath root key pid u) (finalPath root key))
      hkept.sound (runs_tryLink hwhole htmp') fun y t hvt hr => ?_⟩
    cases y with
    | ok      => exact runs_finalise hr.1
    | eexist  => exact runs_publishError _ (fun _ _ h => by cases h) hr.1
    | error e => exact runs_publishError _ (fun _ _ h => by cases h) hr.1

/-- Linking the temporary file to its final path. -/
theorem runs_linkTemp (hv : Sound sha256 root K s.index) (hwhole : Whole sha256 key bin)
    (h : HasTmp root u key token pid bin s) :
    Runs sha256 hitBias root K u (PublishedOk sha256 root K key token)
      (linkTemp sha256 key built (tmpPath root key pid u) (finalPath root key) root) s := by
  refine Runs.bind hv (runs_tryLink hwhole h) fun r t hvt hr => ?_
  cases r with
  | ok      => exact runs_finalise hr.1
  | eexist  => exact runs_handleEexist hvt hwhole (hr.2 rfl)
  | error e => exact runs_publishError _ (fun _ _ h => by cases h) hr.1

/-! ### Writing the temporary file -/

/-- What `write_temp` returns: on success the temporary file is complete. -/
def WrittenTemp (root : Path) (u : Nat) (key : CacheKey) (token : Ref) (pid : Pid) (bin : Bytes)
    (r : Except Reason Unit) (s : State) : Prop :=
  Fresh token s ∧ (r = .ok () → HasTmp root u key token pid bin s)

/-- A temporary file that could not be written. -/
theorem runs_writeError (e : Reason) (h : Fresh token s) :
    Runs sha256 hitBias root K u (WrittenTemp root u key token pid bin)
      (.ret (.error e)) s :=
  Runs.done (Fresh.evolving.stable u) h fun _ hf => ⟨hf, fun h => by cases h⟩

variable (key pid) in
/-- Writing the temporary file. -/
theorem runs_writeTemp {payload : Bytes} (h : Fresh token s) :
    Runs sha256 hitBias root K u (WrittenTemp root u key token pid (built ++ payload))
      (writeTemp (tmpPath root key pid u) built payload) s := by
  refine Runs.act (a := .openExclusive (tmpPath root key pid u)) (Fresh.evolving.stable u) h
    fun s r t hv hf hc => ?_
  obtain ⟨-, env, frm, fault, hperform⟩ := hc
  -- the name is new, or the save is given up
  have hopen : (∃ e, r = .error e) ∧ t = s ∨
      r = .ok () ∧ t = setFile (tmpPath root key pid u) (some []) s := by
    simp only [perform] at hperform
    split at hperform
    · cases hperform
      exact Or.inl ⟨⟨_, rfl⟩, rfl⟩
    · cases hfile : s.files (tmpPath root key pid u) <;> simp only [hfile] at hperform <;>
        cases hperform
      · exact Or.inr ⟨rfl, rfl⟩
      · exact Or.inl ⟨⟨_, rfl⟩, rfl⟩
  rcases hopen with ⟨⟨e, rfl⟩, rfl⟩ | ⟨rfl, rfl⟩
  · exact ⟨Kept.refl hv u, runs_writeError _ hf⟩
  · refine ⟨kept_setTmp hv key pid _, ?_⟩
    have htmp : HasTmp root u key token pid []
        (setFile (tmpPath root key pid u) (some []) s) := ⟨hf, Function.update_self ..⟩
    refine Runs.act (a := .write (tmpPath root key pid u) (built ++ payload)) HasTmp.stable
      htmp fun s r t hv htmp hc => ?_
    obtain ⟨-, env, frm, fault, hperform⟩ := hc
    have hwrite : (∃ e, r = .error e) ∧
        t = setFile (tmpPath root key pid u) (some ((built ++ payload).take fault.kept)) s ∨
        r = .ok () ∧ t = setFile (tmpPath root key pid u) (some (built ++ payload)) s := by
      simp only [perform, htmp.2] at hperform
      split at hperform
      · cases hperform
        exact Or.inl ⟨⟨_, rfl⟩, rfl⟩
      · cases hperform
        exact Or.inr ⟨rfl, rfl⟩
    rcases hwrite with ⟨⟨e, rfl⟩, rfl⟩ | ⟨rfl, rfl⟩
    · exact ⟨kept_setTmp hv key pid _, runs_writeError _ htmp.1⟩
    · refine ⟨kept_setTmp hv key pid _, ?_⟩
      have hfull : HasTmp root u key token pid (built ++ payload)
          (setFile (tmpPath root key pid u) (some (built ++ payload)) s) :=
        ⟨htmp.1, Function.update_self ..⟩
      refine Runs.quiet (a := .datasync (tmpPath root key pid u)) rfl HasTmp.stable hfull
        fun r t _ htmp => ?_
      cases r with
      | error e => exact runs_writeError _ htmp.1
      | ok _    => exact Runs.done HasTmp.stable htmp fun _ ht => ⟨ht.1, fun _ => ht⟩

/-- What `write_tmp` returns: on success the temporary file is the whole checkpoint. -/
def WrittenTmp (sha256 : Bytes → Digest) (root : Path) (u : Nat) (token : Ref) (w : Save)
    (r : Except Reason WriteOut) (s : State) : Prop :=
  Fresh token s ∧ ∀ out, r = .ok out → ∃ built,
    build w.runtime w.buildMeta w.payload = .ok built ∧
      out = ⟨w.key sha256, tmpPath root (w.key sha256) w.pid u, finalPath root (w.key sha256),
        built, w.payload, root⟩ ∧
      HasTmp root u (w.key sha256) token w.pid (built ++ w.payload) s

/-- The whole of it, from the payload. -/
theorem runs_writeTmp (w : Save) (hv : Sound sha256 root K s.index) (h : Fresh token s) :
    Runs sha256 hitBias root K u (WrittenTmp sha256 root u token w)
      (writeTmp sha256 root u w) s := by
  have herror : ∀ (e : Reason) (t : State), Fresh token t →
      Runs sha256 hitBias root K u (WrittenTmp sha256 root u token w) (.ret (.error e)) t :=
    fun e t hf => Runs.done (Fresh.evolving.stable u) hf fun _ hf =>
      ⟨hf, fun _ h => by cases h⟩
  unfold writeTmp
  cases hbuild : build w.runtime w.buildMeta w.payload with
  | error e  => exact herror _ s h
  | ok built =>
    refine Runs.bind hv (runs_writeTemp (w.key sha256) w.pid h)
      fun r t hvt hr => ?_
    cases r with
    | ok _    =>
      refine Runs.done HasTmp.stable (hr.2 rfl) fun _ ht => ⟨ht.1, fun out hout => ?_⟩
      cases hout
      exact ⟨built, hbuild, rfl, ht⟩
    | error e =>
      refine Runs.any (a := .delete (tmpPath root (w.key sha256) w.pid u)) Fresh.evolving hr.1
        (fun s r t hv _ hc => kept_delete_tmp hv hc) fun _ t _ hf => ?_
      exact herror e t hf

/-! ### The programs -/

/-- What a load returned was read from a whole file of its key. -/
def Outcome.Sane (sha256 : Bytes → Digest) : Outcome → Prop
  | .loaded key _ info payload =>
    ∃ bin, Whole sha256 key bin ∧ parse sha256 bin key = .ok (info, payload)
  | _ => True

/-- The program keeps the invariant beside the others, and what it loads is whole. -/
abbrev RunsSane (sha256 : Bytes → Digest) (hitBias : Nat → Int → Int) (root : Path)
    (K : CacheKey → Prop) (u : Nat) (p : Program Outcome) (s : State) : Prop :=
  Runs sha256 hitBias root K u (fun o _ => Outcome.Sane sha256 o) p s

/-- The end of a writer. -/
theorem runs_ret {o : Outcome} (h : o.Sane sha256) :
    RunsSane sha256 hitBias root K u (.ret o) s :=
  fun _ _ _ => h

/-- What a writer does once its file is at the final path. -/
theorem runs_afterPublish (m : BuildMeta) (header : Bytes) (size : Nat)
    (h : Guarded sha256 root K key token s) :
    RunsSane sha256 hitBias root K u
      (afterPublish key token m (finalPath root key) header size) s := by
  refine Runs.act (a := .call (.markPublished key token (finalPath root key)))
    (Guarded.evolving.stable u) h fun s r t hv hg hc => ?_
  obtain ⟨hkept, hmarked⟩ := kept_mark (u := u) hv hg hc
  refine ⟨hkept, ?_⟩
  rcases r with _ | r
  · exact runs_ret trivial
  cases r with
  | ok =>
    refine Runs.any (a := .call (.announceSaved key token size header
      (some (encodeTokens m.tokens)) m.text.length)) Marked.evolving hmarked
      (fun s r t hv hm hc => kept_announce hv hm hc) fun r t _ _ => ?_
    rcases r with _ | r
    · exact runs_ret trivial
    cases r <;> exact runs_ret trivial
  | _ => exact runs_ret trivial

/-- Deleting the temporary file before giving up. -/
theorem runs_abortTmp {β : Type} {post : β → State → Prop} {f : Unit → Program β}
    {out : WriteOut} (htmp : out.tmp = tmpPath root key pid u) (hP : Evolving sha256 root K P)
    (hs : P s)
    (h : ∀ t, Sound sha256 root K t.index → P t →
      Runs sha256 hitBias root K u post (f ()) t) :
    Runs sha256 hitBias root K u post (abortTmp out >>= f) s :=
  Runs.any (a := .delete out.tmp) hP hs
    (fun s r t hv _ hc => by
      rw [htmp] at hc
      exact kept_delete_tmp hv hc)
    fun _ t hv hp => h t hv hp

/-- What a writer does once its reservation is known to stand. -/
theorem runs_afterCheckReservation (m : BuildMeta) (out : WriteOut) (hkey : out.key = key)
    (htmp : out.tmp = tmpPath root key pid u) (hfinal : out.final = finalPath root key)
    (hroot : out.root = root) (hv : Sound sha256 root K s.index)
    (hwhole : Whole sha256 key bin) (h : HasTmp root u key token pid bin s) :
    RunsSane sha256 hitBias root K u (afterCheckReservation sha256 key token m out) s := by
  obtain ⟨_, tmp, final, built, payload, _⟩ := out
  dsimp only at hkey htmp hfinal hroot
  subst hkey htmp hfinal hroot
  refine Runs.bind (p := publish sha256 _) hv (runs_linkTemp hv hwhole h) fun r t hvt hr => ?_
  cases r with
  | ok header size => exact runs_afterPublish m header size (hr.2 header size rfl)
  | crash          => exact runs_ret trivial
  | error e        =>
    refine runs_abortTmp rfl Fresh.evolving hr.1 fun t _ hf => ?_
    exact Runs.any (a := .call (.cancelReservation _ token)) Fresh.evolving hf
      (fun s r t hv _ hc => kept_cancel hv hc) fun _ _ _ _ => runs_ret trivial

/-- What it does once its temporary file is written. -/
theorem runs_afterWriteTmp (m : BuildMeta) (out : WriteOut) (hkey : out.key = key)
    (htmp : out.tmp = tmpPath root key pid u) (hfinal : out.final = finalPath root key)
    (hroot : out.root = root) (hwhole : Whole sha256 key bin)
    (h : HasTmp root u key token pid bin s) :
    RunsSane sha256 hitBias root K u (afterWriteTmp sha256 key token m out) s := by
  refine Runs.act (a := .call (.checkReservation key token)) HasTmp.stable h
    fun s r t hv htmp' hc => ?_
  have hkept : Kept sha256 root K u s t := kept_check hv hc
  have hkeep : HasTmp root u key token pid bin t := by
    obtain ⟨-, env, frm, fault, hperform⟩ := hc
    obtain ⟨rfl, -⟩ := perform_call hperform
    have hindex : (step (deps sha256 hitBias) s
        ⟨env, frm, .checkReservation key token⟩).index = s.index :=
      index_handleCheckReservation s.startCallback key token frm
    refine ⟨Fresh.evolving s _ htmp'.1 hkept.evolves, ?_⟩
    rw [← index_files, hindex]
    exact htmp'.2
  refine ⟨hkept, ?_⟩
  rcases r with _ | r
  · exact runs_ret trivial
  cases r with
  | ok => exact runs_afterCheckReservation m out hkey htmp hfinal hroot hkept.sound hwhole hkeep
  | expired => exact runs_abortTmp htmp Fresh.evolving hkeep.1 fun _ _ _ => runs_ret trivial
  | _ => exact runs_ret trivial

/-- A save, from any state of the invariant. -/
theorem runs_doSave (w : Save) :
    RunsSane sha256 hitBias root K u (doSave sha256 root u w) s := by
  have htrue : Evolving sha256 root K fun _ => True := fun _ _ _ _ => trivial
  refine Runs.act (a := .call (.reserveSave (w.key sha256) w.tier w.pid)) (htrue.stable u)
    trivial fun s r t hv _ hc => ?_
  obtain ⟨hkept, hfresh⟩ := kept_reserve (u := u) w.tier_ne hv hc
  refine ⟨hkept, ?_⟩
  rcases r with _ | r
  · exact runs_ret trivial
  cases r with
  | token token =>
    refine Runs.bind (p := writeTmp sha256 root u w) hkept.sound
      (runs_writeTmp w hkept.sound (hfresh token rfl)) fun r t hvt hr => ?_
    cases r with
    | ok out =>
      obtain ⟨built, hbuild, rfl, htmp⟩ := hr.2 out rfl
      have hwhole : Whole sha256 (w.key sha256) (built ++ w.payload) :=
        ⟨w, built, rfl, hbuild, SameButHits.refl _⟩
      exact runs_afterWriteTmp w.buildMeta _ rfl rfl rfl rfl hwhole htmp
    | error e =>
      exact Runs.any (a := .call (.cancelReservation _ token)) Fresh.evolving hr.1
        (fun s r t hv _ hc => kept_cancel hv hc) fun _ _ _ _ => runs_ret trivial
  | _ => exact runs_ret trivial

/-! ### Loading -/

/-- What a file of the key was parsed to. -/
def Loaded.Sane (sha256 : Bytes → Digest) (key : CacheKey) : Loaded → Prop
  | .ok info payload => ∃ bin, Whole sha256 key bin ∧ parse sha256 bin key = .ok (info, payload)
  | _                => True

/-- What is unpacked was parsed. -/
theorem sane_unpackRow {r : Loaded} (h : r.Sane sha256 key) (tokensBin : Option Bytes) :
    (unpackRow key tokensBin r).Sane sha256 := by
  cases r with
  | miss         => trivial
  | error reason => trivial
  | ok info payload =>
    unfold unpackRow
    dsimp only
    split
    · trivial
    · split
      · exact h
      · trivial

/-- A load reads a whole file, or nothing. -/
theorem runs_doLoad : Runs sha256 hitBias root K u (fun r _ => Loaded.Sane sha256 key r)
    (doLoad sha256 root key) s := by
  have htrue : Evolving sha256 root K fun _ => True := fun _ _ _ _ => trivial
  refine Runs.readFile (htrue.stable u) trivial (fun e t _ _ => ?_) fun bin t hv _ hfile => ?_
  · cases e <;> exact fun _ _ _ => trivial
  · have hwhole := (hv key).whole bin hfile
    show Runs sha256 hitBias root K u (fun r _ => Loaded.Sane sha256 key r)
      (parseOrDrop sha256 bin key (finalPath root key)) t
    unfold parseOrDrop
    cases hparse : parse sha256 bin key with
    | ok x =>
      -- a file that parses is no stub that a hit count was written to
      refine fun _ _ _ => ⟨bin, hwhole.resolve_right fun hshort => ?_, hparse⟩
      exact parse_of_short (by omega) hparse
    | error e =>
      exact Runs.any (a := .delete (finalPath root key)) htrue trivial
        (fun s r t hv _ hc => kept_delete_final hv hc) fun _ _ _ _ => fun _ _ _ => trivial

/-- A load, from any state of the invariant. -/
theorem runs_pinAndLoad :
    RunsSane sha256 hitBias root K u (pinAndLoad sha256 root key pid) s := by
  have htrue : Evolving sha256 root K fun _ => True := fun _ _ _ _ => trivial
  refine Runs.any (a := .call (.checkout key pid)) htrue trivial
    (fun s r t hv _ hc => kept_background rfl hv hc) fun r t hvt _ => ?_
  rcases r with _ | r
  · exact runs_ret trivial
  cases r with
  | checkedOut monRef tier loc header tokens =>
    have hload : Runs sha256 hitBias root K u (fun r _ => Loaded.Sane sha256 key r)
        (loadPayload sha256 root tier key) t := by
      unfold loadPayload
      split
      · exact fun _ _ _ => trivial
      · exact runs_doLoad
    refine Runs.bind (p := loadPayload sha256 root tier key) hvt hload fun r t _ hr => ?_
    exact Runs.any (a := .call (.checkin monRef)) htrue trivial
      (fun s r t hv _ hc => kept_background rfl hv hc)
      fun _ _ _ _ => runs_ret (sane_unpackRow hr tokens)
  | _ => exact runs_ret trivial

/-! ### Runs of the system -/

/-- The invariant of the system: the processes are safe beside each other. -/
abbrev SysSound (sha256 : Bytes → Digest) (hitBias : Nat → Int → Int) (root : Path)
    (K : CacheKey → Prop) (s : Sys) : Prop :=
  PoolSafe (fun s : State => Sound sha256 root K s.index) (rely sha256 root K)
    (can sha256 hitBias root K) (fun o _ => Outcome.Sane sha256 o) s.srv s.threads

/-- **Every program of the system**: the writer's, the loader's and the rest. -/
theorem runs_program (job : Job) (u : Nat) :
    RunsSane sha256 hitBias root K u (job.program sha256 root u) s := by
  cases job with
  | save w       => exact runs_doSave w
  | load key pid => exact runs_pinAndLoad

/-- No file is to be spared. -/
theorem spares_none (s : Sys) (e : Event) : e.Spares sha256 root (fun _ => False) s := by
  cases e with
  | act u env fault =>
    intro a _
    cases a with
    | delete p => exact fun key hK => hK.elim
    | _        => trivial
  | _ => trivial

/-- **Step.** Every step that spares the files of `K` keeps the invariant. -/
theorem sysSound_step {s : Sys} (h : SysSound sha256 hitBias root K s) {e : Event}
    (he : e.Spares sha256 root K s) :
    SysSound sha256 hitBias root K (sysStep sha256 hitBias root s e) := by
  cases e with
  | spawn job => exact h.spawn (runs_program job s.next)
  | crash u   => exact h.drop u
  | act u env fault =>
    have hstep : sysStep sha256 hitBias root s (.act u env fault) =
        s.act sha256 hitBias u env fault := rfl
    rw [hstep]
    rcases act_cases sha256 hitBias s u env fault with ⟨-, heq⟩ | ⟨a, k, hthread, hnext, heq⟩
    · rw [heq]
      exact h
    · rw [heq]
      exact h.act (fun i => rely_trans i) rely_refl hthread ⟨he a hnext, env, u, fault, rfl⟩
  | server env frm msg =>
    simp only [sysStep]
    split
    · rename_i hbg
      have hmoved : Moved sha256 root K s.srv.index
          (step (deps sha256 hitBias) s.srv ⟨env, frm, msg⟩).index := moved_background h.1 hbg
      exact h.outside (fun i => rely_trans i) hmoved.sound fun i =>
        (Kept.of_moved hmoved (i + 1)).rely i (Nat.ne_of_lt (Nat.lt_succ_self i))
    · exact h

/-- The tier has just started: nothing is being saved, and the index lists valid files that
    saves of their keys wrote. -/
structure Started (sha256 : Bytes → Digest) (root : Path) (s : Sys) : Prop where
  threads : ∀ u, s.threads u = none
  claims : ∀ key, s.srv.reservations.lookup key = none
  rows : ∀ key row, s.srv.metaTbl.lookup key = some row → row.status = .available ∧
    row.tier ≠ .ram ∧ row.location = locationFor row.tier (some (finalPath root key)) ∧
      Valid sha256 root s.srv.files key
  files : ∀ key bin, s.srv.files (finalPath root key) = some bin → Whole sha256 key bin

/-- A store as it starts is sound. -/
theorem Started.sysSound {s : Sys} (h : Started sha256 root s) :
    SysSound sha256 hitBias root K s := by
  have hclaim : ∀ key, s.srv.index.claim key = none := by
    intro key
    rw [index_claim, h.claims key]
    rfl
  refine ⟨fun key => ⟨?_, ?_, ?_, ?_, fun bin hbin => Or.inl (h.files key bin hbin)⟩,
    fun u p hp => ?_⟩
  · intro c hc
    rw [hclaim] at hc
    cases hc
  · intro c hc
    rw [hclaim] at hc
    cases hc
  · intro c hc
    rw [hclaim] at hc
    cases hc
  · intro e he _
    obtain ⟨row, hrow, rfl⟩ := Option.map_eq_some_iff.mp he
    obtain ⟨-, htier, hloc, hvalid⟩ := h.rows key row hrow
    exact ⟨htier, hloc, fun _ => hvalid⟩
  · rw [h.threads] at hp
    cases hp

/-- **Runs.** The invariant of every run whose steps spare the files of `K`. -/
theorem sysSound_run {s : Sys} (h : Started sha256 root s) {es : List Event}
    (hes : AllSteps (sysStep sha256 hitBias root) (fun s e => e.Spares sha256 root K s) s es) :
    SysSound sha256 hitBias root K (run (sysStep sha256 hitBias root) s es) :=
  AllSteps.invariant (I := SysSound sha256 hitBias root K)
    (fun _ _ hs he => sysSound_step hs he) h.sysSound hes

/-- What the claim asks of a state: every available row names a file that parses under its key,
    and what a finished load returned was read from a whole file of its key. -/
def Agrees (sha256 : Bytes → Digest) (s : Sys) : Prop :=
  (∀ key row, s.srv.metaTbl.lookup key = some row → row.status = .available →
    ∃ path bin info payload, row.location = locationFor row.tier (some path) ∧
      s.srv.files path = some bin ∧ parse sha256 bin key = .ok (info, payload)) ∧
  ∀ u key tokens info payload,
    s.threads u = some (.ret (.loaded key tokens info payload)) →
    ∃ bin, Whole sha256 key bin ∧ parse sha256 bin key = .ok (info, payload)

/-- In a sound store the rows, files and loads agree. -/
theorem SysSound.agrees {s : Sys} (h : SysSound sha256 hitBias root (fun _ => True) s) :
    Agrees sha256 s := by
  refine ⟨fun key row hrow hav => ?_, fun u key tokens info payload hret => ?_⟩
  · obtain ⟨-, hloc, hvalid⟩ := (h.1 key).located row.entry (by simp [hrow]) hav
    obtain ⟨bin, info, payload, hbin, hparse⟩ := hvalid trivial
    exact ⟨finalPath root key, bin, info, payload, hloc, hbin, hparse⟩
  · exact h.2 u _ hret s.srv (rely_refl u s.srv) h.1

/-- **Publish safety.** In every run of saves, loads, crashes, sweeps and evictions in which a
    process deletes a final file only where it does not parse, every available row names a file
    that parses under its key, and no load returns a partial or foreign file. -/
theorem run_agrees (sha256 : Bytes → Digest) (hitBias : Nat → Int → Int) (root : Path) (s : Sys)
    (h : Started sha256 root s) (es : List Event)
    (hes : AllSteps (sysStep sha256 hitBias root)
      (fun s e => e.Spares sha256 root (fun _ => True) s) s es) :
    Agrees sha256 (run (sysStep sha256 hitBias root) s es) :=
  (sysSound_run h hes).agrees

/-! ### A writer that lost its token -/

/-- A tier with an empty directory. -/
def emptySys : Sys := ⟨State.init fun _ => none, fun _ => none, 0⟩

/-- The empty store is a start. -/
theorem emptySys_started : Started sha256 root emptySys where
  threads _ := rfl
  claims _ := rfl
  rows _ _ h := nomatch h
  files _ _ h := nomatch h

/-- The tiers differ. -/
theorem disk_ne_ram : Tier.disk ≠ .ram := by decide

set_option maxRecDepth 4000 in
/-- A small save by the process `pid`. -/
def sampleSave (pid : Pid) : Save where
  tier := .disk
  pid := pid
  runtime := ⟨1, [104], none⟩
  buildMeta := sampleMeta
  payload := [1]
  tier_ne := disk_ne_ram
  size_lt := by
    intro built h
    cases h
    decide

/-- A hash that maps everything to one digest. -/
def sampleSha (_ : Bytes) : Digest := Digest.fill 0

/-- The clock shows at least `now`, every process lives, and nothing fails. -/
def sampleEnv (now : Int) : Env := ⟨fun n => now + n, fun _ => true, fun _ _ => false⟩

/-- Process `u` performs its next action at that time. -/
def acts (u : Nat) (now : Int) : Event := .act u (sampleEnv now) ⟨false, 0⟩

/-- The step unlinks no file but a temporary one. -/
def Event.sparing (s : Sys) : Event → Bool
  | .act u _ _ =>
    match s.nextAct u with
    | some (.delete p) => (s.srv.files p).isNone || p.getLast? != some 99
    | _                => true
  | _ => true

/-- The test on events that runs evaluate. -/
theorem Event.spares_of_sparing {s : Sys} {e : Event} (h : e.sparing s = true) :
    e.Spares sha256 root K s := by
  cases e with
  | act u env fault =>
    intro a ha
    cases a with
    | delete p =>
      simp only [Event.sparing, ha, Bool.or_eq_true, Option.isNone_iff_eq_none] at h
      rintro key - rfl ⟨bin, info, payload, hbin, -⟩
      rcases h with h | h
      · cases hbin.symm.trans h
      · rw [getLast_finalPath] at h
        cases h
    | _ => trivial
  | _ => trivial

/-- Writer 0 checks its token and is slow; its reservation expires; writer 1 publishes; writer 0
    finds the name taken; the row of writer 1 is evicted; writer 0 finds no file to validate,
    deletes the name, which is free, links its own file and has lost its token; writer 2 adopts
    that file; a load reads it. -/
def lateWriterRun : List Event :=
  let late : Int := 100000000000
  [.spawn (.save (sampleSave 7))] ++ List.replicate 5 (acts 0 0) ++
    [.server (sampleEnv late) 1 .sweep] ++
    [.spawn (.save (sampleSave 8))] ++ List.replicate 12 (acts 1 late) ++
    [acts 0 late, .server (sampleEnv late) 1 .gc] ++ List.replicate 8 (acts 0 late) ++
    [.spawn (.save (sampleSave 9))] ++ List.replicate 12 (acts 2 late) ++
    [.spawn (.load ((sampleSave 9).key sampleSha) 10)] ++ List.replicate 3 (acts 3 late)

/-- The tokens and the payload of a load that has ended. -/
def Sys.loaded (s : Sys) (u : Nat) : Option (List Token × Bytes) :=
  match s.threads u with
  | some (.ret (.loaded _ tokens _ payload)) => some (tokens, payload)
  | _                                        => none

set_option maxRecDepth 4000 in
/-- A writer that is late finds its file adopted, and it is loaded with its tokens. -/
theorem run_agrees_lateWriterRun :
    Agrees sampleSha (run (sysStep sampleSha (fun _ _ => 0) [114]) emptySys lateWriterRun) ∧
      (run (sysStep sampleSha (fun _ _ => 0) [114]) emptySys lateWriterRun).loaded 3 =
        some ([7, 8], [1]) := by
  have hsparing : AllSteps (sysStep sampleSha (fun _ _ => 0) [114])
      (fun s e => e.sparing s = true) emptySys lateWriterRun := by decide +kernel
  refine ⟨run_agrees sampleSha (fun _ _ => 0) [114] emptySys emptySys_started lateWriterRun ?_, ?_⟩
  · exact AllSteps.mono (fun _ _ => Event.spares_of_sparing) hsparing
  · decide +kernel

/-- Writer 0 checks its token and is slow; its reservation expires; writer 1 publishes; writer 0
    finds the name taken; the row of writer 1 is evicted; writer 0 finds no file to validate;
    writer 2 publishes; writer 0 deletes the file and goes on. -/
def staleWriterRun : List Event :=
  let late : Int := 100000000000
  [.spawn (.save (sampleSave 7))] ++ List.replicate 5 (acts 0 0) ++
    [.server (sampleEnv late) 1 .sweep] ++
    [.spawn (.save (sampleSave 8))] ++ List.replicate 12 (acts 1 late) ++
    [acts 0 late, .server (sampleEnv late) 1 .gc, acts 0 late] ++
    [.spawn (.save (sampleSave 9))] ++ List.replicate 12 (acts 2 late) ++ [acts 0 late]

set_option maxRecDepth 4000 in
/-- **A stale writer deletes a published file.** The row is available and its file is gone. -/
theorem staleWriterRun_not_agrees : Started sampleSha [114] emptySys ∧
    ¬ Agrees sampleSha
      (run (sysStep sampleSha (fun _ _ => 0) [114]) emptySys staleWriterRun) := by
  refine ⟨emptySys_started, fun h => ?_⟩
  have hrow : ((run (sysStep sampleSha (fun _ _ => 0) [114]) emptySys
      staleWriterRun).srv.metaTbl.lookup ((sampleSave 7).key sampleSha)).map
        (fun row => (row.status, row.tier, row.location)) =
      some (.available, .disk, .disk (some (finalPath [114] ((sampleSave 7).key sampleSha)))) := by
    decide +kernel
  have hfile : (run (sysStep sampleSha (fun _ _ => 0) [114]) emptySys
      staleWriterRun).srv.files (finalPath [114] ((sampleSave 7).key sampleSha)) = none := by
    decide +kernel
  obtain ⟨row, hlookup, hcols⟩ := Option.map_eq_some_iff.mp hrow
  obtain ⟨hst, htier, hloc⟩ : row.status = .available ∧ row.tier = .disk ∧
      row.location = .disk (some (finalPath [114] ((sampleSave 7).key sampleSha))) := by
    simpa using hcols
  obtain ⟨path, bin, info, payload, hpath, hbin, -⟩ := h.1 _ row hlookup hst
  rw [hloc, htier] at hpath
  cases hpath
  rw [hfile] at hbin
  cases hbin

end Erllama.Publish
