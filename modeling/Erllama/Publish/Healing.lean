import Erllama.MetaSrv.Prefix
import Erllama.Publish.Alone

namespace Erllama.Publish

open Lib MetaSrv Kvc

/-!
# A corrupt checkpoint

A load that finds a file that does not parse deletes the file and answers an error.  The row
is the meta server's and stays as it is, so the key is offered without a file, and saves of
the key are refused until it is evicted.

* `Backed`, `SavedAgain` — what healing would be.
* `runAlone_failedLoad` — what a failed load leaves.
* `failedLoad_not_heals` — it never heals.
-/

section Definitions

variable (sha256 : Bytes → Digest) (hitBias : Nat → Int → Int)

/-- An available row of the key outside the RAM tier names a file that is there. -/
def Backed (s : State) (key : CacheKey) : Prop :=
  ∀ row p, lookupExact s.metaTbl key = some row → row.tier ≠ .ram →
    row.location = locationFor row.tier (some p) → s.files p ≠ none

/-- The next save of the key, by a model with this directory, publishes a valid file. -/
def SavedAgain (s : State) (key : CacheKey) (root : Path) (u : Nat) (x : Surroundings)
    (w : Save) : Prop :=
  (runAlone sha256 hitBias u x (doSave sha256 root u w) s).1 = .saved key ∧
    Valid sha256 root (runAlone sha256 hitBias u x (doSave sha256 root u w) s).2.files key

end Definitions

variable {sha256 : Bytes → Digest} {hitBias : Nat → Int → Int} {root : Path} {u : Nat}
  {x : Surroundings} {n : Nat} {s t : State} {key : CacheKey}

/-- A deletion that does not fail leaves no file. -/
theorem does_delete_gone {p : Path} {r : Except Posix Unit} (hx : (x.fault n).fails = false)
    (h : does sha256 hitBias u x n s (.delete p) r t) : t.files p = none := by
  simp only [does, alone, perform, Surroundings.faultOf, hx, Bool.false_eq_true, if_false] at h
  cases hfile : s.files p with
  | none =>
    simp only [hfile] at h
    cases h
    exact hfile
  | some bin =>
    simp only [hfile] at h
    cases h
    exact files_setFile_self p none s

/-- A checkout touches no entry. -/
theorem entry_checkout {env : Env} {frm : From} {pid : Pid} :
    (step (deps sha256 hitBias) s ⟨env, frm, .checkout key pid⟩).index.entry = s.index.entry := by
  have hstep : step (deps sha256 hitBias) s ⟨env, frm, .checkout key pid⟩ =
      handleCheckout env key pid frm s.startCallback := rfl
  rw [hstep]
  rcases index_handleCheckout env s.startCallback key pid frm with h | ⟨row, -, -, h⟩
  · rw [h, index_startCallback]
  · rw [h]
    exact (Index.touch_frame env _ _ _).1

/-- Nor does a checkin touch the index. -/
theorem index_checkin {env : Env} {frm : From} {monRef : Ref} :
    (step (deps sha256 hitBias) s ⟨env, frm, .checkin monRef⟩).index = s.index :=
  index_handleCheckin s.startCallback monRef frm

/-- After a load that has failed on a file, the entries are as given and the file is gone. -/
def FileDropped {β : Type} (failed : Reason → β) (root : Path) (key : CacheKey)
    (entry : CacheKey → Option Entry) (_ : Nat) (r : β) (t : State) : Prop :=
  ∀ e : KvcError, r = failed (.kvc e) →
    t.index.entry = entry ∧ t.files (finalPath root key) = none

/-- A row is unpacked to the load's own error only. -/
theorem unpackRow_failed {tokensBin : Option Bytes} {r : Loaded} {reason : Reason}
    (h : unpackRow key tokensBin r = .failed reason) : r = .error reason := by
  cases r with
  | miss         => cases h
  | error reason =>
    cases h
    rfl
  | ok info payload =>
    unfold unpackRow at h
    dsimp only at h
    split at h
    · cases h
    · split at h <;> cases h

/-- A load that meets no fault drops the file it cannot parse. -/
theorem ends_doLoad (hx : ∀ n, (x.fault n).fails = false) :
    Ends sha256 hitBias u x (FileDropped .error root key s.index.entry) n
      (doLoad sha256 root key) s := by
  intro r t hread
  obtain ⟨rfl, -⟩ := does_readFile hread
  cases r with
  | error e =>
    cases e <;>
    · rintro e' ⟨⟩
  | ok bin =>
    show Ends sha256 hitBias u x (FileDropped .error root key t.index.entry) (n + 1)
      (parseOrDrop sha256 bin key (finalPath root key)) t
    unfold parseOrDrop
    cases parse sha256 bin key with
    | ok y    => rintro e ⟨⟩
    | error e =>
      intro r t' hdelete e' _
      exact ⟨(does_delete hdelete).entry, does_delete_gone (hx _) hdelete⟩

/-- So does one that pins its row. -/
theorem ends_pinAndLoad (hx : ∀ n, (x.fault n).fails = false) {pid : Pid} :
    Ends sha256 hitBias u x (FileDropped .failed root key s.index.entry) n
      (pinAndLoad sha256 root key pid) s := by
  intro r t hcall
  obtain ⟨ht, -⟩ := does_call hcall
  have hentry : t.index.entry = s.index.entry := ht ▸ entry_checkout
  rcases r with _ | r
  · rintro e ⟨⟩
  cases r with
  | checkedOut monRef tier loc header tokens =>
    have hload : Ends sha256 hitBias u x (FileDropped .error root key s.index.entry) (n + 1)
        (loadPayload sha256 root tier key) t := by
      unfold loadPayload
      split
      · rintro e ⟨⟩
      · exact hentry ▸ ends_doLoad hx
    refine Prog.Ensures.bind (p := loadPayload sha256 root tier key) hload
      fun m r v hdropped r' v' hcheckin e he => ?_
    obtain ⟨hv, -⟩ := does_call hcheckin
    have hindex : v'.index = v.index := hv ▸ index_checkin
    rw [← index_files, hindex]
    exact hdropped e (unpackRow_failed he)
  | _ => rintro e ⟨⟩

/-- **A failed load.** The file is gone and the entries are what they were. -/
theorem runAlone_failedLoad (hx : ∀ n, (x.fault n).fails = false) {pid : Pid} {e : KvcError}
    (hload : (runAlone sha256 hitBias u x (pinAndLoad sha256 root key pid) s).1 =
      .failed (.kvc e)) :
    (runAlone sha256 hitBias u x (pinAndLoad sha256 root key pid) s).2.index.entry =
        s.index.entry ∧
      (runAlone sha256 hitBias u x (pinAndLoad sha256 root key pid) s).2.files
        (finalPath root key) = none := by
  obtain ⟨_, h⟩ := (ends_pinAndLoad (n := 0) hx).runAlone
  exact h e hload

/-- A save of a key that has an available row is refused, and changes no file. -/
theorem runAlone_doSave_available {row : Row} (hrow : s.metaTbl.lookup key = some row)
    (hav : row.status = .available) {w : Save} (hw : w.key sha256 = key) :
    (runAlone sha256 hitBias u x (doSave sha256 root u w) s).1 = .refused .alreadyPresent ∧
      (runAlone sha256 hitBias u x (doSave sha256 root u w) s).2.files = s.files := by
  subst hw
  have hends : Ends sha256 hitBias u x
      (fun _ o t => o = .refused .alreadyPresent ∧ t.files = s.files) 0
      (doSave sha256 root u w) s := by
    intro r t hcall
    obtain ⟨ht, hr⟩ := does_call hcall
    have hreserve : t = (s.startCallback.emit (.reply u .alreadyPresent)) := by
      rw [ht]
      show doReserveSave _ _ _ _ _ _ s.startCallback = _
      have hstatus : s.startCallback.status (w.key sha256) = some .available := by
        show (s.metaTbl.lookup (w.key sha256)).map Row.status = _
        rw [hrow, Option.map_some, hav]
      simp only [doReserveSave, hstatus]
    rw [hreserve, answer_emit] at hr
    subst hr
    exact ⟨rfl, hreserve ▸ rfl⟩
  exact hends.runAlone.choose_spec

/-- **No healing.** A load of an available row outside the RAM tier fails on its file, no file
    operation fails: then the row is offered without a file, and no save of the key, by a model
    of whatever tier, publishes. -/
theorem failedLoad_not_heals (s : State) (key : CacheKey) (row : Row)
    (hrow : s.metaTbl.lookup key = some row) (hav : row.status = .available)
    (htier : row.tier ≠ .ram)
    (hloc : row.location = locationFor row.tier (some (finalPath root key)))
    (pid : Pid) (hx : ∀ n, (x.fault n).fails = false) (e : KvcError)
    (hload : (runAlone sha256 hitBias u x (pinAndLoad sha256 root key pid) s).1 =
      .failed (.kvc e)) :
    ¬ Backed (runAlone sha256 hitBias u x (pinAndLoad sha256 root key pid) s).2 key ∧
      ∀ root' u' x' w, w.key sha256 = key →
        ¬ SavedAgain sha256 hitBias
          (runAlone sha256 hitBias u x (pinAndLoad sha256 root key pid) s).2 key root' u' x' w := by
  obtain ⟨hentry, hgone⟩ := runAlone_failedLoad hx hload
  have hsame := congrFun hentry key
  rw [index_entry, index_entry, hrow, Option.map_some] at hsame
  obtain ⟨row', hrow', heq⟩ := Option.map_eq_some_iff.mp hsame
  have hav' : row'.status = .available := (congrArg Entry.status heq).trans hav
  have htier' : row'.tier = row.tier := congrArg Entry.tier heq
  have hloc' : row'.location = row.location := congrArg Entry.location heq
  constructor
  · intro hbacked
    refine hbacked row' (finalPath root key) (lookupExact_eq_some_iff.mpr ⟨hrow', hav'⟩)
      (htier' ▸ htier) ?_ hgone
    rw [hloc', hloc, htier']
  · rintro root' u' x' w hw ⟨hsaved, -⟩
    rw [(runAlone_doSave_available hrow' hav' hw).1] at hsaved
    cases hsaved

/-! ### A published file that is overwritten -/

/-- One save has published its key, then the file is overwritten from outside. -/
def corruptedState : State :=
  let s := (run (sysStep sampleSha (fun _ _ => 0) [114]) emptySys
    ([.spawn (.save (sampleSave 7))] ++ List.replicate 12 (acts 0 0))).srv
  setFile (finalPath [114] ((sampleSave 7).key sampleSha)) (some [0]) s

/-- Nothing fails, and the clock shows at least `now`. -/
def calm (now : Int) : Surroundings := ⟨fun _ => sampleEnv now, fun _ => ⟨false, 0⟩, false⟩

/-- The error a load met in the file. -/
def Outcome.kvcError : Outcome → Option KvcError
  | .failed (.kvc e) => some e
  | _                => none

/-- An outcome with a parse error is a failed load. -/
theorem Outcome.eq_of_kvcError {o : Outcome} {e : KvcError} (h : o.kvcError = some e) :
    o = .failed (.kvc e) := by
  unfold Outcome.kvcError at h
  split at h
  · rw [Option.some.inj h]
  · cases h

/-- The row of the overwritten file. -/
theorem corruptedState_row : ∃ row,
    corruptedState.metaTbl.lookup ((sampleSave 7).key sampleSha) = some row ∧
      row.status = .available ∧ row.tier = .disk ∧
      row.location = .disk (some (finalPath [114] ((sampleSave 7).key sampleSha))) := by
  have hcols : (corruptedState.metaTbl.lookup ((sampleSave 7).key sampleSha)).map
      (fun row => (row.status, row.tier, row.location)) =
      some (.available, .disk, .disk (some (finalPath [114] ((sampleSave 7).key sampleSha)))) := by
    decide +kernel
  obtain ⟨row, hrow, heq⟩ := Option.map_eq_some_iff.mp hcols
  simp only [Prod.mk.injEq] at heq
  exact ⟨row, hrow, heq⟩

/-- The load fails on the header. -/
theorem corruptedState_load : (runAlone sampleSha (fun _ _ => 0) 1 (calm 1)
    (pinAndLoad sampleSha [114] ((sampleSave 7).key sampleSha) 8) corruptedState).1 =
      .failed (.kvc .badHeader) :=
  Outcome.eq_of_kvcError (by decide +kernel)

/-- The row is there as before, with no file behind it. -/
theorem failedLoad_not_heals_corrupted :
    ¬ Backed (runAlone sampleSha (fun _ _ => 0) 1 (calm 1)
        (pinAndLoad sampleSha [114] ((sampleSave 7).key sampleSha) 8) corruptedState).2
        ((sampleSave 7).key sampleSha) ∧
      ∀ root' u' x' w, w.key sampleSha = (sampleSave 7).key sampleSha →
        ¬ SavedAgain sampleSha (fun _ _ => 0) (runAlone sampleSha (fun _ _ => 0) 1 (calm 1)
          (pinAndLoad sampleSha [114] ((sampleSave 7).key sampleSha) 8) corruptedState).2
          ((sampleSave 7).key sampleSha) root' u' x' w := by
  obtain ⟨row, hrow, hav, htier, hloc⟩ := corruptedState_row
  exact failedLoad_not_heals corruptedState _ row hrow hav (by simp [htier])
    (by rw [hloc, htier]; rfl) 8 (fun _ => rfl) _ corruptedState_load

/-- **A dead row.** The load fails, the file is deleted, the row stays available, and the next
    save of the key is refused. -/
theorem corruptedState_stays :
    let t := (runAlone sampleSha (fun _ _ => 0) 1 (calm 1)
      (pinAndLoad sampleSha [114] ((sampleSave 7).key sampleSha) 8) corruptedState).2
    ¬ Backed t ((sampleSave 7).key sampleSha) ∧
      ¬ SavedAgain sampleSha (fun _ _ => 0) t ((sampleSave 7).key sampleSha) [114] 2 (calm 2)
        (sampleSave 9) := by
  intro t
  have hgone : t.files (finalPath [114] ((sampleSave 7).key sampleSha)) = none := by
    decide +kernel
  have hcols : (t.metaTbl.lookup ((sampleSave 7).key sampleSha)).map
      (fun row => (row.status, row.tier, row.location)) =
      some (.available, .disk, .disk (some (finalPath [114] ((sampleSave 7).key sampleSha)))) := by
    decide +kernel
  obtain ⟨row, hrow, heq⟩ := Option.map_eq_some_iff.mp hcols
  simp only [Prod.mk.injEq] at heq
  obtain ⟨hav, htier, hloc⟩ := heq
  refine ⟨fun h => ?_, fun h => ?_⟩
  · exact h row _ (lookupExact_eq_some_iff.mpr ⟨hrow, hav⟩) (by simp [htier])
      (by rw [hloc, htier]; rfl) hgone
  · obtain ⟨hsaved, -⟩ := h
    have hkey : (sampleSave 9).key sampleSha = (sampleSave 7).key sampleSha := rfl
    rw [(runAlone_doSave_available hrow hav hkey).1] at hsaved
    cases hsaved

end Erllama.Publish
