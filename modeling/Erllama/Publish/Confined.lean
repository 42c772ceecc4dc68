import Erllama.Publish.Safety

namespace Erllama.Publish

open Lib MetaSrv Kvc

/-!
# The names a save or a load touches

A process opens and writes temporary names only, links final names only, and sends the server
the calls of the save pipeline, a checkout or a checkin.  So the directory holds checkpoints
under their final names and temporary files, and nothing else.

* `Act.OfSave` — an action of a save; every action of a save is one (`doSave_ofSave`).
* `Act.Confined` — an action of this kind; every action of a job is one (`program_confined`).
* `SysConfined` — so are the actions to come of every process (`sysConfined_step`).
-/

/-- A call of the save pipeline. -/
def isPipeline : Msg → Bool
  | .reserveSave _ _ _ | .checkReservation _ _ | .markPublished _ _ _
  | .announceSaved _ _ _ _ _ _ | .cancelReservation _ _ => true
  | _ => false

section

variable (root : Path)

/-- The name is a temporary name of a save. -/
def IsTmp (p : Path) : Prop := ∃ key pid unique, p = tmpPath root key pid unique

/-- The name is the final name of a key. -/
def IsFinal (p : Path) : Prop := ∃ key, p = finalPath root key

/-- An action that keeps to the names and calls of a save. -/
def Act.OfSave : Act → Prop
  | .call msg        => isPipeline msg = true
  | .openExclusive p => IsTmp root p
  | .write p _       => IsTmp root p
  | .makeLink _ dst  => IsFinal root dst
  | _                => True

/-- An action that keeps to the names and calls of the cache. -/
def Act.Confined : Act → Prop
  | .call msg        => msg.isBackground = true ∨ isPipeline msg = true
  | .openExclusive p => IsTmp root p
  | .write p _       => IsTmp root p
  | .makeLink _ dst  => IsFinal root dst
  | _                => True

end

variable {sha256 : Bytes → Digest} {hitBias : Nat → Int → Int} {root : Path} {u : Nat}
  {key : CacheKey}

/-- A temporary file is no final file. -/
theorem IsTmp.ne_finalPath {p : Path} (h : IsTmp root p) (key : CacheKey) :
    p ≠ finalPath root key := by
  obtain ⟨k, pid, unique, rfl⟩ := h
  exact tmpPath_ne_finalPath root k key pid unique

/-! ### Every action of a save -/

/-- Reading a file back deletes nothing. -/
theorem validateAt_ofSave (p : Path) :
    (validateAt sha256 p key).All (Act.OfSave root) := by
  rw [validateAt_eq]
  exact ⟨trivial, fun _ => trivial⟩

/-- Nor does asking for its size. -/
theorem fileSize_ofSave (p : Path) : (fileSize p).All (Act.OfSave root) := by
  refine ⟨trivial, fun r => ?_⟩
  cases r <;> trivial

/-- Nor does reading back what was linked. -/
theorem finalise_ofSave (built final : Bytes) :
    (finalise sha256 key built final root).All (Act.OfSave root) := by
  refine ⟨trivial, fun r => ?_⟩
  cases r with
  | error e => trivial
  | ok _    =>
    refine Prog.All.bind (p := validateAt sha256 final key) (validateAt_ofSave final) fun r => ?_
    cases r with
    | ok x    => exact Prog.All.bind (fileSize_ofSave final) fun _ => trivial
    | error e => exact ⟨trivial, fun _ => trivial⟩

/-- Linking goes to the final path. -/
theorem tryLink_ofSave (tmp : Path) :
    (tryLink tmp (finalPath root key)).All (Act.OfSave root) := by
  refine ⟨⟨key, rfl⟩, fun r => ?_⟩
  cases r with
  | ok _    => exact ⟨trivial, fun _ => trivial⟩
  | error e =>
    cases e with
    | eexist         => trivial
    | enoent | other => exact ⟨trivial, fun _ => trivial⟩

/-- A file that does not parse is deleted from the final path, and the temporary file is linked. -/
theorem handleEexist_ofSave (built tmp : Bytes) :
    (handleEexist sha256 key built tmp (finalPath root key) root).All (Act.OfSave root) := by
  refine Prog.All.bind (p := validateAt sha256 (finalPath root key) key)
    (validateAt_ofSave _) fun r => ?_
  cases r with
  | ok x =>
    refine ⟨trivial, fun _ => ⟨trivial, fun r => ?_⟩⟩
    cases r with
    | error e => trivial
    | ok _    =>
      exact Prog.All.bind (p := fileSize (finalPath root key)) (fileSize_ofSave _)
        fun _ => trivial
  | error e =>
    refine ⟨trivial, fun _ => Prog.All.bind (p := tryLink tmp (finalPath root key))
      (tryLink_ofSave tmp) fun r => ?_⟩
    cases r with
    | ok      => exact finalise_ofSave built _
    | eexist  => trivial
    | error e => trivial

/-- Linking, whatever was there. -/
theorem linkTemp_ofSave (built tmp : Bytes) :
    (linkTemp sha256 key built tmp (finalPath root key) root).All (Act.OfSave root) := by
  refine Prog.All.bind (p := tryLink tmp (finalPath root key)) (tryLink_ofSave tmp) fun r => ?_
  cases r with
  | ok      => exact finalise_ofSave built _
  | eexist  => exact handleEexist_ofSave built tmp
  | error e => trivial

/-- What follows the publication. -/
theorem afterPublish_ofSave (token : Ref) (m : BuildMeta) (final header : Bytes)
    (size : Nat) :
    (afterPublish key token m final header size).All (Act.OfSave root) := by
  refine ⟨rfl, fun r => ?_⟩
  rcases r with _ | r
  · trivial
  cases r with
  | ok =>
    refine ⟨rfl, fun r => ?_⟩
    rcases r with _ | r
    · trivial
    cases r <;> trivial
  | _ => trivial

/-- What follows the temporary file. -/
theorem afterWriteTmp_ofSave (token : Ref) (m : BuildMeta) (out : WriteOut)
    (hfinal : out.final = finalPath root out.key) (hroot : out.root = root) :
    (afterWriteTmp sha256 key token m out).All (Act.OfSave root) := by
  refine ⟨rfl, fun r => ?_⟩
  rcases r with _ | r
  · trivial
  cases r with
  | ok =>
    refine Prog.All.bind (p := publish sha256 out) ?_ fun r => ?_
    · rw [publish, hfinal, hroot]
      exact linkTemp_ofSave out.built out.tmp
    · cases r with
      | ok header size => exact afterPublish_ofSave token m out.final header size
      | error e        => exact ⟨trivial, fun _ => ⟨rfl, fun _ => trivial⟩⟩
      | crash          => trivial
  | expired => exact ⟨trivial, fun _ => trivial⟩
  | _       => trivial

/-- Writing a temporary file. -/
theorem writeTemp_ofSave {tmp : Path} (htmp : IsTmp root tmp) (built payload : Bytes) :
    (writeTemp tmp built payload).All (Act.OfSave root) := by
  refine ⟨htmp, fun r => ?_⟩
  cases r with
  | error e => trivial
  | ok _    =>
    refine ⟨htmp, fun r => ?_⟩
    cases r with
    | error e => trivial
    | ok _    =>
      refine ⟨trivial, fun r => ?_⟩
      cases r <;> trivial

/-- The whole of it, from the payload. -/
theorem writeTmp_ofSave (w : Save) :
    (writeTmp sha256 root u w).All (Act.OfSave root) := by
  unfold writeTmp
  dsimp only
  cases build w.runtime w.buildMeta w.payload with
  | error e  => trivial
  | ok built =>
    refine Prog.All.bind (p := writeTemp (tmpPath root (w.key sha256) w.pid u) built w.payload)
      (writeTemp_ofSave ⟨_, _, _, rfl⟩ built w.payload) fun r => ?_
    cases r with
    | ok _    => trivial
    | error e => exact ⟨trivial, fun _ => trivial⟩

/-- What `write_tmp` returns names the final file of the save's key. -/
def OutOf (sha256 : Bytes → Digest) (root : Path) (w : Save) (out : WriteOut) : Prop :=
  out.key = w.key sha256 ∧ out.final = finalPath root (w.key sha256) ∧ out.root = root

/-- What was written is named after the save. -/
theorem writeTmp_returns (w : Save) :
    (writeTmp sha256 root u w).Returns fun r => ∀ out, r = .ok out → OutOf sha256 root w out := by
  unfold writeTmp
  dsimp only
  cases build w.runtime w.buildMeta w.payload with
  | error e  => exact fun _ h => by cases h
  | ok built =>
    refine Prog.Returns.bind (p := writeTemp (tmpPath root (w.key sha256) w.pid u) built
      w.payload) fun r => ?_
    cases r with
    | ok _ =>
      rintro out h
      cases h
      exact ⟨rfl, rfl, rfl⟩
    | error e =>
      rintro _ out h
      cases h

/-- **A save touches its temporary file and its final file**. -/
theorem doSave_ofSave (w : Save) : (doSave sha256 root u w).All (Act.OfSave root) := by
  refine ⟨rfl, fun r => ?_⟩
  rcases r with _ | r
  · trivial
  cases r with
  | token token =>
    refine Prog.All.bind_of (p := writeTmp sha256 root u w) (writeTmp_ofSave w)
      (writeTmp_returns w) fun r hr => ?_
    cases r with
    | error e => exact ⟨rfl, fun _ => trivial⟩
    | ok out  =>
      obtain ⟨hkey, hfinal, hroot⟩ := hr out rfl
      exact afterWriteTmp_ofSave token w.buildMeta out (by rw [hfinal, hkey]) hroot
  | _ => trivial

/-! ### Every action of a load -/

/-- A loader deletes at most the file at its final path. -/
theorem pinAndLoad_confined (pid : Pid) :
    (pinAndLoad sha256 root key pid).All (Act.Confined root) := by
  refine ⟨Or.inl rfl, fun r => ?_⟩
  rcases r with _ | r
  · trivial
  cases r with
  | checkedOut monRef tier loc header tokens =>
    refine Prog.All.bind (p := loadPayload sha256 root tier key) ?_ fun r =>
      ⟨Or.inl rfl, fun _ => trivial⟩
    unfold loadPayload
    split
    · trivial
    · refine ⟨trivial, fun r => ?_⟩
      cases r with
      | error e => cases e <;> trivial
      | ok bin  =>
        show Prog.All (Act.Confined root)
          (parseOrDrop sha256 bin key (finalPath root key))
        unfold parseOrDrop
        cases parse sha256 bin key with
        | ok x    => trivial
        | error e => exact ⟨trivial, fun _ => trivial⟩
  | _ => trivial

/-- What a save may do is confined. -/
theorem Act.OfSave.confined {a : Act} (h : a.OfSave root) : a.Confined root := by
  cases a with
  | call msg => exact Or.inr h
  | _        => exact h

/-- **Every program of the system is confined** to the files of its directory. -/
theorem program_confined (job : Job) (u : Nat) :
    (job.program sha256 root u).All (Act.Confined root) := by
  cases job with
  | save w       => exact (doSave_ofSave w).mono fun _ => Act.OfSave.confined
  | load key pid => exact pinAndLoad_confined pid

/-! ### Runs -/

/-- Every process keeps to the names and calls of the cache. -/
def SysConfined (root : Path) (s : Sys) : Prop :=
  ∀ u p, s.threads u = some p → p.All (Act.Confined root)

/-- Starting, stepping and killing a process. -/
theorem sysConfined_update {s s' : Sys} (h : SysConfined root s) {u : Nat}
    {p : Option (Program Outcome)} (hthreads : s'.threads = Function.update s.threads u p)
    (hp : ∀ q, p = some q → q.All (Act.Confined root)) : SysConfined root s' := by
  intro v q hq
  rw [hthreads] at hq
  by_cases hv : v = u
  · subst hv
    rw [Function.update_self] at hq
    exact hp q hq
  · rw [Function.update_of_ne hv] at hq
    exact h v q hq

/-- Every event keeps the system confined. -/
theorem sysConfined_step {s : Sys} (h : SysConfined root s) (e : Event) :
    SysConfined root (sysStep sha256 hitBias root s e) := by
  cases e with
  | spawn job =>
    exact sysConfined_update h rfl fun q hq => Option.some.inj hq ▸ program_confined job s.next
  | crash u => exact sysConfined_update h rfl fun q hq => nomatch hq
  | act u env fault =>
    have hstep : sysStep sha256 hitBias root s (.act u env fault) =
        s.act sha256 hitBias u env fault := rfl
    rw [hstep]
    rcases act_cases sha256 hitBias s u env fault with ⟨-, heq⟩ | ⟨a, k, hthread, -, heq⟩
    · rw [heq]
      exact h
    · rw [heq]
      exact sysConfined_update h rfl fun q hq => Option.some.inj hq ▸ (h u _ hthread).2 _
  | server env frm msg =>
    simp only [sysStep]
    split <;> exact h

/-- The action a process performs next. -/
theorem SysConfined.nextAct {s : Sys} (h : SysConfined root s) {u : Nat} {a : Act}
    (ha : s.nextAct u = some a) : a.Confined root := by
  unfold Sys.nextAct at ha
  cases hthread : s.threads u with
  | none   => simp [hthread] at ha
  | some p =>
    cases p with
    | ret o   => simp [hthread] at ha
    | act b k =>
      simp only [hthread] at ha
      cases ha
      exact (h u _ hthread).1

end Erllama.Publish
