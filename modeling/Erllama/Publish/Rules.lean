import Erllama.Publish.Sound

namespace Erllama.Publish

open Lib MetaSrv Kvc

/-!
# Rules for the actions of a save

A process relies on the others for two things: what it knows about its token stays known, and
nobody touches its temporary file.  Every action of a process gives the others the same.

* `rely`, `can`, `Runs` — the instance of rely and guarantee for the processes of a tier.
* `Kept` — what every action has to give.
* `kept_setTmp`, `kept_delete_tmp`, `kept_delete_final`, `kept_makeLink` — that the actions on
  files give it.
* `Runs.act`, `Runs.quiet`, `Runs.readFile` — how a program is walked through.
-/

section Definitions

variable (sha256 : Bytes → Digest) (hitBias : Nat → Int → Int) (root : Path)
  (K : CacheKey → Prop)

/-- What the process with this unique integer relies on. -/
def rely (u : Nat) (s s' : State) : Prop :=
  Evolves sha256 root K s.index s'.index ∧
    ∀ key pid, s'.files (tmpPath root key pid u) = s.files (tmpPath root key pid u)

/-- What an action can do, in a run that spares the files of `K`. -/
def can (s : State) (a : Act) (r : a.Ans) (t : State) : Prop :=
  a.Spares sha256 root K s.files ∧
    ∃ env frm fault, perform (deps sha256 hitBias) env frm fault a s = (r, t)

/-- The program keeps the invariant beside the others, and what it returns meets `post`. -/
abbrev Runs {β : Type} (u : Nat) (post : β → State → Prop) (p : Program β) (s : State) : Prop :=
  Safe (fun s : State => Sound sha256 root K s.index) (rely sha256 root K)
    (can sha256 hitBias root K) u post p s

/-- What an action of the process has to give. -/
structure Kept (u : Nat) (s t : State) : Prop where
  sound : Sound sha256 root K t.index
  evolves : Evolves sha256 root K s.index t.index
  tmps : ∀ j, j ≠ u → ∀ key pid,
    t.files (tmpPath root key pid j) = s.files (tmpPath root key pid j)

/-- An assertion that every step keeps, whoever makes it. -/
def Evolving (P : State → Prop) : Prop :=
  ∀ s t, P s → Evolves sha256 root K s.index t.index → P t

/-- An assertion that the steps of the others keep. -/
def Stable (u : Nat) (P : State → Prop) : Prop :=
  ∀ s t, P s → rely sha256 root K u s t → P t

end Definitions

variable {sha256 : Bytes → Digest} {hitBias : Nat → Int → Int} {root : Path}
  {K : CacheKey → Prop} {u : Nat} {s t : State} {P : State → Prop} {β : Type}
  {post : β → State → Prop}

/-- The others did nothing. -/
theorem rely_refl (u : Nat) (s : State) : rely sha256 root K u s s :=
  ⟨Evolves.refl _, fun _ _ => rfl⟩

/-- The others did one thing after another. -/
theorem rely_trans (u : Nat) (s s' t : State) (h : rely sha256 root K u s s')
    (h' : rely sha256 root K u s' t) : rely sha256 root K u s t :=
  ⟨h.1.trans h'.1, fun key pid => (h'.2 key pid).trans (h.2 key pid)⟩

/-- What evolves is stable under the others. -/
theorem Evolving.stable (h : Evolving sha256 root K P) (u : Nat) : Stable sha256 root K u P :=
  fun s t hs hr => h s t hs hr.1

/-- What one writer keeps the others may rely on. -/
theorem Kept.rely (h : Kept sha256 root K u s t) (j : Nat) (hj : j ≠ u) :
    Publish.rely sha256 root K j s t :=
  ⟨h.evolves, h.tmps j hj⟩

/-- A step that moves the index moves no temporary file. -/
theorem Kept.of_moved (h : Moved sha256 root K s.index t.index) (u : Nat) :
    Kept sha256 root K u s t :=
  ⟨h.sound, h.evolves, fun j _ key pid =>
    h.others _ fun key' => tmpPath_ne_finalPath root key key' pid j⟩

/-- Nothing was done. -/
theorem Kept.refl (h : Sound sha256 root K s.index) (u : Nat) : Kept sha256 root K u s s :=
  .of_moved (Moved.refl h) u

/-! ### Walking through a program -/

/-- The end of a program. -/
theorem Runs.done {b : β} (hP : Stable sha256 root K u P) (hs : P s)
    (h : ∀ s, P s → post b s) : Runs sha256 hitBias root K u post (.ret b) s :=
  fun s' hr _ => h s' (hP s s' hs hr)

/-- **The rule of one act**: what is stable before it holds when it is done. -/
theorem Runs.act {a : Act} {k : a.Ans → Program β} (hP : Stable sha256 root K u P) (hs : P s)
    (h : ∀ s r t, Sound sha256 root K s.index → P s → can sha256 hitBias root K s a r t →
      Kept sha256 root K u s t ∧ Runs sha256 hitBias root K u post (k r) t) :
    Runs sha256 hitBias root K u post (.act a k) s :=
  Safe.act_of (fun s s' hs hr _ => hP s s' hs hr) hs fun s r t hv hp hc => by
    obtain ⟨hkept, hrun⟩ := h s r t hv hp hc
    exact ⟨hkept.sound, hkept.rely, hrun⟩

/-- An action after which nothing new is known. -/
theorem Runs.any {a : Act} {k : a.Ans → Program β} (hP : Evolving sha256 root K P) (hs : P s)
    (hkept : ∀ s r t, Sound sha256 root K s.index → P s → can sha256 hitBias root K s a r t →
      Kept sha256 root K u s t)
    (h : ∀ r t, Sound sha256 root K t.index → P t →
      Runs sha256 hitBias root K u post (k r) t) :
    Runs sha256 hitBias root K u post (.act a k) s :=
  Runs.act (hP.stable u) hs fun s r t hv hp hc => by
    have hk := hkept s r t hv hp hc
    exact ⟨hk, h r t hk.sound (hP s t hp hk.evolves)⟩

/-- One program after another. -/
theorem Runs.bind {γ : Type} {mid : γ → State → Prop} {p : Program γ} {f : γ → Program β}
    (hv : Sound sha256 root K s.index) (hp : Runs sha256 hitBias root K u mid p s)
    (hf : ∀ b t, Sound sha256 root K t.index → mid b t →
      Runs sha256 hitBias root K u post (f b) t) :
    Runs sha256 hitBias root K u post (p >>= f) s :=
  Safe.bind (rely_refl u) hv hp hf

/-- An action that changes nothing. -/
def Act.isQuiet : Act → Bool
  | .readFile _ | .readFileInfo _ | .fsyncDir _ | .datasync _ => true
  | _ => false

/-- A quiet act changes nothing. -/
theorem perform_quiet {d : Deps} {env : Env} {frm : From} {fault : Fault} {a : Act}
    (ha : a.isQuiet = true) (s : State) : (perform d env frm fault a s).2 = s := by
  cases a with
  | readFile p =>
    simp only [perform]
    split
    · rfl
    · cases s.files p <;> rfl
  | readFileInfo p =>
    simp only [perform]
    split
    · rfl
    · cases s.files p <;> rfl
  | fsyncDir p => rfl
  | datasync p => rfl
  | _ => cases ha

/-- A quiet action leaves everything known. -/
theorem Runs.quiet {a : Act} {k : a.Ans → Program β} (ha : a.isQuiet = true)
    (hP : Stable sha256 root K u P) (hs : P s)
    (h : ∀ r t, Sound sha256 root K t.index → P t →
      Runs sha256 hitBias root K u post (k r) t) :
    Runs sha256 hitBias root K u post (.act a k) s := by
  refine Runs.act hP hs fun s r t hv hp hc => ?_
  obtain ⟨-, env, frm, fault, hperform⟩ := hc
  have ht : t = s := by rw [← perform_quiet ha s, hperform]
  exact ⟨ht ▸ Kept.refl hv u, h r t (ht ▸ hv) (ht ▸ hp)⟩

/-- Reading a file: what is read is there. -/
theorem Runs.readFile {p : Path} {k : Except Posix Bytes → Program β}
    (hP : Stable sha256 root K u P) (hs : P s)
    (herr : ∀ e t, Sound sha256 root K t.index → P t →
      Runs sha256 hitBias root K u post (k (.error e)) t)
    (hok : ∀ bin t, Sound sha256 root K t.index → P t → t.files p = some bin →
      Runs sha256 hitBias root K u post (k (.ok bin)) t) :
    Runs sha256 hitBias root K u post (.act (.readFile p) k) s := by
  refine Runs.act hP hs fun s r t hv hp hc => ?_
  obtain ⟨-, env, frm, fault, hperform⟩ := hc
  have ht : t = s := by
    have hquiet : (Act.readFile p).isQuiet = true := rfl
    rw [← perform_quiet hquiet s, hperform]
  subst ht
  refine ⟨Kept.refl hv u, ?_⟩
  cases r with
  | error e => exact herr e t hv hp
  | ok bin =>
    refine hok bin t hv hp ?_
    have hr := congrArg Prod.fst hperform
    simp only [perform] at hr
    split at hr
    · cases hr
    · cases hfile : t.files p with
      | none     => simp [hfile] at hr
      | some bin' =>
        simp only [hfile] at hr
        cases hr
        rfl

/-! ### Temporary files -/

/-- A written file is there. -/
@[simp] theorem files_setFile_self (p : Path) (content : Option Bytes) (s : State) :
    (setFile p content s).files p = content := Function.update_self ..

/-- The others are as before. -/
theorem files_setFile_of_ne {p q : Path} (h : q ≠ p) (content : Option Bytes) (s : State) :
    (setFile p content s).files q = s.files q := Function.update_of_ne h ..

/-- Writing a temporary file of one's own. -/
theorem kept_setTmp (h : Sound sha256 root K s.index) (key : CacheKey) (pid : Pid)
    (content : Option Bytes) :
    Kept sha256 root K u s (setFile (tmpPath root key pid u) content s) := by
  have hfinal : ∀ k, (setFile (tmpPath root key pid u) content s).files (finalPath root k) =
      s.files (finalPath root k) := fun k =>
    Function.update_of_ne (Ne.symm (tmpPath_ne_finalPath root key k pid u)) _ _
  have hvalid : ∀ k, Valid sha256 root (setFile (tmpPath root key pid u) content s).files k ↔
      Valid sha256 root s.files k := fun k => valid_congr _ (hfinal k)
  refine ⟨fun k => ?_, ⟨le_rfl, fun k c hc _ => ⟨c, hc, rfl, id, fun _ => (hvalid k).mpr⟩⟩,
    fun j hj k pid' => ?_⟩
  · obtain ⟨hfresh, hclaimed, hmarked, hlocated, hwhole⟩ := h k
    refine ⟨hfresh, hclaimed, fun c hc hstage => ?_, fun e he hav => ?_, fun bin hbin => ?_⟩
    · obtain ⟨hpath, hv⟩ := hmarked c hc hstage
      exact ⟨hpath, fun hK => (hvalid k).mpr (hv hK)⟩
    · obtain ⟨htier, hloc, hv⟩ := hlocated e he hav
      exact ⟨htier, hloc, fun hK => (hvalid k).mpr (hv hK)⟩
    · exact hwhole bin ((hfinal k).symm.trans hbin)
  · exact Function.update_of_ne (fun heq => hj (tmpPath_unique heq)) _ _

/-- A deletion is the removal of the file, or nothing. -/
theorem perform_delete (d : Deps) (env : Env) (frm : From) (fault : Fault) (p : Path)
    (s : State) :
    (perform d env frm fault (.delete p) s).2 = s ∨
      (perform d env frm fault (.delete p) s).2 = setFile p none s := by
  simp only [perform]
  split
  · exact Or.inl rfl
  · cases s.files p with
    | none   => exact Or.inl rfl
    | some _ => exact Or.inr rfl

/-- An action that is no call leaves the index, the checkouts and the counter of references. -/
theorem perform_noCall (d : Deps) (env : Env) (frm : From) (fault : Fault) {a : Act}
    (ha : ∀ msg, a ≠ .call msg) (s : State) :
    ∃ files, (perform d env frm fault a s).2 = { s with files := files } := by
  cases a with
  | call msg => exact absurd rfl (ha msg)
  | openExclusive p =>
    simp only [perform]
    split
    · exact ⟨s.files, rfl⟩
    · cases s.files p <;> exact ⟨_, rfl⟩
  | write p data =>
    simp only [perform]
    cases s.files p with
    | none   => exact ⟨s.files, rfl⟩
    | some _ =>
      dsimp only
      split <;> exact ⟨_, rfl⟩
  | makeLink src dst =>
    simp only [perform]
    split
    · exact ⟨s.files, rfl⟩
    · cases s.files src with
      | none     => exact ⟨s.files, rfl⟩
      | some bin => cases s.files dst <;> exact ⟨_, rfl⟩
  | delete p =>
    rcases perform_delete d env frm fault p s with ht | ht
    · exact ⟨s.files, ht⟩
    · exact ⟨_, ht⟩
  | readFile p | readFileInfo p | datasync p | fsyncDir p =>
    exact ⟨s.files, perform_quiet rfl s⟩

/-- Deleting it. -/
theorem kept_delete_tmp {key : CacheKey} {pid : Pid}
    {r : (Act.delete (tmpPath root key pid u)).Ans} (h : Sound sha256 root K s.index)
    (hc : can sha256 hitBias root K s (.delete (tmpPath root key pid u)) r t) :
    Kept sha256 root K u s t := by
  obtain ⟨-, env, frm, fault, hperform⟩ := hc
  rcases perform_delete (deps sha256 hitBias) env frm fault
    (tmpPath root key pid u) s with ht | ht
  · rw [hperform] at ht
    exact ht ▸ Kept.refl h u
  · rw [hperform] at ht
    replace ht : t = setFile (tmpPath root key pid u) none s := ht
    exact ht ▸ kept_setTmp h key pid none

/-! ### Final files -/

/-- Replacing a final file that does not parse, by a whole file or by nothing. -/
theorem moved_setFinal (h : Sound sha256 root K s.index) {key : CacheKey}
    {content : Option Bytes} (hinvalid : K key → ¬ Valid sha256 root s.files key)
    (hwhole : ∀ bin, content = some bin → Whole sha256 key bin) :
    Moved sha256 root K s.index (setFile (finalPath root key) content s).index := by
  refine moved_of_key (i := s.index) (j := (setFile (finalPath root key) content s).index) h key
    le_rfl (fun _ _ => rfl) (fun _ _ => rfl) (fun p hp => Function.update_of_ne hp _ _) ?_
    fun c hc _ => ⟨c, hc, rfl, id, fun hK hv => absurd hv (hinvalid hK)⟩
  -- no row and no claim spoke of the file that was there
  obtain ⟨hfresh, hclaimed, hmarked, hlocated, -⟩ := h key
  refine ⟨hfresh, hclaimed, fun c hc hstage => ?_, fun e he hav => ?_, fun bin hbin => ?_⟩
  · obtain ⟨hpath, hv⟩ := hmarked c hc hstage
    exact ⟨hpath, fun hK => absurd (hv hK) (hinvalid hK)⟩
  · obtain ⟨htier, hloc, hv⟩ := hlocated e he hav
    exact ⟨htier, hloc, fun hK => absurd (hv hK) (hinvalid hK)⟩
  · replace hbin : Function.update s.files (finalPath root key) content (finalPath root key) =
      some bin := hbin
    rw [Function.update_self] at hbin
    exact Or.inl (hwhole bin hbin)

/-- Deleting a final file that is spared: it did not parse. -/
theorem kept_delete_final {key : CacheKey} {r : (Act.delete (finalPath root key)).Ans}
    (h : Sound sha256 root K s.index)
    (hc : can sha256 hitBias root K s (.delete (finalPath root key)) r t) :
    Kept sha256 root K u s t := by
  obtain ⟨hspares, env, frm, fault, hperform⟩ := hc
  have hinvalid : K key → ¬ Valid sha256 root s.files key := fun hK => hspares key hK rfl
  rcases perform_delete (deps sha256 hitBias) env frm fault
    (finalPath root key) s with ht | ht
  · rw [hperform] at ht
    exact ht ▸ Kept.refl h u
  · rw [hperform] at ht
    replace ht : t = setFile (finalPath root key) none s := ht
    subst ht
    refine Kept.of_moved (moved_setFinal h hinvalid fun bin hbin => ?_) u
    cases hbin

/-- Linking a whole file: nothing happens, or the file appears where there was none. -/
theorem kept_makeLink {key : CacheKey} {src : Path} {bin : Bytes}
    {r : (Act.makeLink src (finalPath root key)).Ans} (h : Sound sha256 root K s.index)
    (hsrc : s.files src = some bin) (hwhole : Whole sha256 key bin)
    (hc : can sha256 hitBias root K s (.makeLink src (finalPath root key)) r t) :
    Kept sha256 root K u s t ∧
      ((∃ e, r = .error e) ∧ t = s ∨
        r = .ok () ∧ t = setFile (finalPath root key) (some bin) s) := by
  obtain ⟨-, env, frm, fault, hperform⟩ := hc
  simp only [perform, hsrc] at hperform
  split at hperform
  · cases hperform
    exact ⟨Kept.refl h u, Or.inl ⟨⟨_, rfl⟩, rfl⟩⟩
  · cases hdst : s.files (finalPath root key) with
    | some old =>
      simp only [hdst] at hperform
      cases hperform
      exact ⟨Kept.refl h u, Or.inl ⟨⟨_, rfl⟩, rfl⟩⟩
    | none =>
      simp only [hdst] at hperform
      cases hperform
      have hinvalid : ¬ Valid sha256 root s.files key := by
        rintro ⟨bin', info, payload, hbin', -⟩
        rw [hdst] at hbin'
        cases hbin'
      have hmoved : Moved sha256 root K s.index
          (setFile (finalPath root key) (some bin) s).index :=
        moved_setFinal h (fun _ => hinvalid) fun bin' hbin' => Option.some.inj hbin' ▸ hwhole
      exact ⟨Kept.of_moved hmoved u, Or.inr ⟨rfl, rfl⟩⟩

end Erllama.Publish
