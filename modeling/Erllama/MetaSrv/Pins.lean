import Erllama.MetaSrv.View

namespace Erllama.MetaSrv

open Lib

/-!
# Pins follow the namespace map

`#state.pinned` maps a namespace to the key of its static-prefix checkpoint.  The pin flag of
a row is a copy of that fact: it is lost when a placeholder or a fresh row overwrites the row,
and `maybe_restore_pin/2` writes it back from the map when the row is published.

* `PinsFollow` — the flag of an available row says whether its key is a value of the map.
* `PinsOwn` — every value of the map stands under its own namespace.
* `View.Move.pinsFollow` — each move of the server keeps both, as long as keys are pinned
  only under their own namespace.
* `run_pinsFollow` — every run.
-/

variable {deps : Deps} {v v' : View} {nsOf : CacheKey → Digest}

/-- The flag of an available row says whether some namespace has pinned its key. -/
def PinsFollow (v : View) : Prop :=
  v.AvailableRows fun key row => row.pinned = true ↔ key ∈ v.pinned.values

/-- Keys are pinned only under their own namespace. -/
def PinsOwn (nsOf : CacheKey → Digest) (t : Table Digest CacheKey) : Prop :=
  ∀ ns key, t.lookup ns = some key → ns = nsOf key

/-- A key is pinned iff its namespace says so. -/
theorem PinsOwn.mem_values_iff {t : Table Digest CacheKey} (h : PinsOwn nsOf t) {key : CacheKey} :
    key ∈ t.values ↔ t.lookup (nsOf key) = some key := by
  rw [AList.mem_values_iff]
  constructor
  · rintro ⟨ns, hns⟩
    rwa [← h ns key hns]
  · exact fun hkey => ⟨nsOf key, hkey⟩

/-- A pin is the pin of its namespace. -/
theorem PinsOwn.insert {t : Table Digest CacheKey} (h : PinsOwn nsOf t) (key : CacheKey) :
    PinsOwn nsOf (t.insert (nsOf key) key) := by
  intro ns k hk
  rw [AList.lookup_insert_ite] at hk
  split at hk
  · rename_i hns
    rw [hns, Option.some.inj hk]
  · exact h ns k hk

/-! ### Rows that are written, and rows that are adjusted -/

/-- Rewriting one row keeps the flags right if the new row's own flag is right. -/
theorem PinsFollow.of_update (h : PinsFollow v) (key : CacheKey) {r : Option Row}
    (hrow : v'.row = Function.update v.row key r) (hpinned : v'.pinned = v.pinned)
    (hr : ∀ row, r = some row → row.status = .available →
      (row.pinned = true ↔ key ∈ v.pinned.values)) : PinsFollow v' := by
  unfold PinsFollow
  rw [hpinned]
  exact View.AvailableRows.of_update h key hrow (fun _ _ _ hk => hk) hr

/-- Removing a row keeps the pins. -/
theorem PinsFollow.of_removed (h : PinsFollow v) (key : CacheKey)
    (hrow : v'.row = Function.update v.row key none) (hpinned : v'.pinned = v.pinned) :
    PinsFollow v' :=
  h.of_update key hrow hpinned fun row hr => absurd hr.symm (Option.some_ne_none row)

/-- What a pin writes. -/
theorem View.pin_pinned (v : View) (ns : Digest) (key : CacheKey) :
    (v.pin ns key).pinned = v.pinned.insert ns key := rfl

/-- **Pinning** a key under its own namespace keeps the flags right: the prior key of that
    namespace is a value of the map nowhere else. -/
theorem PinsFollow.pin (h : PinsFollow v) (hown : PinsOwn nsOf v.pinned) (key : CacheKey) :
    PinsFollow (v.pin (nsOf key) key) := by
  intro k row hk hav
  rw [View.pin_pinned, (hown.insert key).mem_values_iff, AList.lookup_insert_ite]
  rw [View.pin_row] at hk
  by_cases hkey : k = key
  · subst hkey
    rw [if_pos rfl] at hk
    obtain ⟨r, -, rfl⟩ := Option.map_eq_some_iff.mp hk
    simp
  · rw [if_neg hkey] at hk
    by_cases hprior : v.pinned.lookup (nsOf key) = some k
    · -- the prior key: its namespace now holds `key`
      rw [if_pos hprior] at hk
      obtain ⟨r, -, rfl⟩ := Option.map_eq_some_iff.mp hk
      have hns : nsOf key = nsOf k := hown _ _ hprior
      simp [hns, Ne.symm hkey]
    · rw [if_neg hprior] at hk
      refine (h k row hk hav).trans ?_
      rw [hown.mem_values_iff]
      by_cases hns : nsOf k = nsOf key
      · rw [hns, if_pos rfl, Option.some.injEq]
        exact iff_of_false hprior (Ne.symm hkey)
      · simp [hns]

/-! ### One move -/

/-- **Each move** keeps the flags right, if the message pins its key under the key's own
    namespace. -/
theorem View.Move.pinsFollow {msg : Msg} (hm : View.Move msg v v')
    (hmsg : ∀ ns key, msg = .pinRow ns key → ns = nsOf key)
    (h : PinsFollow v ∧ PinsOwn nsOf v.pinned) : PinsFollow v' ∧ PinsOwn nsOf v'.pinned := by
  obtain ⟨h, hown⟩ := h
  cases hm with
  | delete o ho => exact ⟨h, hown⟩
  | count key n =>
    refine ⟨h.of_update key rfl rfl fun row hrow hav => ?_, hown⟩
    obtain ⟨r, hr, rfl⟩ := Option.map_eq_some_iff.mp hrow
    exact h key r hr hav
  | checkout key r t hr hav =>
    refine ⟨h.of_update key rfl rfl fun row hrow _ => ?_, hown⟩
    rw [← Option.some.inj hrow]
    exact h key r hr hav
  | publish key r hpub hav hloc =>
    refine ⟨h.of_update key rfl rfl fun row hrow _ => ?_, hown⟩
    rw [← Option.some.inj hrow]
    exact decide_eq_true_iff
  | remove key => exact ⟨h.of_removed key rfl rfl, hown⟩
  | reserve key r hr =>
    refine ⟨h.of_update key rfl rfl fun row hrow hav => ?_, hown⟩
    rw [← Option.some.inj hrow, hr] at hav
    cases hav
  | evict lruKey => exact ⟨h.of_removed (ofLex lruKey).2 rfl rfl, hown⟩
  | pin ns key hpin =>
    obtain rfl := hmsg ns key hpin
    exact ⟨h.pin hown key, hown.insert key⟩
  | expire key frm hexp hw => exact ⟨h, hown⟩

/-- **One message** keeps the flags right. -/
theorem step_pinsFollow (s : State) (e : Event)
    (hmsg : ∀ ns key, e.msg = .pinRow ns key → ns = nsOf key)
    (h : PinsFollow s.view ∧ PinsOwn nsOf s.view.pinned) :
    PinsFollow (step deps s e).view ∧ PinsOwn nsOf (step deps s e).view.pinned := by
  obtain ⟨v, hmoves, hends⟩ := step_moves deps s e
  have hv := hmoves.keeps
    (P := fun v => PinsFollow v ∧ PinsOwn nsOf v.pinned)
    (fun v v' hv hm => hm.pinsFollow hmsg hv) h
  obtain ⟨hrow, -, hpinned⟩ := hends.rows
  refine ⟨?_, by rw [hpinned]; exact hv.2⟩
  intro key row hk hav
  rw [hrow] at hk
  rw [hpinned]
  exact hv.1 key row hk hav

/-! ### The pinned map -/

variable (deps) in
/-- The pinned map changes with `pin_row` only. -/
theorem pinned_step (s : State) (e : Event) :
    (step deps s e).pinned = s.pinned ∨
      ∃ ns key, e.msg = .pinRow ns key ∧ (step deps s e).pinned = s.pinned.insert ns key := by
  obtain ⟨v, hmoves, hends⟩ := step_moves deps s e
  have hkeep : (∀ ns key, e.msg ≠ .pinRow ns key) → v.pinned = s.pinned := by
    intro hne
    refine hmoves.keeps (P := fun v => v.pinned = s.pinned) (fun v v' hv hm => ?_) rfl
    cases hm with
    | pin ns key hpin => exact absurd hpin (hne ns key)
    | _ => exact hv
  by_cases hpin : ∃ ns key, e.msg = .pinRow ns key
  · obtain ⟨ns, key, hmsg⟩ := hpin
    refine Or.inr ⟨ns, key, hmsg, ?_⟩
    simp only [step, hmsg]
    exact congrArg View.pinned (view_doPinRow s.startCallback key ns)
  · left
    have hne : ∀ ns key, e.msg ≠ .pinRow ns key := fun ns key h => hpin ⟨ns, key, h⟩
    rw [← hkeep hne]
    exact hends.rows.2.2

/-- Once a namespace holds a key, it does so until another key is pinned under it. -/
theorem pinned_run {ns : Digest} {key : CacheKey} (es : List Event)
    (hes : ∀ e ∈ es, ∀ k, e.msg = .pinRow ns k → k = key) (s : State)
    (h : s.pinned.lookup ns = some key) :
    (run (step deps) s es).pinned.lookup ns = some key := by
  induction es generalizing s with
  | nil => exact h
  | cons e es ih =>
    refine ih (fun e' he' => hes e' (List.mem_cons_of_mem e he')) _ ?_
    rcases pinned_step deps s e with heq | ⟨ns', k, hmsg, heq⟩
    · rwa [heq]
    · rw [heq, AList.lookup_insert_ite]
      split
      · rename_i hns
        subst hns
        rw [hes e List.mem_cons_self k hmsg]
      · exact h

/-! ### Whole runs -/

variable (deps) in
/-- **Pins follow the namespace map.** In every run of the server that pins keys under their
    own namespaces, the flag of an available row is true iff its namespace holds its key; no
    two available rows of a namespace are pinned; and once a key is pinned, before, during or
    after its save, its row is pinned whenever it is available until another key of the
    namespace is pinned. -/
theorem run_pinsFollow (nsOf : CacheKey → Digest) (files : Files) (es : List Event)
    (hes : ∀ e ∈ es, ∀ ns key, e.msg = .pinRow ns key → ns = nsOf key) :
    (∀ key row, (run (step deps) (State.init files) es).metaTbl.lookup key = some row →
      row.status = .available →
      (row.pinned = true ↔
        (run (step deps) (State.init files) es).pinned.lookup (nsOf key) = some key)) ∧
    (∀ key key' row row',
      (run (step deps) (State.init files) es).metaTbl.lookup key = some row →
      (run (step deps) (State.init files) es).metaTbl.lookup key' = some row' →
      row.status = .available → row'.status = .available →
      row.pinned = true → row'.pinned = true → nsOf key = nsOf key' → key = key') ∧
    ∀ pre e post key, es = pre ++ e :: post → e.msg = .pinRow (nsOf key) key →
      (∀ e' ∈ post, ∀ k, e'.msg = .pinRow (nsOf key) k → k = key) →
      ∀ row, (run (step deps) (State.init files) es).metaTbl.lookup key = some row →
        row.status = .available → row.pinned = true := by
  set s := run (step deps) (State.init files) es with hs
  have hinit : PinsFollow (State.init files).view ∧ PinsOwn nsOf (State.init files).view.pinned :=
    ⟨.init _ files, nofun⟩
  have hall : AllSteps (step deps)
      (fun _ e => ∀ ns key, e.msg = .pinRow ns key → ns = nsOf key) (State.init files) es :=
    AllSteps.of_mem hes
  have hinv : PinsFollow s.view ∧ PinsOwn nsOf s.view.pinned :=
    AllSteps.invariant (I := fun s => PinsFollow s.view ∧ PinsOwn nsOf s.view.pinned)
      (fun s e h he => step_pinsFollow s e he h) hinit hall
  have hflag : ∀ key row, s.metaTbl.lookup key = some row → row.status = .available →
      (row.pinned = true ↔ s.pinned.lookup (nsOf key) = some key) := by
    intro key row hrow hav
    exact (hinv.1 key row hrow hav).trans hinv.2.mem_values_iff
  refine ⟨hflag, ?_, ?_⟩
  · intro key key' row row' hrow hrow' hav hav' hp hp' hns
    have h := (hflag key row hrow hav).mp hp
    have h' := (hflag key' row' hrow' hav').mp hp'
    rw [hns, h'] at h
    exact (Option.some.inj h).symm
  · intro pre e post key heq hmsg hpost row hrow hav
    refine (hflag key row hrow hav).mpr ?_
    have hafter : (step deps (run (step deps) (State.init files) pre) e).pinned.lookup
        (nsOf key) = some key := by
      simp only [step, hmsg]
      exact AList.lookup_insert _
    rw [hs, heq, run_append, run_cons]
    exact pinned_run post hpost _ hafter

/-- A key is reserved, pinned while its file is being written, and announced. -/
def pinDuringSave : List Event :=
  [⟨steadyEnv, 0, .reserveSave (.fill 1) .disk 7⟩,
   ⟨steadyEnv, 1, .pinRow (.fill 9) (.fill 1)⟩,
   ⟨steadyEnv, 0, .announceSaved (.fill 1) 1 5 [] none 0⟩]

/-- The row that the announce publishes. -/
def publishedRow : Row :=
  ⟨.disk, 5, 1, 0, .available, [], .disk none, none, 0, 0, true⟩

/-- The pin set before the publication holds after it. -/
theorem pinDuringSave_pinned :
    (run (step noFileDeps) (State.init fun _ => none) pinDuringSave).metaTbl.lookup (.fill 1) =
      some publishedRow ∧ publishedRow.pinned = true := by
  have hrow : (run (step noFileDeps) (State.init fun _ => none) pinDuringSave).metaTbl.lookup
      (.fill 1) = some publishedRow := by decide
  have hpins : ∀ e ∈ pinDuringSave, ∀ ns key, e.msg = .pinRow ns key → ns = .fill 9 := by
    intro e he ns key hmsg
    simp only [pinDuringSave, List.mem_cons, List.not_mem_nil, or_false] at he
    rcases he with rfl | rfl | rfl
    · cases hmsg
    · exact (Msg.pinRow.inj hmsg).1.symm
    · cases hmsg
  refine ⟨hrow, ?_⟩
  obtain ⟨-, -, hkept⟩ := run_pinsFollow noFileDeps (fun _ => .fill 9) (fun _ => none)
    pinDuringSave hpins
  refine hkept [⟨steadyEnv, 0, .reserveSave (.fill 1) .disk 7⟩]
    ⟨steadyEnv, 1, .pinRow (.fill 9) (.fill 1)⟩
    [⟨steadyEnv, 0, .announceSaved (.fill 1) 1 5 [] none 0⟩] (.fill 1) rfl rfl ?_
    publishedRow hrow rfl
  intro e' he' k hk
  rw [List.mem_singleton.mp he'] at hk
  cases hk

end Erllama.MetaSrv
