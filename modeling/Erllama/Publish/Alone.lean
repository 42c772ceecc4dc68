import Erllama.Publish.Confined

namespace Erllama.Publish

open Lib MetaSrv Kvc

/-!
# One process at work

A save or a load runs to its end with nobody in between; the server's environment and the
faults of the file operations are whatever they are.

* `Surroundings`, `alone` — what each action is answered.
* `Ends` — what holds at the end of a program, given how the actions can be answered.
* `Frame` — an action that changes one file at most.
* `does_*` — what each action does.
-/

/-- What the runtime answers while one process runs alone: the environment and the fault of the
    `n`-th action.  A save asks for the size of its file once; `statFails` is the answer. -/
structure Surroundings where
  env : Nat → Env
  fault : Nat → Fault
  statFails : Bool

/-- How the `n`-th action fails. -/
def Surroundings.faultOf (x : Surroundings) (n : Nat) : Act → Fault
  | .readFileInfo _ => ⟨x.statFails, 0⟩
  | _               => x.fault n

section Definitions

variable (sha256 : Bytes → Digest) (hitBias : Nat → Int → Int) (u : Nat) (x : Surroundings)

/-- The `n`-th action of the process `u`. -/
def alone (n : Nat) (s : State) (a : Act) : a.Ans × State :=
  perform (deps sha256 hitBias) (x.env n) u (x.faultOf n a) a s

/-- How the `n`-th action can be answered. -/
def does (n : Nat) (s : State) (a : Act) (r : a.Ans) (t : State) : Prop :=
  alone sha256 hitBias u x n s a = (r, t)

/-- What holds at the end of a program. -/
abbrev Ends {β : Type} (post : Nat → β → State → Prop) (n : Nat) (p : Program β) (s : State) :
    Prop :=
  Prog.Ensures (does sha256 hitBias u x) post n p s

/-- The result and the final state of a program that runs alone. -/
abbrev runAlone {β : Type} (p : Program β) (s : State) : β × State :=
  p.exec (alone sha256 hitBias u x) 0 s

end Definitions

/-- No entry and no claim changes, and no file but `p`. -/
structure Frame (p : Path) (s t : State) : Prop where
  entry : t.index.entry = s.index.entry
  claim : t.index.claim = s.index.claim
  files : ∀ q, q ≠ p → t.files q = s.files q

variable {sha256 : Bytes → Digest} {hitBias : Nat → Int → Int} {u : Nat} {x : Surroundings}
  {n : Nat} {s t : State} {p : Path}

/-- A program that ends well, run alone. -/
theorem Ends.runAlone {β : Type} {post : Nat → β → State → Prop} {p : Program β}
    (h : Ends sha256 hitBias u x post 0 p s) :
    ∃ m, post m (Publish.runAlone sha256 hitBias u x p s).1
      (Publish.runAlone sha256 hitBias u x p s).2 :=
  Prog.Ensures.exec h fun _ _ _ => rfl

/-- Nothing was touched. -/
theorem Frame.refl (p : Path) (s : State) : Frame p s s := ⟨rfl, rfl, fun _ _ => rfl⟩

/-- One act after another. -/
theorem Frame.trans {v : State} (h : Frame p s t) (h' : Frame p t v) : Frame p s v :=
  ⟨h'.entry.trans h.entry, h'.claim.trans h.claim,
    fun q hq => (h'.files q hq).trans (h.files q hq)⟩

/-- Writing a file touches that file. -/
theorem frame_setFile (p : Path) (content : Option Bytes) (s : State) :
    Frame p s (setFile p content s) :=
  ⟨rfl, rfl, fun _ hq => Function.update_of_ne hq _ _⟩

/-! ### What each action does -/

/-- A message is handled and answered. -/
theorem does_call {msg : Msg} {r : Option Reply}
    (h : does sha256 hitBias u x n s (.call msg) r t) :
    t = step (deps sha256 hitBias) s ⟨x.env n, u, msg⟩ ∧ r = t.answer := by
  obtain ⟨ht, hr⟩ := perform_call h
  exact ⟨ht, ht ▸ hr⟩

/-- An exclusive open that succeeds makes an empty file. -/
theorem does_openExclusive {r : Except Posix Unit}
    (h : does sha256 hitBias u x n s (.openExclusive p) r t) :
    Frame p s t ∧ (r = .ok () → t.files p = some []) := by
  simp only [does, alone, perform] at h
  split at h
  · cases h
    exact ⟨Frame.refl p s, fun hr => by cases hr⟩
  · cases hfile : s.files p with
    | some old =>
      simp only [hfile] at h
      cases h
      exact ⟨Frame.refl p s, fun hr => by cases hr⟩
    | none =>
      simp only [hfile] at h
      cases h
      exact ⟨frame_setFile p _ s, fun _ => files_setFile_self p _ s⟩

/-- A write that succeeds leaves the whole content. -/
theorem does_write {data : Bytes} {r : Except Posix Unit}
    (h : does sha256 hitBias u x n s (.write p data) r t) (hp : s.files p ≠ none) :
    Frame p s t ∧ (r = .ok () → t.files p = some data) := by
  obtain ⟨old, hold⟩ := Option.ne_none_iff_exists'.mp hp
  simp only [does, alone, perform, hold] at h
  split at h
  · cases h
    exact ⟨frame_setFile p _ s, fun hr => by cases hr⟩
  · cases h
    exact ⟨frame_setFile p _ s, fun _ => files_setFile_self p _ s⟩

/-- A deletion touches its file, if it does not fail. -/
theorem does_delete {r : Except Posix Unit} (h : does sha256 hitBias u x n s (.delete p) r t) :
    Frame p s t := by
  rcases perform_delete (deps sha256 hitBias) (x.env n) u
    (x.faultOf n (.delete p)) p s with ht | ht
  · have hs : t = s := (congrArg Prod.snd h).symm.trans ht
    exact hs ▸ Frame.refl p s
  · have hs : t = setFile p none s := (congrArg Prod.snd h).symm.trans ht
    exact hs ▸ frame_setFile p none s

/-- A quiet act changes nothing. -/
theorem does_quiet {a : Act} {r : a.Ans} (ha : a.isQuiet = true)
    (h : does sha256 hitBias u x n s a r t) : t = s :=
  (congrArg Prod.snd h).symm.trans (perform_quiet ha s)

/-- What reading a file answers. -/
theorem perform_readFile {d : Deps} {env : Env} {frm : From} {fault : Fault} (p : Path)
    (s : State) : (perform d env frm fault (.readFile p) s).1 =
      if fault.fails then .error .other
      else match s.files p with
        | none     => .error .enoent
        | some bin => .ok bin := by
  simp only [perform]
  split
  · rfl
  · cases s.files p <;> rfl

/-- What asking for its size answers. -/
theorem perform_readFileInfo {d : Deps} {env : Env} {frm : From} {fault : Fault} (p : Path)
    (s : State) : (perform d env frm fault (.readFileInfo p) s).1 =
      if fault.fails then .error .other
      else match s.files p with
        | none     => .error .enoent
        | some bin => .ok bin.length := by
  simp only [perform]
  split
  · rfl
  · cases s.files p <;> rfl

/-- What is read is there; without a fault, what is there is read. -/
theorem does_readFile {r : Except Posix Bytes}
    (h : does sha256 hitBias u x n s (.readFile p) r t) :
    t = s ∧ r = if (x.fault n).fails then .error .other
      else match s.files p with
        | none     => .error .enoent
        | some bin => .ok bin :=
  ⟨does_quiet rfl h, (congrArg Prod.fst h).symm.trans (perform_readFile p s)⟩

/-- Asking for the size of a file. -/
theorem does_readFileInfo {r : Except Posix Nat}
    (h : does sha256 hitBias u x n s (.readFileInfo p) r t) :
    t = s ∧ r = if x.statFails then .error .other
      else match s.files p with
        | none     => .error .enoent
        | some bin => .ok bin.length :=
  ⟨does_quiet rfl h, (congrArg Prod.fst h).symm.trans (perform_readFileInfo p s)⟩

/-- A link succeeds where there was no file, and is refused with `eexist` where there was one. -/
theorem does_makeLink {src dst : Path} {r : Except Posix Unit}
    (h : does sha256 hitBias u x n s (.makeLink src dst) r t) :
    (r = .ok () ∧ ∃ bin, s.files src = some bin ∧ s.files dst = none ∧
        t = setFile dst (some bin) s) ∨
      (∃ e, r = .error e ∧ t = s ∧ (e = .eexist → s.files dst ≠ none)) := by
  simp only [does, alone, perform] at h
  split at h
  · cases h
    exact Or.inr ⟨_, rfl, rfl, fun he => by cases he⟩
  · cases hsrc : s.files src with
    | none =>
      simp only [hsrc] at h
      cases h
      exact Or.inr ⟨_, rfl, rfl, fun he => by cases he⟩
    | some bin =>
      cases hdst : s.files dst with
      | some old =>
        simp only [hsrc, hdst] at h
        cases h
        exact Or.inr ⟨_, rfl, rfl, fun _ => by simp⟩
      | none =>
        simp only [hsrc, hdst] at h
        cases h
        exact Or.inl ⟨rfl, bin, rfl, rfl, rfl⟩

end Erllama.Publish
