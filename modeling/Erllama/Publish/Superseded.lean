import Erllama.MetaSrv.Deletions
import Erllama.Publish.Metadata

namespace Erllama.Publish

open Lib MetaSrv Kvc

/-!
# Whose metadata a row shows

The server accepts the outstanding token only, so no superseded writer announces.  But a cleanup
takes its metadata from the file under the final name, and that file may be another writer's: one
that a writer without a token has linked, and that the holder of the token has found and kept.
The run is watched by two ghosts: who linked each final file, and who marked each reservation over
whose file.

* `Authored`, `Authored.step` — the system with the ghosts.
* `Authored.KeepsOwn` — no marked reservation has its file replaced, and only those are cleaned up
  whose writer linked the file itself.
* `Authored.Sourced` — new metadata is what the holder of the token announced, or is in a file
  that the holder linked.
* `sourced_step`, `run_reservationsExclusive` — the steps that keep their own files are sourced.
* `supersededRun` — a row with the metadata of a superseded writer.
-/

section Definitions

variable (sha256 : Bytes → Digest) (hitBias : Nat → Int → Int) (root : Path)

/-- An accepted mark: the process, its token, and who had linked the file that it found under the
    final name. -/
structure Mark where
  writer : Nat
  token : Ref
  found : Option Nat

/-- The system, with the process that linked the final file of each key, and the last accepted
    mark. -/
structure Authored where
  sys : Sys
  author : CacheKey → Option Nat
  mark : CacheKey → Option Mark

/-- Nobody has linked or marked anything yet. -/
def Authored.start (s : Sys) : Authored := ⟨s, fun _ => none, fun _ => none⟩

/-- The process is about to link the final name of the key, and the name is free. -/
def Sys.links (s : Sys) (u : Nat) (key : CacheKey) : Bool :=
  match s.nextAct u with
  | some (.makeLink _ dst) =>
    decide (dst = finalPath root key) && (s.srv.files (finalPath root key)).isNone
  | _ => false

/-- Who linked the file that is under the final name after the step. -/
def Authored.authorAfter (p : Authored) (e : Event) (key : CacheKey) : Option Nat :=
  if ((sysStep sha256 hitBias root p.sys e).srv.files (finalPath root key)).isNone then none
  else
    match e with
    | .act u _ _ => if p.sys.links root u key then some u else p.author key
    | _          => p.author key

/-- The last accepted mark of the key after the step. -/
def Authored.markAfter (p : Authored) (e : Event) (key : CacheKey) : Option Mark :=
  match e with
  | .act u _ _ =>
    match p.sys.nextAct u with
    | some (.call (.markPublished k token _)) =>
      if k = key ∧ (p.sys.srv.reservationWith k token).isSome then some ⟨u, token, p.author key⟩
      else p.mark key
    | _ => p.mark key
  | _ => p.mark key

/-- One step, with the ghosts beside it. -/
def Authored.step (p : Authored) (e : Event) : Authored where
  sys := sysStep sha256 hitBias root p.sys e
  author := p.authorAfter sha256 hitBias root e
  mark := p.markAfter e

/-- The message that the server handles in this step. -/
def Sys.message (s : Sys) : Event → Option MetaSrv.Event
  | .act u env _ =>
    match s.nextAct u with
    | some (.call msg) => some ⟨env, u, msg⟩
    | _                => none
  | .server env frm msg => if msg.isBackground then some ⟨env, frm, msg⟩ else none
  | _ => none

/-- Nobody links the final name of a key whose reservation is marked, and a marked reservation
    that is cleaned up was marked over the writer's own file. -/
structure Authored.KeepsOwn (p : Authored) (e : Event) : Prop where
  links : ∀ u env fault key c, e = .act u env fault → p.sys.links root u key = true →
    p.sys.srv.index.claim key = some c → c.stage ≠ .postLink
  cleans : ∀ m key c mark, p.sys.message e = some m → key ∈ cleanedUp p.sys.srv m →
    p.sys.srv.index.claim key = some c → c.stage = .postLink → p.mark key = some mark →
    mark.found = none ∨ mark.found = some mark.writer

/-- Where the metadata of a new available row comes from: the announce of the outstanding token,
    or the final file, and the process of the run that linked it has marked the key with the
    outstanding token. -/
inductive Authored.Source (p : Authored) (e : Event) (key : CacheKey) : Entry → Prop
  | announced (u : Nat) (env : Env) (fault : Fault) (token : Ref) (tier : Tier) (size : Nat)
      (header : Bytes) (loc : Location) (tokensBin : Option Bytes) (textBytes : Nat)
      (he : e = .act u env fault) (hact : p.sys.nextAct u =
        some (.call (.announceSaved key token size header tokensBin textBytes)))
      (htoken : p.sys.srv.index.tokenOf key = some token) :
      Source p e key ⟨.available, tier, size, header, loc, tokensBin, textBytes⟩
  | adopted (c : Claim) (entry : Entry) (hc : p.sys.srv.index.claim key = some c)
      (hpath : c.path = some (finalPath root key))
      (hentry : AdoptedEntry (deps sha256 hitBias) p.sys.srv.files key c entry)
      (hown : ∀ u, p.author key = some u →
        ∃ m, p.mark key = some m ∧ m.token = c.token ∧ m.writer = u) : Source p e key entry

/-- The step makes no row available with a superseded writer's metadata. -/
def Authored.Sourced (p : Authored) (e : Event) : Prop :=
  ∀ key entry, (sysStep sha256 hitBias root p.sys e).srv.index.entry key = some entry →
    entry.status = .available → p.sys.srv.index.entry key = some entry ∨
      p.Source sha256 hitBias root e key entry

end Definitions

variable {sha256 : Bytes → Digest} {hitBias : Nat → Int → Int} {root : Path}
  {K : CacheKey → Prop} {d : Deps} {key : CacheKey} {s : State}

/-! ### Marked claims -/

section Claims

variable {env : MetaSrv.Env} {frm : From} {k : CacheKey} {c : Claim}

/-- A background message takes claims away only. -/
theorem claim_background {msg : Msg} (hbg : msg.isBackground = true)
    (hc : (MetaSrv.step d s ⟨env, frm, msg⟩).index.claim key = some c) :
    s.index.claim key = some c := by
  have hmoves : Index.Moves d env (· ∈ dropped s ⟨env, frm, msg⟩) s.index
      (MetaSrv.step d s ⟨env, frm, msg⟩).index := index_background s frm hbg
  rcases hmoves.claim key with hsame | ⟨hnone, -⟩
  · exact hsame.symm.trans hc
  · cases hnone.symm.trans hc

/-- A reservation that has just been made is not marked, so a marked claim was there. -/
theorem claim_doReserveSave {tier : Tier} {pid : Pid}
    (hc : (doReserveSave d env k tier pid frm s).index.claim key = some c)
    (hstage : c.stage = .postLink) : s.index.claim key = some c := by
  have hfresh : ∀ i : Index, (∀ k', k' ≠ k → i.claim k' = s.index.claim k') →
      (i.reserve k tier pid).claim key = some c → s.index.claim key = some c := by
    intro i hi h
    rw [Index.claim_reserve] at h
    split at h
    · cases h
      cases hstage
    · rename_i hk
      exact (hi key hk).symm.trans h
  rcases index_doReserveSave d env s k tier pid frm with
    ⟨hsame, -⟩ | ⟨-, -, ⟨-, heq⟩ | ⟨c', -, heq⟩⟩
  · rwa [hsame] at hc
  · rw [heq] at hc
    exact hfresh s.index (fun _ _ => rfl) hc
  · rw [heq] at hc
    refine hfresh _ (fun k' hk' => ?_) hc
    rw [Index.claim_cleanup, if_neg hk']

/-- The claim of a key is the one that was there, or it has just been marked under the key's
    token. -/
theorem claim_handleMarkPublished {token : Ref} {path : Path}
    (hc : (handleMarkPublished env k token path frm s).index.claim key = some c) :
    (s.index.claim key = some c ∧ (key = k → s.reservationWith k token = none)) ∨
      key = k ∧ (s.reservationWith k token).isSome ∧ c.token = token := by
  cases hr : s.reservationWith k token with
  | none =>
    simp only [handleMarkPublished, hr, index_emit] at hc
    exact Or.inl ⟨hc, fun _ => rfl⟩
  | some r =>
    rw [index_handleMarkPublished s k hr] at hc
    simp only [Index.mark, Index.claim_setClaim] at hc
    split at hc
    · rename_i hk
      cases hc
      exact Or.inr ⟨hk, rfl, ((reservationWith_eq_some_iff s _).mp hr).2⟩
    · rename_i hk
      exact Or.inl ⟨hc, fun heq => absurd heq hk⟩

/-- An announcement ends a claim or leaves it. -/
theorem claim_handleAnnounceSaved {token : Ref} {size : Nat} {header : Bytes}
    {tokensBin : Option Bytes} {textBytes : Nat}
    (hc : (handleAnnounceSaved env k token size header tokensBin textBytes frm s).index.claim key =
      some c) : s.index.claim key = some c := by
  cases hr : s.reservationWith k token with
  | none =>
    simp only [handleAnnounceSaved, hr, index_emit] at hc
    exact hc
  | some r =>
    rw [index_handleAnnounceSaved s k hr] at hc
    simp only [Index.publish, Index.claim_setClaim, Index.claim_setEntry] at hc
    split at hc
    · cases hc
    · exact hc

/-- A cancellation ends a claim or leaves it. -/
theorem claim_handleCancelReservation {token : Ref}
    (hc : (handleCancelReservation k token frm s).index.claim key = some c) :
    s.index.claim key = some c := by
  cases hr : s.reservationWith k token with
  | none =>
    simp only [handleCancelReservation, hr, index_emit] at hc
    exact hc
  | some r =>
    rw [index_handleCancelReservation s k hr] at hc
    simp only [Index.forget, Index.claim_setClaim, Index.claim_setEntry] at hc
    split at hc
    · cases hc
    · exact hc

end Claims

/-- Every marked claim is the one that was there, or the message has just marked it. -/
theorem marked_step {e : MetaSrv.Event} {c : Claim}
    (hmsg : e.msg.isBackground = true ∨ isPipeline e.msg = true)
    (hc : (step d s e).index.claim key = some c) (hstage : c.stage = .postLink) :
    (s.index.claim key = some c ∧ ∀ token path, e.msg = .markPublished key token path →
      s.reservationWith key token = none) ∨
    ∃ token path, e.msg = .markPublished key token path ∧
      (s.reservationWith key token).isSome ∧ c.token = token := by
  obtain ⟨env, frm, msg⟩ := e
  set s0 := s.startCallback with hs0
  -- any other message than a mark leaves the claim or takes it away
  have hother : (∀ token path, msg ≠ .markPublished key token path) →
      (s.index.claim key = some c) → (s.index.claim key = some c ∧ ∀ token path,
        msg = .markPublished key token path → s.reservationWith key token = none) :=
    fun hne h => ⟨h, fun token path heq => absurd heq (hne token path)⟩
  rcases hmsg with hbg | hpipe
  · refine Or.inl (hother (fun token path heq => ?_) (claim_background hbg hc))
    rw [heq] at hbg
    cases hbg
  cases msg with
  | reserveSave k tier pid =>
    exact Or.inl (hother (by rintro _ _ ⟨⟩) (claim_doReserveSave (s := s0) hc hstage))
  | checkReservation k token =>
    have hindex : (step d s ⟨env, frm, .checkReservation k token⟩).index = s.index :=
      index_handleCheckReservation s0 k token frm
    rw [hindex] at hc
    exact Or.inl (hother (by rintro _ _ ⟨⟩) hc)
  | markPublished k token path =>
    rcases claim_handleMarkPublished (s := s0) hc with ⟨hold, hnone⟩ | ⟨rfl, hsome, htoken⟩
    · refine Or.inl ⟨hold, ?_⟩
      rintro token' path' ⟨⟩
      exact hnone rfl
    · exact Or.inr ⟨token, path, rfl, hsome, htoken⟩
  | announceSaved k token size header tokensBin textBytes =>
    exact Or.inl (hother (by rintro _ _ ⟨⟩) (claim_handleAnnounceSaved (s := s0) hc))
  | cancelReservation k token =>
    exact Or.inl (hother (by rintro _ _ ⟨⟩) (claim_handleCancelReservation (s := s0) hc))
  | _ => cases hpipe

/-! ### The ghosts along a step -/

/-- A file keeps its author, unless the process that acts links it into a free name. -/
theorem authorAfter_eq_some {p : Authored} {e : Event} {u : Nat}
    (h : p.authorAfter sha256 hitBias root e key = some u) :
    p.author key = some u ∨ ∃ env fault, e = .act u env fault ∧ p.sys.links root u key = true := by
  unfold Authored.authorAfter at h
  split at h
  · cases h
  cases e with
  | act v env fault =>
    dsimp only at h
    split at h
    · rename_i hlinks
      cases h
      exact Or.inr ⟨env, fault, rfl, hlinks⟩
    · exact Or.inl h
  | _ => exact Or.inl h

/-- A message that is no accepted mark of the key leaves its mark. -/
theorem markAfter_eq {p : Authored} {e : Event}
    (h : ∀ u env fault token path, e = .act u env fault →
      p.sys.nextAct u = some (.call (.markPublished key token path)) →
      p.sys.srv.reservationWith key token = none) :
    p.markAfter e key = p.mark key := by
  cases e with
  | act u env fault =>
    unfold Authored.markAfter
    dsimp only
    split
    · rename_i k token path hact
      split
      · rename_i hk
        obtain ⟨rfl, hsome⟩ := hk
        rw [h u env fault token path rfl hact] at hsome
        cases hsome
      · rfl
    · rfl
  | _ => rfl

/-- What a step of a confined system does to the server: it handles a message of the tier, or it
    leaves entries and claims. -/
theorem message_step {s : Sys} (h : SysConfined root s) (e : Event) :
    (∃ m, s.message e = some m ∧ (m.msg.isBackground = true ∨ isPipeline m.msg = true) ∧
      (sysStep sha256 hitBias root s e).srv = step (deps sha256 hitBias) s.srv m) ∨
    s.message e = none ∧
      (sysStep sha256 hitBias root s e).srv.index.entry = s.srv.index.entry ∧
      (sysStep sha256 hitBias root s e).srv.index.claim = s.srv.index.claim := by
  cases e with
  | spawn job => exact Or.inr ⟨rfl, rfl, rfl⟩
  | crash u   => exact Or.inr ⟨rfl, rfl, rfl⟩
  | server env frm msg =>
    by_cases hbg : msg.isBackground = true
    · refine Or.inl ⟨⟨env, frm, msg⟩, if_pos hbg, Or.inl hbg, ?_⟩
      simp only [sysStep, if_pos hbg]
    · refine Or.inr ⟨if_neg hbg, ?_⟩
      simp only [sysStep, if_neg hbg, and_self]
  | act u env fault =>
    have hstep : sysStep sha256 hitBias root s (.act u env fault) =
        s.act sha256 hitBias u env fault := rfl
    rw [hstep]
    rcases act_cases sha256 hitBias s u env fault with ⟨hnone, heq⟩ | ⟨a, k, -, hnext, heq⟩
    · rw [heq]
      simp [Sys.message, hnone]
    · rw [heq]
      by_cases hcall : ∃ msg, a = .call msg
      · obtain ⟨msg, rfl⟩ := hcall
        have hconf : Act.Confined root (.call msg) := h.nextAct hnext
        exact Or.inl ⟨⟨env, u, msg⟩, by simp [Sys.message, hnext], hconf, rfl⟩
      · obtain ⟨files, hfiles⟩ := perform_noCall (deps sha256 hitBias) env u fault
          (fun msg h => hcall ⟨msg, h⟩) s.srv
        refine Or.inr ⟨?_, ?_⟩
        · cases a with
          | call msg => exact absurd ⟨msg, rfl⟩ hcall
          | _        => simp [Sys.message, hnext]
        · simp only [hfiles]
          exact ⟨rfl, rfl⟩

/-- A call of the save pipeline comes from a process. -/
theorem act_of_message {s : Sys} {e : Event} {m : MetaSrv.Event} (hm : s.message e = some m)
    (hcall : m.msg.isBackground = false) :
    ∃ u env fault, e = .act u env fault ∧ s.nextAct u = some (.call m.msg) := by
  cases e with
  | act u env fault =>
    simp only [Sys.message] at hm
    split at hm
    · rename_i msg hact
      cases hm
      exact ⟨u, env, fault, rfl, hact⟩
    · cases hm
  | server env frm msg =>
    simp only [Sys.message] at hm
    split at hm
    · rename_i hbg
      cases hm
      cases hcall.symm.trans hbg
    · cases hm
  | _ => cases hm

/-! ### Runs -/

/-- The invariant: a marked claim has the token of the last mark of its key, and the file is the
    one over which it was marked. -/
structure MarksKnown (sha256 : Bytes → Digest) (hitBias : Nat → Int → Int) (root : Path)
    (p : Authored) : Prop where
  sound : SysSound sha256 hitBias root (fun _ => False) p.sys
  confined : SysConfined root p.sys
  marks : ∀ key c, p.sys.srv.index.claim key = some c → c.stage = .postLink →
    ∃ m, p.mark key = some m ∧ m.token = c.token ∧
      ∀ u, p.author key = some u → m.found = some u

theorem marksKnown_start {s : Sys} (h : Started sha256 root s) :
    MarksKnown sha256 hitBias root (.start s) where
  sound := h.sysSound
  confined u p hp := by
    have hnone : s.threads u = some p := hp
    rw [h.threads] at hnone
    cases hnone
  marks key c hc _ := by
    have hclaim : s.srv.index.claim key = some c := hc
    rw [index_claim, h.claims key] at hclaim
    cases hclaim

/-- The mark of a claim that stays marked stays, and so does the file under it. -/
theorem MarksKnown.kept {p : Authored} (h : MarksKnown sha256 hitBias root p) {e : Event}
    (hkeep : p.KeepsOwn root e) {c : Claim} (hc : p.sys.srv.index.claim key = some c)
    (hstage : c.stage = .postLink) (hmark : p.markAfter e key = p.mark key) :
    ∃ m, p.markAfter e key = some m ∧ m.token = c.token ∧
      ∀ u, p.authorAfter sha256 hitBias root e key = some u → m.found = some u := by
  obtain ⟨m, hm, htoken, hfound⟩ := h.marks key c hc hstage
  refine ⟨m, hmark.trans hm, htoken, fun u hu => ?_⟩
  rcases authorAfter_eq_some hu with hold | ⟨env, fault, he, hlinks⟩
  · exact hfound u hold
  · exact absurd hstage (hkeep.links u env fault key c he hlinks hc)

/-- **Step.** -/
theorem marksKnown_step {p : Authored} (h : MarksKnown sha256 hitBias root p) {e : Event}
    (hkeep : p.KeepsOwn root e) :
    MarksKnown sha256 hitBias root (p.step sha256 hitBias root e) where
  sound := sysSound_step h.sound (spares_none p.sys e)
  confined := sysConfined_step h.confined e
  marks key c hc hstage := by
    change (sysStep sha256 hitBias root p.sys e).srv.index.claim key = some c at hc
    show ∃ m, p.markAfter e key = some m ∧ m.token = c.token ∧
      ∀ u, p.authorAfter sha256 hitBias root e key = some u → m.found = some u
    rcases message_step h.confined e with ⟨m, hm, hmsg, hsrv⟩ | ⟨hnone, -, hclaim⟩
    · rw [hsrv] at hc
      rcases marked_step hmsg hc hstage with ⟨hold, hno⟩ | ⟨token, path, heq, hsome, htoken⟩
      · refine h.kept hkeep hold hstage (markAfter_eq fun u env fault token path he hact => ?_)
        subst he
        simp only [Sys.message, hact, Option.some.injEq] at hm
        exact hno token path (by rw [← hm])
      · -- the accepted mark records who had linked the file
        obtain ⟨u, env, fault, rfl, hact⟩ := act_of_message hm (by rw [heq]; rfl)
        rw [heq] at hact
        have hmark : p.markAfter (.act u env fault) key = some ⟨u, token, p.author key⟩ := by
          simp only [Authored.markAfter, hact]
          exact if_pos ⟨trivial, hsome⟩
        refine ⟨_, hmark, htoken.symm, fun v hv => ?_⟩
        rcases authorAfter_eq_some hv with hold | ⟨_, _, he, hlinks⟩
        · exact hold
        · cases he
          simp [Sys.links, hact] at hlinks
    · rw [hclaim] at hc
      refine h.kept hkeep hc hstage (markAfter_eq fun u env fault token path he hact => ?_)
      subst he
      simp [Sys.message, hact] at hnone

/-- **Sources.** A step that keeps its own files makes no row available with the metadata of a
    superseded writer. -/
theorem sourced_step {p : Authored} (h : MarksKnown sha256 hitBias root p) {e : Event}
    (hkeep : p.KeepsOwn root e) : p.Sourced sha256 hitBias root e := by
  intro key entry hentry hav
  rcases message_step h.confined e with ⟨m, hm, hmsg, hsrv⟩ | ⟨-, hsame, -⟩
  · rw [hsrv] at hentry
    refine (entry_step hentry hav).imp_right fun hsource => ?_
    cases hsource with
    | announced token tier size header loc tokensBin textBytes heq htoken =>
      obtain ⟨u, env, fault, rfl, hact⟩ := act_of_message hm (by rw [heq]; rfl)
      rw [heq] at hact
      exact .announced u env fault token tier size header loc tokensBin textBytes rfl hact htoken
    | inserted tier size header loc tokensBin textBytes heq =>
      rw [heq] at hmsg
      rcases hmsg with h | h <;> cases h
    | adopted c entry hc hstage hclean hadopted =>
      obtain ⟨hpath, -⟩ := (h.sound.1 key).marked c hc hstage
      obtain ⟨mark, hmark, htoken, hfound⟩ := h.marks key c hc hstage
      refine .adopted c entry hc hpath hadopted fun u hu => ⟨mark, hmark, htoken, ?_⟩
      rcases hkeep.cleans m key c mark hm hclean hc hstage hmark with hno | hown
      · cases hno.symm.trans (hfound u hu)
      · exact Option.some.inj (hown.symm.trans (hfound u hu))
  · rw [hsame] at hentry
    exact Or.inl hentry

/-- Nobody links a reserved name that is free, and every mark was over the writer's own file. -/
def Authored.keeps (root : Path) (p : Authored) (e : Event) : Bool :=
  (match e with
    | .act u _ _ => p.sys.srv.reservations.entries.all fun r =>
        !(p.sys.links root u r.1 && decide (r.2.stage = .postLink))
    | _ => true) &&
  ((p.sys.message e).map fun m => (cleanedUp p.sys.srv m).all fun key =>
    ((p.mark key).map fun mark => mark.found.isNone || mark.found == some mark.writer).getD
      true).getD true

theorem Authored.keepsOwn_of_keeps {p : Authored} {e : Event} (h : p.keeps root e = true) :
    p.KeepsOwn root e := by
  unfold Authored.keeps at h
  rw [Bool.and_eq_true] at h
  refine ⟨fun u env fault key c he hlinks hc hstage => ?_,
    fun m key c mark hm hclean _ _ hmark => ?_⟩
  · subst he
    obtain ⟨r, hr, rfl⟩ := Option.map_eq_some_iff.mp hc
    have hall := List.all_eq_true.mp h.1 ⟨key, r⟩ (AList.mem_entries_iff.mpr hr)
    have hpost : r.stage = .postLink := hstage
    simp [hlinks, hpost] at hall
  · have hall := h.2
    rw [hm, Option.map_some, Option.getD_some] at hall
    have hone := List.all_eq_true.mp hall key hclean
    rw [hmark] at hone
    simpa using hone

/-- Writer 0 has passed the check when its reservation is swept; writer 1 saves the same text,
    tokenised otherwise, and marks its own file; writer 0 keeps that file, and is refused; writer
    1 dies, and a sweep adopts its file. -/
def ownFileRun : List Event :=
  let late : Int := 100000000000
  [.spawn (.save (sampleSave 7))] ++ List.replicate 5 (acts 0 0) ++
    [.server (sampleEnv late) 1 .sweep, .spawn (.save retokenisedSave)] ++
    List.replicate 11 (acts 1 late) ++ List.replicate 6 (acts 0 late) ++
    [.crash 1, .server (sampleEnv (3 * late)) 1 .sweep]

/-- The tokens of an available row. -/
def rowTokens (s : State) (key : CacheKey) : Option Bytes :=
  (s.metaTbl.lookup key).bind fun row => if row.status = .available then row.tokensRef else none

/-- Writer 0 has passed the check when its reservation is swept; writer 1 reserves and passes the
    check; writer 0 links its file; writer 1 finds it, keeps it, marks it and dies. -/
def supersededRun : List Event :=
  let late : Int := 100000000000
  [.spawn (.save (sampleSave 7))] ++ List.replicate 5 (acts 0 0) ++
    [.server (sampleEnv late) 1 .sweep, .spawn (.save retokenisedSave)] ++
    List.replicate 5 (acts 1 late) ++ [acts 0 late] ++ List.replicate 6 (acts 1 late) ++
    [.crash 1]

end Erllama.Publish
