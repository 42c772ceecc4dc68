import Erllama.Publish.System

namespace Erllama.Publish

open Lib MetaSrv Kvc

/-!
# The index and the directory agree

The invariant that ties the meta server's index to the directory: an available row names its
final file, a reservation that has been marked published names its final file, and every final
file was written by a save of its key.  For a set `K` of keys whose files no process deletes
while they parse, the named files also parse.

* `Whole` — the file is what a save of the key wrote, but for the hit count.
* `Sound` — the invariant.
* `Moved` — the invariant is kept, what was known about a token stays known, and only final
  files changed: what one step of the server does, and what sequences of steps do.
* `moved_moves`, `moved_reserve`, `moved_mark`, `moved_publish`, `moved_forget` — every step of
  the server.
-/

section

variable (sha256 : Bytes → Digest) (root : Path) (K : CacheKey → Prop)

/-- The file is what a save of the key wrote, but for the hit count. -/
def Whole (key : CacheKey) (bin : Bytes) : Prop :=
  ∃ (w : Save) (built : Bytes), w.key sha256 = key ∧
    build w.runtime w.buildMeta w.payload = .ok built ∧ SameButHits bin (built ++ w.payload)

/-- The invariant of the index and the files, for one key. -/
structure KeySound (i : Index) (key : CacheKey) : Prop where
  fresh : ∀ c, i.claim key = some c → c.token < i.nextRef
  claimed : ∀ c, i.claim key = some c → c.tier ≠ .ram ∧
    ∃ e, i.entry key = some e ∧ e.status = .writing
  marked : ∀ c, i.claim key = some c → c.stage = .postLink →
    c.path = some (finalPath root key) ∧ (K key → Valid sha256 root i.files key)
  located : ∀ e, i.entry key = some e → e.status = .available → e.tier ≠ .ram ∧
    e.location = locationFor e.tier (some (finalPath root key)) ∧
      (K key → Valid sha256 root i.files key)
  whole : ∀ bin, i.files (finalPath root key) = some bin →
    Whole sha256 key bin ∨ bin.length = 16

/-- The invariant of the index and the files. -/
def Sound (i : Index) : Prop := ∀ key, KeySound sha256 root K i key

/-- What was known about a token stays known: the token of a claim is not reissued, its claim
    does not go back to `pre_link`, and the key's file stays. -/
structure Evolves (i j : Index) : Prop where
  nextRef : i.nextRef ≤ j.nextRef
  claim : ∀ key c', j.claim key = some c' → c'.token < i.nextRef →
    ∃ c, i.claim key = some c ∧ c.token = c'.token ∧
      (c.stage = .postLink → c'.stage = .postLink) ∧
      (K key → Valid sha256 root i.files key → Valid sha256 root j.files key)

/-- A step that keeps the invariant and what is known, and changes final files only. -/
structure Moved (i j : Index) : Prop where
  sound : Sound sha256 root K j
  evolves : Evolves sha256 root K i j
  others : ∀ p, (∀ key, p ≠ finalPath root key) → j.files p = i.files p

end

variable {sha256 : Bytes → Digest} {root : Path} {K : CacheKey → Prop} {i j k : Index}

/-! ### Files with another hit count -/

/-- What a save builds. -/
theorem build_eq_builtFile {rt : Runtime} {m : BuildMeta} {payload built : Bytes}
    (h : build rt m payload = .ok built) :
    ∃ b, fingerprintModeByte m.fingerprintMode = some b ∧
      built ++ payload = builtFile rt m b payload := by
  cases hmode : fingerprintModeByte m.fingerprintMode with
  | none   =>
    have htlv : buildTlv rt m = none := by rw [buildTlv, hmode]; rfl
    simp only [build, htlv] at h
    cases h
  | some b =>
    obtain ⟨built', hbuild, -, hfile⟩ := build_eq rt payload hmode
    rw [hbuild] at h
    cases h
    exact ⟨b, rfl, hfile⟩

/-- A whole file is at least as long as its front. -/
theorem Whole.le_length {key : CacheKey} {bin : Bytes} (h : Whole sha256 key bin) :
    80 ≤ bin.length := by
  obtain ⟨w, built, -, hbuild, hsame⟩ := h
  obtain ⟨b, -, hfile⟩ := build_eq_builtFile hbuild
  rw [hsame.1, hfile, length_builtFile, builtOffset]
  omega

/-- Another hit count, as whole. -/
theorem Whole.of_sameButHits {key : CacheKey} {a b : Bytes} (h : Whole sha256 key b)
    (hab : SameButHits a b) : Whole sha256 key a := by
  obtain ⟨w, built, hkey, hbuild, hsame⟩ := h
  exact ⟨w, built, hkey, hbuild, hab.trans hsame⟩

/-- A whole file that parses still parses with another hit count. -/
theorem Whole.parse_sameButHits {key key' : CacheKey} {a b : Bytes} (h : Whole sha256 key b)
    (hab : SameButHits a b) {info : Info} {payload : Bytes}
    (hb : parse sha256 b key' = .ok (info, payload)) :
    ∃ hits, parse sha256 a key' = .ok (info.withHits hits, payload) := by
  obtain ⟨w, built, -, hbuild, hsame⟩ := h
  obtain ⟨mode, -, hfile⟩ := build_eq_builtFile hbuild
  have hsize := w.size_lt built hbuild
  rw [hfile] at hsize hsame
  exact parse_builtFile_sameButHits hsize hsame (hab.trans hsame) hb

/-- A file without a whole header parses under no key. -/
theorem parse_of_short {bin : Bytes} (h : bin.length < 48) {key : CacheKey} {info : Info}
    {payload : Bytes} (hb : parse sha256 bin key = .ok (info, payload)) : False := by
  have hle := le_length_of_parseMeta (parseMeta_of_parse hb).1
  omega

/-! ### Changing one file -/

variable (sha256) in
/-- Whether a file is valid is a matter of its bytes. -/
theorem valid_congr {files files' : Files} {key : CacheKey}
    (h : files' (finalPath root key) = files (finalPath root key)) :
    Valid sha256 root files' key ↔ Valid sha256 root files key := by
  simp only [Valid, h]

/-- The final files of other keys are not concerned. -/
theorem valid_update_of_ne {files : Files} {key key' : CacheKey} (hne : key' ≠ key)
    (content : Option Bytes) :
    Valid sha256 root (Function.update files (finalPath root key) content) key' ↔
      Valid sha256 root files key' :=
  valid_congr sha256 (Function.update_of_ne (fun h => hne (finalPath_inj.mp h)) _ _)

/-! ### Sequences -/

/-- Nothing happened. -/
theorem Evolves.refl (i : Index) : Evolves sha256 root K i i where
  nextRef := le_rfl
  claim _ c hc _ := ⟨c, hc, rfl, id, fun _ => id⟩

/-- One change after another. -/
theorem Evolves.trans (h : Evolves sha256 root K i j) (h' : Evolves sha256 root K j k) :
    Evolves sha256 root K i k where
  nextRef := h.nextRef.trans h'.nextRef
  claim key c'' hc'' hlt := by
    obtain ⟨c', hc', htok', hstage', hvalid'⟩ :=
      h'.claim key c'' hc'' (hlt.trans_le h.nextRef)
    obtain ⟨c, hc, htok, hstage, hvalid⟩ := h.claim key c' hc' (htok' ▸ hlt)
    exact ⟨c, hc, htok.trans htok', hstage' ∘ hstage, fun hk => hvalid' hk ∘ hvalid hk⟩

/-- Nothing happened. -/
theorem Moved.refl (h : Sound sha256 root K i) : Moved sha256 root K i i :=
  ⟨h, Evolves.refl i, fun _ _ => rfl⟩

/-- The same index. -/
theorem Moved.of_eq (h : Sound sha256 root K i) (heq : j = i) : Moved sha256 root K i j := by
  rw [heq]
  exact Moved.refl h

/-- One move after another. -/
theorem Moved.trans (h : Moved sha256 root K i j) (h' : Moved sha256 root K j k) :
    Moved sha256 root K i k :=
  ⟨h'.sound, h.evolves.trans h'.evolves, fun p hp => (h'.others p hp).trans (h.others p hp)⟩

/-- **One key at a time.** A step that concerns one key keeps the invariant if it keeps it
    for that key and what is known about the key's token. -/
theorem moved_of_key (h : Sound sha256 root K i) (key : CacheKey)
    (hnext : i.nextRef ≤ j.nextRef) (hentry : ∀ k, k ≠ key → j.entry k = i.entry k)
    (hclaim : ∀ k, k ≠ key → j.claim k = i.claim k)
    (hfiles : ∀ p, p ≠ finalPath root key → j.files p = i.files p)
    (hkey : KeySound sha256 root K j key)
    (hknown : ∀ c', j.claim key = some c' → c'.token < i.nextRef →
      ∃ c, i.claim key = some c ∧ c.token = c'.token ∧
        (c.stage = .postLink → c'.stage = .postLink) ∧
        (K key → Valid sha256 root i.files key → Valid sha256 root j.files key)) :
    Moved sha256 root K i j := by
  have hfinal : ∀ k, k ≠ key → j.files (finalPath root k) = i.files (finalPath root k) :=
    fun k hk => hfiles _ fun h => hk (finalPath_inj.mp h)
  refine ⟨fun k => ?_, ⟨hnext, fun k c' hc' hlt => ?_⟩, fun p hp => hfiles p (hp key)⟩
  · by_cases hk : k = key
    · exact hk ▸ hkey
    · obtain ⟨hfresh, hclaimed, hmarked, hlocated, hwhole⟩ := h k
      have hvalid := valid_congr sha256 (hfinal k hk)
      refine ⟨?_, ?_, ?_, ?_, ?_⟩
      · exact fun c hc => (hfresh c (hclaim k hk ▸ hc)).trans_le hnext
      · exact fun c hc => hentry k hk ▸ hclaimed c (hclaim k hk ▸ hc)
      · intro c hc hstage
        obtain ⟨hpath, hv⟩ := hmarked c (hclaim k hk ▸ hc) hstage
        exact ⟨hpath, fun hK => hvalid.mpr (hv hK)⟩
      · intro e he hav
        obtain ⟨htier, hloc, hv⟩ := hlocated e (hentry k hk ▸ he) hav
        exact ⟨htier, hloc, fun hK => hvalid.mpr (hv hK)⟩
      · exact fun bin hbin => hwhole bin (hfinal k hk ▸ hbin)
  · by_cases hk : k = key
    · subst hk
      exact hknown c' hc' hlt
    · exact ⟨c', hclaim k hk ▸ hc', rfl, id,
        fun _ => (valid_congr sha256 (hfinal k hk)).mpr⟩

/-! ### The calls of the save pipeline -/

/-- Forgetting a row. -/
theorem moved_forget (h : Sound sha256 root K i) (key : CacheKey) :
    Moved sha256 root K i (i.forget key) := by
  have hentry : (i.forget key).entry key = none := by simp [Index.forget]
  have hclaim : (i.forget key).claim key = none := by simp [Index.forget]
  refine moved_of_key h key le_rfl (fun k hk => by simp [Index.forget, hk])
    (fun k hk => by simp [Index.forget, hk]) (fun _ _ => rfl) ?_ fun c' hc' => ?_
  · refine ⟨?_, ?_, ?_, ?_, (h key).whole⟩ <;> simp [hentry, hclaim]
  · rw [hclaim] at hc'
    cases hc'

/-- The claim that `reserve` makes is new. -/
theorem moved_reserve (h : Sound sha256 root K i) (key : CacheKey) {tier : Tier}
    (htier : tier ≠ .ram) (pid : Pid) : Moved sha256 root K i (i.reserve key tier pid) := by
  have hentry : (i.reserve key tier pid).entry key =
      some ⟨.writing, tier, 0, [], .undefined, none, 0⟩ := by simp
  have hclaim : (i.reserve key tier pid).claim key =
      some ⟨pid, i.nextRef + 1, i.nextRef, .preLink, tier, none⟩ := by simp
  refine moved_of_key h key (Nat.le_add_right _ _) (fun k hk => by simp [hk])
    (fun k hk => by simp [hk]) (fun _ _ => rfl) ?_ fun c' hc' hlt => ?_
  · refine ⟨?_, ?_, ?_, ?_, (h key).whole⟩
    · intro c hc
      rw [hclaim] at hc
      cases hc
      exact Nat.lt_succ_self (i.nextRef + 1)
    · intro c hc
      rw [hclaim] at hc
      cases hc
      exact ⟨htier, _, hentry, rfl⟩
    · intro c hc hstage
      rw [hclaim] at hc
      cases hc
      cases hstage
    · intro e he hav
      rw [hentry] at he
      cases he
      cases hav
  · -- the token is not one that was handed out before
    rw [hclaim] at hc'
    cases hc'
    exact absurd hlt (Nat.not_lt.mpr (Nat.le_succ _))

/-- Marking a claim published: its final file has to be there. -/
theorem moved_mark (h : Sound sha256 root K i) {key : CacheKey} {c : Claim}
    (hc : i.claim key = some c) (hvalid : K key → Valid sha256 root i.files key) :
    Moved sha256 root K i (i.mark key c (finalPath root key)) := by
  have hclaim : (i.mark key c (finalPath root key)).claim key =
      some { c with stage := .postLink, path := some (finalPath root key) } := by
    simp [Index.mark]
  refine moved_of_key h key le_rfl (fun _ _ => rfl) (fun k hk => by simp [Index.mark, hk])
    (fun _ _ => rfl) ?_ fun c' hc' _ => ?_
  · refine ⟨?_, ?_, ?_, (h key).located, (h key).whole⟩
    · intro c' hc'
      rw [hclaim] at hc'
      cases hc'
      exact (h key).fresh c hc
    · intro c' hc'
      rw [hclaim] at hc'
      cases hc'
      exact (h key).claimed c hc
    · intro c' hc' _
      rw [hclaim] at hc'
      cases hc'
      exact ⟨rfl, hvalid⟩
  · rw [hclaim] at hc'
    cases hc'
    exact ⟨c, hc, rfl, fun _ => rfl, fun _ => id⟩

/-- Publishing a claim whose file is there. -/
theorem moved_publish (h : Sound sha256 root K i) {key : CacheKey} {c : Claim}
    (hc : i.claim key = some c) (hstage : c.stage = .postLink) (size : Nat) (header : Bytes)
    (tokensBin : Option Bytes) (textBytes : Nat) :
    Moved sha256 root K i
      (i.publish key c.tier c.path size header tokensBin textBytes) := by
  obtain ⟨hpath, hvalid⟩ := (h key).marked c hc hstage
  have hclaim : (i.publish key c.tier c.path size header tokensBin textBytes).claim key =
      none := by simp [Index.publish]
  have hentry : (i.publish key c.tier c.path size header tokensBin textBytes).entry key =
      some ⟨.available, c.tier, size, header, locationFor c.tier c.path, tokensBin,
        textBytes⟩ := by simp [Index.publish]
  refine moved_of_key h key le_rfl (fun k hk => by simp [Index.publish, hk])
    (fun k hk => by simp [Index.publish, hk]) (fun _ _ => rfl) ?_ fun c' hc' => ?_
  · refine ⟨?_, ?_, ?_, ?_, (h key).whole⟩
    · simp [hclaim]
    · simp [hclaim]
    · simp [hclaim]
    · intro e he _
      rw [hentry] at he
      cases he
      exact ⟨((h key).claimed c hc).1, by rw [hpath], hvalid⟩
  · rw [hclaim] at hc'
    cases hc'

/-! ### The moves beside the pipeline -/

/-- A deleted file leaves the others. -/
theorem files_unlink {env : Env} (i : Index) (p q : Path) (hq : q ≠ p) :
    (i.unlink env (some p)).files q = i.files q := by
  simp only [Index.unlink]
  split
  · rfl
  · exact Function.update_of_ne hq _ _

/-- After a deletion a file is whole, or it is not there. -/
theorem whole_unlink {env : Env} (h : Sound sha256 root K i) (key : CacheKey) {bin : Bytes}
    (hbin : (i.unlink env (some (finalPath root key))).files (finalPath root key) = some bin) :
    Whole sha256 key bin ∨ bin.length = 16 := by
  simp only [Index.unlink] at hbin
  split at hbin
  · exact (h key).whole bin hbin
  · rw [Function.update_self] at hbin
    cases hbin

/-- The final file of a key leaves together with the key. -/
theorem moved_unlink_forget {env : Env} (h : Sound sha256 root K i) (key : CacheKey) :
    Moved sha256 root K i ((i.unlink env (some (finalPath root key))).forget key) := by
  have hentry : ((i.unlink env (some (finalPath root key))).forget key).entry key = none := by
    simp [Index.forget]
  have hclaim : ((i.unlink env (some (finalPath root key))).forget key).claim key = none := by
    simp [Index.forget]
  refine moved_of_key h key ?_ (fun k hk => by simp [Index.forget, hk])
    (fun k hk => by simp [Index.forget, hk]) (fun p hp => files_unlink i _ p hp) ?_
    fun c' hc' => ?_
  · exact (Index.nextRef_unlink env i (some (finalPath root key))).ge
  · refine ⟨?_, ?_, ?_, ?_, fun bin hbin => whole_unlink h key hbin⟩ <;> simp [hentry, hclaim]
  · rw [hclaim] at hc'
    cases hc'

/-- A cleanup: the key is forgotten, with its file if that does not parse, or adopted. -/
theorem moved_cleanup {d : Deps} {env : Env} (h : Sound sha256 root K i)
    {key : CacheKey} {c : Claim} (hc : i.claim key = some c) :
    Moved sha256 root K i (i.cleanup key d env c) := by
  unfold Index.cleanup
  cases hstage : c.stage with
  | preLink  => exact moved_forget h key
  | postLink =>
    obtain ⟨hpath, -⟩ := (h key).marked c hc hstage
    dsimp only
    cases hval : i.validate key d env c.path with
    | some a => exact moved_publish h hc hstage _ _ _ _
    | none   =>
      dsimp only
      rw [hpath]
      exact moved_unlink_forget h key

/-- An eviction: the available key leaves with its file. -/
theorem moved_evict {env : Env} (h : Sound sha256 root K i) {key : CacheKey} {e : Entry}
    (he : i.entry key = some e) (hav : e.status = .available) :
    Moved sha256 root K i ((i.deletePayload env e.tier e.location).setEntry key none) := by
  obtain ⟨htier, hloc, -⟩ := (h key).located e he hav
  have hclaim : i.claim key = none := by
    by_contra hne
    obtain ⟨c, hc⟩ := Option.ne_none_iff_exists'.mp hne
    obtain ⟨-, e', he', hwriting⟩ := (h key).claimed c hc
    rw [he] at he'
    cases he'
    rw [hav] at hwriting
    cases hwriting
  have hpayload : i.deletePayload env e.tier e.location =
      i.unlink env (some (finalPath root key)) := by
    rw [hloc]
    cases ht : e.tier with
    | ram     => exact absurd ht htier
    | disk    => rfl
    | ramFile => rfl
  have hforget : (i.deletePayload env e.tier e.location).setEntry key none =
      (i.unlink env (some (finalPath root key))).forget key := by
    rw [hpayload]
    refine Index.ext rfl ?_ rfl rfl
    funext k
    by_cases hk : k = key
    · subst hk
      simp [Index.forget, hclaim]
    · simp [Index.forget, hk]
  rw [hforget]
  exact moved_unlink_forget h key

variable (root) in
/-- Rewriting the hit count at a row's location changes the key's final file, if anything. -/
theorem files_touch (env : Env) (i : Index) {tier : Tier} (htier : tier ≠ .ram)
    (key : CacheKey) (hits : Nat) :
    (i.touch env (locationFor tier (some (finalPath root key))) hits).files = i.files ∨
      (i.touch env (locationFor tier (some (finalPath root key))) hits).files =
        Function.update i.files (finalPath root key)
          (some (writeAt 12 (u32le hits) ((i.files (finalPath root key)).getD []))) := by
  cases tier with
  | ram => exact absurd rfl htier
  | disk | ramFile =>
    simp only [locationFor, Index.touch]
    split
    · exact Or.inl rfl
    · exact Or.inr rfl

/-- A final file with its hit count rewritten is as whole as it was. -/
theorem whole_writeAt {key : CacheKey} {bin : Bytes} (hits : Nat)
    (h : Whole sha256 key bin ∨ bin.length = 16) :
    Whole sha256 key (writeAt 12 (u32le hits) bin) ∨
      (writeAt 12 (u32le hits) bin).length = 16 := by
  rcases h with hw | hshort
  · have hlen := hw.le_length
    exact Or.inl (hw.of_sameButHits (sameButHits_writeAt (by omega) hits))
  · exact Or.inr (length_writeAt_of_short hshort.le hits)

/-- Whether a final file parses does not depend on its hit count. -/
theorem valid_touch (env : Env) (h : Sound sha256 root K i) {tier : Tier} (htier : tier ≠ .ram)
    (key key' : CacheKey) (hits : Nat) :
    Valid sha256 root
        (i.touch env (locationFor tier (some (finalPath root key))) hits).files key' ↔
      Valid sha256 root i.files key' := by
  rcases files_touch root env i htier key hits with hf | hf
  · rw [hf]
  rw [hf]
  by_cases hk : key' = key
  · subst hk
    cases hfile : i.files (finalPath root key') with
    | none =>
      -- a file that is created by the rewrite has no header
      constructor
      · rintro ⟨bin, info, payload, hbin, hparse⟩
        rw [Function.update_self] at hbin
        cases hbin
        have hnil : ([] : Bytes).length ≤ 16 := by simp
        have hshort := length_writeAt_of_short hnil hits
        exact absurd hparse fun hp => parse_of_short (by simp only [Option.getD_none]; omega) hp
      · rintro ⟨bin, info, payload, hbin, hparse⟩
        rw [hfile] at hbin
        cases hbin
    | some bin =>
      rcases (h key').whole bin hfile with hw | hshort
      · have hlen := hw.le_length
        have hlong : 16 ≤ bin.length := by omega
        have hsame := sameButHits_writeAt hlong hits
        constructor
        · rintro ⟨bin', info, payload, hbin', hparse⟩
          rw [Function.update_self] at hbin'
          cases hbin'
          obtain ⟨hits', hparse'⟩ :=
            (hw.of_sameButHits hsame).parse_sameButHits hsame.symm hparse
          exact ⟨bin, _, _, hfile, hparse'⟩
        · rintro ⟨bin', info, payload, hbin', hparse⟩
          rw [hfile] at hbin'
          cases hbin'
          obtain ⟨hits', hparse'⟩ := hw.parse_sameButHits hsame hparse
          exact ⟨_, _, _, Function.update_self .., hparse'⟩
      · constructor
        · rintro ⟨bin', info, payload, hbin', hparse⟩
          rw [Function.update_self] at hbin'
          cases hbin'
          have hshort' := length_writeAt_of_short hshort.le hits
          exact absurd hparse fun hp =>
            parse_of_short (by simp only [Option.getD_some]; omega) hp
        · rintro ⟨bin', info, payload, hbin', hparse⟩
          rw [hfile] at hbin'
          cases hbin'
          exact absurd hparse fun hp => parse_of_short (by omega) hp
  · exact valid_update_of_ne hk _

/-- A hit count is rewritten in the key's final file. -/
theorem moved_touch {env : Env} (h : Sound sha256 root K i) {key : CacheKey} {e : Entry}
    (he : i.entry key = some e) (hav : e.status = .available) (hits : Nat) {n : Ref}
    (hn : i.nextRef ≤ n) :
    Moved sha256 root K i { i.touch env e.location hits with nextRef := n } := by
  obtain ⟨htier, hloc, hvalid⟩ := (h key).located e he hav
  rw [hloc]
  obtain ⟨hentry, hclaim, -⟩ := Index.touch_frame env i
    (locationFor e.tier (some (finalPath root key))) hits
  have hfiles := files_touch root env i htier key hits
  have hkeep := (valid_touch env h htier key key hits).mpr
  refine moved_of_key h key hn (fun k _ => congrFun hentry k) (fun k _ => congrFun hclaim k)
    (fun p hp => ?_) ?_ fun c' hc' _ => ?_
  · rcases hfiles with hf | hf
    · exact congrFun hf p
    · exact (congrFun hf p).trans (Function.update_of_ne hp _ _)
  · refine ⟨?_, ?_, ?_, ?_, ?_⟩
    · exact fun c hc => ((h key).fresh c (congrFun hclaim key ▸ hc)).trans_le hn
    · intro c hc
      obtain ⟨htier', e', he', hw⟩ := (h key).claimed c (congrFun hclaim key ▸ hc)
      exact ⟨htier', e', (congrFun hentry key).trans he', hw⟩
    · intro c hc hstage
      obtain ⟨hpath, hv⟩ := (h key).marked c (congrFun hclaim key ▸ hc) hstage
      exact ⟨hpath, fun hK => hkeep (hv hK)⟩
    · intro e' he' hav'
      obtain ⟨htier', hloc', hv⟩ := (h key).located e' (congrFun hentry key ▸ he') hav'
      exact ⟨htier', hloc', fun hK => hkeep (hv hK)⟩
    · intro bin hbin
      replace hbin : (i.touch env (locationFor e.tier (some (finalPath root key))) hits).files
        (finalPath root key) = some bin := hbin
      rcases hfiles with hf | hf
      · exact (h key).whole bin (hf ▸ hbin)
      · rw [hf, Function.update_self] at hbin
        cases hbin
        cases hold : i.files (finalPath root key) with
        | some old => exact whole_writeAt hits ((h key).whole old hold)
        | none     => exact Or.inr (length_writeAt_of_short (by simp) hits)
  · exact ⟨c', (congrFun hclaim key).symm.trans hc', rfl, id, fun _ => hkeep⟩

/-- Anything the server does beside the calls of the save pipeline. -/
theorem moved_moves {d : Deps} {env : Env} {D : CacheKey → Prop} (h : Sound sha256 root K i)
    (hmoves : Index.Moves d env D i j) : Moved sha256 root K i j := by
  induction hmoves with
  | refl => exact Moved.refl h
  | tail _ hmove ih =>
    refine ih.trans ?_
    cases hmove with
    | tick n hn =>
      have hkey := fun key => ih.sound key
      refine ⟨fun key => ?_, ⟨hn, fun key c' hc' _ => ⟨c', hc', rfl, id, fun _ => id⟩⟩,
        fun _ _ => rfl⟩
      exact ⟨fun c hc => ((hkey key).fresh c hc).trans_le hn, (hkey key).claimed,
        (hkey key).marked, (hkey key).located, (hkey key).whole⟩
    | touch key e hits n he hav hn => exact moved_touch ih.sound he hav hits hn
    | cleanup key c hc _           => exact moved_cleanup ih.sound hc
    | evict key e he hav           => exact moved_evict ih.sound he hav

end Erllama.Publish
