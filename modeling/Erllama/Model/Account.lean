import Erllama.Model.Notices
import Mathlib.Data.Multiset.Count
import Mathlib.Data.Multiset.Filter
import Mathlib.Data.Multiset.MapFold

namespace Erllama.Model

/-!
# The account of a process with its callers

A call is owed one answer.  The answer of a streaming call opens a stream, which is registered
in the inflight table and ends with one final event.

* `Account` — the calls that wait for their answer, the open streams, and what was sent.
* `Account.Step` — answer, open, notify, close.
* `Account.Sound` — every call has one answer or still waits for it, and what was sent about a
  reference is a conversation that ended iff its stream is no longer open.
* `Account.Steps.sound` — the steps keep the account sound.
-/

/-- The kinds of call, by what answers them. -/
inductive CallKind where
  | completion | prefill | stream | control
deriving DecidableEq

/-- The reply ends a call of this kind.  A streaming call is ended by an error only; its other
    answer opens a stream. -/
def Reply.fits : CallKind → Reply → Bool
  | .completion, .completion _ => true
  | .prefill, .prefilled _     => true
  | .completion, .error _      => true
  | .prefill, .error _         => true
  | .stream, .error _          => true
  | .control, .completion _    => false
  | .control, .prefilled _     => false
  | .control, .started _       => false
  | .control, _                => true
  | _, _                       => false

/-- The reply answers a call of this kind. -/
def Reply.Answers (k : CallKind) (rep : Reply) : Prop :=
  rep.fits k = true ∨ k = .stream ∧ ∃ ref, rep = .started ref

/-! ### What is sent about a reference -/

/-- The message answers the caller. -/
def Out.isReplyTo (frm : From) : Out → Bool
  | .reply f _    => f = frm
  | .send _ _ _   => false
  | .register _   => false
  | .unregister _ => false

/-- The message is about the reference. -/
def Out.isAbout (ref : Ref) : Out → Bool
  | .reply _ (.started r) => r = ref
  | .reply _ _            => false
  | .send _ r _           => r = ref
  | .register r           => r = ref
  | .unregister r         => r = ref

/-- What was sent about a reference, in order. -/
def transcript (ref : Ref) (out : List Out) : List Out := out.filter (Out.isAbout ref)

/-- The references in the inflight table after these messages. -/
def registered (out : List Out) : List Ref :=
  out.foldl (fun refs o =>
    match o with
    | .register ref   => ref :: refs
    | .unregister ref => refs.filter (· ≠ ref)
    | .reply _ _      => refs
    | .send _ _ _     => refs) []

/-- A conversation that goes on: registered, announced to its caller, and some events. -/
def Ongoing (pid : Pid) (ref : Ref) (l : List Out) : Prop :=
  ∃ (f : From) (evs : List StreamEvent), (∀ ev ∈ evs, ev.isFinal = false) ∧
    l = .register ref :: .reply f (.started ref) :: evs.map (.send pid ref)

/-- A conversation that ended: the same, then unregistered, and one final event. -/
def Ended (pid : Pid) (ref : Ref) (l : List Out) : Prop :=
  ∃ (f : From) (evs : List StreamEvent) (last : StreamEvent),
    (∀ ev ∈ evs, ev.isFinal = false) ∧ last.isFinal = true ∧
    l = .register ref :: .reply f (.started ref) ::
      (evs.map (.send pid ref) ++ [.unregister ref, .send pid ref last])

/-! ### The account -/

/-- The calls that are owed an answer, the open streams, what was sent, and the references
    made so far. -/
structure Account where
  owed : Multiset (From × CallKind)
  live : Multiset (Pid × Ref)
  out : List Out
  nextRef : Ref

/-- A call arrives. -/
def Account.ask (a : Account) (due : From × CallKind) : Account :=
  { a with owed := due ::ₘ a.owed }

/-- What the process says to its callers. -/
inductive Account.Step : Account → Account → Prop
  | answer {a : Account} {f k owed} (h : a.owed = (f, k) ::ₘ owed) (rep : Reply)
      (hfits : rep.fits k = true) :
    Step a { a with owed := owed, out := a.out ++ [.reply f rep] }
  | opens {a : Account} {f owed} (h : a.owed = (f, .stream) ::ₘ owed) (pid : Pid) :
    Step a
      { owed := owed
        live := (pid, a.nextRef) ::ₘ a.live
        out := a.out ++ [.register a.nextRef, .reply f (.started a.nextRef)]
        nextRef := a.nextRef + 1 }
  | notify {a : Account} {pid ref} (h : (pid, ref) ∈ a.live) (ev : StreamEvent)
      (hev : ev.isFinal = false) : Step a { a with out := a.out ++ [.send pid ref ev] }
  | close {a : Account} {pid ref live} (h : a.live = (pid, ref) ::ₘ live) (ev : StreamEvent)
      (hev : ev.isFinal = true) :
    Step a { a with live := live, out := a.out ++ [.unregister ref, .send pid ref ev] }

/-- Any number of steps. -/
abbrev Account.Steps : Account → Account → Prop := Relation.ReflTransGen Account.Step

/-- The account is in order, after these calls. -/
structure Account.Sound (asked : Multiset (From × CallKind)) (a : Account) : Prop where
  answered : ∀ f, a.out.countP (Out.isReplyTo f) + (a.owed.map Prod.fst).count f
    = (asked.map Prod.fst).count f
  fits : ∀ f rep, Out.reply f rep ∈ a.out → ∃ k, (f, k) ∈ asked ∧ rep.Answers k
  owed_asked : ∀ due ∈ a.owed, due ∈ asked
  live_lt : ∀ p ∈ a.live, p.2 < a.nextRef
  live_nodup : (a.live.map Prod.snd).Nodup
  ongoing : ∀ pid ref, (pid, ref) ∈ a.live → Ongoing pid ref (transcript ref a.out)
  ended : ∀ ref < a.nextRef, (∀ pid, (pid, ref) ∉ a.live) →
    ∃ pid, Ended pid ref (transcript ref a.out)
  fresh : ∀ ref, a.nextRef ≤ ref → transcript ref a.out = []
  registered : ∀ ref, ref ∈ registered a.out ↔ ∃ pid, (pid, ref) ∈ a.live

/-! ### Transcripts and registrations after a message -/

/-- The transcript of two lists of messages. -/
theorem transcript_append (ref : Ref) (l l' : List Out) :
    transcript ref (l ++ l') = transcript ref l ++ transcript ref l' :=
  List.filter_append ..

/-- Messages about other references do not show. -/
theorem transcript_append_of_not {ref : Ref} {l l' : List Out}
    (h : ∀ o ∈ l', o.isAbout ref = false) : transcript ref (l ++ l') = transcript ref l := by
  have hnil : transcript ref l' = [] :=
    List.filter_eq_nil_iff.mpr fun o ho => by rw [h o ho]; exact nofun
  rw [transcript_append, hnil, List.append_nil]

/-- Messages about the reference show in full. -/
theorem transcript_append_of_all {ref : Ref} {l l' : List Out}
    (h : ∀ o ∈ l', o.isAbout ref = true) : transcript ref (l ++ l') = transcript ref l ++ l' := by
  have hall : transcript ref l' = l' := List.filter_eq_self.mpr h
  rw [transcript_append, hall]

/-- The references registered by two lists. -/
theorem registered_append (l l' : List Out) :
    registered (l ++ l') = l'.foldl (fun refs o =>
      match o with
      | .register ref   => ref :: refs
      | .unregister ref => refs.filter (· ≠ ref)
      | .reply _ _      => refs
      | .send _ _ _     => refs) (registered l) :=
  List.foldl_append

/-- A reply that ends a call announces no stream. -/
theorem isAbout_of_fits {k : CallKind} {rep : Reply} (h : rep.fits k = true) (f : From)
    (ref : Ref) : (Out.reply f rep).isAbout ref = false := by
  cases rep with
  | started r => cases k <;> exact nomatch h
  | _ => rfl

/-- A stream is one person's. -/
theorem Account.Sound.live_unique {asked : Multiset (From × CallKind)} {a : Account}
    {live : Multiset (Pid × Ref)} {pid : Pid} {ref : Ref} (ha : a.Sound asked)
    (h : a.live = (pid, ref) ::ₘ live) (pid' : Pid) : (pid', ref) ∉ live := by
  have hnodup := ha.live_nodup
  rw [h, Multiset.map_cons, Multiset.nodup_cons] at hnodup
  exact fun hmem => hnodup.1 (Multiset.mem_map.mpr ⟨(pid', ref), hmem, rfl⟩)

/-! ### The steps keep the account sound -/

variable {asked : Multiset (From × CallKind)} {a a' : Account}

/-- A caller that is owed is answered. -/
theorem Account.Sound.answer (ha : a.Sound asked) {f : From} {k : CallKind}
    {owed : Multiset (From × CallKind)} (h : a.owed = (f, k) ::ₘ owed) {rep : Reply}
    (hfits : rep.fits k = true) :
    Account.Sound asked { a with owed := owed, out := a.out ++ [.reply f rep] } := by
  have hshow : ∀ ref, transcript ref (a.out ++ [.reply f rep]) = transcript ref a.out := by
    intro ref
    refine transcript_append_of_not fun o ho => ?_
    rw [List.mem_singleton.mp ho]
    exact isAbout_of_fits hfits f ref
  constructor
  case answered =>
    intro g
    have hold := ha.answered g
    rw [h, Multiset.map_cons, Multiset.count_cons] at hold
    rw [List.countP_append, ← hold]
    by_cases hg : g = f
    · simp [Out.isReplyTo, hg]
      omega
    · simp [Out.isReplyTo, hg, Ne.symm hg]
  case fits =>
    intro g rep' hmem
    rcases List.mem_append.mp hmem with hold | hnew
    · exact ha.fits g rep' hold
    · cases List.mem_singleton.mp hnew
      exact ⟨k, ha.owed_asked _ (h ▸ Multiset.mem_cons_self _ _), .inl hfits⟩
  case owed_asked => exact fun due hdue => ha.owed_asked due (h ▸ Multiset.mem_cons_of_mem hdue)
  case live_lt => exact ha.live_lt
  case live_nodup => exact ha.live_nodup
  case ongoing => exact fun pid ref hlive => hshow ref ▸ ha.ongoing pid ref hlive
  case ended => exact fun ref hlt hdead => hshow ref ▸ ha.ended ref hlt hdead
  case fresh => exact fun ref hle => (hshow ref).trans (ha.fresh ref hle)
  case registered =>
    intro ref
    rw [registered_append]
    exact ha.registered ref

/-- A caller that is owed a stream gets one. -/
theorem Account.Sound.opens (ha : a.Sound asked) {f : From}
    {owed : Multiset (From × CallKind)} (h : a.owed = (f, .stream) ::ₘ owed) (pid : Pid) :
    Account.Sound asked
      { owed := owed
        live := (pid, a.nextRef) ::ₘ a.live
        out := a.out ++ [.register a.nextRef, .reply f (.started a.nextRef)]
        nextRef := a.nextRef + 1 } := by
  have hother : ∀ ref, ref ≠ a.nextRef →
      transcript ref (a.out ++ [.register a.nextRef, .reply f (.started a.nextRef)])
        = transcript ref a.out := by
    intro ref hne
    refine transcript_append_of_not fun o ho => ?_
    rcases List.mem_pair.mp ho with rfl | rfl <;> exact decide_eq_false (Ne.symm hne)
  have hself : transcript a.nextRef
      (a.out ++ [.register a.nextRef, .reply f (.started a.nextRef)])
        = [.register a.nextRef, .reply f (.started a.nextRef)] := by
    rw [transcript_append_of_all, ha.fresh _ (Nat.le_refl _), List.nil_append]
    intro o ho
    rcases List.mem_pair.mp ho with rfl | rfl <;> exact decide_eq_true rfl
  -- No open stream has the new reference.
  have hfree : ∀ pid', (pid', a.nextRef) ∉ a.live := fun pid' hmem =>
    absurd (ha.live_lt _ hmem) (Nat.lt_irrefl _)
  constructor
  -- The one reply is the one that was owed.
  case answered =>
    intro g
    have hold := ha.answered g
    rw [h, Multiset.map_cons, Multiset.count_cons] at hold
    rw [List.countP_append, ← hold]
    by_cases hg : g = f
    · simp [Out.isReplyTo, hg]
      omega
    · simp [Out.isReplyTo, hg, Ne.symm hg]
  case fits =>
    intro g rep' hmem
    rcases List.mem_append.mp hmem with hold | hnew
    · exact ha.fits g rep' hold
    · rcases List.mem_pair.mp hnew with heq | heq
      · exact nomatch heq
      · cases heq
        exact ⟨.stream, ha.owed_asked _ (h ▸ Multiset.mem_cons_self _ _), .inr ⟨rfl, _, rfl⟩⟩
  case owed_asked => exact fun due hdue => ha.owed_asked due (h ▸ Multiset.mem_cons_of_mem hdue)
  case live_lt =>
    intro p hp
    rcases Multiset.mem_cons.mp hp with rfl | hold
    · exact Nat.lt_succ_self _
    · exact Nat.lt_succ_of_lt (ha.live_lt p hold)
  -- The new reference is on no other stream.
  case live_nodup =>
    rw [Multiset.map_cons, Multiset.nodup_cons]
    refine ⟨fun hmem => ?_, ha.live_nodup⟩
    obtain ⟨⟨pid', ref⟩, hp, rfl⟩ := Multiset.mem_map.mp hmem
    exact hfree pid' hp
  -- The new stream has said nothing yet, and the others are as they were.
  case ongoing =>
    intro pid' ref hlive
    rcases Multiset.mem_cons.mp hlive with heq | hold
    · cases heq
      rw [hself]
      exact ⟨f, [], List.forall_mem_nil _, rfl⟩
    · have hne : ref ≠ a.nextRef := Nat.ne_of_lt (ha.live_lt _ hold)
      rw [hother ref hne]
      exact ha.ongoing pid' ref hold
  case ended =>
    intro ref hlt hdead
    have hne : ref ≠ a.nextRef := by
      rintro rfl
      exact hdead pid (Multiset.mem_cons_self _ _)
    have hlt' : ref < a.nextRef := by
      have hlt : ref < a.nextRef + 1 := hlt
      unfold Ref at *
      omega
    rw [hother ref hne]
    exact ha.ended ref hlt' fun pid' hmem => hdead pid' (Multiset.mem_cons_of_mem hmem)
  case fresh =>
    intro ref hle
    have hlt : a.nextRef < ref := hle
    rw [hother ref (Nat.ne_of_gt hlt)]
    exact ha.fresh ref (Nat.le_of_lt hlt)
  -- Registered are the live ones, and the new one is.
  case registered =>
    intro ref
    rw [registered_append]
    show ref ∈ a.nextRef :: Model.registered a.out ↔ _
    rw [List.mem_cons, ha.registered ref]
    simp only [Multiset.mem_cons, Prod.mk.injEq]
    constructor
    · rintro (rfl | ⟨pid', hold⟩)
      · exact ⟨pid, .inl ⟨rfl, rfl⟩⟩
      · exact ⟨pid', .inr hold⟩
    · rintro ⟨pid', ⟨-, rfl⟩ | hold⟩
      · exact .inl rfl
      · exact .inr ⟨pid', hold⟩

/-- A live stream gets a notice. -/
theorem Account.Sound.notify (ha : a.Sound asked) {pid : Pid} {ref : Ref}
    (h : (pid, ref) ∈ a.live) {ev : StreamEvent} (hev : ev.isFinal = false) :
    Account.Sound asked { a with out := a.out ++ [.send pid ref ev] } := by
  -- The event is on the transcript of its own stream only.
  have hother : ∀ ref', ref' ≠ ref →
      transcript ref' (a.out ++ [.send pid ref ev]) = transcript ref' a.out := by
    intro ref' hne
    refine transcript_append_of_not fun o ho => ?_
    rw [List.mem_singleton.mp ho]
    exact decide_eq_false (Ne.symm hne)
  have hself : transcript ref (a.out ++ [.send pid ref ev])
      = transcript ref a.out ++ [.send pid ref ev] := by
    refine transcript_append_of_all fun o ho => ?_
    rw [List.mem_singleton.mp ho]
    exact decide_eq_true rfl
  constructor
  case answered =>
    intro g
    rw [← ha.answered g, List.countP_append]
    rfl
  case fits =>
    intro g rep hmem
    rcases List.mem_append.mp hmem with hold | hnew
    · exact ha.fits g rep hold
    · cases List.mem_singleton.mp hnew
  case owed_asked => exact ha.owed_asked
  case live_lt => exact ha.live_lt
  case live_nodup => exact ha.live_nodup
  case ongoing =>
    intro pid' ref' hlive
    by_cases hne : ref' = ref
    · subst hne
      -- A reference has one stream, so the event goes where the others went.
      obtain ⟨live, hsplit⟩ := Multiset.exists_cons_of_mem h
      have hpid : pid' = pid := by
        rw [hsplit] at hlive
        rcases Multiset.mem_cons.mp hlive with heq | hmem
        · exact congrArg Prod.fst heq
        · exact absurd hmem (ha.live_unique hsplit pid')
      subst hpid
      obtain ⟨f, evs, hevs, hl⟩ := ha.ongoing pid' ref' h
      refine ⟨f, evs ++ [ev], ?_, ?_⟩
      · intro ev' hmem
        rcases List.mem_append.mp hmem with hold | hnew
        · exact hevs ev' hold
        · rw [List.mem_singleton.mp hnew]
          exact hev
      · rw [hself, hl, List.map_append]
        rfl
    · rw [hother ref' hne]
      exact ha.ongoing pid' ref' hlive
  case ended =>
    intro ref' hlt hdead
    -- an ended stream is sent nothing
    have hne : ref' ≠ ref := by
      rintro rfl
      exact hdead pid h
    rw [hother ref' hne]
    exact ha.ended ref' hlt hdead
  case fresh =>
    intro ref' hle
    have hne : ref' ≠ ref := Nat.ne_of_gt (Nat.lt_of_lt_of_le (ha.live_lt _ h) hle)
    rw [hother ref' hne]
    exact ha.fresh ref' hle
  case registered =>
    intro ref'
    rw [registered_append]
    exact ha.registered ref'

/-- A live stream is closed. -/
theorem Account.Sound.close (ha : a.Sound asked) {pid : Pid} {ref : Ref}
    {live : Multiset (Pid × Ref)} (h : a.live = (pid, ref) ::ₘ live) {ev : StreamEvent}
    (hev : ev.isFinal = true) :
    Account.Sound asked
      { a with live := live, out := a.out ++ [.unregister ref, .send pid ref ev] } := by
  have hother : ∀ ref', ref' ≠ ref →
      transcript ref' (a.out ++ [.unregister ref, .send pid ref ev])
        = transcript ref' a.out := by
    intro ref' hne
    refine transcript_append_of_not fun o ho => ?_
    rcases List.mem_pair.mp ho with rfl | rfl <;> exact decide_eq_false (Ne.symm hne)
  have hself : transcript ref (a.out ++ [.unregister ref, .send pid ref ev])
      = transcript ref a.out ++ [.unregister ref, .send pid ref ev] := by
    refine transcript_append_of_all fun o ho => ?_
    rcases List.mem_pair.mp ho with rfl | rfl <;> exact decide_eq_true rfl
  have hmem : (pid, ref) ∈ a.live := h ▸ Multiset.mem_cons_self _ _
  have hgone := ha.live_unique h
  have hkeep : ∀ p ∈ live, p ∈ a.live := fun p hp => h ▸ Multiset.mem_cons_of_mem hp
  constructor
  case answered =>
    intro g
    rw [← ha.answered g, List.countP_append]
    rfl
  case fits =>
    intro g rep hout
    rcases List.mem_append.mp hout with hold | hnew
    · exact ha.fits g rep hold
    · rcases List.mem_pair.mp hnew with heq | heq <;> exact nomatch heq
  case owed_asked => exact ha.owed_asked
  case live_lt => exact fun p hp => ha.live_lt p (hkeep p hp)
  case live_nodup =>
    have hnodup := ha.live_nodup
    rw [h, Multiset.map_cons, Multiset.nodup_cons] at hnodup
    exact hnodup.2
  case ongoing =>
    intro pid' ref' hlive
    have hne : ref' ≠ ref := by
      rintro rfl
      exact hgone pid' hlive
    rw [hother ref' hne]
    exact ha.ongoing pid' ref' (hkeep _ hlive)
  case ended =>
    intro ref' hlt hdead
    by_cases hne : ref' = ref
    · subst hne
      obtain ⟨f, evs, hevs, hl⟩ := ha.ongoing pid ref' hmem
      refine ⟨pid, f, evs, ev, hevs, hev, ?_⟩
      rw [hself, hl]
      rfl
    · rw [hother ref' hne]
      refine ha.ended ref' hlt fun pid' hlive => ?_
      rw [h] at hlive
      rcases Multiset.mem_cons.mp hlive with heq | hold
      · exact hne (congrArg Prod.snd heq)
      · exact hdead pid' hold
  case fresh =>
    intro ref' hle
    have hne : ref' ≠ ref := Nat.ne_of_gt (Nat.lt_of_lt_of_le (ha.live_lt _ hmem) hle)
    rw [hother ref' hne]
    exact ha.fresh ref' hle
  case registered =>
    intro ref'
    rw [registered_append]
    show ref' ∈ (Model.registered a.out).filter (· ≠ ref) ↔ _
    rw [List.mem_filter, ha.registered ref', h]
    simp only [Multiset.mem_cons, Prod.mk.injEq, ne_eq, decide_not, Bool.not_eq_true',
      decide_eq_false_iff_not]
    constructor
    · rintro ⟨⟨pid', ⟨-, rfl⟩ | hold⟩, hne⟩
      · exact absurd rfl hne
      · exact ⟨pid', hold⟩
    · rintro ⟨pid', hold⟩
      refine ⟨⟨pid', .inr hold⟩, ?_⟩
      rintro rfl
      exact hgone pid' hold

/-- **The steps keep the account sound.** -/
theorem Account.Steps.sound (h : Account.Steps a a') (ha : a.Sound asked) : a'.Sound asked := by
  induction h with
  | refl => exact ha
  | tail _ hstep ih =>
    cases hstep with
    | answer h rep hfits => exact ih.answer h hfits
    | opens h pid => exact ih.opens h pid
    | notify h ev hev => exact ih.notify h hev
    | close h ev hev => exact ih.close h hev

/-- A call that arrives is owed an answer. -/
theorem Account.Sound.ask (ha : a.Sound asked) (due : From × CallKind) :
    (a.ask due).Sound (due ::ₘ asked) where
  answered := by
    intro f
    have hold := ha.answered f
    show a.out.countP (Out.isReplyTo f) + ((due ::ₘ a.owed).map Prod.fst).count f = _
    rw [Multiset.map_cons, Multiset.map_cons, Multiset.count_cons, Multiset.count_cons]
    omega
  fits := fun f rep hmem => by
    obtain ⟨k, hk, hans⟩ := ha.fits f rep hmem
    exact ⟨k, Multiset.mem_cons_of_mem hk, hans⟩
  owed_asked := by
    intro d hd
    rcases Multiset.mem_cons.mp hd with rfl | hold
    · exact Multiset.mem_cons_self _ _
    · exact Multiset.mem_cons_of_mem (ha.owed_asked d hold)
  live_lt := ha.live_lt
  live_nodup := ha.live_nodup
  ongoing := ha.ongoing
  ended := ha.ended
  fresh := ha.fresh
  registered := ha.registered

end Erllama.Model
