import Erllama.MetaSrv.Told
import Erllama.MetaSrv.Reservations

namespace Erllama.MetaSrv

open Lib

/-!
# Waiters are answered once

`lookup_exact_or_wait/2` parks its caller on a key that is being written.  The reply comes
from a publication or from the caller's own expiry message, and a timer that is cancelled may
have fired already: its message is then in the mailbox and is handled later.

* `Mail` — the expiry messages that are pending and the replies sent so far.
* `Net`, `netStep` — the server with its mail; `late` says which cancelled timers had fired.
* `Waiting` — who is parked is unanswered, has its expiry message, and waits for a key
  without an available row; who is not parked has one reply.
* `View.Move.waiting`, `Ends.waiting`, `netStep_serves` — each move, each ending, each step.
-/

variable {deps : Deps} {env : Env}

/-- `{waiter_expire, Key, From}`, on its timer or in the mailbox already. -/
structure Timer where
  tref : Ref
  key : CacheKey
  frm : From
deriving DecidableEq

/-- What is under way between the server and its callers. -/
structure Mail where
  timers : List Timer
  replies : List (From × Reply)

/-- One effect of a callback reaches the runtime.  Cancelling a timer that has fired leaves
    its message in the mailbox. -/
def Mail.effect (late : Ref → Bool) (m : Mail) : Out → Mail
  | .reply frm r                    => { m with replies := m.replies ++ [(frm, r)] }
  | .sendAfter tref _ key frm       => { m with timers := m.timers ++ [⟨tref, key, frm⟩] }
  | .cancelTimer tref               =>
    { m with timers := m.timers.filter fun t => t.tref ≠ tref || late tref }
  | .deleteSlab _ | .deleteFile _ _ => m

/-- The effects of a callback, in order. -/
def Mail.deliver (late : Ref → Bool) (m : Mail) (out : List Out) : Mail :=
  out.foldl (Mail.effect late) m

/-- The number of replies a caller got. -/
def Mail.repliesTo (m : Mail) (frm : From) : Nat := m.replies.countP fun p => p.1 = frm

/-- The server and its mail, the calls so far, and which of them were lookups of what key. -/
structure Net where
  srv : State
  mail : Mail
  calls : List From
  asked : List (From × CacheKey)

/-- A server that has just started. -/
def Net.init (files : Files) : Net := ⟨State.init files, ⟨[], []⟩, [], []⟩

/-- What happens next: a message arrives, or a pending expiry message is handled. -/
inductive NetEvent where
  | handle (e : Event) (late : Ref → Bool)
  | expire (env : Env) (tref : Ref)

/-- The message is an expiry message: only a timer sends it. -/
def Msg.isExpiry : Msg → Bool
  | .waiterExpire _ _ => true
  | _                 => false

/-- The key a lookup asks for. -/
def Msg.asks : Msg → Option CacheKey
  | .lookupOrWait key _ => some key
  | _                   => none

/-- The caller of a message. -/
def Event.caller (e : Event) : List From := if e.msg.isCall then [e.frm] else []

/-- The server handles one message. -/
def callback (deps : Deps) (n : Net) (e : Event) (late : Ref → Bool) : Net where
  srv := step deps n.srv e
  mail := n.mail.deliver late (step deps n.srv e).out
  calls := n.calls ++ e.caller
  asked := n.asked ++ (e.msg.asks.map fun key => (e.frm, key)).toList

/-- The expiry message of a timer, as the server receives it. -/
def Timer.event (t : Timer) (env : Env) : Event := ⟨env, t.frm, .waiterExpire t.key t.frm⟩

/-- The mail without one expiry message. -/
def Net.drop (n : Net) (t : Timer) : Net :=
  { n with mail := { n.mail with timers := n.mail.timers.erase t } }

/-- One step of the server and its surroundings. -/
def netStep (deps : Deps) (n : Net) : NetEvent → Net
  | .handle e late   => if e.msg.isExpiry then n else callback deps n e late
  | .expire env tref =>
    match n.mail.timers.find? fun t => t.tref = tref with
    | none   => n
    | some t => callback deps (n.drop t) (t.event env) fun _ => false

/-- The message the server handles in a step. -/
def NetEvent.message (n : Net) : NetEvent → Option Event
  | .handle e _      => if e.msg.isExpiry then none else some e
  | .expire env tref => (n.mail.timers.find? fun t => t.tref = tref).map fun t => t.event env

/-- The caller of an event. -/
def NetEvent.calls : NetEvent → List From
  | .handle e _ => e.caller
  | .expire _ _ => []

/-- The callers of a run, each call under the tag `gen_server` gives it. -/
def callers (ns : List NetEvent) : List From := ns.flatMap NetEvent.calls

/-! ### Mail -/

namespace Mail

variable (late : Ref → Bool) (m : Mail)

/-- Two lists of messages are delivered one after the other. -/
theorem deliver_append (o o' : List Out) :
    m.deliver late (o ++ o') = (m.deliver late o).deliver late o' :=
  List.foldl_append

/-- Deletions deliver nothing. -/
theorem deliver_deletions {o : List Out} (ho : ∀ x ∈ o, x.IsDeletion) :
    m.deliver late o = m := by
  induction o generalizing m with
  | nil => rfl
  | cons x o ih =>
    have hx : m.effect late x = m := by
      have h := ho x List.mem_cons_self
      cases x with
      | deleteSlab key      => rfl
      | deleteFile key path => rfl
      | _                   => exact h.elim
    show (m.effect late x).deliver late o = m
    rw [hx]
    exact ih m fun y hy => ho y (List.mem_cons_of_mem x hy)

/-- Answering waiters: their timers go unless they have fired, and each gets the reply. -/
theorem deliver_notices (ws : List Waiter) (r : Reply) :
    m.deliver late (ws.flatMap fun w => [.cancelTimer w.tref, .reply w.frm r]) =
      { timers := m.timers.filter fun t => ws.all fun w => t.tref ≠ w.tref || late w.tref
        replies := m.replies ++ ws.map fun w => (w.frm, r) } := by
  induction ws generalizing m with
  | nil => simp [deliver]
  | cons w ws ih =>
    rw [List.flatMap_cons, deliver_append, ih]
    simp only [deliver, effect, List.foldl_cons, List.foldl_nil, List.filter_filter, List.map_cons,
      List.append_assoc, List.singleton_append, List.all_cons]
    congr 2
    funext t
    exact Bool.and_comm _ _

/-- The replies after a callback. -/
theorem mem_replies_deliver (out : List Out) (f : From) (r : Reply) :
    (f, r) ∈ (m.deliver late out).replies ↔ (f, r) ∈ m.replies ∨ .reply f r ∈ out := by
  induction out generalizing m with
  | nil => simp [deliver]
  | cons o out ih =>
    show (f, r) ∈ ((m.effect late o).deliver late out).replies ↔ _
    rw [ih]
    cases o with
    | reply frm r'                => simp [effect, or_assoc]
    | sendAfter tref ms key frm   => simp [effect]
    | cancelTimer tref            => simp [effect]
    | deleteSlab key              => simp [effect]
    | deleteFile key path         => simp [effect]

/-- The replies of two deliveries. -/
@[simp] theorem repliesTo_append (replies : List (From × Reply)) (ts : List Timer) (f : From) :
    repliesTo ⟨ts, m.replies ++ replies⟩ f =
      m.repliesTo f + replies.countP fun p => p.1 = f :=
  List.countP_append

end Mail

/-! ### The invariant -/

/-- Who waits and who has been answered, in a server that shows the view `v` and has the
    mail `m`; references from `next` on are fresh. -/
structure Waiting (calls : List From) (asked : List (From × CacheKey)) (next : Ref) (v : View)
    (m : Mail) : Prop where
  idle : ∀ key row, v.row key = some row → row.status = .available → v.parked key = []
  timed : ∀ key, ∀ w ∈ v.parked key, ⟨w.tref, key, w.frm⟩ ∈ m.timers
  trefs : (m.timers.map Timer.tref).Nodup
  below : ∀ t ∈ m.timers, t.tref < next
  once : ∀ key, ((v.parked key).map Waiter.frm).Nodup
  asks : ∀ key, ∀ w ∈ v.parked key, (w.frm, key) ∈ asked
  unanswered : ∀ key, ∀ w ∈ v.parked key, m.repliesTo w.frm = 0
  answered : ∀ f ∈ calls, (∀ key, ∀ w ∈ v.parked key, w.frm ≠ f) → m.repliesTo f = 1
  quiet : ∀ f, f ∉ calls → m.repliesTo f = 0

/-- Lookups are calls, and no two have one tag. -/
structure Tagged (calls : List From) (asked : List (From × CacheKey)) : Prop where
  nodup : (asked.map Prod.fst).Nodup
  calls : ∀ p ∈ asked, p.1 ∈ calls

/-- A caller asks for one key. -/
theorem Tagged.key_unique {calls : List From} {asked : List (From × CacheKey)}
    (h : Tagged calls asked) {f : From} {key key' : CacheKey} (hkey : (f, key) ∈ asked)
    (hkey' : (f, key') ∈ asked) : key = key' := by
  have hpair := List.inj_on_of_nodup_map h.nodup hkey hkey' rfl
  exact (Prod.mk.inj hpair).2

namespace Waiting

variable {calls : List From} {asked : List (From × CacheKey)} {next : Ref} {v v' : View} {m : Mail}

/-- Two pending messages with one reference are one message. -/
theorem timer_unique (h : Waiting calls asked next v m) {t t' : Timer} (ht : t ∈ m.timers)
    (ht' : t' ∈ m.timers) (heq : t.tref = t'.tref) : t = t' :=
  List.inj_on_of_nodup_map h.trefs ht ht' heq

/-- Who has not called is not parked. -/
theorem not_parked (h : Waiting calls asked next v m) (ht : Tagged calls asked) {f : From}
    (hf : f ∉ calls) (key : CacheKey) (w : Waiter) (hw : w ∈ v.parked key) : w.frm ≠ f := by
  rintro rfl
  exact hf (ht.calls _ (h.asks key w hw))

/-- A caller is parked on one key. -/
theorem parked_unique (h : Waiting calls asked next v m) (ht : Tagged calls asked)
    {key key' : CacheKey} {w w' : Waiter} (hw : w ∈ v.parked key) (hw' : w' ∈ v.parked key')
    (hfrm : w.frm = w'.frm) : key = key' :=
  ht.key_unique (h.asks key w hw) (hfrm ▸ h.asks key' w' hw')

/-- Rows change, but no row becomes available. -/
theorem of_rows (h : Waiting calls asked next v m) (hparked : v'.parked = v.parked)
    (hrow : ∀ key row, v'.row key = some row → row.status = .available →
      ∃ r, v.row key = some r ∧ r.status = .available) : Waiting calls asked next v' m where
  idle key row hk hav := by
    obtain ⟨r, hr, hrav⟩ := hrow key row hk hav
    rw [hparked]
    exact h.idle key r hr hrav
  timed := hparked ▸ h.timed
  trefs := h.trefs
  below := h.below
  once := hparked ▸ h.once
  asks := hparked ▸ h.asks
  unanswered := hparked ▸ h.unanswered
  answered := hparked ▸ h.answered
  quiet := h.quiet

/-- Rewriting the row of one key without making it available. -/
theorem of_update (h : Waiting calls asked next v m) (key : CacheKey) {r : Option Row}
    (hparked : v'.parked = v.parked) (hrow : v'.row = Function.update v.row key r)
    (hr : ∀ row, r = some row → row.status = .available →
      ∃ r₀, v.row key = some r₀ ∧ r₀.status = .available) : Waiting calls asked next v' m := by
  refine h.of_rows hparked fun k row hk hav => ?_
  rw [hrow, Function.update_apply] at hk
  split at hk
  · rename_i hkey
    subst hkey
    exact hr row hk hav
  · exact ⟨row, hk, hav⟩

/-- A row is removed. -/
theorem of_removed (h : Waiting calls asked next v m) (key : CacheKey)
    (hparked : v'.parked = v.parked) (hrow : v'.row = Function.update v.row key none) :
    Waiting calls asked next v' m :=
  h.of_update key hparked hrow fun row hr => absurd hr.symm (Option.some_ne_none row)

/-- **A publication** answers everyone parked on the key with the row, and no one else: the
    timers it cancels belong to these waiters. -/
theorem publish (h : Waiting calls asked next v m) (ht : Tagged calls asked) (late : Ref → Bool)
    (key : CacheKey) (r : Row) :
    Waiting calls asked next (v.publish key r)
      (m.deliver late ((v.parked key).flatMap fun w =>
        [.cancelTimer w.tref, .reply w.frm (.row (v.restored key r))])) := by
  rw [Mail.deliver_notices]
  -- The waiters of this key are all answered; those of other keys are as they were.
  have hparked : ∀ k, ∀ w ∈ (v.publish key r).parked k, k ≠ key ∧ w ∈ v.parked k := by
    intro k w hw
    by_cases hk : k = key
    · subst hk
      have hnil : (v.publish k r).parked k = [] := Function.update_self ..
      rw [hnil] at hw
      cases hw
    · have hsame : (v.publish key r).parked k = v.parked k := Function.update_of_ne hk ..
      exact ⟨hk, hsame ▸ hw⟩
  have hcount : ∀ f, ((v.parked key).map fun w => (w.frm, Reply.row (v.restored key r))).countP
      (fun p => p.1 = f) = ((v.parked key).map Waiter.frm).count f := by
    intro f
    rw [List.count_eq_countP, List.countP_map, List.countP_map]
    rfl
  have hother : ∀ k, ∀ w ∈ (v.publish key r).parked k,
      w.frm ∉ (v.parked key).map Waiter.frm := by
    intro k w hw hmem
    obtain ⟨hk, hw⟩ := hparked k w hw
    obtain ⟨w', hw', hfrm⟩ := List.mem_map.mp hmem
    exact hk (h.parked_unique ht hw hw' hfrm.symm)
  constructor
  -- Nobody waits for this row any more, and the other rows are unchanged.
  case idle =>
    intro k row hk hav
    by_cases hkey : k = key
    · subst hkey
      exact Function.update_self ..
    · have hrow : (v.publish key r).row k = v.row k := Function.update_of_ne hkey ..
      rw [hrow] at hk
      exact (Function.update_of_ne hkey ..).trans (h.idle k row hk hav)
  case timed =>
    intro k w hw
    obtain ⟨hk, hw⟩ := hparked k w hw
    refine List.mem_filter.mpr ⟨h.timed k w hw, ?_⟩
    rw [List.all_eq_true]
    intro w' hw'
    -- one reference, one message: it would belong to both keys
    have hne : w.tref ≠ w'.tref := fun heq =>
      hk (congrArg Timer.key (h.timer_unique (h.timed k w hw) (h.timed key w' hw') heq))
    simp [hne]
  case trefs => exact h.trefs.sublist (List.filter_sublist.map _)
  case below => exact fun t ht => h.below t (List.mem_of_mem_filter ht)
  case once =>
    intro k
    by_cases hk : k = key
    · subst hk
      rw [show (v.publish k r).parked k = [] from Function.update_self ..]
      exact List.nodup_nil
    · rw [show (v.publish key r).parked k = v.parked k from Function.update_of_ne hk ..]
      exact h.once k
  case asks =>
    intro k w hw
    exact h.asks k w (hparked k w hw).2
  case unanswered =>
    intro k w hw
    rw [Mail.repliesTo_append, hcount, List.count_eq_zero.mpr (hother k w hw),
      h.unanswered k w (hparked k w hw).2]
  case answered =>
    intro f hf hnot
    rw [Mail.repliesTo_append, hcount]
    by_cases hmem : f ∈ (v.parked key).map Waiter.frm
    -- One reply went to it now, and none before.
    · obtain ⟨w, hw, rfl⟩ := List.mem_map.mp hmem
      rw [h.unanswered key w hw, List.count_eq_one_of_mem (h.once key) hmem]
    · rw [List.count_eq_zero.mpr hmem, h.answered f hf fun k w hw heq => ?_]
      by_cases hk : k = key
      · subst hk
        exact hmem (heq ▸ List.mem_map_of_mem hw)
      · have hsame : (v.publish key r).parked k = v.parked k := Function.update_of_ne hk ..
        exact hnot k w (hsame.symm ▸ hw) heq
  case quiet =>
    intro f hf
    have hmem : f ∉ (v.parked key).map Waiter.frm := by
      intro hmem
      obtain ⟨w, hw, hfrm⟩ := List.mem_map.mp hmem
      exact h.not_parked ht hf key w hw hfrm
    rw [Mail.repliesTo_append, hcount, List.count_eq_zero.mpr hmem, h.quiet f hf]

/-- Fresh references may start later. -/
theorem of_next_le (h : Waiting calls asked next v m) {next' : Ref} (hle : next ≤ next') :
    Waiting calls asked next' v m :=
  { h with below := fun t ht => lt_of_lt_of_le (h.below t ht) hle }

/-- The effects so far and the LRU table say nothing about who waits. -/
theorem startCallback (h : Waiting calls asked next v m) :
    Waiting calls asked next { v with out := [] } m :=
  h.of_rows rfl fun _ row hk hav => ⟨row, hk, hav⟩

end Waiting

/-! ### One callback -/

section Callback

variable {calls : List From} {asked : List (From × CacheKey)} {next : Ref} {v v' : View} {m : Mail}
  (late : Ref → Bool)

/-- **One move** of a callback whose message is not an expiry. -/
theorem View.Move.waiting {msg : Msg} (hmsg : msg.isExpiry = false) (ht : Tagged calls asked)
    (hm : View.Move msg v v') (h : Waiting calls asked next v (m.deliver late v.out)) :
    Waiting calls asked next v' (m.deliver late v'.out) := by
  cases hm with
  | delete o ho =>
    show Waiting calls asked next (v.emit o) (m.deliver late (v.out ++ o))
    rw [Mail.deliver_append, Mail.deliver_deletions _ _ ho]
    exact h.of_rows rfl fun _ row hk hav => ⟨row, hk, hav⟩
  | count key n =>
    refine h.of_update key rfl rfl fun row hrow hav => ?_
    obtain ⟨r, hr, rfl⟩ := Option.map_eq_some_iff.mp hrow
    exact ⟨r, hr, hav⟩
  | checkout key r t hr hav => exact h.of_update key rfl rfl fun _ _ _ => ⟨r, hr, hav⟩
  | publish key r hpub hav hloc =>
    have hout : m.deliver late (v.publish key r).out = (m.deliver late v.out).deliver late
        ((v.parked key).flatMap fun w =>
          [.cancelTimer w.tref, .reply w.frm (.row (v.restored key r))]) :=
      Mail.deliver_append late m v.out _
    rw [hout]
    exact h.publish ht late key r
  | remove key => exact h.of_removed key rfl rfl
  | reserve key r hr =>
    refine h.of_update key rfl rfl fun row hrow hav => ?_
    rw [← Option.some.inj hrow, hr] at hav
    cases hav
  | evict lruKey => exact h.of_removed (ofLex lruKey).2 rfl rfl
  | pin ns key hpin =>
    rw [View.pin_out]
    refine h.of_rows (View.pin_parked v ns key) fun k row hk hav => ?_
    obtain ⟨r, b, hr, rfl⟩ := View.exists_of_pin_row hk
    exact ⟨r, hr, hav⟩
  | expire key frm hexp hw =>
    rw [hexp] at hmsg
    cases hmsg

/-- The caller of the message has not called before: `gen_server` tags every call afresh. -/
theorem Tagged.call (ht : Tagged calls asked) {e : Event}
    (hfresh : ∀ f ∈ e.caller, f ∉ calls) :
    Tagged (calls ++ e.caller) (asked ++ (e.msg.asks.map fun key => (e.frm, key)).toList) := by
  obtain ⟨env, frm, msg⟩ := e
  cases msg with
  | lookupOrWait key ms =>
    have hfrm : frm ∉ calls := hfresh frm (List.mem_singleton.mpr rfl)
    show Tagged (calls ++ [frm]) (asked ++ [(frm, key)])
    constructor
    · rw [List.map_append, List.nodup_append]
      refine ⟨ht.nodup, List.nodup_singleton _, ?_⟩
      rintro f hf g hg rfl
      obtain ⟨p, hp, rfl⟩ := List.mem_map.mp hf
      have heq : p.1 = frm := List.mem_singleton.mp hg
      exact hfrm (heq ▸ ht.calls p hp)
    · intro p hp
      rcases List.mem_append.mp hp with hp | hp
      · exact List.mem_append_left _ (ht.calls p hp)
      · rw [List.mem_singleton.mp hp]
        exact List.mem_append_right _ (List.mem_singleton.mpr rfl)
  | _ =>
    refine ⟨?_, ?_⟩
    · simpa [Msg.asks] using ht.nodup
    · intro p hp
      refine List.mem_append_left _ (ht.calls p ?_)
      simpa [Msg.asks] using hp

/-- **The answer to a call**: its caller is not parked, and this is its first reply. -/
theorem Waiting.answer (h : Waiting calls asked next v m) (ht : Tagged calls asked) {f : From}
    (hf : f ∉ calls) (r : Reply) (asked' : List (From × CacheKey)) :
    Waiting (calls ++ [f]) (asked ++ asked') next (v.emit [.reply f r])
      { m with replies := m.replies ++ [(f, r)] } := by
  have hcount : ∀ g, Mail.repliesTo { m with replies := m.replies ++ [(f, r)] } g =
      m.repliesTo g + if f = g then 1 else 0 := by
    intro g
    rw [Mail.repliesTo_append, List.countP_singleton]
    simp
  constructor
  case idle => exact h.idle
  case timed => exact h.timed
  case trefs => exact h.trefs
  case below => exact h.below
  case once => exact h.once
  case asks => exact fun key w hw => List.mem_append_left _ (h.asks key w hw)
  case unanswered =>
    intro key w hw
    have hne : f ≠ w.frm := (h.not_parked ht hf key w hw).symm
    rw [hcount, if_neg hne, h.unanswered key w hw]
  case answered =>
    intro g hg hnot
    rw [hcount]
    rcases List.mem_append.mp hg with hg | hg
    · have hne : f ≠ g := fun heq => hf (heq ▸ hg)
      rw [if_neg hne, h.answered g hg hnot]
    · obtain rfl := List.mem_singleton.mp hg
      rw [if_pos rfl, h.quiet g hf]
  case quiet =>
    intro g hg
    rw [List.mem_append, List.mem_singleton, not_or] at hg
    rw [hcount, if_neg fun heq => hg.2 heq.symm, h.quiet g hg.1]

/-- **A lookup parks**: its timer is the first with a reference that is still fresh. -/
theorem Waiting.park (h : Waiting calls asked next v m) (ht : Tagged calls asked)
    {key : CacheKey} {w : Waiter} (hf : w.frm ∉ calls) (hfresh : w.tref = next)
    (hrow : ∃ row, v.row key = some row ∧ row.status = .writing) (ms : Nat) :
    Waiting (calls ++ [w.frm]) (asked ++ [(w.frm, key)]) (next + 1) (v.park key w ms)
      { m with timers := m.timers ++ [⟨w.tref, key, w.frm⟩] } := by
  -- Only the new caller was added, and only to this key.
  have hparked : ∀ k, ∀ u ∈ (v.park key w ms).parked k, (k = key ∧ u = w) ∨ u ∈ v.parked k := by
    intro k u hu
    by_cases hk : k = key
    · subst hk
      rw [show (v.park k w ms).parked k = w :: v.parked k from Function.update_self ..] at hu
      exact (List.mem_cons.mp hu).imp (fun h => ⟨rfl, h⟩) id
    · rw [show (v.park key w ms).parked k = v.parked k from Function.update_of_ne hk ..] at hu
      exact Or.inr hu
  have hself : w ∈ (v.park key w ms).parked key := by
    rw [show (v.park key w ms).parked key = w :: v.parked key from Function.update_self ..]
    exact List.mem_cons_self
  have hstays : ∀ k, ∀ u ∈ v.parked k, u ∈ (v.park key w ms).parked k := by
    intro k u hu
    by_cases hk : k = key
    · subst hk
      rw [show (v.park k w ms).parked k = w :: v.parked k from Function.update_self ..]
      exact List.mem_cons_of_mem w hu
    · rwa [show (v.park key w ms).parked k = v.parked k from Function.update_of_ne hk ..]
  constructor
  case idle =>
    intro k row hk hav
    -- A caller waits for a row that is being written, so for none that is available.
    have hne : k ≠ key := by
      rintro rfl
      obtain ⟨row', hrow', hwriting⟩ := hrow
      rw [show v.row k = some row from hk] at hrow'
      rw [Option.some.inj hrow', hwriting] at hav
      cases hav
    exact (Function.update_of_ne hne ..).trans (h.idle k row hk hav)
  case timed =>
    intro k u hu
    rcases hparked k u hu with ⟨rfl, rfl⟩ | hu
    · exact List.mem_append_right _ (List.mem_singleton.mpr rfl)
    · exact List.mem_append_left _ (h.timed k u hu)
  case trefs =>
    rw [List.map_append, List.nodup_append]
    refine ⟨h.trefs, List.nodup_singleton _, ?_⟩
    -- Its timer is new.
    rintro t ht' t' ht'' rfl
    obtain ⟨u, hu, rfl⟩ := List.mem_map.mp ht'
    rw [List.map_singleton, List.mem_singleton] at ht''
    have hlt := h.below u hu
    rw [ht'', hfresh] at hlt
    exact absurd hlt (lt_irrefl _)
  case below =>
    intro t ht'
    rcases List.mem_append.mp ht' with ht' | ht'
    · exact Nat.lt_succ_of_lt (h.below t ht')
    · rw [List.mem_singleton.mp ht', hfresh]
      exact Nat.lt_succ_self next
  case once =>
    intro k
    by_cases hk : k = key
    · subst hk
      rw [show (v.park k w ms).parked k = w :: v.parked k from Function.update_self ..,
        List.map_cons, List.nodup_cons]
      -- It was not waiting before.
      refine ⟨fun hmem => ?_, h.once k⟩
      obtain ⟨u, hu, hfrm⟩ := List.mem_map.mp hmem
      exact h.not_parked ht hf k u hu hfrm
    · rw [show (v.park key w ms).parked k = v.parked k from Function.update_of_ne hk ..]
      exact h.once k
  case asks =>
    intro k u hu
    rcases hparked k u hu with ⟨rfl, rfl⟩ | hu
    · exact List.mem_append_right _ (List.mem_singleton.mpr rfl)
    · exact List.mem_append_left _ (h.asks k u hu)
  case unanswered =>
    intro k u hu
    rcases hparked k u hu with ⟨rfl, rfl⟩ | hu
    · exact h.quiet _ hf
    · exact h.unanswered k u hu
  case answered =>
    -- Who was answered does not wait, and this caller waits.
    intro f hmem hnot
    rcases List.mem_append.mp hmem with hmem | hmem
    · exact h.answered f hmem fun k u hu => hnot k u (hstays k u hu)
    · exact absurd (List.mem_singleton.mp hmem).symm (hnot key w hself)
  case quiet =>
    intro f hnot
    exact h.quiet f fun hmem => hnot (List.mem_append_left _ hmem)

/-- **One ending**: the call is answered, it parks, or nobody waits for an answer. -/
theorem Ends.waiting {e : Event} {s s' : State} (hends : Ends e s s' v) (ht : Tagged calls asked)
    (hfresh : ∀ f ∈ e.caller, f ∉ calls) (hle : s.nextRef ≤ s'.nextRef)
    (h : Waiting calls asked s.nextRef v (m.deliver late v.out)) :
    Waiting (calls ++ e.caller) (asked ++ (e.msg.asks.map fun key => (e.frm, key)).toList)
      s'.nextRef s'.view (m.deliver late s'.out) := by
  cases hends with
  | answers r hcall hr heq =>
    have hcaller : e.caller = [e.frm] := if_pos hcall
    have hout : m.deliver late s'.out = { m.deliver late v.out with
        replies := (m.deliver late v.out).replies ++ [(e.frm, r)] } := by
      rw [show s'.out = v.out ++ [.reply e.frm r] from congrArg View.out heq, Mail.deliver_append]
      rfl
    have hf : e.frm ∉ calls := hfresh e.frm (hcaller ▸ List.mem_singleton.mpr rfl)
    rw [hcaller, heq, hout]
    exact (h.answer ht hf r _).of_next_le hle
  | parks key ms w hmsg hfrm hnew hnext hrow heq =>
    have hcaller : e.caller = [w.frm] := by rw [hfrm, Event.caller, hmsg]; rfl
    have hout : m.deliver late s'.out = { m.deliver late v.out with
        timers := (m.deliver late v.out).timers ++ [⟨w.tref, key, w.frm⟩] } := by
      rw [show s'.out = v.out ++ [.sendAfter w.tref ms key w.frm] from congrArg View.out heq,
        Mail.deliver_append]
      rfl
    have hf : w.frm ∉ calls := hfresh w.frm (hcaller ▸ List.mem_singleton.mpr rfl)
    have hasks : (e.msg.asks.map fun key => (e.frm, key)).toList = [(w.frm, key)] := by
      rw [hmsg, hfrm]
      rfl
    rw [hcaller, hasks, heq, hout, hnext]
    exact h.park ht hf hnew hrow ms
  | silent hcall heq =>
    have hcaller : e.caller = [] := if_neg (by simp [hcall])
    have hasks : e.msg.asks = none := by
      cases hmsg : e.msg with
      | lookupOrWait key ms => rw [hmsg] at hcall; cases hcall
      | _ => rfl
    have hout : s'.out = v.out := congrArg View.out heq
    rw [hcaller, hasks, heq, hout, List.append_nil, Option.map_none, Option.toList_none,
      List.append_nil]
    exact h.of_next_le hle

/-- Who gives up is the only waiter of that caller. -/
theorem mem_eraseP_frm {ws : List Waiter} (hws : (ws.map Waiter.frm).Nodup) (f : From)
    (u : Waiter) : u ∈ ws.eraseP (fun w => w.frm = f) ↔ u ∈ ws ∧ u.frm ≠ f := by
  induction ws with
  | nil => simp
  | cons w ws ih =>
    rw [List.map_cons, List.nodup_cons] at hws
    have hrest : ∀ u ∈ ws, u.frm ≠ w.frm := fun u hu heq =>
      hws.1 (heq ▸ List.mem_map_of_mem hu)
    by_cases hw : w.frm = f
    · rw [List.eraseP_cons_of_pos (by simpa using hw), ← hw]
      constructor
      · exact fun hu => ⟨List.mem_cons_of_mem w hu, hrest u hu⟩
      · rintro ⟨hu, hne⟩
        exact (List.mem_cons.mp hu).resolve_left fun heq => hne (congrArg Waiter.frm heq)
    · rw [List.eraseP_cons_of_neg (by simpa using hw), List.mem_cons, ih hws.2, List.mem_cons]
      constructor
      · rintro (rfl | ⟨hu, hne⟩)
        · exact ⟨Or.inl rfl, hw⟩
        · exact ⟨Or.inr hu, hne⟩
      · rintro ⟨rfl | hu, hne⟩
        · exact Or.inl rfl
        · exact Or.inr ⟨hu, hne⟩

/-- **A waiter gives up** when its expiry message is handled: the other waiters keep theirs. -/
theorem Waiting.expire (h : Waiting calls asked next v m) (ht : Tagged calls asked) {t : Timer}
    (hw : ∃ w ∈ v.parked t.key, w.frm = t.frm) :
    Waiting calls asked next (v.expire t.key t.frm)
      ⟨m.timers.erase t, m.replies ++ [(t.frm, Reply.miss)]⟩ := by
  obtain ⟨w₀, hw₀, hfrm₀⟩ := hw
  -- Exactly the caller of the timer is taken out, and only from this key.
  have hparked : ∀ k u, u ∈ (v.expire t.key t.frm).parked k ↔
      u ∈ v.parked k ∧ (k = t.key → u.frm ≠ t.frm) := by
    intro k u
    by_cases hk : k = t.key
    · subst hk
      rw [show (v.expire t.key t.frm).parked t.key = (v.parked t.key).eraseP
        (fun w => w.frm = t.frm) from Function.update_self .., mem_eraseP_frm (h.once t.key)]
      exact and_congr_right fun _ => ⟨fun hne _ => hne, fun hne => hne rfl⟩
    · rw [show (v.expire t.key t.frm).parked k = v.parked k from Function.update_of_ne hk ..]
      exact ⟨fun hu => ⟨hu, fun heq => absurd heq hk⟩, And.left⟩
  have hother : ∀ k, ∀ u ∈ (v.expire t.key t.frm).parked k, u.frm ≠ t.frm := by
    intro k u hu heq
    obtain ⟨hu, hne⟩ := (hparked k u).mp hu
    exact hne (h.parked_unique ht hu hw₀ (heq.trans hfrm₀.symm)) heq
  have hcount : ∀ g, Mail.repliesTo ⟨m.timers.erase t, m.replies ++ [(t.frm, .miss)]⟩ g =
      m.repliesTo g + if t.frm = g then 1 else 0 := by
    intro g
    rw [Mail.repliesTo_append, List.countP_singleton]
    simp
  constructor
  case idle =>
    intro k row hk hav
    refine List.eq_nil_iff_forall_not_mem.mpr fun u hu => ?_
    have hu := ((hparked k u).mp hu).1
    rw [h.idle k row hk hav] at hu
    cases hu
  case timed =>
    intro k u hu
    have hne : (⟨u.tref, k, u.frm⟩ : Timer) ≠ t := fun heq =>
      hother k u hu (congrArg Timer.frm heq)
    exact (List.mem_erase_of_ne hne).mpr (h.timed k u ((hparked k u).mp hu).1)
  case trefs => exact h.trefs.sublist (List.erase_sublist.map _)
  case below => exact fun t' ht' => h.below t' (List.mem_of_mem_erase ht')
  case once =>
    intro k
    by_cases hk : k = t.key
    · subst hk
      rw [show (v.expire t.key t.frm).parked t.key = (v.parked t.key).eraseP
        (fun w => w.frm = t.frm) from Function.update_self ..]
      exact (h.once t.key).sublist (List.eraseP_sublist.map _)
    · rw [show (v.expire t.key t.frm).parked k = v.parked k from Function.update_of_ne hk ..]
      exact h.once k
  case asks => exact fun k u hu => h.asks k u ((hparked k u).mp hu).1
  case unanswered =>
    intro k u hu
    rw [hcount, if_neg (hother k u hu).symm, h.unanswered k u ((hparked k u).mp hu).1]
  case answered =>
    intro g hg hnot
    rw [hcount]
    -- It is answered now; anyone else was answered before.
    by_cases hgf : t.frm = g
    · rw [if_pos hgf, ← hgf, ← hfrm₀, h.unanswered t.key w₀ hw₀]
    · rw [if_neg hgf, h.answered g hg fun k u hu heq => ?_]
      exact hnot k u ((hparked k u).mpr ⟨hu, fun _ hfrm => hgf (hfrm.symm.trans heq)⟩) heq
  case quiet =>
    intro g hg
    have hne : t.frm ≠ g := fun heq => h.not_parked ht hg t.key w₀ hw₀ (hfrm₀.trans heq)
    rw [hcount, if_neg hne, h.quiet g hg]

/-- **A message that lost the race**: its waiter has been answered, so it is just dropped. -/
theorem Waiting.drop (h : Waiting calls asked next v m) {t : Timer}
    (hw : ¬ ∃ w ∈ v.parked t.key, w.frm = t.frm) :
    Waiting calls asked next v { m with timers := m.timers.erase t } where
  idle := h.idle
  timed k u hu := by
    refine (List.mem_erase_of_ne fun heq => hw ?_).mpr (h.timed k u hu)
    rw [← heq]
    exact ⟨u, hu, rfl⟩
  trefs := h.trefs.sublist (List.erase_sublist.map _)
  below t' ht' := h.below t' (List.mem_of_mem_erase ht')
  once := h.once
  asks := h.asks
  unanswered := h.unanswered
  answered := h.answered
  quiet := h.quiet

end Callback

/-! ### Runs -/

/-- The server serves its callers: tags are in order, and everyone waits or was answered. -/
structure Net.Serves (n : Net) : Prop where
  tagged : Tagged n.calls n.asked
  waiting : Waiting n.calls n.asked n.srv.nextRef n.srv.view n.mail

/-- At the start nobody waits. -/
theorem Net.init_serves (files : Files) : (Net.init files).Serves where
  tagged := ⟨List.nodup_nil, nofun⟩
  waiting :=
    { idle := fun _ _ _ _ => rfl
      timed := fun _ => List.forall_mem_nil _
      trefs := List.nodup_nil
      below := List.forall_mem_nil _
      once := fun _ => List.nodup_nil
      asks := fun _ => List.forall_mem_nil _
      unanswered := fun _ => List.forall_mem_nil _
      answered := List.forall_mem_nil _
      quiet := fun _ _ => rfl }

/-- **One step of the server and its surroundings.** -/
theorem netStep_serves (deps : Deps) {n : Net} (x : NetEvent) (hx : ∀ f ∈ x.calls, f ∉ n.calls)
    (h : n.Serves) : (netStep deps n x).Serves := by
  cases x with
  -- The server handles a message: its moves keep what waits, and its ending answers or parks.
  | handle e late =>
    show Net.Serves (if e.msg.isExpiry then n else callback deps n e late)
    split
    · exact h
    · rename_i hexp
      obtain ⟨v, hmoves, hends⟩ := step_moves deps n.srv e
      have hv : Waiting n.calls n.asked n.srv.nextRef v (n.mail.deliver late v.out) :=
        hmoves.keeps (P := fun v => Waiting n.calls n.asked n.srv.nextRef v
            (n.mail.deliver late v.out))
          (fun v v' hv hm => hm.waiting late (Bool.eq_false_iff.mpr hexp) h.tagged hv)
          h.waiting.startCallback
      exact ⟨h.tagged.call hx, hends.waiting late h.tagged hx (nextRef_step_le n.srv e) hv⟩
  -- A timer fires.
  | expire env tref =>
    simp only [netStep]
    split
    · exact h
    · rename_i t ht
      have hcalls : (callback deps (n.drop t) (t.event env) fun _ => false).calls = n.calls :=
        List.append_nil _
      have hasked : (callback deps (n.drop t) (t.event env) fun _ => false).asked = n.asked :=
        List.append_nil _
      have hsrv : (callback deps (n.drop t) (t.event env) fun _ => false).srv =
        expireWaiter t.key t.frm n.srv.startCallback := rfl
      constructor
      · rw [hcalls, hasked]
        exact h.tagged
      · rw [hcalls, hasked]
        have hnext : (expireWaiter t.key t.frm n.srv.startCallback).nextRef = n.srv.nextRef := by
          unfold expireWaiter
          dsimp only
          split
          · split <;> rfl
          · rfl
        -- Its caller still waits and is answered now, or has been answered and is left alone.
        by_cases hw : ∃ w ∈ n.srv.view.parked t.key, w.frm = t.frm
        · have hview := view_expireWaiter n.srv.startCallback t.key t.frm hw
          have hmail : (callback deps (n.drop t) (t.event env) fun _ => false).mail =
              ⟨n.mail.timers.erase t, n.mail.replies ++ [(t.frm, .miss)]⟩ := by
            show (n.drop t).mail.deliver (fun _ => false)
              (expireWaiter t.key t.frm n.srv.startCallback).out = _
            rw [show (expireWaiter t.key t.frm n.srv.startCallback).out = [.reply t.frm .miss] from
              congrArg View.out hview]
            rfl
          rw [hmail, hsrv, hnext, hview]
          exact h.waiting.startCallback.expire h.tagged hw
        · have hsame := view_expireWaiter_of_none n.srv.startCallback t.key t.frm hw
          have hmail : (callback deps (n.drop t) (t.event env) fun _ => false).mail =
              { n.mail with timers := n.mail.timers.erase t } := by
            show (n.drop t).mail.deliver (fun _ => false)
              (expireWaiter t.key t.frm n.srv.startCallback).out = _
            rw [hsame]
            rfl
          rw [hmail, hsrv, hnext, hsame]
          exact h.waiting.startCallback.drop hw

/-- Where the replies of a step come from. -/
theorem netStep_told (deps : Deps) (n : Net) (x : NetEvent) {f : From} {r : Reply}
    (hr : (f, r) ∈ (netStep deps n x).mail.replies) :
    (f, r) ∈ n.mail.replies ∨ ∃ e, x.message n = some e ∧ Told deps n.srv e f r := by
  cases x with
  | handle e late =>
    simp only [netStep] at hr
    split at hr
    · exact Or.inl hr
    · rename_i hexp
      refine ((Mail.mem_replies_deliver _ _ _ f r).mp hr).imp id fun hout => ?_
      exact ⟨e, if_neg hexp, step_told deps n.srv e f r hout⟩
  | expire env tref =>
    simp only [netStep] at hr
    split at hr
    · exact Or.inl hr
    · rename_i t ht
      refine ((Mail.mem_replies_deliver _ _ _ f r).mp hr).imp id fun hout => ?_
      exact ⟨t.event env, by simp only [NetEvent.message, ht, Option.map_some],
        step_told deps n.srv (t.event env) f r hout⟩

/-- The lookups that an event adds, at most one, by its caller. -/
theorem netStep_asked (deps : Deps) (n : Net) (x : NetEvent) {f : From} {key : CacheKey}
    (h : (f, key) ∈ (netStep deps n x).asked) :
    (f, key) ∈ n.asked ∨ ∃ e, x.message n = some e ∧ f ∈ x.calls ∧
      ∃ ms, e.msg = .lookupOrWait key ms := by
  have hnew : ∀ {e : Event}, (f, key) ∈ (e.msg.asks.map fun key => (e.frm, key)).toList →
      f = e.frm ∧ ∃ ms, e.msg = .lookupOrWait key ms := by
    rintro ⟨env, frm, msg⟩ hmem
    cases msg with
    | lookupOrWait k ms =>
      obtain ⟨rfl, rfl⟩ := Prod.mk.inj (List.mem_singleton.mp hmem)
      exact ⟨rfl, ms, rfl⟩
    | _ => cases hmem
  cases x with
  | handle e late =>
    simp only [netStep] at h
    split at h
    · exact Or.inl h
    · rename_i hexp
      refine (List.mem_append.mp h).imp id fun hmem => ?_
      obtain ⟨rfl, ms, hms⟩ := hnew hmem
      refine ⟨e, if_neg hexp, ?_, ms, hms⟩
      show e.frm ∈ e.caller
      rw [Event.caller, hms]
      exact List.mem_singleton.mpr rfl
  | expire env tref =>
    simp only [netStep] at h
    split at h
    · exact Or.inl h
    · rename_i t ht
      refine (List.mem_append.mp h).imp id fun hmem => ?_
      obtain ⟨-, ms, hms⟩ := hnew hmem
      cases hms

/-- The call that the server handles in a step is one the event adds. -/
theorem NetEvent.mem_calls {n : Net} {x : NetEvent} {e : Event} (he : x.message n = some e)
    (hcall : e.msg.isCall = true) : e.frm ∈ x.calls := by
  cases x with
  | handle e' late =>
    simp only [NetEvent.message] at he
    split at he
    · cases he
    · obtain rfl := Option.some.inj he
      show e'.frm ∈ e'.caller
      rw [Event.caller, if_pos hcall]
      exact List.mem_singleton.mpr rfl
  | expire env tref =>
    obtain ⟨t, -, rfl⟩ := Option.map_eq_some_iff.mp he
    cases hcall

/-- The calls after a step. -/
theorem netStep_calls (deps : Deps) (n : Net) (x : NetEvent) :
    (netStep deps n x).calls = n.calls ++ x.calls := by
  cases x with
  | handle e late =>
    simp only [netStep]
    split
    · rename_i hexp
      have hcall : e.msg.isCall = false := by
        cases hmsg : e.msg with
        | waiterExpire key frm => rfl
        | _ => rw [hmsg] at hexp; cases hexp
      simp only [NetEvent.calls, Event.caller, hcall, Bool.false_eq_true, ↓reduceIte,
        List.append_nil]
    · rfl
  | expire env tref =>
    simp only [netStep]
    split
    · exact (List.append_nil _).symm
    · rfl

/-- A lookup of `key` is told `miss`, or the available row that the key has in the state in
    which some message of the run tells its waiters. -/
def Answer (deps : Deps) (files : Files) (ns : List NetEvent) (key : CacheKey) (r : Reply) :
    Prop :=
  r = .miss ∨ ∃ row pre x post e, r = .row row ∧ row.status = .available ∧
    ns = pre ++ x :: post ∧ x.message (run (netStep deps) (Net.init files) pre) = some e ∧
    (answering deps (run (netStep deps) (Net.init files) pre).srv e).metaTbl.lookup key = some row

/-- An answer stays one when the run goes on. -/
theorem Answer.append {deps : Deps} {files : Files} {ns : List NetEvent} {key : CacheKey}
    {r : Reply} (h : Answer deps files ns key r) (x : NetEvent) :
    Answer deps files (ns ++ [x]) key r := by
  refine h.imp id ?_
  rintro ⟨row, pre, y, post, e, hr, hav, rfl, he⟩
  exact ⟨row, pre, y, post ++ [x], e, hr, hav, by simp, he⟩

/-- The invariant of a run: who called, who waits, and what lookups were told. -/
theorem run_serves (deps : Deps) (files : Files) (ns : List NetEvent) (hns : (callers ns).Nodup) :
    (run (netStep deps) (Net.init files) ns).calls = callers ns ∧
      (run (netStep deps) (Net.init files) ns).Serves ∧
      ∀ f key r, (f, key) ∈ (run (netStep deps) (Net.init files) ns).asked →
        (f, r) ∈ (run (netStep deps) (Net.init files) ns).mail.replies →
        Answer deps files ns key r := by
  induction ns using List.reverseRecOn with
  | nil => exact ⟨rfl, Net.init_serves files, fun _ _ _ hasked => absurd hasked List.not_mem_nil⟩
  | append_singleton ns x ih =>
    have hcallers : callers (ns ++ [x]) = callers ns ++ x.calls := by
      simp only [callers, List.flatMap_append, List.flatMap_singleton]
    rw [hcallers, List.nodup_append] at hns
    obtain ⟨hold, -, hdisjoint⟩ := hns
    obtain ⟨hcalls, hserves, hanswer⟩ := ih hold
    rw [run_append, hcallers]
    set n := run (netStep deps) (Net.init files) ns with hn
    have hfresh : ∀ f ∈ x.calls, f ∉ n.calls := by
      intro f hf hmem
      rw [hcalls] at hmem
      exact hdisjoint f hmem f hf rfl
    have hserves' := netStep_serves deps x hfresh hserves
    refine ⟨?_, hserves', ?_⟩
    · rw [← hcalls]
      exact netStep_calls deps n x
    · intro f key r hasked hr
      rcases netStep_told deps n x hr with hr | ⟨e, he, htold⟩
      · rcases netStep_asked deps n x hasked with hasked | ⟨-, -, hf, -⟩
        · exact (hanswer f key r hasked hr).append x
        · -- a caller that is new has no reply yet
          have hzero := hserves.waiting.quiet f (hfresh f hf)
          rw [Mail.repliesTo, List.countP_eq_zero] at hzero
          exact absurd (decide_eq_true rfl) (hzero (f, r) hr)
      · cases htold with
        | caller hf hcall hr' =>
          have hnew : f ∉ n.calls := hfresh f (hf ▸ NetEvent.mem_calls he hcall)
          rcases netStep_asked deps n x hasked with hasked | ⟨e', he', -, ms, hms⟩
          · exact absurd (hserves.tagged.calls _ hasked) hnew
          · obtain rfl := Option.some.inj (he.symm.trans he')
            refine (hr' key ms hms).imp id ?_
            rintro ⟨row, rfl, hav, hrow⟩
            exact ⟨row, ns, x, [], e, rfl, hav, rfl, he, hrow⟩
        | expired key' hmsg hr' => exact Or.inl hr'
        | published key' hw row hr' hav hrow =>
          obtain ⟨w, hw, rfl⟩ := hw
          have hkey : key' = key := by
            rcases netStep_asked deps n x hasked with hold | ⟨-, -, hf, -⟩
            · exact hserves.tagged.key_unique (hserves.waiting.asks key' w hw) hold
            · exact absurd rfl
                (hserves.waiting.not_parked hserves.tagged (hfresh _ hf) key' w hw)
          subst hkey
          exact Or.inr ⟨row, ns, x, [], e, hr', hav, rfl, he, hrow⟩

/-- **Waiters are answered once and never forgotten.** In every run, whatever the order of the
    messages and whichever timers fire before they are cancelled:

    * who asked for a key is parked on it without a reply, or is not parked and has one reply;
    * a reply to a lookup of a key is `miss` or an available row of that key;
    * nobody is parked on a key whose row is available;
    * every parked waiter has its expiry message pending;
    * so who has no expiry message pending has been answered, once. -/
theorem run_waitersAnswered (deps : Deps) (files : Files) (ns : List NetEvent)
    (hns : (callers ns).Nodup) :
    ∃ n, n = run (netStep deps) (Net.init files) ns ∧
      (∀ f key, (f, key) ∈ n.asked →
        ((∃ w ∈ n.srv.view.parked key, w.frm = f) ∧ n.mail.repliesTo f = 0) ∨
        ((∀ k, ∀ w ∈ n.srv.view.parked k, w.frm ≠ f) ∧ n.mail.repliesTo f = 1)) ∧
      (∀ f key r, (f, key) ∈ n.asked → (f, r) ∈ n.mail.replies → Answer deps files ns key r) ∧
      (∀ key row, n.srv.metaTbl.lookup key = some row → row.status = .available →
        n.srv.view.parked key = []) ∧
      (∀ key, ∀ w ∈ n.srv.view.parked key, ⟨w.tref, key, w.frm⟩ ∈ n.mail.timers) ∧
      (∀ f key, (f, key) ∈ n.asked → (∀ t ∈ n.mail.timers, t.frm ≠ f) →
        n.mail.repliesTo f = 1) := by
  obtain ⟨-, hserves, hanswer⟩ := run_serves deps files ns hns
  refine ⟨_, rfl, ?_, hanswer, hserves.waiting.idle, hserves.waiting.timed, ?_⟩
  · intro f key hasked
    by_cases hw : ∃ k, ∃ w ∈ (run (netStep deps) (Net.init files) ns).srv.view.parked k, w.frm = f
    · obtain ⟨k, w, hw, rfl⟩ := hw
      obtain rfl := hserves.tagged.key_unique (hserves.waiting.asks k w hw) hasked
      exact Or.inl ⟨⟨w, hw, rfl⟩, hserves.waiting.unanswered k w hw⟩
    · have hnot : ∀ k, ∀ w ∈ (run (netStep deps) (Net.init files) ns).srv.view.parked k,
          w.frm ≠ f := fun k w hk hfrm => hw ⟨k, w, hk, hfrm⟩
      exact Or.inr ⟨hnot, hserves.waiting.answered f (hserves.tagged.calls _ hasked) hnot⟩
  · intro f key hasked hnone
    refine hserves.waiting.answered f (hserves.tagged.calls _ hasked) fun k w hw => ?_
    exact hnone _ (hserves.waiting.timed k w hw)

/-- A lookup waits for a save, its timer fires while the row is announced, and the expiry
    message is handled afterwards; a second lookup waits for a save that never ends. -/
def lateExpiry : List NetEvent :=
  [.handle ⟨steadyEnv, 0, .reserveSave (.fill 1) .disk 7⟩ fun _ => false,
   .handle ⟨steadyEnv, 1, .lookupOrWait (.fill 1) 50⟩ fun _ => false,
   .handle ⟨steadyEnv, 2, .reserveSave (.fill 2) .disk 7⟩ fun _ => false,
   .handle ⟨steadyEnv, 3, .lookupOrWait (.fill 2) 50⟩ fun _ => false,
   .handle ⟨steadyEnv, 4, .announceSaved (.fill 1) 1 5 [] none 0⟩ fun _ => true,
   .expire steadyEnv 2,
   .expire steadyEnv 5]

/-- The first lookup got the row and no second reply, the other one a miss. -/
theorem lateExpiry_answered :
    (callers lateExpiry).Nodup ∧
      (run (netStep noFileDeps) (Net.init fun _ => none) lateExpiry).mail.repliesTo 1 = 1 ∧
      (run (netStep noFileDeps) (Net.init fun _ => none) lateExpiry).mail.repliesTo 3 = 1 ∧
      (3, .miss) ∈ (run (netStep noFileDeps) (Net.init fun _ => none) lateExpiry).mail.replies := by
  have hcallers : (callers lateExpiry).Nodup := by decide
  obtain ⟨n, rfl, -, -, -, -, hanswered⟩ :=
    run_waitersAnswered noFileDeps (fun _ => none) lateExpiry hcallers
  have hasked : (run (netStep noFileDeps) (Net.init fun _ => none) lateExpiry).asked =
      [(1, .fill 1), (3, .fill 2)] := by decide
  have htimers : (run (netStep noFileDeps) (Net.init fun _ => none) lateExpiry).mail.timers =
      [] := by decide
  rw [hasked, htimers] at hanswered
  refine ⟨hcallers, hanswered 1 (.fill 1) ?_ nofun, hanswered 3 (.fill 2) ?_ nofun, by decide⟩
  · exact List.mem_cons_self
  · exact List.mem_cons_of_mem _ List.mem_cons_self

end Erllama.MetaSrv
