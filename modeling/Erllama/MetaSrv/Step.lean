import Erllama.MetaSrv.State
import Mathlib.Data.List.Sort

namespace Erllama.MetaSrv

open Lib

/-!
# The meta server's callbacks

Each `handle_call`, `handle_cast` and `handle_info` clause of `erllama_cache_meta_srv` is a
function on `State`; `step` dispatches a message to its clause.  A callback that reads the
clock several times reads `env.monotonicNs` at successive positions.

* `installAvailableRow`, `createReservation`, `cleanupByStage`, `adoptRow` — the writers of
  the meta row of a key.
* `tryEvictOne`, `runEviction`, `runEvictionBytes` — the two eviction passes.
* `step` — one message.
-/

variable (deps : Deps) (env : Env)

/-! ### Checkout, refcounts and pins -/

/-- `persist_hits/2`. -/
def persistHits (loc : Location) (hits : Nat) (s : State) : State :=
  match loc with
  | .disk (some p)    => touchHits env p hits s
  | .ramFile (some p) => touchHits env p hits s
  | _                 => s

/-- `do_checkout/4`: move the LRU entry to now, count the hit and the reader, and record
    the holder. -/
def doCheckout (key : CacheKey) (pid : Pid) (row : Row) (frm : From) (s : State) : State :=
  let monRef := s.nextRef
  let nowNs := env.monotonicNs s.reads
  let newHits := row.hits + 1
  let s := persistHits env row.location newHits s
  { s.readClock with
    nextRef := s.nextRef + 1
    -- the entry moves to the end of the LRU order
    lru := insert (toLex (nowNs, key)) (s.lru.erase (toLex (row.lastUsed, key)))
    metaTbl := s.metaTbl.insert key
      { row with hits := newHits, refcount := row.refcount + 1, lastUsed := nowNs }
    holders := s.holders.insert monRef (pid, key) }.emit
    (.reply frm (.checkedOut monRef row.tier row.location row.headerBin row.tokensRef))

/-- `decrement_refcount/1`: the counter saturates at zero; a missing row is ignored. -/
def decrementRefcount (key : CacheKey) (s : State) : State :=
  { s with metaTbl := s.metaTbl.update key fun r => { r with refcount := r.refcount - 1 } }

/-- `set_pinned_flag/2`. -/
def setPinnedFlag (key : CacheKey) (b : Bool) (s : State) : State :=
  { s with metaTbl := s.metaTbl.update key fun r => { r with pinned := b } }

/-- `do_pin_row/3`: unpin the namespace's prior key, pin the new one, record it. -/
def doPinRow (ns : Digest) (key : CacheKey) (s : State) : State :=
  let s1 :=
    -- one pin for each namespace: the prior one goes
    match s.pinned.lookup ns with
    | none       => s
    | some other => if other = key then s else setPinnedFlag other false s
  let s2 := setPinnedFlag key true s1
  { s2 with pinned := s2.pinned.insert ns key }

/-- `maybe_restore_pin/2`: re-apply the pin flag of a key some namespace has pinned. -/
def maybeRestorePin (key : CacheKey) (s : State) : State :=
  if key ∈ s.pinned.values then setPinnedFlag key true s else s

/-- `hits_from_header/1`: the u32 at offset 12, or zero when the header is too short. -/
def hitsFromHeader (header : Bytes) : Nat :=
  match header.drop 12 with
  | b0 :: b1 :: b2 :: b3 :: _ => u32leValue b0 b1 b2 b3
  | _                         => 0

/-- `install_available_row/7`: drop the LRU entry of the row that is there, then write a
    fresh available row and its LRU entry. -/
def installAvailableRow (key : CacheKey) (tier : Tier) (size : Nat) (header : Bytes)
    (location : Location) (tokensBin : Option Bytes) (textBytes : Nat) (s : State) : State :=
  let nowNs := env.monotonicNs s.reads
  let lru :=
    match s.metaTbl.lookup key with
    -- a row that is overwritten leaves no entry behind
    | some old => s.lru.erase (toLex (old.lastUsed, key))
    | none     => s.lru
  let row : Row :=
    -- the counter and the pin start anew, also when the old row was held or pinned
    { tier := tier, size := size, lastUsed := nowNs, refcount := 0, status := .available,
      headerBin := header, location := location, tokensRef := tokensBin,
      hits := hitsFromHeader header, textBytes := textBytes, pinned := false }
  { s.readClock with
    metaTbl := s.metaTbl.insert key row
    lru := insert (toLex (nowNs, key)) lru }

/-! ### Waiters -/

/-- `lookup_row/1`, as the reply term. -/
def lookupRow (s : State) (key : CacheKey) : Reply :=
  match s.metaTbl.lookup key with
  | some row => .row row
  | none     => .miss

/-- `add_waiter/4`. -/
def addWaiter (key : CacheKey) (frm : From) (maxWaitMs : Nat) (s : State) : State :=
  let w : Waiter :=
    { frm := frm, expires := env.monotonicNs s.reads + maxWaitMs * 1000000, tref := s.nextRef }
  { s.readClock with
    nextRef := s.nextRef + 1
    waiters := s.waiters.insert key (w :: (s.waiters.lookup key).getD []) }.emit
    (.sendAfter w.tref maxWaitMs key frm)

/-- `notify_waiters/2`: cancel the timer of every waiter of the key and answer it with the
    row as it is now. -/
def notifyWaiters (key : CacheKey) (s : State) : State :=
  match s.waiters.lookup key with
  | none    => s
  | some ws =>
    let reply := lookupRow s key
    { s with
      waiters := s.waiters.erase key
      out := s.out ++ ws.flatMap fun w => [.cancelTimer w.tref, .reply w.frm reply] }

/-- `expire_waiter/3`: answer `miss` to the first waiter of that caller; nothing when a
    publish already answered it. -/
def expireWaiter (key : CacheKey) (frm : From) (s : State) : State :=
  let ws := (s.waiters.lookup key).getD []
  if ∃ w ∈ ws, w.frm = frm then
    let rest := ws.eraseP fun w => w.frm = frm
    let s := s.emit (.reply frm .miss)
    if rest = [] then { s with waiters := s.waiters.erase key }
    else { s with waiters := s.waiters.insert key rest }
  else s

/-! ### Reservations -/

/-- `?DEFAULT_TTL_NS`. -/
def defaultTtlNs : Int := 60 * 1000 * 1000 * 1000

/-- `location_for/2`. -/
def locationFor (tier : Tier) (path : Option Path) : Location :=
  match tier with
  | .ram     => .ram
  | .ramFile => .ramFile path
  | .disk    => .disk path

/-- `adopt_row/8`: install the available row, drop the reservation, answer the waiters. -/
def adoptRow (key : CacheKey) (tier : Tier) (path : Option Path) (size : Nat) (header : Bytes)
    (tokensBin : Option Bytes) (textBytes : Nat) (s : State) : State :=
  notifyWaiters key
    ((maybeRestorePin key
      (installAvailableRow env key tier size header (locationFor tier path) tokensBin
        textBytes s)).removeReservation key)

/-- What `validate_and_adopt/2` reads from a valid file. -/
structure Adopted where
  size : Nat
  header : Bytes
  tokensBin : Bytes
  textBytes : Nat

/-- `validate_and_adopt/2`: the linked file's facts if it parses as a checkpoint of the key. -/
def validateAndAdopt (key : CacheKey) (path : Option Path) (s : State) : Option Adopted :=
  (readFile env s path).bind fun bin =>
    (deps.parse bin key).map fun info =>
      { size := bin.length, header := bin.take 48, tokensBin := encodeTokens info.tokens,
        textBytes := info.promptText.length }

/-- `cleanup_by_stage/3`. -/
def cleanupByStage (key : CacheKey) (r : Reservation) (s : State) : State :=
  match r.stage with
  | .preLink  => (s.deleteRow key).removeReservation key
  | .postLink =>
    match validateAndAdopt deps env key r.path s with
    | some a => adoptRow env key r.tier r.path a.size a.header (some a.tokensBin) a.textBytes s
    | none   => ((deleteFile env key r.path s).deleteRow key).removeReservation key

/-- `reservation_is_live/1`: the writer is alive and, only then asked, the deadline is
    ahead. -/
def reservationIsLive (r : Reservation) (s : State) : Bool :=
  env.isProcessAlive r.writer && decide (env.monotonicNs s.reads < r.expiresNs)

/-- The state after `reservation_is_live/1`: the clock is read only for a live writer. -/
def afterIsLive (r : Reservation) (s : State) : State :=
  if env.isProcessAlive r.writer then s.readClock else s

/-- `create_reservation/4`: a fresh token and monitor, and a placeholder row that
    overwrites whatever row the key had. -/
def createReservation (key : CacheKey) (tier : Tier) (pid : Pid) (frm : From) (s : State) :
    State :=
  let monRef := s.nextRef
  -- one reference for the monitor and one for the caller
  let token := s.nextRef + 1
  let nowNs := env.monotonicNs s.reads
  let r : Reservation :=
    { writer := pid, token := token, monref := monRef, expiresNs := nowNs + defaultTtlNs,
      stage := .preLink, tier := tier, path := none }
  let placeholder : Row :=
    -- the row that others see while the file is written
    { tier := tier, size := 0, lastUsed := nowNs, refcount := 0, status := .writing,
      headerBin := [], location := .undefined, tokensRef := none, hits := 0, textBytes := 0,
      pinned := false }
  { s.readClock with
    nextRef := s.nextRef + 2
    metaTbl := s.metaTbl.insert key placeholder
    reservations := s.reservations.insert key r }.emit (.reply frm (.token token))

/-- `handle_existing_writing_row/4`. -/
def handleExistingWritingRow (key : CacheKey) (tier : Tier) (pid : Pid) (frm : From)
    (s : State) : State :=
  match s.reservations.lookup key with
  -- a placeholder whose reservation is gone
  | none     => createReservation env key tier pid frm (s.deleteRow key)
  | some old =>
    -- the writer lives and its deadline has not passed
    if reservationIsLive env old s then (afterIsLive env old s).emit (.reply frm .conflict)
    else
      -- the stale reservation is cleaned up before the new one is made
      createReservation env key tier pid frm
        (cleanupByStage deps env key old (afterIsLive env old s))

/-- `do_reserve_save/4`. -/
def doReserveSave (key : CacheKey) (tier : Tier) (pid : Pid) (frm : From) (s : State) : State :=
  match s.status key with
  | some .available => s.emit (.reply frm .alreadyPresent)
  | some .writing   => handleExistingWritingRow deps env key tier pid frm s
  | some .evicting  => s.emit (.reply frm .conflict)
  | none            => createReservation env key tier pid frm s

/-- The reservation of a key if its token is the one the caller presents. -/
def State.reservationWith (s : State) (key : CacheKey) (token : Ref) : Option Reservation :=
  (s.reservations.lookup key).filter fun r => r.token = token

/-- `find_reservation_by_monref/2`: the fold conses, so the last match comes first. -/
def findReservationByMonref (ref : Ref) (t : Table CacheKey Reservation) :
    Option (CacheKey × Reservation) :=
  ((t.entries.filter fun e => e.2.monref = ref).reverse.map fun e => (e.1, e.2)).head?

/-- `on_writer_down/2`. -/
def onWriterDown (ref : Ref) (s : State) : State :=
  match findReservationByMonref ref s.reservations with
  | some (key, r) => cleanupByStage deps env key r s
  | none          => s

/-- The reservations `sweep_reservations/1` calls stale, in the order it cleans them. -/
def staleReservations (now : Int) (t : Table CacheKey Reservation) :
    List (CacheKey × Reservation) :=
  (t.entries.filter fun e =>
    e.2.expiresNs ≤ now || !env.isProcessAlive e.2.writer).reverse.map fun e => (e.1, e.2)

/-- `sweep_reservations/1`. -/
def sweepReservations (s : State) : State :=
  (staleReservations env (env.monotonicNs s.reads) s.reservations).foldl
    (fun s e => cleanupByStage deps env e.1 e.2 s) s.readClock

/-! ### Eviction -/

/-- `tier_pred/1`; `none` is the atom `all`. -/
def tierPred (tiers : Option (List Tier)) (t : Tier) : Bool :=
  match tiers with
  | none    => true
  | some ts => t ∈ ts

/-- The two modes of `evictable_under/4`: full GC protects pinned rows and the live key,
    byte-targeted eviction may drop them as a last resort. -/
inductive EvictMode where
  | protect | allow
deriving DecidableEq

/-- `evictable_under/4`. -/
def evictableUnder (mode : EvictMode) (row : Row) (key : CacheKey) (liveKey : Option CacheKey) :
    Bool :=
  match mode with
  | .allow   => true
  | .protect => !row.pinned && some key ≠ liveKey

/-- `delete_from_tier/3`. -/
def deleteFromTier (tier : Tier) (key : CacheKey) (loc : Location) (s : State) : State :=
  match tier, loc with
  | .ram, _                 => s.emit (.deleteSlab key)
  | .disk, .disk path       => deleteFile env key path s
  | .ramFile, .ramFile path => deleteFile env key path s
  | _, _                    => s

/-- `try_evict_one/5`, whose tier predicate is constantly true at both call sites: `some size`
    for an evicted row, `none` for `skip` and `gone`. -/
def tryEvictOne (lruKey : LruKey) (key : CacheKey) (liveKey : Option CacheKey)
    (mode : EvictMode) (s : State) : Option Nat × State :=
  match s.metaTbl.lookup key with
  -- the row went without its LRU entry
  | none     => (none, { s with lru := s.lru.erase lruKey })
  | some row =>
    if row.status = .available ∧ row.refcount = 0 ∧ evictableUnder mode row key liveKey then
      let s := deleteFromTier env row.tier key row.location s
      (some row.size, { s.deleteRow key with lru := s.lru.erase lruKey })
    else (none, s)

/-- `ets:first/1` on the LRU table. -/
def lruFirst (t : Finset LruKey) : Option LruKey :=
  if h : t.Nonempty then some (t.min' h) else none

/-- `ets:next/2` on the LRU table: the least entry above `k`, also when `k` has left. -/
def lruNext (t : Finset LruKey) (k : LruKey) : Option LruKey :=
  lruFirst (t.filter (k < ·))

/-- `run_eviction/3`: walk the LRU table in order; the successor is taken before the entry
    may be deleted.  Every step moves to a larger entry, so the number of entries bounds
    the walk. -/
def runEvictionFrom : Nat → Option LruKey → Option CacheKey → Nat → State → Nat × State
  | 0,        _,           _,       n, s => (n, s)
  | _ + 1,    none,        _,       n, s => (n, s)
  | fuel + 1, some lruKey, liveKey, n, s =>
    -- `ets:next/2` before the entry may be deleted
    let next := lruNext s.lru lruKey
    match tryEvictOne env lruKey (ofLex lruKey).2 liveKey .protect s with
    | (some _, s1) => runEvictionFrom fuel next liveKey (n + 1) s1
    | (none, s1)   => runEvictionFrom fuel next liveKey n s1

/-- `run_eviction/1`, the full pass behind `gc/0`. -/
def runEviction (liveKey : Option CacheKey) (s : State) : Nat × State :=
  runEvictionFrom env (s.lru.card + 1) (lruFirst s.lru) liveKey 0 s

/-- `eviction_score/3`: `{ProtRank, Frecency}`, lower goes first. -/
def evictionScore (key : CacheKey) (row : Row) (liveKey : Option CacheKey) (now : Int) :
    Nat ×ₗ Int :=
  let isProtected := row.pinned || some key = liveKey
  let age := max (now - row.lastUsed) 0
  toLex (if isProtected then 1 else 0, row.lastUsed + deps.hitBias row.hits age)

/-- A candidate of byte-targeted eviction: `{Score, Key, LruKey}`. -/
structure Candidate where
  score : Nat ×ₗ Int
  key : CacheKey
  lruKey : LruKey

/-- `eviction_candidates/3`: the fold over the table conses. -/
def evictionCandidates (tiers : Option (List Tier)) (liveKey : Option CacheKey) (now : Int)
    (s : State) : List Candidate :=
  ((s.metaTbl.entries.filter fun e =>
      e.2.status = .available ∧ e.2.refcount = 0 ∧ tierPred tiers e.2.tier = true).map fun e =>
    { score := evictionScore deps e.1 e.2 liveKey now, key := e.1,
      lruKey := toLex (e.2.lastUsed, e.1) }).reverse

/-- `evict_sorted/4`: stop as soon as the target is freed. -/
def evictSorted : List Candidate → Nat → Nat → Nat → State → (Nat × Nat) × State
  | [],        _,      n, bytes, s => ((n, bytes), s)
  | c :: rest, target, n, bytes, s =>
    -- enough was freed
    if target ≤ bytes ∧ 0 < target then ((n, bytes), s)
    else
      match tryEvictOne env c.lruKey c.key none .allow s with
      | (some b, s1) => evictSorted rest target (n + 1) (bytes + b) s1
      | (none, s1)   => evictSorted rest target n bytes s1

/-- `run_eviction_bytes/3`. -/
def runEvictionBytes (target : Nat) (tiers : Option (List Tier)) (liveKey : Option CacheKey)
    (s : State) : (Nat × Nat) × State :=
  let now := env.monotonicNs s.reads
  let s := s.readClock
  let sorted := (evictionCandidates deps tiers liveKey now s).insertionSort
    fun a b => a.score ≤ b.score
  evictSorted env sorted target 0 0 s

/-! ### Messages -/

/-- What the server can receive, and the one thing that happens beside it: another process
    changes the files. -/
inductive Msg where
  | checkout (key : CacheKey) (pid : Pid)
  | checkin (monRef : Ref)
  | lookupOrWait (key : CacheKey) (maxWaitMs : Nat)
  | reserveSave (key : CacheKey) (tier : Tier) (pid : Pid)
  | checkReservation (key : CacheKey) (token : Ref)
  | markPublished (key : CacheKey) (token : Ref) (path : Path)
  | announceSaved (key : CacheKey) (token : Ref) (size : Nat) (header : Bytes)
      (tokensBin : Option Bytes) (textBytes : Nat)
  | cancelReservation (key : CacheKey) (token : Ref)
  | insertAvailable (key : CacheKey) (tier : Tier) (size : Nat) (header : Bytes)
      (location : Location) (tokensBin : Option Bytes) (textBytes : Nat)
  | pinRow (ns : Digest) (key : CacheKey)
  | gc
  | evictBytes (target : Nat) (tiers : Option (List Tier))
  | setLiveKey (key : Option CacheKey)
  | down (ref : Ref)
  | waiterExpire (key : CacheKey) (frm : From)
  | sweep
  | filesChange (files : Files)

/-- One message from `frm`, handled in the environment of its callback. -/
structure Event where
  env : Env
  frm : From
  msg : Msg

/-- `handle_call({checkout, Key, Pid}, ...)`. -/
def handleCheckout (key : CacheKey) (pid : Pid) (frm : From) (s : State) : State :=
  match s.metaTbl.lookup key with
  | none     => s.emit (.reply frm .miss)
  | some row =>
    if row.status = .available then doCheckout env key pid row frm s
    else s.emit (.reply frm .busy)

/-- `handle_call({checkin, MonRef}, ...)`. -/
def handleCheckin (monRef : Ref) (frm : From) (s : State) : State :=
  match s.holders.lookup monRef with
  -- a second checkin of one reference changes nothing
  | none          => s.emit (.reply frm .ok)
  | some (_, key) =>
    (decrementRefcount key { s with holders := s.holders.erase monRef }).emit (.reply frm .ok)

/-- `handle_call({lookup_or_wait, Key, MaxWaitMs}, ...)`. -/
def handleLookupOrWait (key : CacheKey) (maxWaitMs : Nat) (frm : From) (s : State) : State :=
  match s.metaTbl.lookup key with
  | none     => s.emit (.reply frm .miss)
  | some row =>
    match row.status with
    | .available => s.emit (.reply frm (.row row))
    | .writing   =>
      -- only a row that is being written is worth the wait
      if 0 < maxWaitMs then addWaiter env key frm maxWaitMs s else s.emit (.reply frm .miss)
    | .evicting  => s.emit (.reply frm .miss)

/-- `handle_call({check_reservation, Key, Token}, ...)`: a valid token renews the deadline. -/
def handleCheckReservation (key : CacheKey) (token : Ref) (frm : From) (s : State) : State :=
  match s.reservationWith key token with
  | none   => s.emit (.reply frm .expired)
  | some r =>
    { s.readClock with
      reservations := s.reservations.insert key
        { r with expiresNs := env.monotonicNs s.reads + defaultTtlNs } }.emit (.reply frm .ok)

/-- `handle_call({mark_published, Key, Token, Path}, ...)`. -/
def handleMarkPublished (key : CacheKey) (token : Ref) (path : Path) (frm : From) (s : State) :
    State :=
  match s.reservationWith key token with
  | none   => s.emit (.reply frm .expired)
  | some r =>
    { s.readClock with
      reservations := s.reservations.insert key
        { r with stage := .postLink, path := some path,
                 expiresNs := env.monotonicNs s.reads + defaultTtlNs } }.emit (.reply frm .ok)

/-- `handle_call({announce_saved, ...}, ...)`: the monitor is dropped and the row adopted
    under the reservation's own tier and path. -/
def handleAnnounceSaved (key : CacheKey) (token : Ref) (size : Nat) (header : Bytes)
    (tokensBin : Option Bytes) (textBytes : Nat) (frm : From) (s : State) : State :=
  match s.reservationWith key token with
  -- the reservation was taken over, swept or cancelled
  | none   => s.emit (.reply frm .expired)
  | some r => (adoptRow env key r.tier r.path size header tokensBin textBytes s).emit
      (.reply frm .ok)

/-- `handle_call({cancel_reservation, Key, Token}, ...)`: the row is deleted whatever its
    status. -/
def handleCancelReservation (key : CacheKey) (token : Ref) (frm : From) (s : State) : State :=
  match s.reservationWith key token with
  | none   => s.emit (.reply frm .ok)
  -- the row goes with the reservation, even if it is available by now
  | some _ => ((s.deleteRow key).removeReservation key).emit (.reply frm .ok)

/-- `handle_call({insert_available, ...}, ...)`. -/
def handleInsertAvailable (key : CacheKey) (tier : Tier) (size : Nat) (header : Bytes)
    (location : Location) (tokensBin : Option Bytes) (textBytes : Nat) (frm : From)
    (s : State) : State :=
  (notifyWaiters key (maybeRestorePin key
    (installAvailableRow env key tier size header location tokensBin textBytes s))).emit
    (.reply frm .ok)

/-- `handle_info({'DOWN', Ref, ...}, ...)`: a holder gives its claim back, else the writer of
    a reservation died. -/
def handleDown (ref : Ref) (s : State) : State :=
  match s.holders.lookup ref with
  | some (_, key) => decrementRefcount key { s with holders := s.holders.erase ref }
  | none          => onWriterDown deps env ref s

/-- One message, handled by its clause. -/
def step (s : State) (e : Event) : State :=
  let s := s.startCallback
  match e.msg with
  | .checkout key pid             => handleCheckout e.env key pid e.frm s
  | .checkin monRef               => handleCheckin monRef e.frm s
  | .lookupOrWait key ms          => handleLookupOrWait e.env key ms e.frm s
  | .reserveSave key tier pid     => doReserveSave deps e.env key tier pid e.frm s
  | .checkReservation key token   => handleCheckReservation e.env key token e.frm s
  | .markPublished key token path => handleMarkPublished e.env key token path e.frm s
  | .announceSaved key token size header tokensBin textBytes =>
    handleAnnounceSaved e.env key token size header tokensBin textBytes e.frm s
  | .cancelReservation key token  => handleCancelReservation key token e.frm s
  | .insertAvailable key tier size header location tokensBin textBytes =>
    handleInsertAvailable e.env key tier size header location tokensBin textBytes e.frm s
  | .pinRow ns key                => (doPinRow ns key s).emit (.reply e.frm .ok)
  -- pinned rows and the live key stay
  | .gc =>
    let r := runEviction e.env s.liveKey s
    r.2.emit (.reply e.frm (.evicted r.1))
  -- a target of zero evicts nothing here; pinned rows go last
  | .evictBytes target tiers =>
    if target = 0 then s.emit (.reply e.frm (.evictedBytes 0 0))
    else
      let r := runEvictionBytes deps e.env target tiers s.liveKey s
      r.2.emit (.reply e.frm (.evictedBytes r.1.1 r.1.2))
  | .setLiveKey key               => { s with liveKey := key }
  | .down ref                     => handleDown deps e.env ref s
  | .waiterExpire key frm         => expireWaiter key frm s
  | .sweep                        => sweepReservations deps e.env s
  | .filesChange files            => { s with files := files }

end Erllama.MetaSrv
