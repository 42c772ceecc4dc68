import Erllama.CacheKey
import Erllama.Lib.Table
import Mathlib.Data.Finset.Max
import Mathlib.Data.Prod.Lex

namespace Erllama.MetaSrv

open Lib

/-!
# The meta server's state (`erllama_cache_meta_srv`)

The server is the sole writer of two ETS tables and keeps four maps of its own.

* `Row` — a row of `erllama_cache_meta`, without its key (`include/erllama_cache.hrl`).
* `LruKey` — a key of the ordered set `erllama_cache_lru`, `{LastUsedNs, cache_key}`.
* `Reservation`, `Waiter` — the in-flight save of a key and a parked lookup.
* `State` — tables, maps, and the files the server reads, rewrites and deletes.
* `Env` — what the runtime answers while one callback runs.
* `Out` — what a callback does to the outside: replies, timers, deletions.
-/

/-- The status of a meta row. -/
inductive Status where
  | writing | available | evicting
deriving DecidableEq

/-- `?POS_LOCATION`: where the payload is.  A path is missing when a reservation is
    announced without having been marked published. -/
inductive Location where
  | undefined
  | ram
  | ramFile (path : Option Path)
  | disk (path : Option Path)
deriving DecidableEq

/-- A row of the meta table; its key is the key of the table entry. -/
structure Row where
  tier : Tier
  size : Nat
  lastUsed : Int
  refcount : Nat
  status : Status
  headerBin : Bytes
  location : Location
  tokensRef : Option Bytes
  hits : Nat
  textBytes : Nat
  pinned : Bool
deriving DecidableEq

/-- A key of the LRU table.  Erlang orders the tuples by time, then by key. -/
abbrev LruKey := Int ×ₗ CacheKey

/-- The stage of a reservation: a writer that died before `link/2` left no file, one
    that died after it may have left a valid one. -/
inductive Stage where
  | preLink | postLink
deriving DecidableEq

/-- `#reservation{}`. -/
structure Reservation where
  writer : Pid
  token : Ref
  monref : Ref
  expiresNs : Int
  stage : Stage
  tier : Tier
  path : Option Path
deriving DecidableEq

/-- The caller of a `gen_server:call`. -/
abbrev From := Nat

/-- One entry of the waiters map: `{From, Expires, TRef}`. -/
structure Waiter where
  frm : From
  expires : Int
  tref : Ref
deriving DecidableEq

/-- Every term the server replies with. -/
inductive Reply where
  | ok
  | token (t : Ref)
  | checkedOut (monRef : Ref) (tier : Tier) (loc : Location) (header : Bytes)
      (tokens : Option Bytes)
  | row (r : Row)
  | miss
  | busy
  | alreadyPresent
  | conflict
  | expired
  | evicted (n : Nat)
  | evictedBytes (n bytes : Nat)
deriving DecidableEq

/-- An effect of a callback outside the server's own state. -/
inductive Out where
  | reply (frm : From) (r : Reply)
  | sendAfter (tref : Ref) (ms : Nat) (key : CacheKey) (frm : From)
  | cancelTimer (tref : Ref)
  | deleteSlab (key : CacheKey)
  | deleteFile (key : CacheKey) (path : Path)
deriving DecidableEq

/-- The contents of the files the server can name. -/
abbrev Files := Path → Option Bytes

/-- The server's state: the two ETS tables, the maps of `#state{}`, the next fresh
    reference, the number of clock readings so far, the file system, and the effects of
    the callback that runs. -/
structure State where
  metaTbl : Table CacheKey Row
  lru : Finset LruKey
  holders : Table Ref (Pid × CacheKey)
  reservations : Table CacheKey Reservation
  waiters : Table CacheKey (List Waiter)
  pinned : Table Digest CacheKey
  liveKey : Option CacheKey
  nextRef : Ref
  reads : Nat
  files : Files
  out : List Out

/-- `init/1`: empty tables over the files that are there. -/
def State.init (files : Files) : State where
  metaTbl := ∅
  lru := ∅
  holders := ∅
  reservations := ∅
  waiters := ∅
  pinned := ∅
  liveKey := none
  nextRef := 0
  reads := 0
  files := files
  out := []

/-- The file operations whose failure the server tolerates. -/
inductive FileOp where
  | read | delete | openFile
deriving DecidableEq

/-- What the runtime answers during one callback: the `n`-th reading of the monotonic
    clock, which processes are alive, and which file operations fail. -/
structure Env where
  monotonicNs : Nat → Int
  isProcessAlive : Pid → Bool
  fails : FileOp → Path → Bool

/-- What a parsed checkpoint tells the server (`erllama_cache_kvc:parse/2`). -/
structure KvcInfo where
  tokens : List Token
  promptText : Bytes

/-- The code the server calls and whose result it only passes on: the checkpoint parser,
    and the floating-point term `round(Hits * ?HIT_BONUS_NS * Decay)` of the frecency
    score as a function of the hits and the age. -/
structure Deps where
  parse : Bytes → CacheKey → Option KvcInfo
  hitBias : Nat → Int → Int

/-! ### Small operations on the state -/

/-- Record an effect. -/
def State.emit (s : State) (o : Out) : State := { s with out := s.out ++ [o] }

/-- A callback starts: the effects of the one before are done. -/
def State.startCallback (s : State) : State := { s with out := [] }

/-- Count one reading of the clock. -/
def State.readClock (s : State) : State := { s with reads := s.reads + 1 }

/-- `ets:delete(?TBL_META, Key)`. -/
def State.deleteRow (s : State) (key : CacheKey) : State :=
  { s with metaTbl := s.metaTbl.erase key }

/-- `maps:remove(Key, S#state.reservations)`. -/
def State.removeReservation (s : State) (key : CacheKey) : State :=
  { s with reservations := s.reservations.erase key }

/-- The status column of a key, if it has a row. -/
def State.status (s : State) (key : CacheKey) : Option Status :=
  (s.metaTbl.lookup key).map Row.status

/-- `file:read_file/1`. -/
def readFile (env : Env) (s : State) (path : Option Path) : Option Bytes :=
  path.bind fun p => if env.fails .read p then none else s.files p

/-- `file:delete/1` of the file that belongs to `key`. -/
def deleteFile (env : Env) (key : CacheKey) (path : Option Path) (s : State) : State :=
  match path with
  | none   => s
  | some p =>
    { s with files := if env.fails .delete p then s.files else Function.update s.files p none }.emit
      (.deleteFile key p)

/-- `prim_file:pwrite/3` at an offset: missing bytes before it read as zero. -/
def writeAt (offset : Nat) (data file : Bytes) : Bytes :=
  (file.take offset ++ List.replicate (offset - file.length) 0) ++ data ++
    file.drop (offset + data.length)

/-- `erllama_cache_disk_srv:touch_hits/2`: rewrite the four hit-count bytes in place,
    creating the file when it is gone; a failing open is ignored. -/
def touchHits (env : Env) (path : Path) (hits : Nat) (s : State) : State :=
  if env.fails .openFile path then s
  else
    { s with
      files := Function.update s.files path
        (some (writeAt 12 (u32le hits) ((s.files path).getD []))) }

end Erllama.MetaSrv
