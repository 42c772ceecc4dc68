import Erllama.Kvc.HitCount
import Erllama.Lib.Prog
import Erllama.MetaSrv.Moves

namespace Erllama.Publish

open Lib MetaSrv Kvc

/-!
# Saving and loading a checkpoint (`erllama_cache_disk_srv`, `erllama_cache_writer`)

A save builds the file under a temporary name, asks the meta server whether it may still
publish, links the file to its final name, checks it there, and announces it.  A load reads
the final name under a checkout.  Both are sequential programs over file operations and calls
of the meta server; other processes run between any two of them.

* `finalPath`, `tmpPath` — the two names of a checkpoint, and that they never meet.
* `Act`, `perform` — the actions, with the ways each may fail.
* `writeTmp`, `publish`, `doSave` — the writer.
* `doLoad`, `pinAndLoad` — the reader.
-/

/-! ### File names -/

/-- A lower-case hexadecimal digit. -/
def hexDigit (n : Nat) : UInt8 := if n < 10 then UInt8.ofNat (48 + n) else UInt8.ofNat (87 + n)

/-- `bin_to_hex/1`. -/
def binToHex (bin : Bytes) : Bytes :=
  bin.flatMap fun b => [hexDigit (b.toNat / 16), hexDigit (b.toNat % 16)]

/-- `integer_to_list/1` of a non-negative integer. -/
def integerToList (n : Nat) : Bytes := (Nat.toDigits 10 n).map fun c => UInt8.ofNat c.toNat

/-- `writer_suffix/0`: the writer's pid, `<0.P.0>`, and a unique integer. -/
def writerSuffix (pid : Pid) (unique : Nat) : Bytes :=
  [60, 48, 46] ++ integerToList pid ++ [46, 48, 62] ++ [46] ++ integerToList unique

/-- `".kvc"`. -/
def kvcSuffix : Bytes := [46, 107, 118, 99]

/-- `".tmp"`. -/
def tmpSuffix : Bytes := [46, 116, 109, 112]

/-- `filename:join(Root, HexKey ++ ".kvc")`. -/
def finalPath (root : Path) (key : CacheKey) : Path :=
  root ++ [47] ++ binToHex key.bytes ++ kvcSuffix

/-- The temporary name of a save. -/
def tmpPath (root : Path) (key : CacheKey) (pid : Pid) (unique : Nat) : Path :=
  finalPath root key ++ [46] ++ writerSuffix pid unique ++ tmpSuffix

/-- A final name ends in `c`. -/
theorem getLast_finalPath (root : Path) (key : CacheKey) :
    (finalPath root key).getLast? = some 99 :=
  List.getLast?_append_of_ne_nil _ (by simp [kvcSuffix])

/-- A hexadecimal digit tells its number. -/
theorem hexDigit_inj {a b : Nat} (ha : a < 16) (hb : b < 16) (h : hexDigit a = hexDigit b) :
    a = b := by
  have hall : ∀ x < 16, ∀ y < 16, hexDigit x = hexDigit y → x = y := by decide
  exact hall a ha b hb h

/-- A byte is two digits. -/
@[simp] theorem length_binToHex (bin : Bytes) : (binToHex bin).length = 2 * bin.length := by
  induction bin with
  | nil => rfl
  | cons b bin ih =>
    rw [binToHex, List.flatMap_cons, List.length_append]
    show 2 + (binToHex bin).length = _
    rw [ih, List.length_cons]
    omega

/-- The digits tell the bytes. -/
theorem binToHex_injective : Function.Injective binToHex := by
  intro a b h
  induction a generalizing b with
  | nil =>
    cases b with
    | nil      => rfl
    | cons c b => cases h
  | cons x a ih =>
    cases b with
    | nil      => cases h
    | cons y b =>
      obtain ⟨hhigh, htail⟩ := List.cons.inj h
      obtain ⟨hlow, hrest⟩ := List.cons.inj htail
      have hx := x.toNat_lt
      have hy := y.toNat_lt
      have hdiv := hexDigit_inj (by omega) (by omega) hhigh
      have hmod := hexDigit_inj (by omega) (by omega) hlow
      have hxy : x = y := UInt8.toNat_inj.mp (by omega)
      rw [hxy, ih hrest]

/-- The digits of an integer are read back, and none of them is a dot. -/
theorem integerToList_injective : Function.Injective integerToList := by
  have hchars : ∀ n, (integerToList n).map (fun b => Char.ofNat b.toNat) = Nat.toDigits 10 n := by
    intro n
    rw [integerToList, List.map_map]
    refine (List.map_congr_left fun c hc => ?_).trans (List.map_id _)
    have hdigit := Nat.isDigit_of_mem_toDigits (by omega) (by omega) hc
    simp only [Char.isDigit, Bool.and_eq_true, decide_eq_true_eq] at hdigit
    have hlt : c.toNat < 2 ^ 8 := by
      have hle : c.toNat ≤ 57 := UInt32.le_iff_toNat_le.mp hdigit.2
      omega
    simp only [Function.comp_apply, UInt8.toNat_ofNat', Nat.mod_eq_of_lt hlt, id_eq]
    exact Char.ofNat_toNat c
  intro n n' h
  have hdigits : Nat.toDigits 10 n = Nat.toDigits 10 n' := by rw [← hchars, ← hchars, h]
  rw [← Nat.ofDigitChars_ten_toDigits (n := n), hdigits, Nat.ofDigitChars_ten_toDigits]

/-- A number has no dot in it. -/
theorem dot_not_mem_integerToList (n : Nat) : (46 : UInt8) ∉ integerToList n := by
  intro h
  obtain ⟨c, hc, heq⟩ := List.mem_map.mp h
  have hdigit := Nat.isDigit_of_mem_toDigits (by omega) (by omega) hc
  simp only [Char.isDigit, Bool.and_eq_true, decide_eq_true_eq] at hdigit
  have hle : c.toNat ≤ 57 := UInt32.le_iff_toNat_le.mp hdigit.2
  have hge : 48 ≤ c.toNat := UInt32.le_iff_toNat_le.mp hdigit.1
  have hnat := congrArg UInt8.toNat heq
  rw [UInt8.toNat_ofNat', Nat.mod_eq_of_lt (by omega)] at hnat
  have h46 : (46 : UInt8).toNat = 46 := rfl
  omega

/-- What follows the last dot is determined. -/
theorem append_dot_inj {a a' d d' : Bytes} (hd : (46 : UInt8) ∉ d) (hd' : (46 : UInt8) ∉ d')
    (h : a ++ 46 :: d = a' ++ 46 :: d') : d = d' := by
  rcases List.append_eq_append_iff.mp h with ⟨c, -, hc⟩ | ⟨c, -, hc⟩
  · cases c with
    | nil      => exact (List.cons.inj hc).2
    | cons x c =>
      have hmem : (46 : UInt8) ∈ d := by
        rw [(List.cons.inj hc).2]
        simp
      exact absurd hmem hd
  · cases c with
    | nil      => exact (List.cons.inj hc).2.symm
    | cons x c =>
      have hmem : (46 : UInt8) ∈ d' := by
        rw [(List.cons.inj hc).2]
        simp
      exact absurd hmem hd'

/-- The length of a final path. -/
@[simp] theorem length_finalPath (root : Path) (key : CacheKey) :
    (finalPath root key).length = root.length + 69 := by
  simp [finalPath, kvcSuffix, key.size_eq]

/-- A final path tells its key. -/
theorem finalPath_inj {root : Path} {key key' : CacheKey} :
    finalPath root key = finalPath root key' ↔ key = key' := by
  constructor
  · intro h
    simp only [finalPath, List.append_assoc, List.append_cancel_left_eq] at h
    have hhex := List.append_cancel_right h
    exact Digest.bytes_injective (binToHex_injective hhex)
  · rintro rfl
    rfl

/-- A temporary name is no final name. -/
theorem tmpPath_ne_finalPath (root : Path) (key key' : CacheKey) (pid : Pid) (unique : Nat) :
    tmpPath root key pid unique ≠ finalPath root key' := by
  intro h
  have hlen := congrArg List.length h
  simp only [tmpPath, List.length_append, length_finalPath, tmpSuffix, List.length_cons] at hlen
  omega

/-- Two saves never share a temporary name. -/
theorem tmpPath_unique {root : Path} {key key' : CacheKey} {pid pid' : Pid}
    {unique unique' : Nat} (h : tmpPath root key pid unique = tmpPath root key' pid' unique') :
    unique = unique' := by
  simp only [tmpPath, List.append_assoc] at h
  obtain ⟨-, hrest⟩ := List.append_inj h (by rw [length_finalPath, length_finalPath])
  simp only [← List.append_assoc] at hrest
  have hsuffix : [60, 48, 46] ++ integerToList pid ++ [46, 48, 62] ++ 46 :: integerToList unique =
      [60, 48, 46] ++ integerToList pid' ++ [46, 48, 62] ++ 46 :: integerToList unique' := by
    have hcut := List.append_cancel_right hrest
    simpa [writerSuffix] using hcut
  exact integerToList_injective
    (append_dot_inj (dot_not_mem_integerToList _) (dot_not_mem_integerToList _) hsuffix)

/-! ### Actions -/

/-- The file errors the code tells apart. -/
inductive Posix where
  | enoent | eexist | other
deriving DecidableEq

/-- What a save or a load does at one point: a call of the meta server, or one file operation. -/
inductive Act where
  | call (msg : Msg)
  | openExclusive (p : Path)
  | write (p : Path) (data : Bytes)
  | datasync (p : Path)
  | makeLink (src dst : Path)
  | delete (p : Path)
  | readFile (p : Path)
  | readFileInfo (p : Path)
  | fsyncDir (root : Path)

/-- What an action is answered with. -/
@[reducible] def Act.Ans : Act → Type
  | .call _         => Option Reply
  | .readFile _     => Except Posix Bytes
  | .readFileInfo _ => Except Posix Nat
  | .openExclusive _ | .write _ _ | .datasync _ | .makeLink _ _ | .delete _ | .fsyncDir _ =>
    Except Posix Unit

/-- How an operation fails: not at all, or with an I/O error after `kept` bytes were written. -/
structure Fault where
  fails : Bool
  kept : Nat
deriving DecidableEq

/-- Put a file in place, or remove it. -/
def setFile (p : Path) (content : Option Bytes) (s : State) : State :=
  { s with files := Function.update s.files p content }

/-- One action, performed by the process `frm`.  A link is a second name of the same content,
    since nobody writes to a temporary file once it is linked.  Syncs change no content. -/
def perform (deps : Deps) (env : Env) (frm : From) (fault : Fault) :
    (a : Act) → State → a.Ans × State
  | .call msg, s =>
    let s' := step deps s ⟨env, frm, msg⟩
    (s'.answer, s')
  -- `[exclusive]`: an existing file is an error
  | .openExclusive p, s =>
    if fault.fails then (.error .other, s)
    else
      match s.files p with
      | some _ => (.error .eexist, s)
      | none   => (.ok (), setFile p (some []) s)
  -- a write that fails leaves some of its bytes
  | .write p data, s =>
    match s.files p with
    | none   => (if fault.fails then .error .other else .ok (), s)
    | some _ =>
      if fault.fails then (.error .other, setFile p (some (data.take fault.kept)) s)
      else (.ok (), setFile p (some data) s)
  -- a hard link never replaces a file
  | .makeLink src dst, s =>
    if fault.fails then (.error .other, s)
    else
      match s.files src, s.files dst with
      | none, _          => (.error .enoent, s)
      | some _, some _   => (.error .eexist, s)
      | some bin, none   => (.ok (), setFile dst (some bin) s)
  | .delete p, s =>
    if fault.fails then (.error .other, s)
    else
      match s.files p with
      | none   => (.error .enoent, s)
      | some _ => (.ok (), setFile p none s)
  | .readFile p, s =>
    if fault.fails then (.error .other, s)
    else
      match s.files p with
      | none     => (.error .enoent, s)
      | some bin => (.ok bin, s)
  | .readFileInfo p, s =>
    if fault.fails then (.error .other, s)
    else
      match s.files p with
      | none     => (.error .enoent, s)
      | some bin => (.ok bin.length, s)
  | .datasync _, s => (if fault.fails then .error .other else .ok (), s)
  | .fsyncDir _, s => (if fault.fails then .error .other else .ok (), s)

/-- A program of the cache. -/
abbrev Program (β : Type) := Prog Act Act.Ans β

def call (msg : Msg) : Program (Option Reply) := Prog.perform (Act.call msg)
def openExclusive (p : Path) : Program (Except Posix Unit) := Prog.perform (Act.openExclusive p)
def write (p : Path) (data : Bytes) : Program (Except Posix Unit) :=
  Prog.perform (Act.write p data)
def datasync (p : Path) : Program (Except Posix Unit) := Prog.perform (Act.datasync p)
def makeLink (src dst : Path) : Program (Except Posix Unit) := Prog.perform (Act.makeLink src dst)
def delete (p : Path) : Program (Except Posix Unit) := Prog.perform (Act.delete p)
def readFile (p : Path) : Program (Except Posix Bytes) := Prog.perform (Act.readFile p)
def readFileInfo (p : Path) : Program (Except Posix Nat) := Prog.perform (Act.readFileInfo p)
def fsyncDir (root : Path) : Program (Except Posix Unit) := Prog.perform (Act.fsyncDir root)

/-! ### Writing -/

/-- Why a save or a load fails. -/
inductive Reason where
  | posix (e : Posix)
  | kvc (e : KvcError)
  | build (e : BuildError)
  | alreadyPresent | conflict | expired
deriving DecidableEq

/-- A save: what `erllama_cache_writer:save/5` is called with, and what the runtime answers.
    Nothing is saved in the RAM tier, and no file has `2 ^ 64` bytes or more. -/
structure Save where
  tier : Tier
  pid : Pid
  runtime : Runtime
  buildMeta : BuildMeta
  payload : Bytes
  tier_ne : tier ≠ .ram
  size_lt : ∀ built, build runtime buildMeta payload = .ok built →
    (built ++ payload).length < 2 ^ 64

/-- `write_out()`. -/
structure WriteOut where
  key : CacheKey
  tmp : Path
  final : Path
  built : Bytes
  payload : Bytes
  root : Path

section Programs

variable (sha256 : Bytes → Digest) (root : Path)

/-- The key of a save. -/
def Save.key (w : Save) : CacheKey := w.buildMeta.key sha256

/-- `write_temp/3`. -/
def writeTemp (tmp built payload : Bytes) : Program (Except Reason Unit) := do
  match ← openExclusive tmp with
  | .error e => return .error (.posix e)
  | .ok ()   =>
    match ← write tmp (built ++ payload) with
    | .error e => return .error (.posix e)
    | .ok ()   =>
      -- synced before anything links to it
      match ← datasync tmp with
      | .error e => return .error (.posix e)
      | .ok ()   => return .ok ()

/-- `write_tmp/3`, the temporary name being that of the process and a unique integer. -/
def writeTmp (unique : Nat) (w : Save) : Program (Except Reason WriteOut) := do
  let key := w.key sha256
  let final := finalPath root key
  let tmp := tmpPath root key w.pid unique
  match build w.runtime w.buildMeta w.payload with
  | .error e  => return .error (.build e)
  | .ok built =>
    match ← writeTemp tmp built w.payload with
    | .ok ()   => return .ok ⟨key, tmp, final, built, w.payload, root⟩
    -- the temporary file is not left behind
    | .error e =>
      let _ ← delete tmp
      return .error e

/-- `validate_at/2`. -/
def validateAt (p : Path) (key : CacheKey) : Program (Except Reason (Info × Bytes)) := do
  match ← readFile p with
  | .error e => return .error (.posix e)
  | .ok bin  =>
    match parse sha256 bin key with
    | .error e => return .error (.kvc e)
    | .ok r    => return .ok r

/-- Validation reads the file once and goes by its bytes alone. -/
theorem validateAt_eq (p : Path) (key : CacheKey) :
    validateAt sha256 p key = readFile p >>= fun r =>
      .ret ((r.mapError .posix).bind fun bin => (parse sha256 bin key).mapError .kvc) := by
  unfold validateAt
  congr 1
  funext r
  cases r with
  | error e => rfl
  | ok bin  =>
    dsimp only [Except.mapError, Except.bind]
    cases parse sha256 bin key <;> rfl

/-- `header_of/1`. -/
def headerOf (built : Bytes) : Bytes := built.take 48

/-- `file_size/1`. -/
def fileSize (p : Path) : Program Nat := do
  match ← readFileInfo p with
  | .ok size => return size
  | .error _ => return 0

/-- What `publish/1` returns: the header and the size, an error, or a crash of the process. -/
inductive Published where
  | ok (header : Bytes) (size : Nat)
  | error (reason : Reason)
  | crash

/-- `finalise/5`. -/
def finalise (key : CacheKey) (built final : Bytes) (root : Path) : Program Published := do
  match ← fsyncDir root with
  | .error e => return .error (.posix e)
  | .ok ()   =>
    -- what was linked is read back before it is announced
    match ← validateAt sha256 final key with
    | .ok _    =>
      let size ← fileSize final
      return .ok (headerOf built) size
    | .error e =>
      let _ ← delete final
      return .error e

/-- What `try_link/2` returns. -/
inductive Linked where
  | ok | eexist
  | error (e : Posix)

/-- `try_link/2`. -/
def tryLink (tmp final : Path) : Program Linked := do
  match ← makeLink tmp final with
  | .ok ()          =>
    let _ ← delete tmp
    return .ok
  -- the temporary file stays for `handle_eexist/6`
  | .error .eexist  => return .eexist
  | .error e        =>
    let _ ← delete tmp
    return .error e

/-- `handle_eexist/6`: adopt the valid file that is there, or replace an invalid one. -/
def handleEexist (key : CacheKey) (built tmp final : Bytes) (root : Path) :
    Program Published := do
  match ← validateAt sha256 final key with
  -- a valid file under the key is kept, whoever wrote it
  | .ok _    =>
    let _ ← delete tmp
    -- `ok = fsync_dir(...)`: any other result is a `badmatch`
    match ← fsyncDir root with
    | .error _ => return .crash
    | .ok ()   =>
      let size ← fileSize final
      return .ok (headerOf built) size
  -- an invalid one gives way, and the link is tried once more
  | .error _ =>
    let _ ← delete final
    match ← tryLink tmp final with
    | .ok => finalise sha256 key built final root
    | _   => return .error (.posix .eexist)

/-- `link_temp/6`. -/
def linkTemp (key : CacheKey) (built tmp final : Bytes) (root : Path) : Program Published := do
  match ← tryLink tmp final with
  | .ok      => finalise sha256 key built final root
  | .eexist  => handleEexist sha256 key built tmp final root
  | .error e => return .error (.posix e)

/-- `publish/1`. -/
def publish (out : WriteOut) : Program Published :=
  linkTemp sha256 out.key out.built out.tmp out.final out.root

/-- `abort_tmp/1`. -/
def abortTmp (out : WriteOut) : Program Unit := do
  let _ ← delete out.tmp
  return ()

/-- How a save or a load ends. -/
inductive Outcome where
  | saved (key : CacheKey)
  | refused (reason : Reason)
  | crashed
  | loaded (key : CacheKey) (tokens : List Token) (info : Info) (payload : Bytes)
  | missed
  | failed (reason : Reason)

/-- `after_publish/6`. -/
def afterPublish (key : CacheKey) (token : Ref) (m : BuildMeta) (final header : Bytes)
    (size : Nat) : Program Outcome := do
  -- the token may have expired while the file was written
  match ← call (.markPublished key token final) with
  | some .ok =>
    match ← call (.announceSaved key token size header (some (encodeTokens m.tokens))
        m.text.length) with
    | some .ok      => return .saved key
    | some .expired => return .refused .expired
    | _             => return .crashed
  | some .expired => return .refused .expired
  | _             => return .crashed

/-- `after_check_reservation/4`. -/
def afterCheckReservation (key : CacheKey) (token : Ref) (m : BuildMeta) (out : WriteOut) :
    Program Outcome := do
  match ← publish sha256 out with
  | .ok header size => afterPublish key token m out.final header size
  | .error e        =>
    abortTmp out
    let _ ← call (.cancelReservation key token)
    return .refused e
  | .crash => return .crashed

/-- `after_write_tmp/4`. -/
def afterWriteTmp (key : CacheKey) (token : Ref) (m : BuildMeta) (out : WriteOut) :
    Program Outcome := do
  match ← call (.checkReservation key token) with
  | some .ok      => afterCheckReservation sha256 key token m out
  | some .expired =>
    abortTmp out
    return .refused .expired
  | _ => return .crashed

/-- `do_save_reserved/5`, in the directory of the tier server. -/
def doSaveReserved (unique : Nat) (w : Save) (key : CacheKey) (token : Ref) :
    Program Outcome := do
  match ← writeTmp sha256 root unique w with
  | .ok out  => afterWriteTmp sha256 key token w.buildMeta out
  | .error e =>
    let _ ← call (.cancelReservation key token)
    return .refused e

/-- `do_save/4`. -/
def doSave (unique : Nat) (w : Save) : Program Outcome := do
  let key := w.key sha256
  match ← call (.reserveSave key w.tier w.pid) with
  | some (.token token)  => doSaveReserved sha256 root unique w key token
  | some .alreadyPresent => return .refused .alreadyPresent
  | some .conflict       => return .refused .conflict
  | _                    => return .crashed

/-! ### Loading -/

/-- What `erllama_cache_disk_srv:load/2` answers. -/
inductive Loaded where
  | ok (info : Info) (payload : Bytes)
  | miss
  | error (reason : Reason)

/-- `parse_or_drop/3`: a file that does not parse is deleted. -/
def parseOrDrop (bin : Bytes) (key : CacheKey) (path : Path) : Program Loaded := do
  match parse sha256 bin key with
  | .ok (info, payload) => return .ok info payload
  | .error e            =>
    let _ ← delete path
    return .error (.kvc e)

/-- `do_load/2`. -/
def doLoad (key : CacheKey) : Program Loaded := do
  match ← readFile (finalPath root key) with
  | .ok bin         => parseOrDrop sha256 bin key (finalPath root key)
  | .error .enoent  => return .miss
  | .error e        => return .error (.posix e)

/-- `load_payload/4` from the tier server; a row of the RAM tier has no file. -/
def loadPayload (tier : Tier) (key : CacheKey) : Program Loaded :=
  if tier = .ram then return .miss else doLoad sha256 root key

/-- `unpack_row/4` behind the restore: the payload goes with the row's token list.  An empty
    payload is a miss, and a token list that is cut short crashes the process. -/
def unpackRow (key : CacheKey) (tokensBin : Option Bytes) : Loaded → Outcome
  | .ok info payload =>
    if payload = [] then .missed
    else
      match tokensBin.elim (some []) decodeTokens with
      | some tokens => .loaded key tokens info payload
      | none        => .crashed
  | .miss         => .missed
  | .error reason => .failed reason

/-- What `pin_and_load/3` does once the row is checked out: load, check in, unpack. -/
def afterCheckout (key : CacheKey) (monRef : Ref) (tier : Tier) (tokensBin : Option Bytes) :
    Program Outcome := do
  let r ← loadPayload sha256 root tier key
  let _ ← call (.checkin monRef)
  return unpackRow key tokensBin r

/-- `pin_and_load/3` up to the restore. -/
def pinAndLoad (key : CacheKey) (pid : Pid) : Program Outcome := do
  match ← call (.checkout key pid) with
  | some (.checkedOut monRef tier _ _ tokensBin) =>
    afterCheckout sha256 root key monRef tier tokensBin
  | _ => return .missed

end Programs

end Erllama.Publish
