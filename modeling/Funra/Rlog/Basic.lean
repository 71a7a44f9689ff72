import Funra.Lib.CInt
import Funra.Lib.Except
import Funra.Lib.Ledger
import Funra.Lib.Locks
import Mathlib.Logic.Function.Basic

/-!
# The logger

`rlog.c` with `log_in_multi_thread`, `print2file` and `print2stdout`, as one thread runs it. The texts of the
messages are left out, of which only the lengths matter here; so are the names of the files, of which it matters
whether they are equal, and what `rfile_rename` moves out of the way.

The logger prints its own messages on `rlog_all[0]`, through `rlog_printf`: each function gets this as `say`, and
`sayAt` closes the recursion to a given depth of the calls.
-/

namespace Funra

open CInt Ownership

/-! ## State -/

def rlogLevelInfo : Nat := 3

def rlogLevelError : Nat := 5

def rlogLevelAll : Nat := 7

def rlogTempDataSize : Nat := 2048

def rlogCacheDataSize : Nat := 5120

def rlogFilenameLength : Nat := 1024

def rlogRollbackSize : Int := 1

inductive RlogState
  | init | working | rollFile | uninit
  deriving DecidableEq

/-- `bufferLen` is the length of the text in `buffer`. -/
structure RlogInfo where
  fileSize : Int
  filePtr : Option Nat
  bufferLen : Nat
  deriving DecidableEq

/-- `mutex` says whether there is one. `files` lists what `fopen` returned and `fclose` got. -/
structure Rlog where
  state : RlogState
  fileSeparated : Bool
  level : Nat
  fileSizeMax : Int
  mutex : Bool
  logItems : Nat → Option RlogInfo
  files : Ledger Nat

/-- A zeroed `rlog_t`. -/
def Rlog.zero : Rlog := ⟨.init, false, 0, 0, false, fun _ => none, .empty⟩

inductive RlogMutex
  | all
  | log (d : Nat)
  | item (d level : Nat)
  deriving DecidableEq

/-- `messages` and `builds` count the messages of the logger and the calls of `_rlog_build_items`. -/
structure RlogWorld where
  logs : Nat → Rlog
  held : List RlogMutex
  messages : Nat
  builds : Nat

/-- `crash` is a failed assertion or a use of memory that is not there. -/
inductive RlogFault
  | crash
  | lock (f : Locks.Fault)
  | tooDeep
  deriving DecidableEq

/-- The kind of the mutexes, `rlog_all[0]`, the lengths of the logger's own messages; for each build and each
level of it the path formatted for a level string, and whether `fopen` opens it. -/
structure RlogEnv where
  kind : Locks.Kind
  all : Option Nat
  ownLen : Nat → Int
  ownLen_lt : ∀ n, ownLen n < rlogTempDataSize
  path : Nat → Nat → Nat → List UInt8
  fopen : Nat → Nat → Bool

/-- Lines of 50 bytes, and one path, whose file always opens. -/
def RlogEnv.plain (kind : Locks.Kind) (all : Option Nat) : RlogEnv :=
  ⟨kind, all, fun _ => 50, fun _ => by decide, fun _ _ _ => [97], fun _ _ => true⟩

abbrev RlogRun := RlogWorld → Except RlogFault RlogWorld

namespace Rlog

def setItem (r : Rlog) (level : Nat) (item : RlogInfo) : Rlog :=
  { r with logItems := Function.update r.logItems level (some item) }

def setFilePtr (r : Rlog) (level : Nat) (file : Option Nat) : Rlog :=
  { r with
    logItems := Function.update r.logItems level ((r.logItems level).map fun item => { item with filePtr := file }) }

/-- What a call of `fprintf` or `fflush` needs. -/
def IsOpen (r : Rlog) (file : Option Nat) : Prop := ∃ h, file = some h ∧ r.files.Live h

instance (r : Rlog) (file : Option Nat) : Decidable (r.IsOpen file) :=
  match file with
  | none => isFalse (by rintro ⟨h, heq, -⟩; cases heq)
  | some h => decidable_of_iff (r.files.Live h) ⟨fun hlive => ⟨h, rfl, hlive⟩, by
      rintro ⟨h', heq, hlive⟩
      cases heq
      exact hlive⟩

end Rlog

namespace RlogWorld

def setLog (w : RlogWorld) (d : Nat) (r : Rlog) : RlogWorld := { w with logs := Function.update w.logs d r }

def lock (kind : Locks.Kind) (m : RlogMutex) (w : RlogWorld) : Except RlogFault RlogWorld :=
  match Locks.lock kind m w.held with
  | .ok held => .ok { w with held }
  | .error f => .error (.lock f)

def unlock (m : RlogMutex) (w : RlogWorld) : Except RlogFault RlogWorld :=
  match Locks.unlock m w.held with
  | .ok held => .ok { w with held }
  | .error f => .error (.lock f)

/-- `rmutex_lock(rlog->mutex)`. -/
def lockLog (kind : Locks.Kind) (d : Nat) (w : RlogWorld) : Except RlogFault RlogWorld :=
  if (w.logs d).mutex then w.lock kind (.log d) else .error .crash

def unlockLog (d : Nat) (w : RlogWorld) : Except RlogFault RlogWorld :=
  if (w.logs d).mutex then w.unlock (.log d) else .error .crash

end RlogWorld

/-! ## Flushing -/

/-- A round of the loop in `rlog_flush_file`, and its branch for one level. -/
def flushItem (closeFile : Bool) (level : Nat) (lastFile : Option Nat) (r : Rlog) :
    Except RlogFault (Option Nat × Rlog) :=
  match r.logItems level with
  | none => .ok (lastFile, r)
  | some item =>
    match item.filePtr with
    | none => .ok (lastFile, r)
    | some file =>
      let closed := r.setItem level { item with filePtr := none, fileSize := 0 }
      if some file ≠ lastFile then
        if ¬ r.IsOpen (some file) then .error .crash
        else if closeFile then .ok (some file, { closed with files := r.files.free (some file) })
        else .ok (lastFile, r)
      else if closeFile then .ok (lastFile, closed)
      else .ok (lastFile, r)

def flushItems (closeFile : Bool) : List Nat → Option Nat → Rlog → Except RlogFault Rlog
  | [], _, r => .ok r
  | level :: levels, lastFile, r => do
    let (lastFile, r) ← flushItem closeFile level lastFile r
    flushItems closeFile levels lastFile r

/-- The levels that `rlog_flush_file` flushes: all of them in a log that is not separated. -/
def flushLevels (d level : Nat) (closeFile : Bool) : RlogRun := fun w => do
  let r := w.logs d
  let r ←
    (if level = rlogLevelAll ∨ ¬ r.fileSeparated then flushItems closeFile (List.range rlogLevelAll) none r
    else if rlogLevelAll < level then .error .crash
    else (flushItem closeFile level none r).map Prod.snd)
  .ok (w.setLog d r)

def rlogFlushFile (E : RlogEnv) (say : Nat → RlogRun) (d level : Nat) (closeFile : Bool) (w : RlogWorld) :
    Except RlogFault (Int × RlogWorld) := do
  let w ← w.lockLog E.kind d
  if (w.logs d).state ≠ .working ∧ (w.logs d).state ≠ .rollFile then
    let w ← say rlogLevelInfo w
    .ok (1, w)
  else
    let w ← say rlogLevelInfo w
    let w ← flushLevels d level closeFile w
    let w ← w.unlockLog d
    .ok (0, w)

/-! ## Building the items -/

/-- A round of `_rlog_build_items`. `lastFilepath` is none for `rstr_empty`, which no path is; the result is
none for `rgoto(1)`. -/
def buildItem (E : RlogEnv) (say : Nat → RlogRun) (d : Nat) (isInit : Bool) (level : Nat) (fileSeparated : Bool)
    (build curLevel : Nat) (lastFilepath : Option (List UInt8)) (w : RlogWorld) :
    Except RlogFault (Option (Option (List UInt8)) × RlogWorld) :=
  if isInit ∧ ((w.logs d).logItems curLevel).isSome then do
    let w ← say rlogLevelInfo w
    .ok (some lastFilepath, w)
  else if fileSeparated ∧ (level ≠ rlogLevelAll ∨ level ≠ curLevel) then .ok (some lastFilepath, w)
  else
    let r := if isInit then (w.logs d).setItem curLevel ⟨0, none, 0⟩ else w.logs d
    if r.logItems curLevel = none then .error .crash
    else do
      let w ← say rlogLevelInfo (w.setLog d r)
      let r := w.logs d
      let path := E.path build curLevel (if fileSeparated then curLevel else rlogLevelAll)
      let r ←
        (if lastFilepath ≠ some path then
          let file := if E.fopen build curLevel then some r.files.made.length else none
          .ok (({ r with files := r.files.make file } : Rlog).setFilePtr curLevel file)
        else
          match r.logItems (curLevel - 1) with
          | none => .error .crash
          | some last => .ok (r.setFilePtr curLevel last.filePtr))
      let w := w.setLog d r
      if (r.logItems curLevel).bind RlogInfo.filePtr = none then
        let w ← say rlogLevelInfo w
        .ok (none, w)
      else .ok (some (some path), w)

def buildLoop (E : RlogEnv) (say : Nat → RlogRun) (d : Nat) (isInit : Bool) (level : Nat) (fileSeparated : Bool)
    (build : Nat) : List Nat → Option (List UInt8) → RlogWorld → Except RlogFault (Bool × RlogWorld)
  | [], _, w => .ok (true, w)
  | curLevel :: levels, lastFilepath, w => do
    let (next, w) ← buildItem E say d isInit level fileSeparated build curLevel lastFilepath w
    match next with
    | none => .ok (false, w)
    | some lastFilepath => buildLoop E say d isInit level fileSeparated build levels lastFilepath w

def rlogBuildItems (E : RlogEnv) (say : Nat → RlogRun) (d : Nat) (isInit : Bool) (level : Nat)
    (fileSeparated : Bool) (w : RlogWorld) : Except RlogFault (Int × RlogWorld) := do
  let build := w.builds
  let (built, w) ← buildLoop E say d isInit level fileSeparated build (List.range rlogLevelAll) none
    { w with builds := build + 1 }
  let w ← say rlogLevelInfo w
  .ok (if built then 0 else 1, w)

/-! ## Rolling -/

/-- What is behind `exit1` in `rlog_rolling_file`. -/
def rollingExit (d : Nat) (code : Int) (w : RlogWorld) : Except RlogFault (Int × RlogWorld) := do
  let w ← (w.setLog d { w.logs d with state := .working }).unlockLog d
  .ok (code, w)

def rlogRollingFile (E : RlogEnv) (say : Nat → RlogRun) (d level : Nat) (w : RlogWorld) :
    Except RlogFault (Int × RlogWorld) := do
  let w ← w.lockLog E.kind d
  if (w.logs d).state ≠ .working then
    let w ← say rlogLevelInfo w
    rollingExit d 0 w
  else
    let (code, w) ← rlogFlushFile E say d level true (w.setLog d { w.logs d with state := .rollFile })
    if code ≠ 0 then rollingExit d code w
    else
      let (code, w) ← rlogBuildItems E say d false level (w.logs d).fileSeparated w
      if code ≠ 0 then rollingExit d code w
      else
        let w ← say rlogLevelInfo w
        rollingExit d code w

/-! ## Printing -/

/-- The target of a call: `rlog`, or the global log for `NULL`. -/
def RlogEnv.target (E : RlogEnv) (rlog : Option Nat) : Option Nat := rlog <|> E.all

/-- A message that is printed to the terminal only. -/
def notReady (code len : Int) (w : RlogWorld) : Except RlogFault (Int × RlogWorld) :=
  if len < rlogTempDataSize then .ok (code, w) else .error .crash

/-- The mutex that guards the file: that of the item in a separated log. -/
def RlogWorld.lockWrite (kind : Locks.Kind) (d level : Nat) (w : RlogWorld) : Except RlogFault RlogWorld :=
  if (w.logs d).fileSeparated then w.lock kind (.item d level) else w.lockLog kind d

def RlogWorld.unlockWrite (d level : Nat) (w : RlogWorld) : Except RlogFault RlogWorld :=
  if (w.logs d).fileSeparated then w.unlock (.item d level) else w.unlockLog d

/-- What `rlog_printf` does while it holds that mutex. -/
def writeItem (E : RlogEnv) (say : Nat → RlogRun) (d level : Nat) (len : Int) (item : RlogInfo) : RlogRun := fun w =>
  let r := w.logs d
  if ¬ r.IsOpen item.filePtr then .error .crash
  else
    let fileSize := int32 (item.fileSize + len)
    let w := w.setLog d (r.setItem level { item with fileSize })
    if r.fileSizeMax < fileSize ∧ r.state = .working then (rlogRollingFile E say d level w).map Prod.snd
    else .ok w

/-- `print2stdout`. -/
def printStdout (E : RlogEnv) (d : Nat) : RlogRun := fun w => do
  let w ← w.lockLog E.kind d
  w.unlockLog d

/-- The part of `rlog_printf` from the first lock on, for the item `item`. -/
def printItem (E : RlogEnv) (say : Nat → RlogRun) (d level : Nat) (len : Int) (item : RlogInfo) (w : RlogWorld) :
    Except RlogFault (Int × RlogWorld) := do
  let w ← w.lockWrite E.kind d level
  let w ← writeItem E say d level len item w
  let w ← w.unlockWrite d level
  let w ← printStdout E d w
  .ok (0, w)

def rlogPrintf (E : RlogEnv) (say : Nat → RlogRun) (rlog : Option Nat) (level : Nat) (len : Int) (w : RlogWorld) :
    Except RlogFault (Int × RlogWorld) :=
  match E.target rlog with
  | none => notReady 1 len w
  | some d =>
    let r := w.logs d
    if r.state ≠ .working then notReady 1 len w
    else if level < r.level then .ok (0, w)
    else if rlogLevelAll ≤ level then .error .crash
    else
      match r.logItems level with
      | none => notReady (-1) len w
      | some item => if len < rlogTempDataSize then printItem E say d level len item w else .error .crash

/-- The lengths of the format, of the message it gives and of what of it is in `item_buffer`; whether
`rlog_flush_max` has passed. -/
structure CachedText where
  fmtLen : Nat
  writeLen : Int
  itemLen : Nat
  elapsed : Bool

/-- `sizeof(buffer) - strlen(buffer) - 1`, where `buffer` is a pointer. -/
def cachedFreeLen (bufferLen : Nat) : Nat := sizeT (8 - (bufferLen : Int) - 1)

/-- The part of `rlog_printf_cached` behind the lock. -/
def printCached (d level : Nat) (text : CachedText) (item : RlogInfo) (w : RlogWorld) :
    Except RlogFault (Int × RlogWorld) :=
  if rlogTempDataSize ≤ text.fmtLen then .error .crash
  else if rlogTempDataSize ≤ text.writeLen then
    if ¬ (w.logs d).IsOpen item.filePtr then .error .crash
    else do
      let w ← (w.setLog d ((w.logs d).setItem level { item with bufferLen := 0 })).unlock .all
      .ok (1, w)
  else do
    let bufferLen ←
      (if text.elapsed ∨ cachedFreeLen item.bufferLen ≤ text.itemLen then
        if ¬ (w.logs d).IsOpen item.filePtr then .error .crash else .ok 0
      else if rlogCacheDataSize ≤ item.bufferLen + text.itemLen then .error .crash
      else .ok (item.bufferLen + text.itemLen))
    let w ← (w.setLog d ((w.logs d).setItem level { item with bufferLen })).unlockLog d
    .ok (0, w)

def rlogPrintfCached (E : RlogEnv) (rlog : Option Nat) (level : Nat) (text : CachedText) (w : RlogWorld) :
    Except RlogFault (Int × RlogWorld) :=
  match E.target rlog with
  | none => .ok (1, w)
  | some d =>
    let r := w.logs d
    if r.state ≠ .working then .ok (1, w)
    else if level < r.level then .ok (0, w)
    else if rlogLevelAll ≤ level then .error .crash
    else
      match r.logItems level with
      | none => .ok (-1, w)
      | some item => do
        let w ← w.lockLog E.kind d
        printCached d level text item w

/-- A message of the logger, `depth` calls deep at most. -/
def sayAt (E : RlogEnv) : Nat → Nat → RlogRun
  | 0, _, _ => .error .tooDeep
  | depth + 1, level, w =>
    (rlogPrintf E (sayAt E depth) none level (E.ownLen w.messages) { w with messages := w.messages + 1 }).map Prod.snd

/-! ## Starting and stopping -/

/-- What is behind `exit1` in `rlog_init_log`. -/
def initExit (say : Nat → RlogRun) (code : Int) (w : RlogWorld) : Except RlogFault (Int × RlogWorld) := do
  let w ← (if code ≠ 0 then say rlogLevelError w else .ok w)
  let w ← w.unlock .all
  .ok (code, w)

/-- What is behind `exit0`. -/
def initFinish (say : Nat → RlogRun) (d : Nat) (w : RlogWorld) : Except RlogFault (Int × RlogWorld) := do
  let w ← say rlogLevelInfo (w.setLog d { w.logs d with state := .working })
  initExit say 0 w

/-- The arguments of `rlog_init_log`. -/
def Rlog.configure (r : Rlog) (level : Nat) (fileSeparated : Bool) (fileSize : Int) : Rlog :=
  { r with
    mutex := true
    level := if level = rlogLevelAll then 0 else level
    fileSeparated
    fileSizeMax := int32 ((if fileSize < rlogRollbackSize then rlogRollbackSize else fileSize) * 1024000) }

def rlogInitLog (E : RlogEnv) (say : Nat → RlogRun) (d : Nat) (filename : Option (List UInt8)) (level : Nat)
    (fileSeparated : Bool) (fileSize : Int) (w : RlogWorld) : Except RlogFault (Int × RlogWorld) :=
  if (w.logs d).state ≠ .init ∧ (w.logs d).state ≠ .uninit then initExit say 1 w
  else do
    let w ← w.lock E.kind .all
    let w := w.setLog d ((w.logs d).configure level fileSeparated fileSize)
    if rlogLevelAll < level then .error .crash
    else if level ≠ rlogLevelAll ∧ ((w.logs d).logItems level).isSome then
      let w ← say rlogLevelInfo w
      initFinish say d w
    else
      match filename with
      | none =>
        let w ← say rlogLevelInfo w
        initExit say 1 w
      | some name =>
        if rlogFilenameLength < name.length then
          let w ← say rlogLevelInfo w
          initExit say 1 w
        else
          let (code, w) ← rlogBuildItems E say d true rlogLevelAll fileSeparated w
          if code ≠ 0 then initExit say code w else initFinish say d w

/-- A round of the loop in `rlog_uninit_log`; the item is freed. -/
def uninitItem (level : Nat) (lastFile : Option Nat) (r : Rlog) : Except RlogFault (Option Nat × Rlog) :=
  match r.logItems level with
  | none => .ok (lastFile, r)
  | some item =>
    let freed : Rlog := { r with logItems := Function.update r.logItems level none }
    match item.filePtr with
    | none => .ok (lastFile, freed)
    | some file =>
      if lastFile ≠ some file then
        if ¬ r.IsOpen (some file) then .error .crash
        else .ok (some file, { freed with files := r.files.free (some file) })
      else .ok (lastFile, freed)

def uninitItems : List Nat → Option Nat → Rlog → Except RlogFault Rlog
  | [], _, r => .ok r
  | level :: levels, lastFile, r => do
    let (lastFile, r) ← uninitItem level lastFile r
    uninitItems levels lastFile r

def rlogUninitLog (E : RlogEnv) (say : Nat → RlogRun) (d : Nat) (w : RlogWorld) :
    Except RlogFault (Int × RlogWorld) := do
  let w ← say rlogLevelInfo w
  let w ← w.lock E.kind .all
  let r ← uninitItems (List.range rlogLevelAll) none { w.logs d with state := .uninit }
  if ¬ r.mutex then .error .crash
  else
    let w ← (w.setLog d { r with mutex := false }).unlock .all
    .ok (0, w)

end Funra
