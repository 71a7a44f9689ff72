import Funra.Lib.System
import Funra.Rlog.Basic

/-!
# The locks of the logger

With normal mutexes a log that is working cannot be rolled: `rlog_rolling_file` holds the log's mutex when
`rlog_flush_file` takes it. So a print that takes the file past its limit does not return. `rlog_flush_file` keeps
the mutex when the state is wrong, and prints a message of its own while it holds it; `rlog_printf_cached` gives
back another mutex than it took for a message that is too long.

`RlogCall.Safe` has what calls avoid these. In the runs of such calls no mutex is taken twice or given back without
being held, and none is kept (`locks_run`).
-/

namespace Funra

open CInt Ownership System

/-! ## Calls and what is safe -/

inductive RlogCall
  | printf (rlog : Option Nat) (level : Nat) (len : Int)
  | printfCached (rlog : Option Nat) (level : Nat) (text : CachedText)
  | flushFile (d level : Nat) (closeFile : Bool)
  | rollingFile (d level : Nat)

def RlogCall.run (E : RlogEnv) (depth : Nat) : RlogCall → RlogWorld → Except RlogFault (Int × RlogWorld)
  | .printf rlog level len, w => rlogPrintf E (sayAt E depth) rlog level len w
  | .printfCached rlog level text, w => rlogPrintfCached E rlog level text w
  | .flushFile d level closeFile, w => rlogFlushFile E (sayAt E depth) d level closeFile w
  | .rollingFile d level, w => rlogRollingFile E (sayAt E depth) d level w

/-- A call takes and gives back mutexes as it may, and returns with those it was called with. A call that crashes
does not return. -/
def Disciplined (held : List RlogMutex) (result : Except RlogFault (Int × RlogWorld)) : Prop :=
  result.Ends (· = .crash) fun r => r.2.held = held

namespace Rlog

/-- The item that a print of a level is written through. -/
def reached (r : Rlog) (level : Nat) : Option RlogInfo :=
  if r.state = .working ∧ r.level ≤ level ∧ level < rlogLevelAll then r.logItems level else none

/-- There is a mutex to take and a file to write to. -/
def Usable (r : Rlog) (item : RlogInfo) : Prop := r.mutex ∧ r.IsOpen item.filePtr

/-- A print takes the file past the limit. -/
def Crosses (r : Rlog) (level : Nat) (len : Int) : Prop :=
  ∃ item, r.reached level = some item ∧ len < rlogTempDataSize ∧ r.Usable item ∧
    r.fileSizeMax < int32 (item.fileSize + len)

end Rlog

/-- The logger's own message, while the mutex of `d` is held: printed through `d` it would wait for that mutex,
and through another log it would roll it. -/
def OwnMessageSafe (E : RlogEnv) (w : RlogWorld) (d : Nat) : Prop :=
  ∀ g, E.all = some g →
    if g = d then
      ∀ item, (w.logs d).reached rlogLevelInfo = some item →
        (w.logs d).fileSeparated ∧ ¬ (w.logs d).IsOpen item.filePtr
    else ¬ (w.logs g).Crosses rlogLevelInfo (E.ownLen w.messages)

/-- The logger's own message crashes. -/
def OwnMessageCrashes (E : RlogEnv) (w : RlogWorld) : Prop :=
  ∃ g item, E.all = some g ∧ (w.logs g).reached rlogLevelInfo = some item ∧ ¬ (w.logs g).Usable item

/-- The state before a call in which it keeps the discipline. -/
def RlogCall.Safe (E : RlogEnv) (w : RlogWorld) : RlogCall → Prop
  | .printf rlog level len => ∀ d, E.target rlog = some d → ¬ (w.logs d).Crosses level len
  | .printfCached rlog level text => ∀ d, E.target rlog = some d → ∀ item, (w.logs d).reached level = some item →
      (w.logs d).Usable item → text.fmtLen < rlogTempDataSize → text.writeLen < rlogTempDataSize
  | .flushFile d _ _ => (w.logs d).mutex →
      if (w.logs d).state = .working ∨ (w.logs d).state = .rollFile then OwnMessageSafe E w d
      else OwnMessageCrashes E w
  | .rollingFile d _ => (w.logs d).mutex → (w.logs d).state ≠ .working ∧ OwnMessageSafe E w d

/-! ## One print -/

/-- The mutex that guards the file. -/
def RlogWorld.writeMutex (w : RlogWorld) (d level : Nat) : RlogMutex :=
  if (w.logs d).fileSeparated then .item d level else .log d

def RlogWorld.holding (w : RlogWorld) (m : RlogMutex) : RlogWorld := { w with held := m :: w.held }

/-- What is written, when the file is not full then. -/
def afterWrite (w : RlogWorld) (d level : Nat) (len : Int) (item : RlogInfo) : RlogWorld :=
  w.setLog d ((w.logs d).setItem level { item with fileSize := int32 (item.fileSize + len) })

section print

variable {E : RlogEnv} {say : Nat → RlogRun} {w : RlogWorld} {d level : Nat} {len : Int} {item : RlogInfo}
  {kind : Locks.Kind} {m : RlogMutex} {held : List RlogMutex}

theorem setLog_same (r : Rlog) : (w.setLog d r).logs d = r := Function.update_self ..

theorem setLog_other (r : Rlog) {d' : Nat} (h : d' ≠ d) : (w.setLog d r).logs d' = w.logs d' :=
  Function.update_of_ne h ..

theorem lock_new (h : m ∉ w.held) : w.lock kind m = .ok (w.holding m) := by
  rw [RlogWorld.lock, Locks.lock_ok h]
  rfl

theorem lock_again (h : m ∈ w.held) : w.lock .normal m = .error (.lock .deadlock) := by
  rw [RlogWorld.lock, Locks.lock_held h]

theorem unlock_last (h : w.held = m :: held) : w.unlock m = .ok { w with held } := by
  rw [RlogWorld.unlock, h, Locks.unlock_head]

theorem lockLog_null (hmutex : ¬ (w.logs d).mutex) : w.lockLog kind d = .error .crash := if_neg hmutex

theorem lockLog_new (hmutex : (w.logs d).mutex) (hfree : .log d ∉ w.held) :
    w.lockLog kind d = .ok (w.holding (.log d)) := by
  rw [RlogWorld.lockLog, if_pos hmutex, lock_new hfree]

theorem lockLog_again (hmutex : (w.logs d).mutex) (hheld : .log d ∈ w.held) :
    w.lockLog .normal d = .error (.lock .deadlock) := by
  rw [RlogWorld.lockLog, if_pos hmutex, lock_again hheld]

theorem unlockLog_last (hmutex : (w.logs d).mutex) (h : w.held = .log d :: held) :
    w.unlockLog d = .ok { w with held } := by
  rw [RlogWorld.unlockLog, if_pos hmutex, unlock_last h]

/-- A log that is working is not rolled: its mutex is taken twice. -/
theorem rolling_blocks (hkind : E.kind = .normal) (hmutex : (w.logs d).mutex) (hstate : (w.logs d).state = .working) :
    rlogRollingFile E say d level w = .error (.lock .deadlock) := by
  by_cases hheld : .log d ∈ w.held
  · rw [rlogRollingFile, hkind, lockLog_again hmutex hheld]
    rfl
  · have hworking : ((w.holding (.log d)).logs d).state = .working := hstate
    rw [rlogRollingFile, lockLog_new hmutex hheld]
    simp only [bind, Except.bind]
    rw [if_neg (not_not.mpr hworking), rlogFlushFile, hkind,
      lockLog_again (by rw [setLog_same]; exact hmutex) List.mem_cons_self]
    rfl

theorem lockWrite_ok (hlog : .log d ∉ w.held) (hitem : .item d level ∉ w.held)
    (hmutex : (w.logs d).fileSeparated ∨ (w.logs d).mutex) :
    w.lockWrite kind d level = .ok (w.holding (w.writeMutex d level)) := by
  unfold RlogWorld.lockWrite RlogWorld.writeMutex
  by_cases hsep : (w.logs d).fileSeparated = true
  · rw [if_pos hsep, if_pos hsep, lock_new hitem]
  · rw [if_neg hsep, if_neg hsep, lockLog_new (hmutex.resolve_left hsep) hlog]

theorem unlockWrite_last (hmutex : (w.logs d).fileSeparated ∨ (w.logs d).mutex)
    (h : w.held = w.writeMutex d level :: held) :
    w.unlockWrite d level = .ok { w with held } := by
  unfold RlogWorld.unlockWrite
  unfold RlogWorld.writeMutex at h
  by_cases hsep : (w.logs d).fileSeparated = true
  · rw [if_pos hsep] at h ⊢
    exact unlock_last h
  · rw [if_neg hsep] at h ⊢
    exact unlockLog_last (hmutex.resolve_left hsep) h

theorem writeItem_closed (h : ¬ (w.logs d).IsOpen item.filePtr) : writeItem E say d level len item w = .error .crash :=
  if_pos h

theorem writeItem_ok (h : (w.logs d).IsOpen item.filePtr)
    (hsize : ¬ (w.logs d).fileSizeMax < int32 (item.fileSize + len)) :
    writeItem E say d level len item w = .ok (afterWrite w d level len item) := by
  unfold writeItem
  dsimp only
  rw [if_neg (not_not.mpr h), if_neg fun hand => hsize hand.1]
  rfl

/-- A print over the limit rolls the log. -/
theorem writeItem_full (hkind : E.kind = .normal) (h : (w.logs d).IsOpen item.filePtr)
    (hsize : (w.logs d).fileSizeMax < int32 (item.fileSize + len)) (hstate : (w.logs d).state = .working) :
    writeItem E say d level len item w =
      if (w.logs d).mutex then .error (.lock .deadlock) else .error .crash := by
  unfold writeItem
  dsimp only
  rw [if_neg (not_not.mpr h), if_pos ⟨hsize, hstate⟩]
  by_cases hmutex : (w.logs d).mutex = true
  · rw [if_pos hmutex, rolling_blocks hkind (by rw [setLog_same]; exact hmutex) (by rw [setLog_same]; exact hstate)]
    rfl
  · rw [if_neg hmutex, rlogRollingFile, lockLog_null (by rw [setLog_same]; exact hmutex)]
    rfl

theorem printStdout_ok (hmutex : (w.logs d).mutex) (hfree : .log d ∉ w.held) : printStdout E d w = .ok w := by
  rw [printStdout, lockLog_new hmutex hfree]
  exact unlockLog_last hmutex rfl

theorem printStdout_held (hkind : E.kind = .normal) (hmutex : (w.logs d).mutex) (hheld : .log d ∈ w.held) :
    printStdout E d w = .error (.lock .deadlock) := by
  rw [printStdout, hkind, lockLog_again hmutex hheld]
  rfl

theorem printStdout_null (hmutex : ¬ (w.logs d).mutex) : printStdout E d w = .error .crash := by
  rw [printStdout, lockLog_null hmutex]
  rfl

/-- What is printed to the file; then the mutex is free again. -/
theorem printItem_written (hlock : w.lockWrite E.kind d level = .ok (w.holding (w.writeMutex d level)))
    (hmutex : (w.logs d).fileSeparated ∨ (w.logs d).mutex) (hopen : (w.logs d).IsOpen item.filePtr)
    (hsize : ¬ (w.logs d).fileSizeMax < int32 (item.fileSize + len)) :
    printItem E say d level len item w =
      (printStdout E d (afterWrite w d level len item)).map fun w => (0, w) := by
  have hwrite : writeItem E say d level len item (w.holding (w.writeMutex d level)) =
      .ok (afterWrite (w.holding (w.writeMutex d level)) d level len item) := writeItem_ok hopen hsize
  have hunlock : (afterWrite (w.holding (w.writeMutex d level)) d level len item).unlockWrite d level =
      .ok (afterWrite w d level len item) := by
    refine unlockWrite_last ?_ ?_
    · rw [afterWrite, setLog_same]
      exact hmutex
    · unfold RlogWorld.writeMutex
      rw [afterWrite, setLog_same]
      rfl
  rw [printItem, hlock]
  simp only [bind, Except.bind, hwrite, hunlock]
  cases printStdout E d (afterWrite w d level len item) <;> rfl

theorem printItem_error {f : RlogFault} (hlock : w.lockWrite E.kind d level = .ok (w.holding (w.writeMutex d level)))
    (hwrite : writeItem E say d level len item (w.holding (w.writeMutex d level)) = .error f) :
    printItem E say d level len item w = .error f := by
  rw [printItem, hlock]
  simp only [bind, Except.bind, hwrite]

/-- The file is full. -/
theorem printItem_crossed (hkind : E.kind = .normal)
    (hlock : w.lockWrite E.kind d level = .ok (w.holding (w.writeMutex d level)))
    (hopen : (w.logs d).IsOpen item.filePtr) (hsize : (w.logs d).fileSizeMax < int32 (item.fileSize + len))
    (hstate : (w.logs d).state = .working) :
    printItem E say d level len item w = if (w.logs d).mutex then .error (.lock .deadlock) else .error .crash := by
  have hwrite : writeItem E say d level len item (w.holding (w.writeMutex d level)) =
      if (w.logs d).mutex then .error (.lock .deadlock) else .error .crash := writeItem_full hkind hopen hsize hstate
  by_cases hmutex : (w.logs d).mutex = true
  · rw [if_pos hmutex] at hwrite ⊢
    exact printItem_error hlock hwrite
  · rw [if_neg hmutex] at hwrite ⊢
    exact printItem_error hlock hwrite

/-- There is no file. -/
theorem printItem_closed (hlock : w.lockWrite E.kind d level = .ok (w.holding (w.writeMutex d level)))
    (hopen : ¬ (w.logs d).IsOpen item.filePtr) : printItem E say d level len item w = .error .crash :=
  printItem_error hlock (writeItem_closed hopen)

theorem afterWrite_mutex : ((afterWrite w d level len item).logs d).mutex = (w.logs d).mutex := by
  rw [afterWrite, setLog_same]
  rfl

theorem printItem_ok (hlog : .log d ∉ w.held) (hitem : .item d level ∉ w.held) (husable : (w.logs d).Usable item)
    (hsize : ¬ (w.logs d).fileSizeMax < int32 (item.fileSize + len)) :
    printItem E say d level len item w = .ok (0, afterWrite w d level len item) := by
  obtain ⟨hmutex, hopen⟩ := husable
  rw [printItem_written (lockWrite_ok hlog hitem (.inr hmutex)) (.inr hmutex) hopen hsize,
    printStdout_ok (afterWrite_mutex.trans hmutex) hlog]
  rfl

/-- A print over the limit waits for itself. -/
theorem printItem_full (hkind : E.kind = .normal) (hlog : .log d ∉ w.held) (hitem : .item d level ∉ w.held)
    (hstate : (w.logs d).state = .working) (husable : (w.logs d).Usable item)
    (hsize : (w.logs d).fileSizeMax < int32 (item.fileSize + len)) :
    printItem E say d level len item w = .error (.lock .deadlock) := by
  obtain ⟨hmutex, hopen⟩ := husable
  rw [printItem_crossed hkind (lockWrite_ok hlog hitem (.inr hmutex)) hopen hsize hstate, if_pos hmutex]

/-- A print without a file or a mutex crashes. -/
theorem printItem_unusable (hkind : E.kind = .normal) (hlog : .log d ∉ w.held) (hitem : .item d level ∉ w.held)
    (hstate : (w.logs d).state = .working) (husable : ¬ (w.logs d).Usable item) :
    printItem E say d level len item w = .error .crash := by
  by_cases hmutex : (w.logs d).fileSeparated ∨ (w.logs d).mutex
  · have hlock : w.lockWrite E.kind d level = .ok (w.holding (w.writeMutex d level)) := lockWrite_ok hlog hitem hmutex
    by_cases hopen : (w.logs d).IsOpen item.filePtr
    · have hnull : ¬ (w.logs d).mutex := fun h => husable ⟨h, hopen⟩
      by_cases hsize : (w.logs d).fileSizeMax < int32 (item.fileSize + len)
      · rw [printItem_crossed hkind hlock hopen hsize hstate, if_neg hnull]
      · rw [printItem_written hlock hmutex hopen hsize, printStdout_null fun h => hnull (afterWrite_mutex.symm.trans h)]
        rfl
    · exact printItem_closed hlock hopen
  · rw [printItem, RlogWorld.lockWrite, if_neg fun h => hmutex (.inl h), lockLog_null fun h => hmutex (.inr h)]
    rfl

/-- While the log's mutex is held, a print waits for it, unless the file of a separated log is missing. -/
theorem printItem_held (hkind : E.kind = .normal) (hmutex : (w.logs d).mutex) (hheld : .log d ∈ w.held)
    (hitem : .item d level ∉ w.held) (hstate : (w.logs d).state = .working) :
    printItem E say d level len item w =
      if (w.logs d).fileSeparated ∧ ¬ (w.logs d).IsOpen item.filePtr then .error .crash
      else .error (.lock .deadlock) := by
  by_cases hsep : (w.logs d).fileSeparated = true
  · have hlock : w.lockWrite E.kind d level = .ok (w.holding (w.writeMutex d level)) := by
      rw [RlogWorld.lockWrite, if_pos hsep, lock_new hitem, RlogWorld.writeMutex, if_pos hsep]
    by_cases hopen : (w.logs d).IsOpen item.filePtr
    · rw [if_neg fun h => h.2 hopen]
      by_cases hsize : (w.logs d).fileSizeMax < int32 (item.fileSize + len)
      · rw [printItem_crossed hkind hlock hopen hsize hstate, if_pos hmutex]
      · rw [printItem_written hlock (.inl hsep) hopen hsize,
          printStdout_held hkind (afterWrite_mutex.trans hmutex) hheld]
        rfl
    · rw [if_pos ⟨hsep, hopen⟩]
      exact printItem_closed hlock hopen
  · rw [if_neg fun h => hsep h.1, printItem, RlogWorld.lockWrite, if_neg hsep, hkind, lockLog_again hmutex hheld]
    rfl

theorem printf_null {rlog : Option Nat} (htarget : E.target rlog = none) :
    rlogPrintf E say rlog level len w = notReady 1 len w := by
  rw [rlogPrintf, htarget]

theorem notReady_ends (code : Int) : (notReady code len w).Ends (· = .crash) fun r => r.2 = w := by
  unfold notReady
  split <;> rfl

theorem reached_eq_some_iff {r : Rlog} : r.reached level = some item ↔
    r.state = .working ∧ r.level ≤ level ∧ level < rlogLevelAll ∧ r.logItems level = some item := by
  rw [Rlog.reached, Option.ite_none_right_eq_some]
  tauto

theorem logItems_of_unreached {r : Rlog} (hitem : r.reached level = none) (hstate : r.state = .working)
    (hlow : r.level ≤ level) (hall : level < rlogLevelAll) : r.logItems level = none := by
  rwa [Rlog.reached, if_pos ⟨hstate, hlow, hall⟩] at hitem

theorem reached_working (hitem : (w.logs d).reached level = some item) : (w.logs d).state = .working :=
  (reached_eq_some_iff.mp hitem).1

/-- A print that is written through no item changes nothing. -/
theorem printf_unreached {rlog : Option Nat} (htarget : E.target rlog = some d)
    (hitem : (w.logs d).reached level = none) :
    (rlogPrintf E say rlog level len w).Ends (· = .crash) fun r => r.2 = w := by
  rw [rlogPrintf, htarget]
  dsimp only
  by_cases hstate : (w.logs d).state = .working
  · rw [if_neg (not_not.mpr hstate)]
    by_cases hlow : level < (w.logs d).level
    · rw [if_pos hlow]
      rfl
    · rw [if_neg hlow]
      by_cases hall : rlogLevelAll ≤ level
      · rw [if_pos hall]
        rfl
      · rw [if_neg hall, logItems_of_unreached hitem hstate (by omega) (by omega)]
        exact notReady_ends (-1)
  · rw [if_pos hstate]
    exact notReady_ends 1

/-- It returns, when the level is one and the message has room. -/
theorem printf_unreached_ok {rlog : Option Nat} (htarget : E.target rlog = some d)
    (hitem : (w.logs d).reached level = none) (hlevel : level < rlogLevelAll) (hlen : len < rlogTempDataSize) :
    ∃ code, rlogPrintf E say rlog level len w = .ok (code, w) := by
  rw [rlogPrintf, htarget]
  dsimp only
  by_cases hstate : (w.logs d).state = .working
  · rw [if_neg (not_not.mpr hstate)]
    by_cases hlow : level < (w.logs d).level
    · exact ⟨0, if_pos hlow⟩
    · rw [if_neg hlow, if_neg (by omega), logItems_of_unreached hitem hstate (by omega) hlevel]
      exact ⟨-1, if_pos hlen⟩
  · exact ⟨1, by rw [if_pos hstate, notReady, if_pos hlen]⟩

theorem printf_reached {rlog : Option Nat} (htarget : E.target rlog = some d)
    (hitem : (w.logs d).reached level = some item) :
    rlogPrintf E say rlog level len w =
      if len < rlogTempDataSize then printItem E say d level len item w else .error .crash := by
  obtain ⟨hstate, hlow, hall, hitem⟩ := reached_eq_some_iff.mp hitem
  rw [rlogPrintf, htarget]
  dsimp only
  rw [if_neg (not_not.mpr hstate), if_neg (by omega), if_neg (by omega), hitem]

/-- A print keeps the discipline exactly when it does not take the file past its limit. -/
theorem printf_disciplined_iff (hkind : E.kind = .normal) (hheld : w.held = []) (rlog : Option Nat) :
    Disciplined w.held (rlogPrintf E say rlog level len w) ↔
      ∀ d, E.target rlog = some d → ¬ (w.logs d).Crosses level len := by
  unfold Disciplined
  cases htarget : E.target rlog with
  | none =>
    rw [printf_null htarget]
    refine iff_of_true ((notReady_ends 1).mono ?_) fun d hd => nomatch hd
    rintro ⟨code, w'⟩ rfl
    rfl
  | some d =>
    have hlog : RlogMutex.log d ∉ w.held := by
      rw [hheld]
      exact List.not_mem_nil
    have hmutex : RlogMutex.item d level ∉ w.held := by
      rw [hheld]
      exact List.not_mem_nil
    cases hitem : (w.logs d).reached level with
    | none =>
      refine iff_of_true ((printf_unreached htarget hitem).mono ?_) ?_
      · rintro ⟨code, w'⟩ rfl
        rfl
      · rintro d' ⟨⟩ ⟨item, hreached, -⟩
        rw [hitem] at hreached
        cases hreached
    | some item =>
      have hstate := reached_working hitem
      rw [printf_reached htarget hitem]
      by_cases hlen : len < rlogTempDataSize
      · rw [if_pos hlen]
        by_cases husable : (w.logs d).Usable item
        · by_cases hsize : (w.logs d).fileSizeMax < int32 (item.fileSize + len)
          · rw [printItem_full hkind hlog hmutex hstate husable hsize]
            refine iff_of_false (fun h => nomatch h) fun h => h d rfl ⟨item, hitem, hlen, husable, hsize⟩
          · rw [printItem_ok hlog hmutex husable hsize]
            refine iff_of_true rfl ?_
            rintro d' ⟨⟩ ⟨item', hreached, -, -, hcross⟩
            rw [hitem] at hreached
            cases hreached
            exact hsize hcross
        · rw [printItem_unusable hkind hlog hmutex hstate husable]
          refine iff_of_true rfl ?_
          rintro d' ⟨⟩ ⟨item', hreached, -, husable', -⟩
          rw [hitem] at hreached
          cases hreached
          exact husable husable'
      · rw [if_neg hlen]
        refine iff_of_true rfl ?_
        rintro d' ⟨⟩ ⟨item', -, hlen', -⟩
        exact hlen hlen'

end print

/-! ## The logger's own messages -/

section own

variable {E : RlogEnv} {w : RlogWorld} {d : Nat}

/-- The message is printed while the mutex of `d` is held, and no other. -/
structure HoldsLog (w : RlogWorld) (d : Nat) : Prop where
  held : w.held = [.log d]
  mutex : (w.logs d).mutex

theorem HoldsLog.item_free (h : HoldsLog w d) (g level : Nat) : .item g level ∉ w.held := by
  simp [h.held]

theorem HoldsLog.other_free (h : HoldsLog w d) {g : Nat} (hg : g ≠ d) : .log g ∉ w.held := by
  simp [h.held, hg]

/-- The world when the message is printed. -/
def RlogWorld.counted (w : RlogWorld) : RlogWorld := { w with messages := w.messages + 1 }

theorem target_null : E.target none = E.all := by
  unfold RlogEnv.target
  cases E.all <;> rfl

theorem ownMessage_eq {depth g : Nat} (hall : E.all = some g) {item : RlogInfo}
    (hitem : (w.logs g).reached rlogLevelInfo = some item) :
    sayAt E (depth + 1) rlogLevelInfo w =
      (printItem E (sayAt E depth) g rlogLevelInfo (E.ownLen w.messages) item w.counted).map Prod.snd := by
  have hprint : rlogPrintf E (sayAt E depth) none rlogLevelInfo (E.ownLen w.messages) w.counted =
      if E.ownLen w.messages < rlogTempDataSize then
        printItem E (sayAt E depth) g rlogLevelInfo (E.ownLen w.messages) item w.counted
      else .error .crash := printf_reached (target_null.trans hall) hitem
  rw [if_pos (E.ownLen_lt _)] at hprint
  exact congrArg (Except.map Prod.snd) hprint

theorem ownMessage_unreached {depth : Nat} (h : ∀ g, E.all = some g → (w.logs g).reached rlogLevelInfo = none) :
    sayAt E (depth + 1) rlogLevelInfo w = .ok w.counted := by
  have hlen := E.ownLen_lt w.messages
  rw [sayAt]
  cases hall : E.all with
  | none =>
    rw [printf_null (target_null.trans hall), notReady, if_pos hlen]
    rfl
  | some g =>
    obtain ⟨code, hprint⟩ : ∃ code, rlogPrintf E (sayAt E depth) none rlogLevelInfo (E.ownLen w.messages) w.counted =
        .ok (code, w.counted) := printf_unreached_ok (target_null.trans hall) (h g hall) (by decide) hlen
    exact congrArg (Except.map Prod.snd) hprint

/-- Printed through `d` it waits for the mutex of `d`, unless the file of a separated log is missing. -/
theorem ownMessage_held {item : RlogInfo} (hkind : E.kind = .normal) (h : HoldsLog w d) (hall : E.all = some d)
    (hitem : (w.logs d).reached rlogLevelInfo = some item) (depth : Nat) :
    sayAt E (depth + 1) rlogLevelInfo w =
      if (w.logs d).fileSeparated ∧ ¬ (w.logs d).IsOpen item.filePtr then .error .crash
      else .error (.lock .deadlock) := by
  have hheld : RlogMutex.log d ∈ w.counted.held := by
    rw [RlogWorld.counted, h.held]
    exact List.mem_cons_self
  have hprint : printItem E (sayAt E depth) d rlogLevelInfo (E.ownLen w.messages) item w.counted =
      if (w.logs d).fileSeparated ∧ ¬ (w.logs d).IsOpen item.filePtr then .error .crash
      else .error (.lock .deadlock) :=
    printItem_held hkind h.mutex hheld (h.item_free d rlogLevelInfo) (reached_working hitem)
  rw [ownMessage_eq hall hitem, hprint]
  split <;> rfl

theorem ownMessage_blocks (hkind : E.kind = .normal) (h : HoldsLog w d) (hsafe : ¬ OwnMessageSafe E w d)
    (depth : Nat) : sayAt E (depth + 1) rlogLevelInfo w = .error (.lock .deadlock) := by
  unfold OwnMessageSafe at hsafe
  push Not at hsafe
  obtain ⟨g, hall, hg⟩ := hsafe
  by_cases hgd : g = d
  · subst hgd
    rw [if_pos rfl] at hg
    push Not at hg
    obtain ⟨item, hitem, hopen⟩ := hg
    rw [ownMessage_held hkind h hall hitem, if_neg fun hand => hand.2 (hopen hand.1)]
  · rw [if_neg hgd, not_not] at hg
    obtain ⟨item, hitem, -, husable, hsize⟩ := hg
    rw [ownMessage_eq hall hitem, printItem_full (w := w.counted) hkind (h.other_free hgd)
      (h.item_free g rlogLevelInfo) (reached_working hitem) husable hsize]
    rfl

/-- It crashes, or returns with the mutexes and the log as they were. -/
theorem ownMessage_safe (hkind : E.kind = .normal) (h : HoldsLog w d) (hsafe : OwnMessageSafe E w d) (depth : Nat) :
    (OwnMessageCrashes E w ∧ sayAt E (depth + 1) rlogLevelInfo w = .error .crash) ∨
      (¬ OwnMessageCrashes E w ∧
        ∃ w', sayAt E (depth + 1) rlogLevelInfo w = .ok w' ∧ w'.held = w.held ∧ w'.logs d = w.logs d) := by
  by_cases hreached : ∀ g, E.all = some g → (w.logs g).reached rlogLevelInfo = none
  · have hno : ¬ OwnMessageCrashes E w := by
      rintro ⟨g, item, hall, hitem, -⟩
      rw [hreached g hall] at hitem
      cases hitem
    exact .inr ⟨hno, _, ownMessage_unreached hreached, rfl, rfl⟩
  · push Not at hreached
    obtain ⟨g, hall, hg⟩ := hreached
    obtain ⟨item, hitem⟩ := Option.ne_none_iff_exists'.mp hg
    have hg := hsafe g hall
    by_cases hgd : g = d
    · subst hgd
      rw [if_pos rfl] at hg
      obtain ⟨hsep, hopen⟩ := hg item hitem
      refine .inl ⟨⟨g, item, hall, hitem, fun husable => hopen husable.2⟩, ?_⟩
      rw [ownMessage_held hkind h hall hitem, if_pos ⟨hsep, hopen⟩]
    · rw [if_neg hgd] at hg
      by_cases husable : (w.logs g).Usable item
      · have hno : ¬ OwnMessageCrashes E w := by
          rintro ⟨g', item', hall', hitem', hnot⟩
          rw [hall] at hall'
          cases hall'
          rw [hitem] at hitem'
          cases hitem'
          exact hnot husable
        have hsize : ¬ (w.logs g).fileSizeMax < int32 (item.fileSize + E.ownLen w.messages) :=
          fun hcross => hg ⟨item, hitem, E.ownLen_lt _, husable, hcross⟩
        have hprint : printItem E (sayAt E depth) g rlogLevelInfo (E.ownLen w.messages) item w.counted =
            .ok (0, afterWrite w.counted g rlogLevelInfo (E.ownLen w.messages) item) :=
          printItem_ok (h.other_free hgd) (h.item_free g rlogLevelInfo) husable hsize
        rw [ownMessage_eq hall hitem, hprint]
        exact .inr ⟨hno, _, rfl, rfl, setLog_other _ (Ne.symm hgd)⟩
      · have hprint : printItem E (sayAt E depth) g rlogLevelInfo (E.ownLen w.messages) item w.counted =
            .error .crash :=
          printItem_unusable hkind (h.other_free hgd) (h.item_free g rlogLevelInfo) (reached_working hitem) husable
        rw [ownMessage_eq hall hitem, hprint]
        exact .inl ⟨⟨g, item, hall, hitem, husable⟩, rfl⟩

/-- A message that crashes is not printed through `d` unless `d` is working. -/
theorem OwnMessageCrashes.safe (h : OwnMessageCrashes E w) (hstate : (w.logs d).state ≠ .working) :
    OwnMessageSafe E w d := by
  obtain ⟨g, item, hall, hitem, husable⟩ := h
  intro g' hall'
  rw [hall] at hall'
  cases hall'
  have hgd : g ≠ d := by
    rintro rfl
    exact hstate (reached_working hitem)
  rw [if_neg hgd]
  rintro ⟨item', hitem', -, husable', -⟩
  rw [hitem] at hitem'
  cases hitem'
  exact husable husable'

end own

/-! ## The calls -/

section calls

variable {E : RlogEnv} {w : RlogWorld} {d level : Nat}

theorem flushItem_mutex {closeFile : Bool} {lastFile : Option Nat} {r : Rlog} :
    (flushItem closeFile level lastFile r).Ends (· = .crash) fun next => next.2.mutex = r.mutex := by
  unfold flushItem
  split
  · rfl
  split
  · rfl
  dsimp only
  split
  · split
    · rfl
    split <;> rfl
  · split <;> rfl

theorem flushItems_mutex {closeFile : Bool} (levels : List Nat) (lastFile : Option Nat) (r : Rlog) :
    (flushItems closeFile levels lastFile r).Ends (· = .crash) fun next => next.mutex = r.mutex := by
  induction levels generalizing lastFile r with
  | nil => rfl
  | cons level levels ih =>
    refine flushItem_mutex.bind fun next hnext => ?_
    exact (ih next.1 next.2).mono fun r' hr' => hr'.trans hnext

theorem flushLevels_ends {closeFile : Bool} : (flushLevels d level closeFile w).Ends (· = .crash) fun w' =>
    w'.held = w.held ∧ (w'.logs d).mutex = (w.logs d).mutex := by
  unfold flushLevels
  refine Except.Ends.bind (P := fun r => r.mutex = (w.logs d).mutex) ?_ ?_
  · split
    · exact flushItems_mutex _ none _
    split
    · rfl
    · exact flushItem_mutex.map
  · intro r hr
    refine ⟨rfl, ?_⟩
    rw [setLog_same, hr]

theorem HoldsLog.of_free (hheld : w.held = []) (hmutex : (w.logs d).mutex) : HoldsLog (w.holding (.log d)) d :=
  ⟨by rw [RlogWorld.holding, hheld], hmutex⟩

theorem lockLog_free {kind : Locks.Kind} (hheld : w.held = []) (hmutex : (w.logs d).mutex) :
    w.lockLog kind d = .ok (w.holding (.log d)) := by
  refine lockLog_new hmutex ?_
  rw [hheld]
  exact List.not_mem_nil

/-- A flush prints its message and gives the mutex back. -/
theorem flush_ready_iff (hkind : E.kind = .normal) (hheld : w.held = []) (depth : Nat) (closeFile : Bool)
    (hmutex : (w.logs d).mutex) (hstate : (w.logs d).state = .working ∨ (w.logs d).state = .rollFile) :
    Disciplined w.held (rlogFlushFile E (sayAt E (depth + 1)) d level closeFile w) ↔ OwnMessageSafe E w d := by
  unfold Disciplined
  have hholds := HoldsLog.of_free hheld hmutex
  have hgood : ¬ (((w.holding (.log d)).logs d).state ≠ .working ∧
      ((w.holding (.log d)).logs d).state ≠ .rollFile) := by
    rintro ⟨hworking, hroll⟩
    exact hstate.elim hworking hroll
  rw [rlogFlushFile, lockLog_free hheld hmutex]
  simp only [bind, Except.bind]
  rw [if_neg hgood]
  by_cases hsafe : OwnMessageSafe E w d
  · refine iff_of_true ?_ hsafe
    rcases ownMessage_safe hkind hholds hsafe depth with ⟨-, hsay⟩ | ⟨-, w', hsay, hheld', hlog⟩
    · rw [hsay]
      rfl
    · rw [hsay]
      dsimp only
      refine flushLevels_ends.bind fun w'' ⟨hheld'', hmutex''⟩ => ?_
      have hunlock : w''.unlockLog d = .ok { w'' with held := [] } := by
        refine unlockLog_last ?_ ?_
        · rw [hmutex'', hlog]
          exact hmutex
        · rw [hheld'', hheld', hholds.held]
      rw [hunlock]
      exact hheld.symm
  · rw [ownMessage_blocks hkind hholds hsafe depth]
    exact iff_of_false (fun h => nomatch h) hsafe

/-- In another state the mutex is given back only by a crash. -/
theorem flush_refused_iff (hkind : E.kind = .normal) (hheld : w.held = []) (depth : Nat) (closeFile : Bool)
    (hmutex : (w.logs d).mutex) (hstate : (w.logs d).state ≠ .working ∧ (w.logs d).state ≠ .rollFile) :
    Disciplined w.held (rlogFlushFile E (sayAt E (depth + 1)) d level closeFile w) ↔ OwnMessageCrashes E w := by
  unfold Disciplined
  have hholds := HoldsLog.of_free hheld hmutex
  have hbad : ((w.holding (.log d)).logs d).state ≠ .working ∧ ((w.holding (.log d)).logs d).state ≠ .rollFile :=
    hstate
  rw [rlogFlushFile, lockLog_free hheld hmutex]
  simp only [bind, Except.bind]
  rw [if_pos hbad]
  by_cases hsafe : OwnMessageSafe E w d
  · rcases ownMessage_safe hkind hholds hsafe depth with ⟨hcrash, hsay⟩ | ⟨hcrash, w', hsay, hheld', -⟩
    · rw [hsay]
      exact iff_of_true rfl hcrash
    · rw [hsay]
      refine iff_of_false (fun hends => ?_) hcrash
      have hkept : w'.held = w.held := hends
      rw [hheld', hholds.held, hheld] at hkept
      cases hkept
  · rw [ownMessage_blocks hkind hholds hsafe depth]
    exact iff_of_false (fun h => nomatch h) fun hcrash => hsafe (hcrash.safe hstate.1)

theorem flush_disciplined_iff (hkind : E.kind = .normal) (hheld : w.held = []) (depth : Nat) (closeFile : Bool) :
    Disciplined w.held (rlogFlushFile E (sayAt E (depth + 1)) d level closeFile w) ↔
      RlogCall.Safe E w (.flushFile d level closeFile) := by
  unfold RlogCall.Safe
  dsimp only
  by_cases hmutex : (w.logs d).mutex = true
  · rw [imp_iff_right hmutex]
    by_cases hstate : (w.logs d).state = .working ∨ (w.logs d).state = .rollFile
    · rw [if_pos hstate]
      exact flush_ready_iff hkind hheld depth closeFile hmutex hstate
    · rw [if_neg hstate]
      exact flush_refused_iff hkind hheld depth closeFile hmutex (not_or.mp hstate)
  · rw [rlogFlushFile, lockLog_null hmutex]
    exact iff_of_true rfl fun h => absurd h hmutex

theorem rolling_disciplined_iff (hkind : E.kind = .normal) (hheld : w.held = []) (depth : Nat) :
    Disciplined w.held (rlogRollingFile E (sayAt E (depth + 1)) d level w) ↔
      RlogCall.Safe E w (.rollingFile d level) := by
  unfold Disciplined RlogCall.Safe
  by_cases hmutex : (w.logs d).mutex = true
  · by_cases hstate : (w.logs d).state = .working
    · rw [rolling_blocks hkind hmutex hstate]
      exact iff_of_false (fun h => nomatch h) fun h => (h hmutex).1 hstate
    · have hholds := HoldsLog.of_free hheld hmutex
      have hother : ((w.holding (.log d)).logs d).state ≠ .working := hstate
      rw [rlogRollingFile, lockLog_free hheld hmutex]
      simp only [bind, Except.bind]
      rw [if_pos hother]
      by_cases hsafe : OwnMessageSafe E w d
      · refine iff_of_true ?_ fun _ => ⟨hstate, hsafe⟩
        rcases ownMessage_safe hkind hholds hsafe depth with ⟨-, hsay⟩ | ⟨-, w', hsay, hheld', hlog⟩
        · rw [hsay]
          rfl
        · have hunlock : (w'.setLog d { w'.logs d with state := .working }).unlockLog d =
              .ok { w'.setLog d { w'.logs d with state := .working } with held := [] } := by
            refine unlockLog_last ?_ ?_
            · rw [setLog_same, hlog]
              exact hmutex
            · exact hheld'.trans hholds.held
          rw [hsay]
          dsimp only
          rw [rollingExit, hunlock]
          exact hheld.symm
      · rw [ownMessage_blocks hkind hholds hsafe depth]
        exact iff_of_false (fun h => nomatch h) fun h => hsafe (h hmutex).2
  · rw [rlogRollingFile, lockLog_null hmutex]
    exact iff_of_true rfl fun h => absurd h hmutex

/-- A message that is too long gives back `rlog_mutex`. -/
theorem printCached_ends (h : HoldsLog w d) (text : CachedText) (item : RlogInfo) :
    ((printCached d level text item w).Ends (· = .crash) fun r => r.2.held = []) ↔
      ((w.logs d).IsOpen item.filePtr → text.fmtLen < rlogTempDataSize → text.writeLen < rlogTempDataSize) := by
  unfold printCached
  by_cases hfmt : rlogTempDataSize ≤ text.fmtLen
  · rw [if_pos hfmt]
    exact iff_of_true rfl fun _ hlt => by omega
  rw [if_neg hfmt]
  by_cases hwrite : rlogTempDataSize ≤ text.writeLen
  · rw [if_pos hwrite]
    by_cases hopen : (w.logs d).IsOpen item.filePtr
    · have hunlock (r : Rlog) : (w.setLog d r).unlock .all = .error (.lock .notHeld) := by
        have hall : RlogMutex.all ∉ (w.setLog d r).held := by simp [RlogWorld.setLog, h.held]
        rw [RlogWorld.unlock, Locks.unlock_not_held hall]
      rw [if_neg (not_not.mpr hopen), hunlock]
      refine iff_of_false (fun hends => nomatch hends) fun hlt => ?_
      have := hlt hopen (by omega)
      omega
    · rw [if_pos hopen]
      exact iff_of_true rfl fun hyes => absurd hyes hopen
  · rw [if_neg hwrite]
    refine iff_of_true ?_ fun _ _ => by omega
    have hrest (bufferLen : Nat) : Except.Ends (do
        let w ← (w.setLog d ((w.logs d).setItem level { item with bufferLen })).unlockLog d
        .ok ((0 : Int), w)) (· = RlogFault.crash) fun r => r.2.held = [] := by
      have hunlock : (w.setLog d ((w.logs d).setItem level { item with bufferLen })).unlockLog d =
          .ok { w.setLog d ((w.logs d).setItem level { item with bufferLen }) with held := [] } := by
        refine unlockLog_last ?_ h.held
        rw [setLog_same]
        exact h.mutex
      rw [hunlock]
      rfl
    refine Except.Ends.bind (P := fun _ => True) ?_ fun bufferLen _ => hrest bufferLen
    split
    · split <;> trivial
    · split <;> trivial

/-- The same for the cached print. -/
theorem printfCached_unreached {rlog : Option Nat} {text : CachedText} (htarget : E.target rlog = some d)
    (hitem : (w.logs d).reached level = none) :
    (rlogPrintfCached E rlog level text w).Ends (· = .crash) fun r => r.2 = w := by
  rw [rlogPrintfCached, htarget]
  dsimp only
  by_cases hstate : (w.logs d).state = .working
  · rw [if_neg (not_not.mpr hstate)]
    by_cases hlow : level < (w.logs d).level
    · rw [if_pos hlow]
      rfl
    · rw [if_neg hlow]
      by_cases hall : rlogLevelAll ≤ level
      · rw [if_pos hall]
        rfl
      · rw [if_neg hall, logItems_of_unreached hitem hstate (by omega) (by omega)]
        rfl
  · rw [if_pos hstate]
    rfl

theorem printfCached_reached {rlog : Option Nat} {text : CachedText} {item : RlogInfo}
    (htarget : E.target rlog = some d) (hitem : (w.logs d).reached level = some item) :
    rlogPrintfCached E rlog level text w = (w.lockLog E.kind d).bind (printCached d level text item) := by
  obtain ⟨hstate, hlow, hall, hitem⟩ := reached_eq_some_iff.mp hitem
  rw [rlogPrintfCached, htarget]
  dsimp only
  rw [if_neg (not_not.mpr hstate), if_neg (by omega), if_neg (by omega), hitem]
  rfl

theorem cached_disciplined_iff (hheld : w.held = []) (rlog : Option Nat) (text : CachedText) :
    Disciplined w.held (rlogPrintfCached E rlog level text w) ↔ RlogCall.Safe E w (.printfCached rlog level text) := by
  unfold Disciplined RlogCall.Safe
  dsimp only
  cases htarget : E.target rlog with
  | none =>
    rw [rlogPrintfCached, htarget]
    exact iff_of_true rfl fun d hd => nomatch hd
  | some d =>
    cases hitem : (w.logs d).reached level with
    | none =>
      refine iff_of_true ((printfCached_unreached htarget hitem).mono ?_) ?_
      · rintro ⟨code, w'⟩ rfl
        rfl
      · rintro d' ⟨⟩ item hreached
        rw [hitem] at hreached
        cases hreached
    | some item =>
      rw [printfCached_reached htarget hitem]
      by_cases hmutex : (w.logs d).mutex = true
      · rw [lockLog_free hheld hmutex, hheld]
        refine (printCached_ends (.of_free hheld hmutex) text item).trans ⟨?_, ?_⟩
        · rintro hok d' ⟨⟩ item' hreached husable
          rw [hitem] at hreached
          cases hreached
          exact hok husable.2
        · intro hok hopen
          exact hok d rfl item hitem ⟨hmutex, hopen⟩
      · rw [lockLog_null hmutex]
        refine iff_of_true rfl ?_
        rintro d' ⟨⟩ item' - husable
        exact absurd husable.1 hmutex

end calls

/-! ## Runs -/

/-- The call returns. -/
def RlogCall.Step (E : RlogEnv) (depth : Nat) (w : RlogWorld) (call : RlogCall) (w' : RlogWorld) : Prop :=
  ∃ code, call.run E depth w = .ok (code, w')

theorem disciplined_iff {E : RlogEnv} {w : RlogWorld} (hkind : E.kind = .normal) (hheld : w.held = []) (depth : Nat)
    (call : RlogCall) : Disciplined w.held (call.run E (depth + 1) w) ↔ call.Safe E w := by
  cases call with
  | printf rlog level len => exact printf_disciplined_iff hkind hheld rlog
  | printfCached rlog level text => exact cached_disciplined_iff hheld rlog text
  | flushFile d level closeFile => exact flush_disciplined_iff hkind hheld depth closeFile
  | rollingFile d level => exact rolling_disciplined_iff hkind hheld depth

/-- From a thread that holds nothing, in every state that safe calls reach: nothing is held, and the next call
keeps the discipline exactly when it is safe too. -/
theorem locks_run {E : RlogEnv} {depth : Nat} {w w' : RlogWorld} {calls : List RlogCall} (hkind : E.kind = .normal)
    (hheld : w.held = [])
    (hrun : Steps (Guarded (fun w call => call.Safe E w) (RlogCall.Step E (depth + 1))) w calls w') :
    w'.held = [] ∧ ∀ call : RlogCall, Disciplined w'.held (call.run E (depth + 1) w') ↔ call.Safe E w' := by
  have hnone : w'.held = [] := by
    refine hrun.invariant (I := fun w => w.held = []) (fun {w call w'} hheld hstep => ?_) hheld
    obtain ⟨hsafe, code, hok⟩ := hstep
    have hdisciplined := (disciplined_iff hkind hheld depth call).mpr hsafe
    rw [hok] at hdisciplined
    exact Eq.trans hdisciplined hheld
  exact ⟨hnone, disciplined_iff hkind hnone depth⟩

/-- One log, with one file for all levels. -/
def sharedLog : Rlog where
  state := .working
  fileSeparated := false
  level := 0
  fileSizeMax := 1024000
  mutex := true
  logItems level := if level < rlogLevelAll then some ⟨0, some 0, 0⟩ else none
  files := ⟨[0], []⟩

def normalEnv : RlogEnv := .plain .normal (some 0)

def sharedWorld : RlogWorld := ⟨fun _ => sharedLog, [], 0, 0⟩

/-- Two working logs, of which the second one is the global log, and one that is not working. -/
def threeLogs : RlogWorld := ⟨fun d => if d = 2 then { sharedLog with state := .init } else sharedLog, [], 0, 0⟩

/-- Behind a print, a cached print and a flush of the first log the third one is rolled, and can be printed to
but not rolled again. -/
theorem locks_run_roll :
    let E : RlogEnv := .plain .normal (some 1)
    let calls : List RlogCall := [.printf (some 0) rlogLevelInfo 10,
      .printfCached (some 0) rlogLevelInfo ⟨10, 20, 20, false⟩, .flushFile 0 rlogLevelAll false,
      .rollingFile 2 rlogLevelAll]
    ∃ w', Steps (Guarded (fun w call => call.Safe E w) (RlogCall.Step E 1)) threeLogs calls w' ∧ w'.held = [] ∧
      Disciplined w'.held ((RlogCall.printf (some 2) rlogLevelInfo 10).run E 1 w') ∧
      ¬ Disciplined w'.held ((RlogCall.rollingFile 2 rlogLevelAll).run E 1 w') := by
  intro E calls
  have hfits {r : Rlog} {size len : Int}
      (hitem : r.reached rlogLevelInfo = some ⟨size, some 0, 0⟩ ∧ r.fileSizeMax = 1024000)
      (hmax : int32 (size + len) ≤ 1024000) : ¬ r.Crosses rlogLevelInfo len := by
    rintro ⟨item, hitem', -, -, hcross⟩
    cases hitem.1.symm.trans hitem'
    rw [hitem.2] at hcross
    exact hmax.not_gt hcross
  obtain ⟨w₁, w₂, w₃, w₄, ⟨h₁, h₂, h₃, h₄⟩, ⟨hstate₂, hglobal₂⟩, ⟨hstate₃, hglobal₃⟩, hstate₄, hmutex₄⟩ :
      ∃ w₁ w₂ w₃ w₄, (RlogCall.Step E 1 threeLogs (.printf (some 0) rlogLevelInfo 10) w₁ ∧
        RlogCall.Step E 1 w₁ (.printfCached (some 0) rlogLevelInfo ⟨10, 20, 20, false⟩) w₂ ∧
        RlogCall.Step E 1 w₂ (.flushFile 0 rlogLevelAll false) w₃ ∧
        RlogCall.Step E 1 w₃ (.rollingFile 2 rlogLevelAll) w₄) ∧
      ((w₂.logs 0).state = .working ∧ (w₂.logs 1).reached rlogLevelInfo = some ⟨0, some 0, 0⟩ ∧
        (w₂.logs 1).fileSizeMax = 1024000) ∧
      ((w₃.logs 2).state = .init ∧ (w₃.logs 1).reached rlogLevelInfo = some ⟨50, some 0, 0⟩ ∧
        (w₃.logs 1).fileSizeMax = 1024000) ∧
      ((w₄.logs 2).reached rlogLevelInfo = some ⟨0, some 0, 0⟩ ∧ (w₄.logs 2).fileSizeMax = 1024000) ∧
      (w₄.logs 2).mutex = true ∧ (w₄.logs 2).state = .working :=
    ⟨_, _, _, _, ⟨⟨_, rfl⟩, ⟨_, rfl⟩, ⟨_, rfl⟩, ⟨_, rfl⟩⟩, ⟨rfl, rfl, rfl⟩, ⟨rfl, rfl, rfl⟩, ⟨rfl, rfl⟩, rfl, rfl⟩
  have hsafe₁ : (RlogCall.printf (some 0) rlogLevelInfo 10).Safe E threeLogs := by
    rintro d hd
    cases hd
    exact hfits ⟨rfl, rfl⟩ (by decide)
  have hsafe₂ : (RlogCall.printfCached (some 0) rlogLevelInfo ⟨10, 20, 20, false⟩).Safe E w₁ :=
    fun _ _ _ _ _ _ => by decide
  have hsafe₃ : (RlogCall.flushFile 0 rlogLevelAll false).Safe E w₂ := by
    intro _
    rw [if_pos (.inl hstate₂)]
    intro g hg
    cases hg
    exact hfits hglobal₂ (show int32 (0 + 50) ≤ 1024000 by decide)
  have hsafe₄ : (RlogCall.rollingFile 2 rlogLevelAll).Safe E w₃ := by
    refine fun _ => ⟨by rw [hstate₃]; decide, fun g hg => ?_⟩
    cases hg
    exact hfits hglobal₃ (show int32 (50 + 50) ≤ 1024000 by decide)
  have hrun : Steps (Guarded (fun w call => call.Safe E w) (RlogCall.Step E 1)) threeLogs calls w₄ :=
    .cons ⟨hsafe₁, h₁⟩ (.cons ⟨hsafe₂, h₂⟩ (.cons ⟨hsafe₃, h₃⟩ (.cons ⟨hsafe₄, h₄⟩ (.nil _))))
  obtain ⟨hheld, hnext⟩ := @locks_run E 0 _ _ _ rfl rfl hrun
  refine ⟨w₄, hrun, hheld, (hnext _).2 ?_, fun hdisciplined => ?_⟩
  · rintro d hd
    cases hd
    exact hfits hstate₄ (by decide)
  · exact ((hnext _).1 hdisciplined hmutex₄.1).1 hmutex₄.2

/-- A log that is working is rolled. -/
theorem rolling_locks_twice : ¬ ∀ (E : RlogEnv) (depth : Nat) (w : RlogWorld) (call : RlogCall),
    E.kind = .normal → w.held = [] → Disciplined w.held (call.run E (depth + 1) w) := by
  intro hall
  have hkept := hall normalEnv 0 sharedWorld (.rollingFile 0 rlogLevelAll) rfl rfl
  have hrun : rlogRollingFile normalEnv (sayAt normalEnv 1) 0 rlogLevelAll sharedWorld = .error (.lock .deadlock) :=
    rolling_blocks rfl rfl rfl
  rw [RlogCall.run, hrun] at hkept
  cases hkept

end Funra
