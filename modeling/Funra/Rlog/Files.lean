import Funra.Lib.System
import Funra.Rlog.Basic

/-!
# The files of the logger

A log with one file for all levels has it open whenever it is working: `rlog_init_log` opens it once and the items
share it, rolling closes it once and opens another, and `rlog_uninit_log` closes it once. A separated log has no
items: `_rlog_build_items` passes over every level of it (`files_run`).

While one log is rolled the logger's own messages may roll another one. What a call does to the log it is about is
therefore followed beside what its messages may do to the others (`Around`).
-/

namespace Funra

open CInt Ownership System

/-! ## What a working log has -/

/-- The handles are numbered in the order of `fopen`. -/
def Numbered (files : Ledger Nat) : Prop := files.made.Nodup ∧ ∀ file ∈ files.made, file < files.made.length

def Rlog.filePtr (r : Rlog) (level : Nat) : Option Nat := (r.logItems level).bind RlogInfo.filePtr

/-- The items of a log: none if it is separated, else all with one file. -/
def Rlog.Built (r : Rlog) : Prop :=
  r.mutex ∧ Numbered r.files ∧
    if r.fileSeparated then (∀ level < rlogLevelAll, r.logItems level = none) ∧ r.files.Balanced []
    else ∃ file, (∀ level < rlogLevelAll, r.filePtr level = some file) ∧ r.files.Balanced [file]

/-- What may happen to a log while another one is worked on: nothing, unless it is working. -/
def Rlog.Follows (r r' : Rlog) : Prop :=
  if r.state = .working then r'.state = .working ∧ r'.fileSeparated = r.fileSeparated ∧ r'.Built else r' = r

def RlogWorld.Sound (w : RlogWorld) : Prop := ∀ d, (w.logs d).state = .working → (w.logs d).Built

structure RlogWorld.Keeps (w w' : RlogWorld) : Prop where
  held : w'.held = w.held
  logs : ∀ d, (w.logs d).Follows (w'.logs d)

/-- The log `d` is now `r`, the others follow, and `held` is held. -/
structure Around (d : Nat) (w : RlogWorld) (held : List RlogMutex) (r : Rlog) (w' : RlogWorld) : Prop where
  held : w'.held = held
  self : w'.logs d = r
  others : ∀ g, g ≠ d → (w.logs g).Follows (w'.logs g)

/-- What printing a message owes. -/
def Quiet (say : Nat → RlogRun) : Prop := ∀ level w, w.Sound → (say level w).Returns fun w' => w.Keeps w'

section follows

variable {r r' r'' : Rlog} {w w' w'' : RlogWorld} {d : Nat} {held : List RlogMutex} {say : Nat → RlogRun}

theorem Rlog.Follows.refl (h : r.state = .working → r.Built) : r.Follows r := by
  unfold Rlog.Follows
  split
  · rename_i hstate
    exact ⟨hstate, rfl, h hstate⟩
  · rfl

theorem Rlog.Follows.trans (h : r.Follows r') (h' : r'.Follows r'') : r.Follows r'' := by
  unfold Rlog.Follows at *
  by_cases hstate : r.state = .working
  · rw [if_pos hstate] at h ⊢
    obtain ⟨hstate', hsep, -⟩ := h
    rw [if_pos hstate'] at h'
    exact ⟨h'.1, h'.2.1.trans hsep, h'.2.2⟩
  · rw [if_neg hstate] at h ⊢
    subst h
    rwa [if_neg hstate] at h'

theorem Rlog.Follows.built (h : r.Follows r') (hstate : r'.state = .working) : r'.Built := by
  unfold Rlog.Follows at h
  split at h
  · exact h.2.2
  · rename_i hno
    rw [h] at hstate
    exact absurd hstate hno

theorem RlogWorld.Keeps.refl (h : w.Sound) : w.Keeps w := ⟨rfl, fun d => .refl (h d)⟩

theorem RlogWorld.Keeps.trans (h : w.Keeps w') (h' : w'.Keeps w'') : w.Keeps w'' :=
  ⟨h'.held.trans h.held, fun d => (h.logs d).trans (h'.logs d)⟩

theorem RlogWorld.Keeps.sound (h : w.Keeps w') : w'.Sound := fun d hstate => (h.logs d).built hstate

theorem RlogWorld.Keeps.idle (h : w.Keeps w') (hstate : (w.logs d).state ≠ .working) : w'.logs d = w.logs d := by
  have hd := h.logs d
  unfold Rlog.Follows at hd
  rwa [if_neg hstate] at hd

theorem Around.start (h : w.Sound) (d : Nat) : Around d w w.held (w.logs d) w := ⟨rfl, rfl, fun g _ => .refl (h g)⟩

theorem Around.sound (h : Around d w held r w') (hr : r.state = .working → r.Built) : w'.Sound := by
  intro g hworking
  by_cases hg : g = d
  · subst hg
    rw [h.self] at hworking ⊢
    exact hr hworking
  · exact (h.others g hg).built hworking

/-- After a step of another function. -/
theorem Around.step (h : Around d w held r w') (hkeeps : w'.Keeps w'') : Around d w held (w''.logs d) w'' where
  held := hkeeps.held.trans h.held
  self := rfl
  others := fun g hg => (h.others g hg).trans (hkeeps.logs g)

theorem Around.setLog (h : Around d w held r w') (r' : Rlog) : Around d w held r' (w'.setLog d r') where
  held := h.held
  self := Function.update_self ..
  others := by
    intro g hg
    have hsame : (w'.setLog d r').logs g = w'.logs g := Function.update_of_ne hg ..
    rw [hsame]
    exact h.others g hg

theorem Around.lock {kind : Locks.Kind} {m : RlogMutex} (h : Around d w held r w') :
    (w'.lock kind m).Returns fun w'' => Around d w (m :: held) r w'' := by
  intro w'' heq
  unfold RlogWorld.lock at heq
  cases hlock : Locks.lock kind m w'.held with
  | error f =>
    rw [hlock] at heq
    cases heq
  | ok held' =>
    rw [hlock] at heq
    cases heq
    have hheld := Locks.lock_eq_ok hlock
    exact ⟨by rw [← h.held]; exact hheld, h.self, h.others⟩

theorem Around.lock_new {m : RlogMutex} (h : Around d w held r w') (hfree : m ∉ held) (kind : Locks.Kind) :
    ∃ w'', w'.lock kind m = .ok w'' ∧ Around d w (m :: held) r w'' := by
  refine ⟨{ w' with held := m :: held }, ?_, rfl, h.self, h.others⟩
  rw [RlogWorld.lock, h.held, Locks.lock_ok hfree]

theorem Around.unlock {m : RlogMutex} (h : Around d w (m :: held) r w') :
    ∃ w'', w'.unlock m = .ok w'' ∧ Around d w held r w'' := by
  refine ⟨{ w' with held }, ?_, rfl, h.self, h.others⟩
  rw [RlogWorld.unlock, h.held, Locks.unlock_head]

theorem Around.lockLog {kind : Locks.Kind} (h : Around d w held r w') :
    (w'.lockLog kind d).Returns fun w'' => Around d w (.log d :: held) r w'' ∧ r.mutex := by
  unfold RlogWorld.lockLog
  split
  · rename_i hmutex
    rw [h.self] at hmutex
    exact h.lock.mono fun w'' h' => ⟨h', hmutex⟩
  · exact .error

theorem Around.unlockLog (h : Around d w (.log d :: held) r w') (hmutex : r.mutex) :
    ∃ w'', w'.unlockLog d = .ok w'' ∧ Around d w held r w'' := by
  rw [RlogWorld.unlockLog, h.self, if_pos hmutex]
  exact h.unlock

/-- A message, while the log is not working. -/
theorem Around.message (hsay : Quiet say) (h : Around d w held r w') (hstate : r.state ≠ .working) (level : Nat) :
    (say level w').Returns fun w'' => Around d w held r w'' := by
  refine (hsay level w' (h.sound fun hworking => absurd hworking hstate)).mono fun w'' hkeeps => ?_
  have hstep := h.step hkeeps
  rwa [hkeeps.idle (by rw [h.self]; exact hstate), h.self] at hstep

/-- The log is back as it may be. -/
theorem Around.keeps (h : Around d w w.held r w') (hr : (w.logs d).Follows r) : w.Keeps w' where
  held := h.held
  logs := by
    intro g
    by_cases hg : g = d
    · subst hg
      rw [h.self]
      exact hr
    · exact h.others g hg

end follows

/-! ## Closing the file -/

section flush

variable {r : Rlog} {level : Nat} {levels : List Nat} {file : Nat}

theorem filePtr_item (h : r.filePtr level = some file) :
    ∃ item, r.logItems level = some item ∧ item.filePtr = some file := Option.bind_eq_some_iff.mp h

theorem filePtr_update_other {item : Option RlogInfo} {other : Nat} (h : other ≠ level) :
    ({ r with logItems := Function.update r.logItems level item } : Rlog).filePtr other = r.filePtr other := by
  unfold Rlog.filePtr
  dsimp only
  rw [Function.update_of_ne h]

/-- A loop over the levels that closes a file where it meets it first. It leaves an item without a file where
`kept` holds, and none otherwise. -/
structure ClosesItems (kept : Bool) (round : Nat → Option Nat → Rlog → Except RlogFault (Option Nat × Rlog))
    (loop : List Nat → Option Nat → Rlog → Except RlogFault Rlog) : Prop where
  nil : ∀ {lastFile r}, loop [] lastFile r = .ok r
  cons : ∀ {level levels lastFile r}, loop (level :: levels) lastFile r =
    (round level lastFile r).bind fun next => loop levels next.1 next.2
  passes : ∀ {level lastFile r}, r.logItems level = none → round level lastFile r = .ok (lastFile, r)
  forgets : ∀ {level file r}, r.filePtr level = some file → ∃ item, Option.isSome item = kept ∧
    round level (some file) r = .ok (some file, { r with logItems := Function.update r.logItems level item })
  closes : ∀ {level file r}, r.filePtr level = some file → r.files.Live file → ∃ item, Option.isSome item = kept ∧
    round level none r = .ok (some file,
      { r with logItems := Function.update r.logItems level item, files := r.files.free (some file) })

theorem flush_closesItems : ClosesItems true (flushItem true) (flushItems true) where
  nil := rfl
  cons := rfl
  passes := by
    intro level lastFile r hitem
    rw [flushItem, hitem]
  forgets := by
    intro level file r hfile
    obtain ⟨item, hitem, hfile⟩ := filePtr_item hfile
    refine ⟨some { item with filePtr := none, fileSize := 0 }, rfl, ?_⟩
    rw [flushItem, hitem]
    dsimp only
    rw [hfile]
    dsimp only
    rw [if_neg (not_not.mpr rfl), if_pos rfl]
    rfl
  closes := by
    intro level file r hfile hlive
    obtain ⟨item, hitem, hfile⟩ := filePtr_item hfile
    have hopen : r.IsOpen (some file) := ⟨file, rfl, hlive⟩
    refine ⟨some { item with filePtr := none, fileSize := 0 }, rfl, ?_⟩
    rw [flushItem, hitem]
    dsimp only
    rw [hfile]
    dsimp only
    rw [if_pos (Option.some_ne_none file), if_neg (not_not.mpr hopen), if_pos rfl]
    rfl

theorem uninit_closesItems : ClosesItems false uninitItem uninitItems where
  nil := rfl
  cons := rfl
  passes := by
    intro level lastFile r hitem
    rw [uninitItem, hitem]
  forgets := by
    intro level file r hfile
    obtain ⟨item, hitem, hfile⟩ := filePtr_item hfile
    refine ⟨none, rfl, ?_⟩
    rw [uninitItem, hitem]
    dsimp only
    rw [hfile]
    dsimp only
    rw [if_neg (not_not.mpr rfl)]
  closes := by
    intro level file r hfile hlive
    obtain ⟨item, hitem, hfile⟩ := filePtr_item hfile
    have hopen : r.IsOpen (some file) := ⟨file, rfl, hlive⟩
    refine ⟨none, rfl, ?_⟩
    rw [uninitItem, hitem]
    dsimp only
    rw [hfile]
    dsimp only
    rw [if_pos (Option.some_ne_none file).symm, if_neg (not_not.mpr hopen)]

section loop

variable {kept : Bool} {round : Nat → Option Nat → Rlog → Except RlogFault (Option Nat × Rlog)}
  {loop : List Nat → Option Nat → Rlog → Except RlogFault Rlog}

/-- Levels without items are passed over. -/
theorem ClosesItems.none (h : ClosesItems kept round loop) {lastFile : Option Nat}
    (hnone : ∀ level ∈ levels, r.logItems level = none) : loop levels lastFile r = .ok r := by
  induction levels generalizing lastFile with
  | nil => exact h.nil
  | cons level levels ih =>
    rw [h.cons, h.passes (hnone level List.mem_cons_self)]
    exact ih fun other hother => hnone other (List.mem_cons_of_mem _ hother)

/-- Behind the item that was closed, the others only forget the file. -/
theorem ClosesItems.forget (h : ClosesItems kept round loop) (hnodup : levels.Nodup)
    (hshared : ∀ level ∈ levels, r.filePtr level = some file) :
    ∃ items, loop levels (some file) r = .ok { r with logItems := items } ∧
      (∀ level ∈ levels, (items level).isSome = kept) ∧ ∀ level, level ∉ levels → items level = r.logItems level := by
  induction levels generalizing r with
  | nil => exact ⟨r.logItems, h.nil, fun level hlevel => absurd hlevel List.not_mem_nil, fun _ _ => rfl⟩
  | cons level levels ih =>
    obtain ⟨hnotin, hnodup⟩ := List.nodup_cons.mp hnodup
    obtain ⟨item, hkept, hround⟩ := h.forgets (hshared level List.mem_cons_self)
    obtain ⟨items, hrest, hin, hout⟩ :=
      ih (r := { r with logItems := Function.update r.logItems level item }) hnodup fun other hother =>
        (filePtr_update_other (ne_of_mem_of_not_mem hother hnotin)).trans
          (hshared other (List.mem_cons_of_mem _ hother))
    have hself : items level = item := (hout level hnotin).trans (Function.update_self ..)
    refine ⟨items, ?_, List.forall_mem_cons.mpr ⟨by rw [hself]; exact hkept, hin⟩, fun other hother => ?_⟩
    · rw [h.cons, hround]
      exact hrest
    · obtain ⟨hne, hmem⟩ := List.ne_and_not_mem_of_not_mem_cons hother
      exact (hout other hmem).trans (Function.update_of_ne hne ..)

/-- The file of a log is closed once. -/
theorem ClosesItems.close (h : ClosesItems kept round loop) (hnodup : (level :: levels).Nodup)
    (hshared : ∀ other ∈ level :: levels, r.filePtr other = some file) (hlive : r.files.Live file) :
    ∃ items, loop (level :: levels) .none r =
        .ok { r with logItems := items, files := r.files.free (some file) } ∧
      ∀ other ∈ level :: levels, (items other).isSome = kept := by
  obtain ⟨hnotin, hnodup⟩ := List.nodup_cons.mp hnodup
  obtain ⟨item, hkept, hround⟩ := h.closes (hshared level List.mem_cons_self) hlive
  obtain ⟨items, hrest, hin, hout⟩ := h.forget (r := { r with
      logItems := Function.update r.logItems level item, files := r.files.free (some file) }) hnodup
    fun other hother => (filePtr_update_other (r := r) (ne_of_mem_of_not_mem hother hnotin)).trans
      (hshared other (List.mem_cons_of_mem _ hother))
  have hself : items level = item := (hout level hnotin).trans (Function.update_self ..)
  refine ⟨items, ?_, List.forall_mem_cons.mpr ⟨by rw [hself]; exact hkept, hin⟩⟩
  rw [h.cons, hround]
  exact hrest

/-- The file all levels share is closed once. -/
theorem ClosesItems.all (h : ClosesItems kept round loop)
    (hshared : ∀ level < rlogLevelAll, r.filePtr level = some file) (hlive : r.files.Live file) :
    ∃ items, loop (List.range rlogLevelAll) .none r =
        .ok { r with logItems := items, files := r.files.free (some file) } ∧
      ∀ level < rlogLevelAll, (items level).isSome = kept := by
  have hlevels : List.range rlogLevelAll = 0 :: List.range' 1 6 := rfl
  have hmem (level : Nat) : level ∈ 0 :: List.range' 1 6 ↔ level < rlogLevelAll := by
    rw [← hlevels, List.mem_range]
  obtain ⟨items, hclose, hitems⟩ := h.close (by decide) (fun level hlevel => hshared level ((hmem level).mp hlevel)) hlive
  exact ⟨items, hlevels ▸ hclose, fun level hlevel => hitems level ((hmem level).mpr hlevel)⟩

end loop

end flush

/-- A log whose files are closed, as `_rlog_build_items` gets it. -/
structure Rlog.Ready (r : Rlog) (isInit : Bool) : Prop where
  mutex : r.mutex
  numbered : Numbered r.files
  settled : r.files.Balanced []
  items : ∀ level < rlogLevelAll, (r.logItems level).isSome = (!isInit && !r.fileSeparated)

section flush

variable {r : Rlog} {E : RlogEnv} {say : Nat → RlogRun} {w w' : RlogWorld} {d level : Nat} {held : List RlogMutex}

theorem flushLevels_around (h : Around d w held r w') (hbuilt : r.Built) : (flushLevels d level true w').Returns
    fun w'' => ∃ r', Around d w held r' w'' ∧ r'.Ready false ∧ r'.state = r.state ∧
      r'.fileSeparated = r.fileSeparated := by
  obtain ⟨hmutex, hnumbered, hfiles⟩ := hbuilt
  unfold flushLevels
  rw [h.self]
  by_cases hsep : r.fileSeparated = true
  · rw [if_pos hsep] at hfiles
    obtain ⟨hitems, hsettled⟩ := hfiles
    refine Except.Returns.bind (P := fun r' => r' = r) ?_ ?_
    · split
      · rw [flush_closesItems.none fun level hlevel => hitems level (List.mem_range.mp hlevel)]
        exact .ok rfl
      split
      · exact .error
      · rename_i hall hrange
        have hnone : r.logItems level = none := by
          refine hitems level ?_
          have hne : level ≠ rlogLevelAll := fun heq => hall (.inl heq)
          omega
        rw [flush_closesItems.passes hnone]
        exact .ok rfl
    · rintro r' rfl
      refine .ok ⟨r', h.setLog r', ⟨hmutex, hnumbered, hsettled, fun level hlevel => ?_⟩, rfl, rfl⟩
      rw [hitems level hlevel, hsep]
      rfl
  · rw [if_neg hsep] at hfiles
    obtain ⟨file, hshared, hheld⟩ := hfiles
    obtain ⟨items, hclose, hitems⟩ := flush_closesItems.all hshared (hheld.live List.mem_cons_self)
    dsimp only
    rw [if_pos (.inr hsep), hclose]
    refine .ok ⟨_, h.setLog _, ⟨hmutex, hnumbered, ?_, fun level hlevel => ?_⟩, rfl, rfl⟩
    · exact Ledger.Balanced.free (x := some file) hheld
    · have hno : r.fileSeparated = false := by simpa using hsep
      dsimp only
      rw [hitems level hlevel, hno]
      rfl

theorem flush_around (hsay : Quiet say) (h : Around d w held r w') (hbuilt : r.Built) (hstate : r.state = .rollFile) :
    (rlogFlushFile E say d level true w').Returns fun x => x.1 = 0 ∧ ∃ r', Around d w held r' x.2 ∧ r'.Ready false ∧
      r'.state = .rollFile ∧ r'.fileSeparated = r.fileSeparated := by
  unfold rlogFlushFile
  refine h.lockLog.bind fun w₁ ⟨h₁, hmutex⟩ => ?_
  have hroll : ¬ ((w₁.logs d).state ≠ .working ∧ (w₁.logs d).state ≠ .rollFile) := by
    rw [h₁.self]
    exact fun hand => hand.2 hstate
  rw [if_neg hroll]
  have hidle : r.state ≠ .working := by
    rw [hstate]
    decide
  refine (h₁.message hsay hidle _).bind fun w₂ h₂ => ?_
  refine (flushLevels_around h₂ hbuilt).bind fun w₃ ⟨r', h₃, hready, hstate', hsep⟩ => ?_
  obtain ⟨w₄, hunlock, h₄⟩ := h₃.unlockLog hready.mutex
  rw [hunlock]
  exact .ok ⟨rfl, r', h₄, hready, hstate'.trans hstate, hsep⟩

end flush

/-! ## Opening a file -/

/-- `fopen` succeeds, and the path formatted for a level string does not change during a build. -/
structure RlogEnv.Steady (E : RlogEnv) : Prop where
  fopen : ∀ build level, E.fopen build level
  path : ∀ build level level' levelStr, E.path build level levelStr = E.path build level' levelStr

/-- What `_rlog_build_items` has done before the round `k`, for a log that was `r₀`. -/
structure Stage (r₀ : Rlog) (isInit : Bool) (path : List UInt8) (k : Nat) (lastFilepath : Option (List UInt8))
    (r : Rlog) : Prop where
  same : r = { r₀ with logItems := r.logItems, files := r.files }
  rest : ∀ level, k ≤ level → level < rlogLevelAll → (r.logItems level).isSome = !isInit
  built : ∀ level < k, r.filePtr level = some r₀.files.made.length
  last : lastFilepath = if k = 0 then none else some path
  files : r.files = if k = 0 then r₀.files else r₀.files.make (some r₀.files.made.length)

section build

variable {r r₀ : Rlog} {E : RlogEnv} {say : Nat → RlogRun} {w w' : RlogWorld} {d level build k : Nat}
  {held : List RlogMutex} {isInit : Bool} {path : List UInt8} {lastFilepath : Option (List UInt8)}
  {file : Option Nat}

theorem filePtr_setFilePtr (h : (r.logItems level).isSome) : (r.setFilePtr level file).filePtr level = file := by
  obtain ⟨item, hitem⟩ := Option.isSome_iff_exists.mp h
  unfold Rlog.filePtr Rlog.setFilePtr
  dsimp only
  rw [Function.update_self, hitem]
  rfl

theorem filePtr_setFilePtr_other {other : Nat} (h : other ≠ level) :
    (r.setFilePtr level file).filePtr other = r.filePtr other := by
  unfold Rlog.filePtr Rlog.setFilePtr
  dsimp only
  rw [Function.update_of_ne h]

theorem logItems_setFilePtr_other {other : Nat} (h : other ≠ level) :
    (r.setFilePtr level file).logItems other = r.logItems other := Function.update_of_ne h ..

/-- The item of a level gets its file. -/
theorem Stage.setFile (h : Stage r₀ isInit path k lastFilepath r) {r₁ : Rlog}
    (hsame : r₁ = { r with logItems := r₁.logItems, files := r₀.files.make (some r₀.files.made.length) })
    (hitem : (r₁.logItems k).isSome) (hother : ∀ level, level ≠ k → r₁.logItems level = r.logItems level) :
    Stage r₀ isInit path (k + 1) (some path) (r₁.setFilePtr k (some r₀.files.made.length)) where
  same := by
    rw [hsame, h.same]
    rfl
  rest := by
    intro level hk hlevel
    rw [logItems_setFilePtr_other (by omega), hother level (by omega)]
    exact h.rest level (by omega) hlevel
  built := by
    intro level hk
    by_cases hlevel : level = k
    · subst hlevel
      exact filePtr_setFilePtr hitem
    · rw [filePtr_setFilePtr_other hlevel, Rlog.filePtr, hother level hlevel]
      exact h.built level (by omega)
  last := by rw [if_neg (Nat.succ_ne_zero k)]
  files := by
    rw [if_neg (Nat.succ_ne_zero k)]
    exact congrArg Rlog.files hsame

theorem buildItem_around (hE : E.Steady) (hsay : Quiet say) (h : Around d w held r w') (hidle : r₀.state ≠ .working)
    (hstage : Stage r₀ isInit (E.path build 0 rlogLevelAll) k lastFilepath r) (hk : k < rlogLevelAll) :
    (buildItem E say d isInit level false build k lastFilepath w').Returns fun x =>
      x.1 = some (some (E.path build 0 rlogLevelAll)) ∧ ∃ r', Around d w held r' x.2 ∧
        Stage r₀ isInit (E.path build 0 rlogLevelAll) (k + 1) (some (E.path build 0 rlogLevelAll)) r' := by
  have hrest := hstage.rest k (Nat.le_refl k) hk
  have hstate : r.state = r₀.state := by rw [hstage.same]
  unfold buildItem
  rw [h.self]
  have hfirst : ¬ (isInit = true ∧ (r.logItems k).isSome = true) := by
    rintro ⟨rfl, hsome⟩
    rw [hrest] at hsome
    cases hsome
  rw [if_neg hfirst, if_neg fun hand => nomatch hand.1]
  -- The item before its file is set: new, or the one there is.
  obtain ⟨r₁, hr₁, hitem, hother, hsame⟩ : ∃ r₁ : Rlog, r₁ = (if isInit then r.setItem k ⟨0, none, 0⟩ else r) ∧
      (r₁.logItems k).isSome ∧ (∀ level, level ≠ k → r₁.logItems level = r.logItems level) ∧
      r₁ = { r with logItems := r₁.logItems } := by
    refine ⟨_, rfl, ?_⟩
    cases isInit with
    | true =>
      refine ⟨?_, fun level hlevel => Function.update_of_ne hlevel .., rfl⟩
      rw [if_pos rfl, Rlog.setItem]
      dsimp only
      rw [Function.update_self]
      rfl
    | false => exact ⟨hrest, fun _ _ => rfl, rfl⟩
  dsimp only
  rw [← hr₁, if_neg (Option.isSome_iff_ne_none.mp hitem)]
  have hidle₁ : r₁.state ≠ .working := by
    rw [hsame]
    exact fun hworking => hidle (hstate.symm.trans hworking)
  refine ((h.setLog r₁).message hsay hidle₁ _).bind fun w₁ h₁ => ?_
  rw [h₁.self, if_neg Bool.false_ne_true, hE.path build k 0]
  have hfile (r₂ : Rlog) (hr₂ : r₂.filePtr k = some r₀.files.made.length) :
      ¬ (r₂.logItems k).bind RlogInfo.filePtr = none := by
    intro hnone
    have hboth := hr₂.symm.trans hnone
    cases hboth
  by_cases hzero : k = 0
  · have hlast : lastFilepath = none := by rw [hstage.last, if_pos hzero]
    have hfiles : r₁.files = r₀.files := by
      rw [hsame]
      exact hstage.files.trans (if_pos hzero)
    have hnext : Stage r₀ isInit (E.path build 0 rlogLevelAll) (k + 1) (some (E.path build 0 rlogLevelAll))
        (({ r₁ with files := r₀.files.make (some r₀.files.made.length) } : Rlog).setFilePtr k
          (some r₀.files.made.length)) := hstage.setFile (by rw [hsame]) hitem hother
    rw [hlast, if_pos (Option.some_ne_none _).symm, hE.fopen build k, if_pos rfl, hfiles]
    refine Except.Returns.bind (.ok rfl) fun r₂ hr₂ => ?_
    subst hr₂
    rw [if_neg (hfile _ (hnext.built k (Nat.lt_succ_self k)))]
    exact .ok ⟨rfl, _, h₁.setLog _, hnext⟩
  · have hlast : lastFilepath = some (E.path build 0 rlogLevelAll) := by rw [hstage.last, if_neg hzero]
    have hfiles : r.files = r₀.files.make (some r₀.files.made.length) := by rw [hstage.files, if_neg hzero]
    obtain ⟨last, hprevious, hlastFile⟩ := filePtr_item (hstage.built (k - 1) (by omega))
    have hnext : Stage r₀ isInit (E.path build 0 rlogLevelAll) (k + 1) (some (E.path build 0 rlogLevelAll))
        (r₁.setFilePtr k (some r₀.files.made.length)) := by
      refine hstage.setFile ?_ hitem hother
      rw [← hfiles]
      exact hsame
    rw [hlast, if_neg (not_not.mpr rfl), hother (k - 1) (by omega), hprevious]
    dsimp only
    rw [hlastFile]
    refine Except.Returns.bind (.ok rfl) fun r₂ hr₂ => ?_
    subst hr₂
    rw [if_neg (hfile _ (hnext.built k (Nat.lt_succ_self k)))]
    exact .ok ⟨rfl, _, h₁.setLog _, hnext⟩

theorem buildLoop_around (hE : E.Steady) (hsay : Quiet say) (hidle : r₀.state ≠ .working) (n : Nat)
    (h : Around d w held r w') (hstage : Stage r₀ isInit (E.path build 0 rlogLevelAll) k lastFilepath r)
    (hn : k + n = rlogLevelAll) :
    (buildLoop E say d isInit level false build (List.range' k n) lastFilepath w').Returns fun x =>
      x.1 = true ∧ ∃ lastFilepath r', Around d w held r' x.2 ∧
        Stage r₀ isInit (E.path build 0 rlogLevelAll) rlogLevelAll lastFilepath r' := by
  induction n generalizing k lastFilepath r w' with
  | zero =>
    obtain rfl : k = rlogLevelAll := by omega
    exact .ok ⟨rfl, lastFilepath, r, h, hstage⟩
  | succ n ih =>
    rw [List.range'_succ, buildLoop]
    refine (buildItem_around hE hsay h hidle hstage (by omega)).bind fun x hx => ?_
    obtain ⟨next, w₁⟩ := x
    obtain ⟨rfl, r₁, h₁, hstage₁⟩ := hx
    exact ih h₁ hstage₁ (by omega)

/-- A separated log gets no items. -/
theorem buildLoop_separated {levels : List Nat} (hlevels : ∀ curLevel ∈ levels, curLevel < rlogLevelAll)
    (hnone : isInit = true → ∀ curLevel ∈ levels, (w'.logs d).logItems curLevel = none) :
    buildLoop E say d isInit level true build levels lastFilepath w' = .ok (true, w') := by
  induction levels with
  | nil => rfl
  | cons curLevel levels ih =>
    have hlt := hlevels curLevel List.mem_cons_self
    have hfirst : ¬ (isInit = true ∧ ((w'.logs d).logItems curLevel).isSome = true) := by
      rintro ⟨hinit, hsome⟩
      rw [hnone hinit curLevel List.mem_cons_self] at hsome
      cases hsome
    have hskip : level ≠ rlogLevelAll ∨ level ≠ curLevel := by omega
    rw [buildLoop, buildItem, if_neg hfirst, if_pos ⟨rfl, hskip⟩]
    exact ih (fun other hother => hlevels other (List.mem_cons_of_mem _ hother))
      fun hinit other hother => hnone hinit other (List.mem_cons_of_mem _ hother)

theorem Numbered.make {files : Ledger Nat} (h : Numbered files) : Numbered (files.make (some files.made.length)) := by
  obtain ⟨hnodup, hlt⟩ := h
  refine ⟨List.nodup_cons.mpr ⟨fun hmem => Nat.lt_irrefl _ (hlt _ hmem), hnodup⟩, fun file hfile => ?_⟩
  show file < files.made.length + 1
  rcases List.mem_cons.mp hfile with rfl | hmem
  · exact Nat.lt_succ_self _
  · exact Nat.lt_succ_of_lt (hlt file hmem)

theorem build_around (hE : E.Steady) (hsay : Quiet say) (h : Around d w held r w') (hidle : r.state ≠ .working)
    (hready : r.Ready isInit) :
    (rlogBuildItems E say d isInit level r.fileSeparated w').Returns fun x => x.1 = 0 ∧ ∃ r', Around d w held r' x.2 ∧
      r'.state = r.state ∧ r'.fileSeparated = r.fileSeparated ∧ r'.Built := by
  unfold rlogBuildItems
  have hcounted : Around d w held r { w' with builds := w'.builds + 1 } := ⟨h.held, h.self, h.others⟩
  refine Except.Returns.bind (P := fun x => x.1 = true ∧ ∃ r', Around d w held r' x.2 ∧ r'.state = r.state ∧
    r'.fileSeparated = r.fileSeparated ∧ r'.Built) ?_ ?_
  · cases hsep : r.fileSeparated with
    | true =>
      have hnone : ∀ curLevel ∈ List.range rlogLevelAll, r.logItems curLevel = none := by
        intro curLevel hmem
        have hsome := hready.items curLevel (List.mem_range.mp hmem)
        rw [hsep, Bool.not_true, Bool.and_false] at hsome
        exact Option.not_isSome_iff_eq_none.mp (by simp [hsome])
      rw [buildLoop_separated (fun curLevel hmem => List.mem_range.mp hmem)
        fun _ curLevel hmem => by rw [hcounted.self]; exact hnone curLevel hmem]
      refine .ok ⟨rfl, r, hcounted, rfl, hsep, hready.mutex, hready.numbered, ?_⟩
      rw [if_pos hsep]
      exact ⟨fun level hlevel => hnone level (List.mem_range.mpr hlevel), hready.settled⟩
    | false =>
      have hstage : Stage r isInit (E.path w'.builds 0 rlogLevelAll) 0 none r := by
        refine ⟨rfl, fun level _ hlevel => ?_, fun level hlevel => absurd hlevel (Nat.not_lt_zero level), rfl, rfl⟩
        have hsome := hready.items level hlevel
        rwa [hsep, Bool.not_false, Bool.and_true] at hsome
      rw [List.range_eq_range']
      refine (buildLoop_around hE hsay hidle rlogLevelAll hcounted hstage (Nat.zero_add _)).mono ?_
      rintro ⟨built, w₁⟩ ⟨rfl, last, r', h₁, hfinal⟩
      have hfiles : r'.files = r.files.make (some r.files.made.length) := hfinal.files.trans (if_neg (by decide))
      have hother : r'.state = r.state ∧ r'.fileSeparated = r.fileSeparated ∧ r'.mutex = r.mutex := by
        rw [hfinal.same]
        exact ⟨rfl, rfl, rfl⟩
      refine ⟨rfl, r', h₁, hother.1, hother.2.1.trans hsep, ?_, ?_, ?_⟩
      · rw [hother.2.2]
        exact hready.mutex
      · rw [hfiles]
        exact hready.numbered.make
      · rw [if_neg (by rw [hother.2.1, hsep]; exact Bool.false_ne_true), hfiles]
        exact ⟨_, hfinal.built, hready.settled.make (some r.files.made.length)⟩
  · rintro ⟨built, w₁⟩ ⟨rfl, r', h₁, hstate, hsep, hbuilt⟩
    refine (h₁.message hsay (by rw [hstate]; exact hidle) _).bind fun w₂ h₂ => ?_
    exact .ok ⟨rfl, r', h₂, hstate, hsep, hbuilt⟩

end build

/-! ## Rolling and printing -/

section print

variable {E : RlogEnv} {say : Nat → RlogRun} {w : RlogWorld} {d level : Nat}

theorem rollingExit_keeps {r : Rlog} {w' : RlogWorld} (h : Around d w (.log d :: w.held) r w')
    (hstate : (w.logs d).state = .working) (hsep : r.fileSeparated = (w.logs d).fileSeparated) (hbuilt : r.Built)
    (code : Int) : (rollingExit d code w').Returns fun x => w.Keeps x.2 := by
  unfold rollingExit
  rw [h.self]
  have hdone := h.setLog { r with state := .working }
  obtain ⟨w'', hunlock, hend⟩ := hdone.unlockLog hbuilt.1
  rw [hunlock]
  refine .ok (hend.keeps ?_)
  unfold Rlog.Follows
  rw [if_pos hstate]
  exact ⟨rfl, hsep, hbuilt⟩

/-- A log that is working has its file closed and another one opened. -/
theorem rolling_keeps (hE : E.Steady) (hsay : Quiet say) (hsound : w.Sound) (hstate : (w.logs d).state = .working) :
    (rlogRollingFile E say d level w).Returns fun x => w.Keeps x.2 := by
  have hbuilt := hsound d hstate
  unfold rlogRollingFile
  refine (Around.start hsound d).lockLog.bind fun w₁ ⟨h₁, hmutex⟩ => ?_
  have hworking : ¬ (w₁.logs d).state ≠ .working := by
    rw [h₁.self]
    exact not_not.mpr hstate
  rw [if_neg hworking, h₁.self]
  have hrolling := h₁.setLog { w.logs d with state := .rollFile }
  refine (flush_around (r := { w.logs d with state := .rollFile }) hsay hrolling hbuilt rfl).bind fun x hx => ?_
  obtain ⟨code, w₂⟩ := x
  obtain ⟨rfl, r₂, h₂, hready, hstate₂, hsep₂⟩ := hx
  have hidle : r₂.state ≠ .working := by
    rw [hstate₂]
    decide
  dsimp only
  rw [if_neg (not_not.mpr rfl), h₂.self]
  refine (build_around hE hsay h₂ hidle hready).bind fun x hx => ?_
  obtain ⟨code, w₃⟩ := x
  obtain ⟨rfl, r₃, h₃, hstate₃, hsep₃, hbuilt₃⟩ := hx
  dsimp only
  rw [if_neg (not_not.mpr rfl)]
  refine (h₃.message hsay (by rw [hstate₃]; exact hidle) _).bind fun w₄ h₄ => ?_
  exact rollingExit_keeps h₄ hstate (hsep₃.trans hsep₂) hbuilt₃ 0

theorem filePtr_setItem_same {r : Rlog} {item : RlogInfo} (hitem : r.logItems level = some item) (next : RlogInfo)
    (hfile : next.filePtr = item.filePtr) (other : Nat) : (r.setItem level next).filePtr other = r.filePtr other := by
  by_cases hother : other = level
  · subst hother
    unfold Rlog.filePtr Rlog.setItem
    dsimp only
    rw [Function.update_self, hitem]
    exact hfile
  · exact filePtr_update_other hother

theorem Rlog.Built.not_separated {r : Rlog} (h : r.Built) (hlevel : level < rlogLevelAll) {item : RlogInfo}
    (hitem : r.logItems level = some item) : ¬ r.fileSeparated = true := by
  intro hsep
  have hfiles := h.2.2
  rw [if_pos hsep] at hfiles
  rw [hfiles.1 level hlevel] at hitem
  cases hitem

/-- The size of a file is counted. -/
theorem Rlog.Built.setItem {r : Rlog} (h : r.Built) (hlevel : level < rlogLevelAll) {item : RlogInfo}
    (hitem : r.logItems level = some item) (next : RlogInfo) (hfile : next.filePtr = item.filePtr) :
    (r.setItem level next).Built := by
  have hsep := h.not_separated hlevel hitem
  obtain ⟨hmutex, hnumbered, hfiles⟩ := h
  rw [if_neg hsep] at hfiles
  obtain ⟨file, hshared, hheld⟩ := hfiles
  refine ⟨hmutex, hnumbered, ?_⟩
  rw [if_neg (show ¬ (r.setItem level next).fileSeparated = true from hsep)]
  exact ⟨file, fun other hother => (filePtr_setItem_same hitem next hfile other).trans (hshared other hother), hheld⟩

theorem writeItem_around (hE : E.Steady) (hsay : Quiet say) (hsound : w.Sound) (hstate : (w.logs d).state = .working)
    (hlevel : level < rlogLevelAll) {item : RlogInfo} (hitem : (w.logs d).logItems level = some item) (len : Int)
    {held : List RlogMutex} {w₁ : RlogWorld} (h : Around d w held (w.logs d) w₁) :
    (writeItem E say d level len item w₁).Returns fun w₂ => ∃ r, Around d w held r w₂ ∧ (w.logs d).Follows r := by
  unfold writeItem
  rw [h.self]
  dsimp only
  generalize hnext : (w.logs d).setItem level { item with fileSize := int32 (item.fileSize + len) } = next
  have hwritten : next.Built := by
    rw [← hnext]
    exact (hsound d hstate).setItem hlevel hitem _ rfl
  have hworking : next.state = .working := by
    rw [← hnext]
    exact hstate
  have hfollows : (w.logs d).Follows next := by
    unfold Rlog.Follows
    rw [if_pos hstate]
    refine ⟨hworking, ?_, hwritten⟩
    rw [← hnext]
    rfl
  have hset := h.setLog next
  split
  · exact .error
  split
  · refine .map ((rolling_keeps hE hsay (hset.sound fun _ => hwritten) (by rw [hset.self]; exact hworking)).mono
      fun x hkeeps => ?_)
    refine ⟨_, hset.step hkeeps, hfollows.trans ?_⟩
    have hd := hkeeps.logs d
    rwa [hset.self] at hd
  · exact .ok ⟨_, hset, hfollows⟩

theorem printStdout_around {held : List RlogMutex} {r : Rlog} {w' : RlogWorld} (h : Around d w held r w') :
    (printStdout E d w').Returns fun w'' => Around d w held r w'' := by
  unfold printStdout
  refine h.lockLog.bind fun w₁ ⟨h₁, hmutex⟩ => ?_
  obtain ⟨w₂, hunlock, h₂⟩ := h₁.unlockLog hmutex
  rw [hunlock]
  exact .ok h₂

/-- Through the item of a log with one file. -/
theorem printItem_keeps (hE : E.Steady) (hsay : Quiet say) (hsound : w.Sound) (hstate : (w.logs d).state = .working)
    (hlevel : level < rlogLevelAll) {item : RlogInfo} (hitem : (w.logs d).logItems level = some item) (len : Int) :
    (printItem E say d level len item w).Returns fun x => w.Keeps x.2 := by
  have hsep := (hsound d hstate).not_separated hlevel hitem
  unfold printItem
  refine Except.Returns.bind (P := fun w₁ => Around d w (.log d :: w.held) (w.logs d) w₁) ?_ fun w₁ h₁ => ?_
  · rw [RlogWorld.lockWrite, if_neg hsep]
    exact (Around.start hsound d).lockLog.mono fun w₁ h => h.1
  refine (writeItem_around hE hsay hsound hstate hlevel hitem len h₁).bind fun w₂ ⟨r, h₂, hr⟩ => ?_
  have hdone : r.fileSeparated = (w.logs d).fileSeparated ∧ r.Built := by
    unfold Rlog.Follows at hr
    rw [if_pos hstate] at hr
    exact hr.2
  obtain ⟨w₃, hunlock, h₃⟩ := h₂.unlockLog hdone.2.1
  rw [RlogWorld.unlockWrite, h₂.self, hdone.1, if_neg hsep, hunlock]
  refine Except.Returns.bind (.ok h₃) fun w₃ h₃ => ?_
  exact (printStdout_around h₃).bind fun w₄ h₄ => .ok (h₄.keeps hr)

theorem printf_keeps (hE : E.Steady) (hsay : Quiet say) (hsound : w.Sound) (rlog : Option Nat) (level : Nat)
    (len : Int) : (rlogPrintf E say rlog level len w).Returns fun x => w.Keeps x.2 := by
  have hready (code : Int) : (notReady code len w).Returns fun x => w.Keeps x.2 := by
    unfold notReady
    split
    · exact .ok (.refl hsound)
    · exact .error
  unfold rlogPrintf
  split
  · exact hready 1
  rename_i d _
  dsimp only
  split
  · exact hready 1
  rename_i hstate
  split
  · exact .ok (.refl hsound)
  split
  · exact .error
  rename_i hlevel
  split
  · exact hready (-1)
  rename_i item hitem
  split
  · exact printItem_keeps hE hsay hsound (not_not.mp hstate) (by omega) hitem len
  · exact .error

/-- However deep the messages of the logger go. -/
theorem quiet_sayAt (hE : E.Steady) (depth : Nat) : Quiet (sayAt E depth) := by
  induction depth with
  | zero => exact fun level w _ => .error
  | succ depth ih =>
    intro level w hsound
    refine .map ((printf_keeps hE ih (w := { w with messages := w.messages + 1 }) hsound none level _).mono ?_)
    exact fun x hkeeps => ⟨hkeeps.held, hkeeps.logs⟩

end print

/-! ## Starting -/

section init

variable {E : RlogEnv} {say : Nat → RlogRun} {w : RlogWorld} {d : Nat}

theorem initExit_code (code : Int) : (initExit say code w).Returns fun x => x.1 = code := by
  unfold initExit
  refine Except.Returns.bind_of_forall fun w₁ => ?_
  exact Except.Returns.bind_of_forall fun w₂ => .ok rfl

/-- A start that succeeds makes a zeroed log a working one. -/
theorem init_returns (hE : E.Steady) (hsay : Quiet say) (hsound : w.Sound) (hzero : w.logs d = Rlog.zero)
    (filename : Option (List UInt8)) (level : Nat) (fileSeparated : Bool) (fileSize : Int) :
    (rlogInitLog E say d filename level fileSeparated fileSize w).Returns fun x => x.1 = 0 →
      ∃ r, Around d w w.held r x.2 ∧ r.state = .working ∧ r.Built := by
  have hfail (w' : RlogWorld) : (initExit say 1 w').Returns fun x => x.1 = 0 →
      ∃ r, Around d w w.held r x.2 ∧ r.state = .working ∧ r.Built := by
    refine (initExit_code 1).mono fun x hcode hok => ?_
    rw [hcode] at hok
    cases hok
  have hinit : ¬ ((w.logs d).state ≠ .init ∧ (w.logs d).state ≠ .uninit) := by
    rw [hzero]
    exact fun hand => hand.1 rfl
  unfold rlogInitLog
  rw [if_neg hinit]
  refine (Around.start hsound d).lock.bind fun w₁ h₁ => ?_
  rw [h₁.self, hzero]
  dsimp only
  split
  · exact .error
  have hready : (Rlog.zero.configure level fileSeparated fileSize).Ready true :=
    ⟨rfl, ⟨List.nodup_nil, fun file hfile => absurd hfile List.not_mem_nil⟩, Ledger.balanced_empty, fun _ _ => rfl⟩
  have hidle : (Rlog.zero.configure level fileSeparated fileSize).state ≠ .working := nofun
  have hset := h₁.setLog (Rlog.zero.configure level fileSeparated fileSize)
  rw [if_neg fun hand => by rw [hset.self] at hand; exact Bool.false_ne_true hand.2]
  cases filename with
  | none => exact Except.Returns.bind_of_forall fun w₂ => hfail w₂
  | some name =>
    dsimp only
    split
    · exact Except.Returns.bind_of_forall fun w₂ => hfail w₂
    refine (build_around hE hsay hset hidle hready).bind fun x hx => ?_
    obtain ⟨code, w₂⟩ := x
    obtain ⟨rfl, r₂, h₂, -, -, hbuilt⟩ := hx
    dsimp only
    rw [if_neg (not_not.mpr rfl)]
    unfold initFinish
    have hworking := h₂.setLog { r₂ with state := .working }
    rw [h₂.self]
    refine (hsay _ _ (hworking.sound fun _ => hbuilt)).bind fun w₃ hkeeps => ?_
    have h₃ := hworking.step hkeeps
    have hfollows := hkeeps.logs d
    rw [hworking.self] at hfollows
    unfold Rlog.Follows at hfollows
    rw [if_pos rfl] at hfollows
    obtain ⟨w₄, hunlock, h₄⟩ := h₃.unlock
    unfold initExit
    rw [if_neg (not_not.mpr rfl)]
    refine Except.Returns.bind (.ok rfl) fun w₅ hw₅ => ?_
    subst hw₅
    rw [hunlock]
    exact .ok fun _ => ⟨_, h₄, hfollows.1, hfollows.2.2⟩

end init

/-! ## Stopping -/

/-- All files of a log that was built are closed, each once. -/
theorem uninitItems_built {r : Rlog} (h : r.Built) :
    ∃ r', uninitItems (List.range rlogLevelAll) none r = .ok r' ∧ r'.mutex = r.mutex ∧ r'.files.made.Nodup ∧
      r'.files.Settled := by
  obtain ⟨hmutex, hnumbered, hfiles⟩ := h
  by_cases hsep : r.fileSeparated = true
  · rw [if_pos hsep] at hfiles
    refine ⟨r, uninit_closesItems.none fun level hlevel => hfiles.1 level (List.mem_range.mp hlevel), rfl,
      hnumbered.1, ?_⟩
    exact hfiles.2.settled
  · rw [if_neg hsep] at hfiles
    obtain ⟨file, hshared, hheld⟩ := hfiles
    obtain ⟨items, hclose, -⟩ := uninit_closesItems.all hshared (hheld.live List.mem_cons_self)
    exact ⟨_, hclose, rfl, hnumbered.1, (Ledger.Balanced.free (x := some file) hheld).settled⟩

/-! ## Runs -/

inductive FileCall
  | init (d : Nat) (filename : Option (List UInt8)) (level : Nat) (fileSeparated : Bool) (fileSize : Int)
  | printf (rlog : Option Nat) (level : Nat) (len : Int)
  | rollingFile (d level : Nat)

def FileCall.run (E : RlogEnv) (depth : Nat) : FileCall → RlogWorld → Except RlogFault (Int × RlogWorld)
  | .init d filename level fileSeparated fileSize, w =>
    rlogInitLog E (sayAt E depth) d filename level fileSeparated fileSize w
  | .printf rlog level len, w => rlogPrintf E (sayAt E depth) rlog level len w
  | .rollingFile d level, w => rlogRollingFile E (sayAt E depth) d level w

/-- The call succeeds. -/
def FileCall.Step (E : RlogEnv) (depth : Nat) (w : RlogWorld) (call : FileCall) (w' : RlogWorld) : Prop :=
  call.run E depth w = .ok (0, w')

/-- Zeroed logs. -/
def RlogWorld.start : RlogWorld := ⟨fun _ => .zero, [], 0, 0⟩

/-- Every level has an open file, which two levels share just when the log is not separated. -/
structure Rlog.HasFiles (r : Rlog) : Prop where
  opened : ∀ level < rlogLevelAll, ∃ file, r.filePtr level = some file ∧ file ∈ r.files.made ∧ file ∉ r.files.freed
  shared : ∀ level level', level < rlogLevelAll → level' < rlogLevelAll → level ≠ level' →
    (r.filePtr level = r.filePtr level' ↔ r.fileSeparated = false)

/-- `rlog_uninit_log` returns once its first message does, with every file closed once. -/
def ClosesOnce (E : RlogEnv) (depth : Nat) (w : RlogWorld) (d : Nat) : Prop :=
  ∀ w₁, sayAt E depth rlogLevelInfo w = .ok w₁ →
    (rlogUninitLog E (sayAt E depth) d w).Succeeds fun x =>
      x.1 = 0 ∧ (x.2.logs d).files.made.Nodup ∧ (x.2.logs d).files.Settled

/-- Between the calls: nothing is held, and each log is working or was never started. -/
structure RlogWorld.Resting (w : RlogWorld) : Prop where
  held : w.held = []
  logs : ∀ d, ((w.logs d).state = .working ∧ (w.logs d).Built) ∨ w.logs d = .zero

section runs

variable {E : RlogEnv} {depth : Nat} {w w' : RlogWorld} {call : FileCall} {d : Nat}

theorem RlogWorld.Resting.sound (h : w.Resting) : w.Sound := by
  intro d hstate
  rcases h.logs d with ⟨-, hbuilt⟩ | hzero
  · exact hbuilt
  · rw [hzero] at hstate
    cases hstate

theorem RlogWorld.Resting.keeps (h : w.Resting) (hkeeps : w.Keeps w') : w'.Resting where
  held := hkeeps.held.trans h.held
  logs := by
    intro d
    have hd := hkeeps.logs d
    rcases h.logs d with ⟨hstate, -⟩ | hzero
    · unfold Rlog.Follows at hd
      rw [if_pos hstate] at hd
      exact .inl ⟨hd.1, hd.2.2⟩
    · have hidle : (w.logs d).state ≠ .working := by
        rw [hzero]
        exact nofun
      rw [hkeeps.idle hidle]
      exact .inr hzero

theorem resting_start : RlogWorld.start.Resting := ⟨rfl, fun _ => .inr rfl⟩

theorem resting_step (hE : E.Steady) (h : w.Resting) (hstep : FileCall.Step E depth w call w') : w'.Resting := by
  have hsay := quiet_sayAt hE depth
  cases call with
  | init d filename level fileSeparated fileSize =>
    rcases h.logs d with ⟨hstate, -⟩ | hzero
    · -- A log that is working is not started again.
      have hother : (w.logs d).state ≠ .init ∧ (w.logs d).state ≠ .uninit := by
        rw [hstate]
        exact ⟨nofun, nofun⟩
      have hstep : rlogInitLog E (sayAt E depth) d filename level fileSeparated fileSize w = .ok (0, w') := hstep
      rw [rlogInitLog, if_pos hother] at hstep
      cases initExit_code 1 _ hstep
    · obtain ⟨r, haround, hstate, hbuilt⟩ :=
        init_returns hE hsay h.sound hzero filename level fileSeparated fileSize _ hstep rfl
      refine ⟨haround.held.trans h.held, fun g => ?_⟩
      by_cases hg : g = d
      · subst hg
        rw [haround.self]
        exact .inl ⟨hstate, hbuilt⟩
      · have hfollows := haround.others g hg
        unfold Rlog.Follows at hfollows
        rcases h.logs g with ⟨hstate, -⟩ | hzero
        · rw [if_pos hstate] at hfollows
          exact .inl ⟨hfollows.1, hfollows.2.2⟩
        · rw [if_neg (by rw [hzero]; exact nofun)] at hfollows
          exact .inr (hfollows.trans hzero)
  | printf rlog level len => exact h.keeps (printf_keeps hE hsay h.sound rlog level len _ hstep)
  | rollingFile d level =>
    rcases h.logs d with ⟨hstate, -⟩ | hzero
    · exact h.keeps (rolling_keeps hE hsay h.sound hstate _ hstep)
    · have hstep : rlogRollingFile E (sayAt E depth) d level w = .ok (0, w') := hstep
      rw [rlogRollingFile, RlogWorld.lockLog, hzero, if_neg (show ¬ Rlog.zero.mutex = true from nofun)] at hstep
      cases hstep

/-- What the items of a log with one file share. -/
theorem Rlog.Built.hasFiles {r : Rlog} (h : r.Built) (hsep : r.fileSeparated = false) : r.HasFiles := by
  obtain ⟨-, hnumbered, hfiles⟩ := h
  rw [if_neg (by rw [hsep]; exact Bool.false_ne_true)] at hfiles
  obtain ⟨file, hshared, hheld⟩ := hfiles
  have hnodup : (r.files.freed ++ [file]).Nodup := (List.Perm.nodup_iff hheld).mpr hnumbered.1
  refine ⟨fun level hlevel => ⟨file, hshared level hlevel, ?_, ?_⟩, fun level level' hlevel hlevel' _ => ?_⟩
  · exact (List.Perm.mem_iff hheld).mp (List.mem_append_right _ List.mem_cons_self)
  · exact fun hfreed => (List.nodup_append.mp hnodup).2.2 file hfreed file List.mem_cons_self rfl
  · rw [hshared level hlevel, hshared level' hlevel']
    exact iff_of_true rfl hsep

theorem closesOnce (hE : E.Steady) (h : w.Resting) (hstate : (w.logs d).state = .working) : ClosesOnce E depth w d := by
  intro w₁ hmessage
  have hkeeps : w.Keeps w₁ := quiet_sayAt hE depth _ w h.sound w₁ hmessage
  have hrest := h.keeps hkeeps
  have hfollows := hkeeps.logs d
  unfold Rlog.Follows at hfollows
  rw [if_pos hstate] at hfollows
  have hbuilt := hfollows.2.2
  have hfree : RlogMutex.all ∉ w₁.held := by
    rw [hrest.held]
    exact List.not_mem_nil
  obtain ⟨w₂, hlock, h₂⟩ := (Around.start hrest.sound d).lock_new hfree E.kind
  obtain ⟨r, hclose, hmutex, hnodup, hsettled⟩ :=
    uninitItems_built (r := { w₁.logs d with state := .uninit }) hbuilt
  have hpresent : r.mutex = true := hmutex.trans hbuilt.1
  obtain ⟨w₃, hunlock, h₃⟩ := (h₂.setLog { r with mutex := false }).unlock
  refine ⟨(0, w₃), ?_, rfl, ?_⟩
  · rw [rlogUninitLog, hmessage]
    simp only [bind, Except.bind, hlock]
    rw [h₂.self, hclose]
    dsimp only
    rw [if_neg (not_not.mpr hpresent), hunlock]
  · dsimp only
    rw [h₃.self]
    exact ⟨hnodup, hsettled⟩

/-- In every state that successful calls reach from zeroed logs, a working log has its files exactly when it is
not separated. -/
theorem files_run {calls : List FileCall} (hE : E.Steady) (hrun : Steps (FileCall.Step E depth) .start calls w)
    (hstate : (w.logs d).state = .working) :
    ((w.logs d).HasFiles ∧ ClosesOnce E depth w d) ↔ (w.logs d).fileSeparated = false := by
  have hrest : w.Resting := hrun.invariant (fun h hstep => resting_step hE h hstep) resting_start
  have hbuilt := hrest.sound d hstate
  constructor
  · rintro ⟨hfiles, -⟩
    by_contra hsep
    obtain ⟨file, hfile, -⟩ := hfiles.opened 0 (by decide)
    have hitems := hbuilt.2.2
    rw [if_pos (by simpa using hsep)] at hitems
    rw [Rlog.filePtr, hitems.1 0 (by decide)] at hfile
    cases hfile
  · exact fun hsep => ⟨hbuilt.hasFiles hsep, closesOnce hE hrest hstate⟩

/-- No global log, and mutexes that may be taken again. -/
def quietEnv : RlogEnv := .plain .recursive none

theorem quietEnv_steady : quietEnv.Steady := ⟨fun _ _ => rfl, fun _ _ _ _ => rfl⟩

/-- A log with one file is started and rolled, and one with a file for each level is started. -/
theorem files_run_rolled :
    (∃ w, Steps (FileCall.Step quietEnv 1) .start [.init 0 (some [97]) 0 false 1, .rollingFile 0 rlogLevelAll] w ∧
      (w.logs 0).state = .working ∧ (w.logs 0).HasFiles ∧ ClosesOnce quietEnv 1 w 0) ∧
    ∃ w, Steps (FileCall.Step quietEnv 1) .start [.init 0 (some [97]) 0 true 1] w ∧
      (w.logs 0).state = .working ∧ ¬ ((w.logs 0).HasFiles ∧ ClosesOnce quietEnv 1 w 0) := by
  constructor
  · obtain ⟨w, w', hinit, hroll, hstate, hone⟩ : ∃ w w',
        FileCall.Step quietEnv 1 .start (.init 0 (some [97]) 0 false 1) w ∧
        FileCall.Step quietEnv 1 w (.rollingFile 0 rlogLevelAll) w' ∧ (w'.logs 0).state = .working ∧
        (w'.logs 0).fileSeparated = false := ⟨_, _, rfl, rfl, rfl, rfl⟩
    have hrun := Steps.cons hinit (.cons hroll (.nil _))
    exact ⟨w', hrun, hstate, (files_run quietEnv_steady hrun hstate).2 hone⟩
  · obtain ⟨w, hinit, hstate, hseparated⟩ : ∃ w, FileCall.Step quietEnv 1 .start (.init 0 (some [97]) 0 true 1) w ∧
        (w.logs 0).state = .working ∧ (w.logs 0).fileSeparated = true := ⟨_, rfl, rfl, rfl⟩
    have hrun := Steps.cons hinit (.nil _)
    refine ⟨w, hrun, hstate, fun h => ?_⟩
    rw [(files_run quietEnv_steady hrun hstate).1 h] at hseparated
    cases hseparated

/-- A separated log that is started is working, without an item. -/
theorem separated_has_no_files : ¬ ∀ (E : RlogEnv) (depth : Nat) (calls : List FileCall) (w : RlogWorld) (d : Nat),
    E.Steady → Steps (FileCall.Step E depth) .start calls w → (w.logs d).state = .working → (w.logs d).HasFiles := by
  intro hall
  have hinit : ∃ w, FileCall.Step quietEnv 1 .start (.init 0 (some [97]) 0 true 1) w ∧ (w.logs 0).state = .working ∧
      (w.logs 0).logItems 0 = none := ⟨_, rfl, rfl, rfl⟩
  obtain ⟨w, hstep, hstate, hnone⟩ := hinit
  obtain ⟨file, hfile, -⟩ := (hall quietEnv 1 _ w 0 quietEnv_steady (.cons hstep (.nil _)) hstate).opened 0 (by decide)
  rw [Rlog.filePtr, hnone] at hfile
  cases hfile

end runs

end Funra
