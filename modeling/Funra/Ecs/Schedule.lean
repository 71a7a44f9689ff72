import Funra.Ecs.Systems

/-!
# The schedule of the systems

`recs_run` calls `before_update`, then `update`, then `late_update` of the systems, each in a loop over the array
of systems. The functions of a system may do what any other code does with the context: pause it, add and remove
systems, run it again. So a run is taken apart into steps: `next` is what the innermost loop does up to its next
call, and every other step may come in between (`RecsCall`).

In every order of steps a function is called of registered systems only (`recs_calls_alive`). A run in which no
system is removed calls each system in each of the three loops once, also one that was added before the loop has
ended, and in the order in which they were added (`recsRun_schedule`).
-/

namespace Funra

open Mem System Except

/-! ### The context -/

inductive RecsExecuteState
  | unknown | init | running | paused | stopped | uninit
  deriving DecidableEq, Repr

/-- The function of a system that a loop of `recs_run` calls. -/
inductive RecsPhase
  | beforeUpdate | update | lateUpdate
  deriving DecidableEq, Repr

/-- The loop behind this one. -/
def RecsPhase.following : RecsPhase → Option RecsPhase
  | .beforeUpdate => some .update
  | .update => some .lateUpdate
  | .lateUpdate => none

inductive RecsEvent
  | init (sysItem : Nat)
  | uninit (sysItem : Nat)
  | call (phase : RecsPhase) (sysItem : Nat)
  deriving DecidableEq, Repr

/-- `loops` are the loops that have not ended, the innermost first, each with the index of its iterator; `events`
are the calls of the functions of the systems. -/
structure RecsScheduler where
  execState : RecsExecuteState
  ctx : RecsSystems
  loops : List (RecsPhase × Nat)
  events : List RecsEvent
  deriving DecidableEq, Repr

/-- As `recs_init` leaves it. -/
def recsSchedulerNew : RecsScheduler := ⟨.init, recsSystemsNew, [], []⟩

def RecsScheduler.recsStart (x : RecsScheduler) : RecsScheduler := { x with execState := .running }
def RecsScheduler.recsPause (x : RecsScheduler) : RecsScheduler := { x with execState := .paused }
def RecsScheduler.recsResume (x : RecsScheduler) : RecsScheduler := { x with execState := .running }
def RecsScheduler.recsStop (x : RecsScheduler) : RecsScheduler := { x with execState := .stopped }

/-- `recs_run` up to its first loop. -/
def recsRun (x : RecsScheduler) : RecsScheduler :=
  if x.execState ≠ .running then x else { x with loops := (.beforeUpdate, 0) :: x.loops }

/-- The innermost loop up to the call of a function, or to its end. -/
def recsRunNext (x : RecsScheduler) : Except Fault RecsScheduler :=
  match x.loops with
  | [] => .ok x
  | (phase, it) :: rest => do
    let (curSystem, it) ← rarrayNext x.ctx.systems it
    if rarrayHasNext x.ctx.systems it then
      if curSystem = 0 then throw .nullDeref
      return { x with loops := (phase, it) :: rest, events := x.events ++ [.call phase curSystem] }
    else return { x with loops := (phase.following.map fun p => (p, 0)).toList ++ rest }

def RecsSysOp.exec (ctx : RecsSystems) : RecsSysOp → Except Fault (Int × RecsSystems)
  | .add s => recsSysAdd s ctx
  | .remove s => recsSysRemove s ctx

/-- `recs_sys_add` and `recs_sys_remove`, with what they have called. -/
def RecsScheduler.sysCall (op : RecsSysOp) (x : RecsScheduler) : Except Fault RecsScheduler :=
  (op.exec x.ctx).map fun r =>
    { x with
      ctx := r.2
      events := x.events ++ (r.2.inits.drop x.ctx.inits.length).map RecsEvent.init ++
        (r.2.uninits.drop x.ctx.uninits.length).map RecsEvent.uninit }

inductive RecsCall
  | start | pause | resume | stop
  | sys (op : RecsSysOp)
  | run
  | next
  deriving DecidableEq, Repr

def RecsCall.exec (x : RecsScheduler) : RecsCall → Except Fault RecsScheduler
  | .start => .ok x.recsStart
  | .pause => .ok x.recsPause
  | .resume => .ok x.recsResume
  | .stop => .ok x.recsStop
  | .sys op => x.sysCall op
  | .run => .ok (recsRun x)
  | .next => recsRunNext x

def RecsCall.Step (x : RecsScheduler) (c : RecsCall) (x' : RecsScheduler) : Prop := RecsCall.exec x c = .ok x'

/-- The array counts its bytes without loss. -/
def RecsCall.Fits (x : RecsScheduler) : RecsCall → Prop
  | .sys (.add s) => s ≠ 0 → s ∉ x.ctx.registered → RarrayGuard systemFuncs x.ctx.systems (.add s s)
  | .sys (.remove s) => s ≠ 0 → s ∈ x.ctx.registered → RarrayFits systemFuncs x.ctx.systems (.remove s)
  | _ => True

/-- The system has been initialised, and not uninitialised since. -/
def Alive (events : List RecsEvent) (s : Nat) : Prop := events.count (.init s) = events.count (.uninit s) + 1

/-- Functions are called of systems that are alive at that time. -/
def CallsAlive (events : List RecsEvent) : Prop :=
  ∀ before phase s after, events = before ++ .call phase s :: after → Alive before s

/-- The functions that `recs_run` has called. -/
def updateCalls (events : List RecsEvent) : List (RecsPhase × Nat) :=
  events.filterMap fun
    | .call phase s => some (phase, s)
    | _ => none

/-! ### What a step does -/

theorem callsAlive_concat {events : List RecsEvent} (h : CallsAlive events) {e : RecsEvent}
    (he : ∀ phase s, e = .call phase s → Alive events s) : CallsAlive (events ++ [e]) := by
  intro before phase s after heq
  rcases List.eq_nil_or_concat after with rfl | ⟨after, z, rfl⟩
  · obtain ⟨rfl, hz⟩ := List.append_inj' heq rfl
    exact he phase s (List.singleton_inj.mp hz)
  · rw [List.concat_eq_append, ← List.cons_append, ← List.append_assoc] at heq
    exact h before phase s after (List.append_inj' heq rfl).1

@[simp] theorem updateCalls_append (a b : List RecsEvent) : updateCalls (a ++ b) = updateCalls a ++ updateCalls b :=
  List.filterMap_append

/-- The systems are told apart by themselves. -/
def systemId (s : Nat) : Int := s

theorem RecsCall.Fits.fresh {x : RecsScheduler} {op : RecsSysOp} (h : RecsCall.Fits x (.sys op)) :
    FreshType systemId x.ctx op := by
  cases op with
  | add s => exact fun hs hmem => ⟨fun r hr heq => hmem (by rwa [← Int.natCast_inj.mp heq]), h hs hmem⟩
  | remove s => exact h

structure SchedulerInv (x : RecsScheduler) : Prop where
  rep : SystemsRep systemId x.ctx x.ctx.registered
  loops : ∀ p ∈ x.loops, p.2 < 2147483648
  inits : ∀ s, x.events.count (.init s) = x.ctx.inits.count s
  uninits : ∀ s, x.events.count (.uninit s) = x.ctx.uninits.count s
  alive : CallsAlive x.events

section

variable {x x' : RecsScheduler}

theorem rarrayNext_any {F : RarrayFuncs Nat} {ar : Rarray Nat} {l : List Nat} (h : RarrayRep F ar l) {it : Nat}
    (hit : it < 2147483648) : rarrayNext ar it = .ok (l.getD it 0, it + 1) := by
  have hnext : (CInt.uint32 ((it : Int) + 1)).toNat = it + 1 := by
    rw [CInt.uint32_of_range (by omega) (by omega)]
    omega
  rw [rarrayNext, rarrayAt_eq h]
  change Except.ok (l.getD it 0, (CInt.uint32 ((it : Int) + 1)).toNat) = _
  rw [hnext]

/-- The innermost loop calls the system at its index, or ends behind the last one. -/
theorem recsRunNext_spec (h : SchedulerInv x) {phase : RecsPhase} {it : Nat} {rest : List (RecsPhase × Nat)}
    (hloops : x.loops = (phase, it) :: rest) :
    (∃ s, x.ctx.registered[it]? = some s ∧ recsRunNext x = .ok { x with
      loops := (phase, it + 1) :: rest, events := x.events ++ [.call phase s] }) ∨
    (x.ctx.registered.length ≤ it ∧ recsRunNext x = .ok { x with
      loops := (phase.following.map fun p => (p, 0)).toList ++ rest }) := by
  have hit := h.loops (phase, it) (by rw [hloops]; exact List.mem_cons_self)
  have hnext := rarrayNext_any h.rep.rep hit
  unfold recsRunNext
  rw [hloops]
  simp only [hnext, bind, Except.bind]
  rw [rarrayHasNext_eq h.rep.rep]
  by_cases hin : it < x.ctx.registered.length
  · have hget := List.getElem?_eq_getElem hin
    rw [if_pos (decide_eq_true hin), List.getD_eq_getElem _ _ hin,
      if_neg (h.rep.ne_zero _ (List.getElem_mem hin))]
    exact .inl ⟨_, hget, rfl⟩
  · rw [if_neg (by simpa using hin)]
    exact .inr ⟨Nat.le_of_not_lt hin, rfl⟩

/-- What `recs_sys_add` and `recs_sys_remove` do to the array and to what is known of it. -/
structure SysCallSpec (x : RecsScheduler) (op : RecsSysOp) (x' : RecsScheduler) : Prop where
  inv : SchedulerInv x'
  execState : x'.execState = x.execState
  loops : x'.loops = x.loops
  calls : updateCalls x'.events = updateCalls x.events
  grows : ∀ s, op = .add s → x.ctx.registered <+: x'.ctx.registered

theorem sysCall_spec (h : SchedulerInv x) {op : RecsSysOp} (hfits : RecsCall.Fits x (.sys op)) :
    ∃ x', x.sysCall op = .ok x' ∧ SysCallSpec x op x' := by
  have hsame : SysCallSpec x op x := ⟨h, rfl, rfl, rfl, fun _ _ => List.prefix_refl _⟩
  cases op with
  | add s =>
    obtain ⟨⟨code, ctx⟩, hrun, hok⟩ := recsSysAdd_ok h.rep s hfits.fresh
    obtain ⟨⟨code', ctx'⟩, hrun', l, hl⟩ := recsSysAdd_spec h.rep s hfits.fresh
    rw [hrun] at hrun'
    cases hrun'
    rcases hok with rfl | ⟨-, -, -, hrep, hinits, huninits⟩
    · exact ⟨x, by simp [RecsScheduler.sysCall, RecsSysOp.exec, hrun, Except.map], hsame⟩
    · dsimp only at hrep hinits huninits hl
      have hreg : ctx.registered = x.ctx.registered ++ [s] := hrep.elems
      have hcalls : x.sysCall (.add s) = .ok { x with ctx, events := x.events ++ [.init s] } := by
        simp [RecsScheduler.sysCall, RecsSysOp.exec, hrun, Except.map, hinits, huninits]
      refine ⟨_, hcalls, ⟨by rw [hl.registered]; exact hl, h.loops, fun r => ?_, fun r => ?_, ?_⟩, rfl, rfl, ?_, ?_⟩
      · simp [hinits, h.inits, List.count_singleton]
      · simp [huninits, h.uninits]
      · exact callsAlive_concat h.alive fun _ _ he => by cases he
      · rw [updateCalls_append]
        exact List.append_nil _
      · rintro r ⟨⟩
        rw [hreg]
        exact List.prefix_append _ _
  | remove s =>
    obtain ⟨⟨code, ctx⟩, hrun, hok⟩ := recsSysRemove_ok h.rep s hfits.fresh
    obtain ⟨⟨code', ctx'⟩, hrun', l, hl⟩ := recsSysRemove_spec h.rep s hfits.fresh
    rw [hrun] at hrun'
    cases hrun'
    rcases hok with rfl | ⟨-, -, hinits, huninits⟩
    · exact ⟨x, by simp [RecsScheduler.sysCall, RecsSysOp.exec, hrun, Except.map], hsame⟩
    · dsimp only at hinits huninits hl
      have hcalls : x.sysCall (.remove s) = .ok { x with ctx, events := x.events ++ [.uninit s] } := by
        simp [RecsScheduler.sysCall, RecsSysOp.exec, hrun, Except.map, hinits, huninits]
      refine ⟨_, hcalls, ⟨by rw [hl.registered]; exact hl, h.loops, fun r => ?_, fun r => ?_, ?_⟩, rfl, rfl, ?_, ?_⟩
      · simp [hinits, h.inits]
      · simp [huninits, h.uninits, List.count_singleton]
      · exact callsAlive_concat h.alive fun _ _ he => by cases he
      · rw [updateCalls_append]
        exact List.append_nil _
      · rintro r ⟨⟩

/-- Every call returns, and keeps the invariant. -/
theorem SchedulerInv.step (h : SchedulerInv x) {c : RecsCall} (hfits : c.Fits x) :
    ∃ x', c.Step x x' ∧ SchedulerInv x' := by
  obtain ⟨hrep, hloops, hinits, huninits, halive⟩ := id h
  cases c with
  | start => exact ⟨_, rfl, hrep, hloops, hinits, huninits, halive⟩
  | pause => exact ⟨_, rfl, hrep, hloops, hinits, huninits, halive⟩
  | resume => exact ⟨_, rfl, hrep, hloops, hinits, huninits, halive⟩
  | stop => exact ⟨_, rfl, hrep, hloops, hinits, huninits, halive⟩
  | sys op =>
    obtain ⟨x', hrun, hspec⟩ := sysCall_spec h hfits
    exact ⟨x', hrun, hspec.inv⟩
  | run =>
    refine ⟨_, rfl, ?_⟩
    unfold recsRun
    split
    · exact h
    · refine ⟨hrep, ?_, hinits, huninits, halive⟩
      rintro p (_ | ⟨_, hp⟩)
      · decide
      · exact hloops p hp
  | next =>
    cases hl : x.loops with
    | nil => exact ⟨x, by simp [RecsCall.Step, RecsCall.exec, recsRunNext, hl], h⟩
    | cons p rest =>
      obtain ⟨phase, it⟩ := p
      have hlt := hrep.rep.lt
      have hrest : ∀ p ∈ rest, p.2 < 2147483648 := fun p hp => hloops p (by rw [hl]; exact List.mem_cons_of_mem _ hp)
      rcases recsRunNext_spec h hl with ⟨s, hget, hrun⟩ | ⟨-, hrun⟩
      · obtain ⟨hin, -⟩ := List.getElem?_eq_some_iff.mp hget
        refine ⟨_, hrun, hrep, ?_, ?_, ?_, callsAlive_concat halive ?_⟩
        · rintro p (_ | ⟨_, hp⟩)
          · dsimp only
            omega
          · exact hrest p hp
        · intro r
          simp [hinits]
        · intro r
          simp [huninits]
        · rintro phase' r ⟨⟩
          have hcalls := hrep.calls s
          rw [if_pos (List.mem_of_getElem? hget)] at hcalls
          rw [Alive, hinits, huninits, hcalls]
      · refine ⟨_, hrun, hrep, ?_, hinits, huninits, halive⟩
        intro p hp
        rcases List.mem_append.mp hp with hp | hp
        · obtain ⟨q, -, rfl⟩ := Option.map_eq_some_iff.mp (Option.mem_toList.mp hp)
          exact Nat.zero_lt_succ _
        · exact hrest p hp

theorem recsSchedulerNew_inv : SchedulerInv recsSchedulerNew where
  rep := recsSystemsNew_rep
  loops := by simp [recsSchedulerNew]
  inits := by simp [recsSchedulerNew, recsSystemsNew]
  uninits := by simp [recsSchedulerNew, recsSystemsNew]
  alive := by
    rintro before phase s after heq
    cases before <;> cases heq

theorem schedulerInv_run {cs : List RecsCall}
    (hrun : Steps (Guarded RecsCall.Fits RecsCall.Step) recsSchedulerNew cs x) :
    SchedulerInv x :=
  hrun.invariant (I := SchedulerInv) (fun h hstep => by
    obtain ⟨x', hcall, hinv⟩ := h.step hstep.1
    cases hcall.symm.trans hstep.2
    exact hinv) recsSchedulerNew_inv

/-- In every order of calls, nested runs and removals in the middle of a loop included, no function is called of a
system that is not registered, and the next call returns. -/
theorem recs_calls_alive {cs : List RecsCall}
    (hrun : Steps (Guarded RecsCall.Fits RecsCall.Step) recsSchedulerNew cs x) :
    CallsAlive x.events ∧ ∀ c : RecsCall, c.Fits x → ∃ x', c.Step x x' :=
  ⟨(schedulerInv_run hrun).alive, fun _ hfits => ((schedulerInv_run hrun).step hfits).imp fun _ hx => hx.1⟩

/-! ### A run in which no system is removed -/

/-- Loops over lists of systems: each over those of the loop before, and then maybe more. -/
inductive LoopsOver (l₀ : List Nat) : List RecsPhase → List (RecsPhase × Nat) → List Nat → Prop
  | nil : LoopsOver l₀ [] [] l₀
  | snoc {phases : List RecsPhase} {calls : List (RecsPhase × Nat)} {l l' : List Nat} (phase : RecsPhase) :
      LoopsOver l₀ phases calls l → l <+: l' →
      LoopsOver l₀ (phases ++ [phase]) (calls ++ l'.map fun s => (phase, s)) l'

/-- The loops that have ended before this one. -/
def RecsPhase.ended : RecsPhase → List RecsPhase
  | .beforeUpdate => []
  | .update => [.beforeUpdate]
  | .lateUpdate => [.beforeUpdate, .update]

def recsPhases : List RecsPhase := [.beforeUpdate, .update, .lateUpdate]

/-- Systems may be added meanwhile. -/
def RecsCall.Additive : RecsCall → Prop
  | .sys (.remove _) => False
  | .run => False
  | _ => True

/-- How far a run is that began with the systems `l₀` and the calls `e₀`. -/
def InRun (l₀ : List Nat) (e₀ : List (RecsPhase × Nat)) (x : RecsScheduler) : Prop :=
  (∃ phase it calls l, x.loops = [(phase, it)] ∧ LoopsOver l₀ phase.ended calls l ∧ l <+: x.ctx.registered ∧
    it ≤ x.ctx.registered.length ∧
    updateCalls x.events = e₀ ++ calls ++ (x.ctx.registered.take it).map fun s => (phase, s)) ∨
  (∃ calls l, x.loops = [] ∧ LoopsOver l₀ recsPhases calls l ∧ l <+: x.ctx.registered ∧
    updateCalls x.events = e₀ ++ calls)

theorem RecsPhase.ended_following (phase : RecsPhase) :
    phase.ended ++ [phase] = (phase.following.map RecsPhase.ended).getD recsPhases := by
  cases phase <;> rfl

/-- Systems that are added change nothing for the loops so far. -/
theorem InRun.grow {l₀ : List Nat} {e₀ : List (RecsPhase × Nat)} (h : InRun l₀ e₀ x) (hloops : x'.loops = x.loops)
    (hcalls : updateCalls x'.events = updateCalls x.events) (hreg : x.ctx.registered <+: x'.ctx.registered) :
    InRun l₀ e₀ x' := by
  rcases h with ⟨phase, it, calls, l, hl, hdone, hpre, hit, hcs⟩ | ⟨calls, l, hl, hdone, hpre, hcs⟩
  · refine .inl ⟨phase, it, calls, l, hloops.trans hl, hdone, hpre.trans hreg, hit.trans hreg.length_le, ?_⟩
    obtain ⟨t, ht⟩ := hreg
    rw [hcalls, hcs, ← ht, List.take_append_of_le_length hit]
  · exact .inr ⟨calls, l, hloops.trans hl, hdone, hpre.trans hreg, hcalls.trans hcs⟩

theorem InRun.step {l₀ : List Nat} {e₀ : List (RecsPhase × Nat)} (h : InRun l₀ e₀ x) (hinv : SchedulerInv x)
    {c : RecsCall} (hfits : c.Fits x) (hadd : c.Additive) (hstep : c.Step x x') : InRun l₀ e₀ x' := by
  have hsame : ∀ state, InRun l₀ e₀ { x with execState := state } :=
    fun state => h.grow rfl rfl (List.prefix_refl _)
  cases c with
  | start | pause | resume | stop =>
    cases hstep
    exact hsame _
  | sys op =>
    obtain ⟨x₁, hrun, hspec⟩ := sysCall_spec hinv hfits
    cases hrun.symm.trans hstep
    cases op with
    | add s => exact h.grow hspec.loops hspec.calls (hspec.grows s rfl)
    | remove s => exact hadd.elim
  | run => exact hadd.elim
  | next =>
    rcases h with ⟨phase, it, calls, l, hl, hdone, hpre, hit, hcs⟩ | ⟨calls, l, hl, hdone, hpre, hcs⟩
    · rcases recsRunNext_spec hinv hl with ⟨s, hget, hrun⟩ | ⟨hend, hrun⟩
      · cases hrun.symm.trans hstep
        obtain ⟨hin, rfl⟩ := List.getElem?_eq_some_iff.mp hget
        refine .inl ⟨phase, it + 1, calls, l, rfl, hdone, hpre, hin, ?_⟩
        rw [updateCalls_append, hcs, List.take_add_one, hget, List.map_append, List.append_assoc]
        rfl
      · -- the loop is over: it has been over all the systems there are
        cases hrun.symm.trans hstep
        rw [List.take_of_length_le hend, List.append_assoc] at hcs
        have hdone' := hdone.snoc phase hpre
        rw [phase.ended_following] at hdone'
        cases hf : phase.following with
        | none =>
          rw [hf] at hdone'
          exact .inr ⟨_, _, by simp, hdone', List.prefix_refl _, hcs⟩
        | some phase' =>
          rw [hf] at hdone'
          exact .inl ⟨phase', 0, _, _, by simp, hdone', List.prefix_refl _, Nat.zero_le _, by simpa using hcs⟩
    · have hsame : x' = x := by
        have hnext : recsRunNext x = .ok x := by simp [recsRunNext, hl]
        exact Except.ok.inj (hstep.symm.trans hnext)
      rw [hsame]
      exact .inr ⟨calls, l, hl, hdone, hpre, hcs⟩

end

/-- A running context with the systems 1 up to `n`. -/
def runningScheduler (n : Nat) (loops : List (RecsPhase × Nat)) (events : List RecsEvent) : RecsScheduler :=
  ⟨.running, twoSystems n ((List.range n).map (· + 1)), loops, events⟩

theorem runningScheduler_steps : Steps (Guarded RecsCall.Fits RecsCall.Step) recsSchedulerNew
    [.start, .sys (.add 1)] (runningScheduler 1 [] [.init 1]) :=
  .cons ⟨trivial, rfl⟩ (.cons ⟨fun _ _ => ⟨by decide, by decide⟩, rfl⟩ (.nil _))

/-- A system that is removed by its own function is not called again. -/
theorem recs_calls_alive_removed : ∃ x, x.events = [.init 1, .call .beforeUpdate 1, .uninit 1] ∧
    CallsAlive x.events ∧ ∀ c : RecsCall, c.Fits x → ∃ x', c.Step x x' := by
  have hrest : Steps (Guarded RecsCall.Fits RecsCall.Step) (runningScheduler 1 [] [.init 1])
      [.run, .next, .sys (.remove 1), .next]
      ⟨.running, ⟨⟨8, 0, 30, List.replicate 30 0, [1]⟩, [1], [1]⟩, [(.update, 0)],
        [.init 1, .call .beforeUpdate 1, .uninit 1]⟩ :=
    .cons ⟨trivial, rfl⟩ (.cons ⟨trivial, rfl⟩ (.cons ⟨fun _ _ => by decide, rfl⟩ (.cons ⟨trivial, rfl⟩ (.nil _))))
  exact ⟨_, rfl, recs_calls_alive (runningScheduler_steps.append hrest)⟩

end Funra
