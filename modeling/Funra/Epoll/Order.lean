import Funra.Epoll.Discipline

/-!
# The order of the calls of an epoll client

`CloseOk` looks into the memory, which a caller cannot see. The state alone is enough for a caller who opens only
what is not open, starts what is open, and closes only what has been started or is closed (`InOrder`): it then
tells the phase (`Staged`), every such call is orderly, and so is every such run (`inOrder_run`). Once there have
been buffers, nothing else may be closed: `ripc_close_c` leaves their pointers (`Staged.closeOk_iff`).
-/

namespace Funra

open Mem Except System

/-- A stream has been opened. -/
def RipcState.Opened (state : RipcState) : Prop := state = .readyPending ∨ state = .start ∨ state = .stop

/-- Closed, or started since it was opened. -/
def RipcState.Closable (state : RipcState) : Prop := state = .closed ∨ state = .start ∨ state = .stop

open EpollClient

/-- The call has its turn in this state. -/
def ClientCall.InOrder (s : EpollClient) : ClientCall → Prop
  | .initC => ¬ s.state.Opened
  | .uninitC _ => s.state = .uninit ∨ s.state.Closable
  | .openC _ env => env.socket ≠ none ∧ env.item ≠ none ∧ ¬ s.state.Opened
  | .closeC _ => s.state.Closable
  | .startC env => env.readCache ≠ none ∧ env.writeBuff ≠ none ∧ s.state.Opened ∧
      ∀ wait ∈ env.polls, s.Quiet wait
  | .stopC => s.state = .start ∨ s.state = .stop
  | .sendC _ => True
  | .checkC env => s.state.Closable ∨ s.Quiet env.wait
  | .receiveC _ => True
  | .errorC _ => s.state.Closable

namespace EpollClient

/-- The state tells the phase. -/
structure Staged (s : EpollClient) : Prop where
  sound : s.heap.Sound
  idle : ¬ s.state.Opened → s.Idle
  connected : s.state = .readyPending → ∃ a fd, s.Connected a fd
  running : s.state = .start ∨ s.state = .stop → ∃ a fd c d, s.Running a fd c d

variable {s s' : EpollClient} {a c d : Nat} {fd : Int}

/-! ### The stages -/

theorem Running.opened (h : s.Running a fd c d) : s.state.Opened := .inr h.state

theorem Connected.not_running (h : s.Connected a fd) {a' : Nat} {fd' : Int} : ¬ s.Running a' fd' c d := by
  intro hrun
  exact (hrun.buffered.live c).mpr (.inl rfl) (h.buffers c)

theorem Inv.staged (h : s.Inv) (hstate : ¬ s.state.Opened) : s.Staged := by
  refine ⟨h.sound, fun _ => ?_, fun heq => absurd (.inl heq) hstate, fun heq => absurd (.inr heq) hstate⟩
  rcases h.phase with hidle | hconn | hrun
  · exact hidle
  · exact absurd (hconn.state.imp_right .inr) hstate
  · exact absurd hrun.opened hstate

theorem Staged.of_connected (hsound : s.heap.Sound) (h : s.Connected a fd) (hstate : s.state = .readyPending) :
    s.Staged :=
  ⟨hsound, fun hne => absurd (.inl hstate) hne, fun _ => ⟨a, fd, h⟩, fun heq => by simp [hstate] at heq⟩

theorem Staged.of_running (hsound : s.heap.Sound) (h : s.Running a fd c d) : s.Staged := by
  refine ⟨hsound, fun hne => absurd h.opened hne, fun heq => ?_, fun _ => ⟨a, fd, c, d, h⟩⟩
  rcases h.state with hstate | hstate <;> simp [hstate] at heq

theorem Staged.inv (h : s.Staged) : s.Inv := by
  refine ⟨h.sound, ?_⟩
  by_cases hopened : s.state.Opened
  · rcases hopened with hready | hstarted
    · obtain ⟨a, fd, hconn⟩ := h.connected hready
      exact .connected hconn
    · obtain ⟨a, fd, c, d, hrun⟩ := h.running hstarted
      exact .running hrun
  · exact .idle (h.idle hopened)

theorem Staged.live (h : s.Staged) (hopened : s.state.Opened) : s.StreamLive := by
  rcases hopened with hready | hstarted
  · obtain ⟨a, fd, hconn⟩ := h.connected hready
    exact hconn.streaming.live
  · obtain ⟨a, fd, c, d, hrun⟩ := h.running hstarted
    exact hrun.streaming.live

theorem Staged.closeOk (h : s.Staged) (hstate : s.state.Closable) : s.CloseOk := by
  rcases hstate with hclosed | hstarted
  · exact .inl hclosed
  · obtain ⟨a, fd, c, d, hrun⟩ := h.running hstarted
    exact hrun.closeOk

/-- A pointer to a buffer that is not there is followed in every other state. -/
theorem Staged.closeOk_iff (h : s.Staged) (hread : s.readCache ≠ none) : s.CloseOk ↔ s.state.Closable := by
  refine ⟨fun hok => ?_, h.closeOk⟩
  obtain ⟨c, hc⟩ := Option.ne_none_iff_exists'.mp hread
  rcases hok with hclosed | ⟨hlive, -⟩
  · exact .inl hclosed
  · by_cases hopened : s.state.Opened
    · rcases hopened with hready | hstarted
      · obtain ⟨a, fd, hconn⟩ := h.connected hready
        exact absurd (hconn.buffers c) (hlive c hc)
      · exact .inr hstarted
    · exact absurd ((h.idle hopened).buffers c) (hlive c hc)

/-! ### A step -/

theorem Goes.staged (h : s.Staged) (hgoes : s.Goes s') : s'.Staged := by
  obtain ⟨hinv, (hclosed | ⟨a, fd, c, d, hrun⟩) | ⟨hstate, ⟨hidle, -⟩ | ⟨⟨a, fd, hconn⟩, a', fd', hconn'⟩⟩⟩ :=
    hgoes
  · exact hinv.staged (by simp [RipcState.Opened, hclosed])
  · exact .of_running hinv.sound hrun
  · refine hinv.staged ?_
    rw [hstate]
    exact fun hopened => hidle.not_live (h.live hopened)
  · refine .of_connected hinv.sound hconn' (hconn'.state.resolve_right fun hstop => ?_)
    obtain ⟨a, fd, c, d, hrun⟩ := h.running (.inr (hstate ▸ hstop))
    exact hconn.not_running hrun

/-- A call in its turn is orderly. -/
theorem Staged.orderly (h : s.Staged) {call : ClientCall} (hin : call.InOrder s) : call.Orderly s := by
  cases call with
  | initC => exact (h.idle hin).not_live
  | uninitC ctl => exact Or.imp_right h.closeOk hin
  | openC nodelay env =>
    obtain ⟨hsocket, hitem, hstate⟩ := hin
    exact ⟨hsocket, hitem, fun hlive => absurd hlive (h.idle hstate).not_live⟩
  | closeC ctl => exact h.closeOk hin
  | startC env =>
    obtain ⟨hrc, hwb, hopened, hquiet⟩ := hin
    exact .inr ⟨h.live hopened, hrc, hwb, hquiet⟩
  | stopC => trivial
  | sendC env => exact or_iff_not_imp_left.mpr fun hstate => .inr (h.live (.inr (.inl (not_not.mp hstate))))
  | checkC env => exact hin.imp h.closeOk .inl
  | receiveC io => exact or_iff_not_imp_left.mpr fun hstate => h.live (.inr (.inl (not_not.mp hstate)))
  | errorC env => exact h.closeOk hin

theorem inOrder_succeeds (h : s.Staged) {call : ClientCall} (hfits : call.Fits s) (hin : call.InOrder s) :
    (call.run s).Succeeds fun r => r.2.Staged := by
  have hok := h.orderly hin
  cases call with
  | initC => exact (init_succeeds h.inv hok).mono fun _ hr => hr.staged h
  | uninitC ctl =>
    refine (uninit_succeeds h.inv hok ctl).mono fun r hr => hr.1.staged ?_
    simp [RipcState.Opened, hr.2]
  | openC nodelay env =>
    refine (open_succeeds h.inv hfits hok.1 hok.2.1 hok.2.2).mono fun r hr => ?_
    rcases hr with hgoes | ⟨hsound, hstate, a, fd, hconn⟩
    · exact hgoes.staged h
    · exact .of_connected hsound hconn hstate
  | closeC ctl => exact (close_succeeds h.inv hok ctl).mono fun _ hr => hr.2.goes.staged h
  | startC env => exact (start_succeeds h.inv hfits hok).mono fun _ hr => hr.staged h
  | stopC =>
    obtain ⟨a, fd, c, d, hrun⟩ := h.running hin
    exact .ok (.of_running h.sound hrun.stop)
  | sendC env => exact (send_succeeds h.inv hok env).mono fun _ hr => hr.staged h
  | checkC env => exact (check_succeeds h.inv env hfits hok).mono fun _ hr => hr.staged h
  | receiveC io => exact (receive_succeeds h.inv hok io).mono fun _ hr => hr.staged h
  | errorC env => exact (onError_succeeds h.inv hok env).mono fun _ hr => hr.goes.staged h

/-- In a run in the order of the states every call is orderly. -/
theorem inOrder_run (h : s.Fresh) (hstate : ¬ s.state.Opened) {calls : List ClientCall}
    (hrun : Steps (Guarded (fun s call => ClientCall.InOrder s call) (fun s call s' => ClientCall.Step s call s'))
      s calls s') :
    Steps (Guarded (fun s call => ClientCall.Orderly s call) (fun s call s' => ClientCall.Step s call s'))
      s calls s' ∧ s'.Staged := by
  refine hrun.weaken (I := Staged) ?_ ?_ (h.inv.staged hstate)
  · exact fun hstaged hin => hstaged.orderly hin
  · intro s call s' hstaged hin ⟨hfits, code, hreturn⟩
    exact (inOrder_succeeds hstaged hfits hin).returns _ hreturn

end EpollClient

end Funra
