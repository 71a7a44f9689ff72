import Funra.Epoll.Client
import Funra.Lib.System
import Funra.Uv.Send

/-!
# The option cache of a socket

`rsocket_setopt` of `rsocket.c` on Linux, with the masks and macros of `rsocket.h`. The bits of `options`
stand for what the kernel was told last, and a call whose bit already has the value asked for tells it nothing.

The bits are what `malloc` left there when the socket is created; `rsocket_setblocking` and
`rsocket_setnonblocking` change the descriptor alone, and return ok when `fcntl` fails; and two options are
passed a pointer to a `bool` as that of an `int`. In the runs that avoid these the cache is true (`cacheTrue_run`).
-/

namespace Funra

open System

/-! ## Options -/

inductive SockOption
  | linger | keepalive | debug | nonblock | reuseaddr | sndbuf | rcvbuf | nodelay | deferAccept | broadcast | freebind
  deriving DecidableEq, Repr

namespace SockOption

def bit : SockOption → Nat
  | .linger => 0
  | .keepalive => 1
  | .debug => 2
  | .nonblock => 3
  | .reuseaddr => 4
  | .sndbuf => 5
  | .rcvbuf => 6
  | .nodelay => 8
  | .deferAccept => 11
  | .broadcast => 12
  | .freebind => 13

/-- `RSO_LINGER` and its siblings. -/
def mask (o : SockOption) : BitVec 32 := 1 <<< o.bit

def all : List SockOption :=
  [.linger, .keepalive, .debug, .nonblock, .reuseaddr, .sndbuf, .rcvbuf, .nodelay, .deferAccept, .broadcast, .freebind]

/-- The `switch`, on a mask; `none` is its default. -/
def ofMask (option : BitVec 32) : Option SockOption := all.find? fun o => o.mask == option

/-- The options that are on or off; the two others are sizes. -/
def OnOff (o : SockOption) : Prop := o ≠ .sndbuf ∧ o ≠ .rcvbuf

/-- The options for which `rsocket_setopt` looks at the cache. -/
def Cached (o : SockOption) : Prop := o.OnOff ∧ o ≠ .freebind

instance (o : SockOption) : Decidable o.OnOff := inferInstanceAs (Decidable (_ ∧ _))

instance (o : SockOption) : Decidable o.Cached := inferInstanceAs (Decidable (_ ∧ _))

/-- Whether the kernel takes a value for on: a number of seconds for `TCP_DEFER_ACCEPT`, a flag elsewhere. -/
def isOn (o : SockOption) (value : Int) : Bool := if o = .deferAccept then 0 < value else value ≠ 0

end SockOption

def rsocketCheckOption (options option : BitVec 32) : Bool := options &&& option == option

def rsocketSetOption (options option : BitVec 32) (on : Bool) : BitVec 32 :=
  if on then options ||| option else options &&& ~~~option

/-! ## The socket and the kernel -/

/-- `errno` after a call that has failed. -/
abbrev Errno := { e : Int // e ≠ 0 }

def O_NONBLOCK : BitVec 32 := 0x800

/-- `options` is the cache; `values` and `flags` are the kernel's: what each option was set to, and the status
flags of the descriptor. -/
structure SocketOptions where
  options : BitVec 32
  values : SockOption → Int
  flags : BitVec 32

/-- One call's environment: the error of `setsockopt`, whether the two `fcntl` succeed, and the three bytes
behind the parameter `on`. -/
structure OptEnv where
  error : Option Errno
  getfl : Bool
  setfl : Bool
  junk : BitVec 24

namespace SocketOptions

/-- What the kernel has for an on/off option. -/
def kernelOn (s : SocketOptions) (o : SockOption) : Bool :=
  if o = .nonblock then s.flags &&& O_NONBLOCK == O_NONBLOCK else o.isOn (s.values o)

def cachedOn (s : SocketOptions) (o : SockOption) : Bool := rsocketCheckOption s.options o.mask

def setsockopt (env : OptEnv) (o : SockOption) (value : Int) (s : SocketOptions) : Int × SocketOptions :=
  match env.error with
  | some errno => (errno, s)
  | none => (rcodeOk, { s with values := fun o' => if o' = o then value else s.values o' })

/-- The guard of the cached options. -/
def unlessCached (o : SockOption) (on : Bool) (call : SocketOptions → Int × SocketOptions) (s : SocketOptions) :
    Int × SocketOptions :=
  if on ≠ s.cachedOn o then call s else (rcodeOk, s)

/-- `fcntl(fd, F_GETFL, 0)`. -/
def getfl (env : OptEnv) (s : SocketOptions) : BitVec 32 := if env.getfl then s.flags else -1

def setfl (env : OptEnv) (flags : BitVec 32) (s : SocketOptions) : SocketOptions :=
  if env.setfl then { s with flags } else s

end SocketOptions

open SocketOptions

def rsocketSetblocking (env : OptEnv) (s : SocketOptions) : Int × SocketOptions :=
  (rcodeOk, s.setfl env (s.getfl env &&& ~~~O_NONBLOCK))

def rsocketSetnonblocking (env : OptEnv) (s : SocketOptions) : Int × SocketOptions :=
  (rcodeOk, s.setfl env (s.getfl env ||| O_NONBLOCK))

def flagOf (on : Bool) : Int := if on then 1 else 0

/-- The `int` at the address of the `bool` parameter, little-endian. -/
def intAt (on : Bool) (junk : BitVec 24) : Int := (junk ++ (if on then 1 else 0 : BitVec 8)).toInt

/-- The `switch`. -/
def setoptCase (env : OptEnv) (o : SockOption) (on : Bool) : SocketOptions → Int × SocketOptions :=
  match o with
  | .keepalive => unlessCached .keepalive on (setsockopt env .keepalive (flagOf on))
  | .debug => unlessCached .debug on (setsockopt env .debug (flagOf on))
  | .broadcast => unlessCached .broadcast on (setsockopt env .broadcast (flagOf on))
  | .reuseaddr => unlessCached .reuseaddr on (setsockopt env .reuseaddr (flagOf on))
  | .sndbuf => setsockopt env .sndbuf (intAt on env.junk)
  | .rcvbuf => setsockopt env .rcvbuf (intAt on env.junk)
  | .nonblock => unlessCached .nonblock on (if on then rsocketSetnonblocking env else rsocketSetblocking env)
  | .linger => unlessCached .linger on (setsockopt env .linger (flagOf on))
  | .deferAccept => unlessCached .deferAccept on (setsockopt env .deferAccept (intAt on env.junk))
  | .nodelay => unlessCached .nodelay on (setsockopt env .nodelay (intAt on env.junk))
  | .freebind => setsockopt env .freebind (flagOf on)

def rsocketSetopt (env : OptEnv) (option : BitVec 32) (on : Bool) (s : SocketOptions) : Int × SocketOptions :=
  match SockOption.ofMask option with
  | none => (rcodeInvalid, s)
  | some o =>
    let (code, s) := setoptCase env o on s
    if code ≠ rcodeOk then (code, s)
    else (rcodeIoDone, { s with options := rsocketSetOption s.options option on })

inductive OptionCall
  | setopt (option : BitVec 32) (on : Bool)
  | setblocking
  | setnonblocking
  deriving DecidableEq

def OptionCall.run (env : OptEnv) : OptionCall → SocketOptions → Int × SocketOptions
  | .setopt option on => rsocketSetopt env option on
  | .setblocking => rsocketSetblocking env
  | .setnonblocking => rsocketSetnonblocking env

def OptionCall.Step (s : SocketOptions) (call : OptEnv × OptionCall) (s' : SocketOptions) : Prop :=
  (call.2.run call.1 s).2 = s'

/-! ## The property and the condition -/

/-- The cached bits are what the kernel has. -/
def InStep (s : SocketOptions) : Prop := ∀ o : SockOption, o.Cached → s.cachedOn o = s.kernelOn o

/-- A call that returns ok leaves the kernel's option equal to what was asked for. -/
def Truthful (s : SocketOptions) (env : OptEnv) (call : OptionCall) : Prop :=
  ∀ o on, o.OnOff → call = .setopt o.mask on → (call.run env s).1 = rcodeOk →
    (call.run env s).2.kernelOn o = on

/-- A change of `RSO_NONBLOCK` gets through; the bytes behind `on` leave its value what it is; and blocking is
changed directly only to what is cached, or not at all. -/
def OptionCall.Harmless (s : SocketOptions) (call : OptEnv × OptionCall) : Prop :=
  match call with
  | (env, .setopt option on) => ∀ o, option = o.mask → o.Cached → s.cachedOn o ≠ on →
      (o = .nonblock → env.setfl = true) ∧
      (o = .nodelay ∨ o = .deferAccept → env.error = none → o.isOn (intAt on env.junk) = on)
  | (env, .setblocking) => env.setfl = true → s.cachedOn .nonblock = false
  | (env, .setnonblocking) => env.setfl = true → s.cachedOn .nonblock = true

/-! ### Masks -/

theorem SockOption.bit_lt (o : SockOption) : o.bit < 32 := by
  cases o <;> decide

theorem SockOption.bit_injective {o o' : SockOption} (h : o.bit = o'.bit) : o = o' := by
  cases o <;> cases o' <;> first | rfl | exact absurd h (by decide)

theorem SockOption.ofMask_mask (o : SockOption) : SockOption.ofMask o.mask = some o := by
  cases o <;> decide

theorem SockOption.mask_of_ofMask {option : BitVec 32} {o : SockOption}
    (h : SockOption.ofMask option = some o) : option = o.mask := by
  have hfound := List.find?_some h
  exact (beq_iff_eq.mp hfound).symm

/-- The test of a mask with one bit is the test of the bit. -/
theorem checkOption_bit (x : BitVec 32) {i : Nat} (hi : i < 32) :
    rsocketCheckOption x (1 <<< i) = x.getLsbD i := by
  have hpow : (1 <<< i : BitVec 32) = BitVec.twoPow 32 i := rfl
  have hne : (0 : BitVec 32) ≠ BitVec.twoPow 32 i := by
    intro heq
    have hbit := congrArg (fun x => x.getLsbD i) heq
    simp [hi] at hbit
  rw [rsocketCheckOption, hpow, BitVec.and_twoPow]
  cases x.getLsbD i with
  | false => simpa using hne
  | true => simp

theorem setOption_bit (x : BitVec 32) {i j : Nat} (hi : i < 32) (hj : j < 32) (on : Bool) :
    (rsocketSetOption x (1 <<< i) on).getLsbD j = if j = i then on else x.getLsbD j := by
  have hpow : (1 <<< i : BitVec 32) = BitVec.twoPow 32 i := rfl
  rw [rsocketSetOption, hpow]
  cases on with
  | false =>
    by_cases heq : j = i
    · simp [heq, hi]
    · simp [heq, hj]
  | true =>
    by_cases heq : j = i
    · simp [heq, hi]
    · simp [BitVec.getLsbD_twoPow, heq, Ne.symm heq]

section

variable {s : SocketOptions} {env : OptEnv} {o o' : SockOption} {on : Bool}

theorem cachedOn_set (s : SocketOptions) (o o' : SockOption) (on : Bool) :
    cachedOn { s with options := rsocketSetOption s.options o.mask on } o' =
      if o' = o then on else s.cachedOn o' := by
  have hcheck (x : BitVec 32) : rsocketCheckOption x o'.mask = x.getLsbD o'.bit := checkOption_bit x o'.bit_lt
  rw [cachedOn, cachedOn, hcheck, hcheck, SockOption.mask, setOption_bit _ o.bit_lt o'.bit_lt]
  by_cases heq : o' = o
  · rw [if_pos heq, if_pos (congrArg _ heq)]
  · rw [if_neg heq, if_neg fun hbit => heq (SockOption.bit_injective hbit)]

@[simp] theorem kernelOn_options (s : SocketOptions) (options : BitVec 32) (o : SockOption) :
    kernelOn { s with options } o = s.kernelOn o := rfl

/-! ### The system calls -/

theorem isOn_flagOf (o : SockOption) (on : Bool) : o.isOn (flagOf on) = on := by
  cases on <;> simp [SockOption.isOn, flagOf]

/-- The descriptor after `F_SETFL`; `F_GETFL` may have failed. -/
theorem setblocking_kernelOn (env : OptEnv) (s : SocketOptions) :
    (rsocketSetblocking env s).2.kernelOn .nonblock = (s.kernelOn .nonblock && !env.setfl) := by
  have hbit : O_NONBLOCK = 1 <<< 11 := by decide
  simp only [rsocketSetblocking, setfl, kernelOn, if_true]
  cases env.setfl with
  | false => simp
  | true =>
    have hoff := setOption_bit (s.getfl env) (i := 11) (j := 11) (by decide) (by decide) false
    have hcheck := checkOption_bit (rsocketSetOption (s.getfl env) (1 <<< 11) false) (i := 11) (by decide)
    rw [hoff, ← hbit] at hcheck
    simpa [rsocketCheckOption, rsocketSetOption] using hcheck

theorem setnonblocking_kernelOn (env : OptEnv) (s : SocketOptions) :
    (rsocketSetnonblocking env s).2.kernelOn .nonblock = (s.kernelOn .nonblock || env.setfl) := by
  have hbit : O_NONBLOCK = 1 <<< 11 := by decide
  simp only [rsocketSetnonblocking, setfl, kernelOn, if_true]
  cases env.setfl with
  | false => simp
  | true =>
    have hset := setOption_bit (s.getfl env) (i := 11) (j := 11) (by decide) (by decide) true
    have hcheck := checkOption_bit (rsocketSetOption (s.getfl env) (1 <<< 11) true) (i := 11) (by decide)
    rw [hset, ← hbit] at hcheck
    simpa [rsocketCheckOption, rsocketSetOption] using hcheck

/-- What the kernel has for the option after a case of the `switch` that has made its call. -/
def reached (env : OptEnv) (o : SockOption) (on : Bool) (s : SocketOptions) : Bool :=
  match o with
  | .nonblock => if env.setfl then on else s.kernelOn .nonblock
  | .nodelay | .deferAccept => o.isOn (intAt on env.junk)
  | _ => on

/-- What `setsockopt` with a value does. -/
theorem setsockopt_cases (env : OptEnv) (value : Int) (s : SocketOptions) (hne : o ≠ .nonblock) :
    (∃ e : Errno, env.error = some e ∧ setsockopt env o value s = (e.1, s)) ∨
    (env.error = none ∧ ∃ s', setsockopt env o value s = (rcodeOk, s') ∧ s'.options = s.options ∧
      s'.kernelOn o = o.isOn value ∧ ∀ o' ≠ o, s'.kernelOn o' = s.kernelOn o') := by
  unfold setsockopt
  cases env.error with
  | some e => exact .inl ⟨e, rfl, rfl⟩
  | none =>
    refine .inr ⟨rfl, _, rfl, rfl, ?_, fun o' ho' => ?_⟩
    · simp [kernelOn, hne]
    · simp [kernelOn, ho']

/-- What a case of the `switch` comes to: the cached bit has the value, `setsockopt` fails, or the kernel is
told. -/
inductive CaseOutcome (env : OptEnv) (o : SockOption) (on : Bool) (s : SocketOptions) : Int × SocketOptions → Prop
  | skipped (hcached : o.Cached) (hbit : s.cachedOn o = on) : CaseOutcome env o on s (rcodeOk, s)
  | failed (e : Errno) (herror : env.error = some e) (hne : o ≠ .nonblock) : CaseOutcome env o on s (e.1, s)
  | told {s' : SocketOptions} (hbit : o.Cached → s.cachedOn o ≠ on) (herror : o ≠ .nonblock → env.error = none)
      (hoptions : s'.options = s.options) (hkernel : o.OnOff → s'.kernelOn o = reached env o on s)
      (hothers : ∀ o' ≠ o, s'.kernelOn o' = s.kernelOn o') : CaseOutcome env o on s (rcodeOk, s')

theorem CaseOutcome.of_setsockopt {value : Int} (hne : o ≠ .nonblock) (hbit : o.Cached → s.cachedOn o ≠ on)
    (hvalue : o.OnOff → o.isOn value = reached env o on s) :
    CaseOutcome env o on s (setsockopt env o value s) := by
  rcases setsockopt_cases env value s hne with ⟨e, herror, hrun⟩ | ⟨herror, s', hrun, hoptions, hkernel, hothers⟩
  · rw [hrun]
    exact .failed e herror hne
  · rw [hrun]
    exact .told hbit (fun _ => herror) hoptions (fun honoff => hkernel.trans (hvalue honoff)) hothers

theorem CaseOutcome.of_unlessCached (hcached : o.Cached) {call : SocketOptions → Int × SocketOptions}
    (hcall : s.cachedOn o ≠ on → CaseOutcome env o on s (call s)) :
    CaseOutcome env o on s (unlessCached o on call s) := by
  unfold unlessCached
  by_cases hbit : s.cachedOn o = on
  · rw [if_neg (not_not.mpr hbit.symm)]
    exact .skipped hcached hbit
  · rw [if_pos (Ne.symm hbit)]
    exact hcall hbit

/-- The cases of an option that is passed as a flag, and of one that is passed as the `int` at `on`. -/
theorem CaseOutcome.of_cached {value : Int} (hcached : o.Cached) (hne : o ≠ .nonblock)
    (hvalue : o.isOn value = reached env o on s) :
    CaseOutcome env o on s (unlessCached o on (setsockopt env o value) s) :=
  .of_unlessCached hcached fun hbit => .of_setsockopt hne (fun _ => hbit) fun _ => hvalue

theorem CaseOutcome.of_nonblock :
    CaseOutcome env .nonblock on s
      (unlessCached .nonblock on (if on then rsocketSetnonblocking env else rsocketSetblocking env) s) := by
  refine .of_unlessCached (by decide) fun hbit => ?_
  have hothers (flags : BitVec 32) : ∀ o' ≠ SockOption.nonblock,
      (s.setfl env flags).kernelOn o' = s.kernelOn o' := by
    intro o' ho'
    unfold setfl
    split <;> simp [kernelOn, ho']
  have hoptions (flags : BitVec 32) : (s.setfl env flags).options = s.options := by
    unfold setfl
    split <;> rfl
  cases on with
  | true =>
    refine .told (fun _ => hbit) (fun hne => absurd rfl hne) (hoptions _) (fun _ => ?_) (hothers _)
    refine (setnonblocking_kernelOn env s).trans ?_
    cases hset : env.setfl <;> simp [reached, hset]
  | false =>
    refine .told (fun _ => hbit) (fun hne => absurd rfl hne) (hoptions _) (fun _ => ?_) (hothers _)
    refine (setblocking_kernelOn env s).trans ?_
    cases hset : env.setfl <;> simp [reached, hset]

theorem setoptCase_outcome (env : OptEnv) (o : SockOption) (on : Bool) (s : SocketOptions) :
    CaseOutcome env o on s (setoptCase env o on s) := by
  cases o with
  | nonblock => exact .of_nonblock
  | keepalive | debug | broadcast | reuseaddr | linger =>
    exact .of_cached (by decide) (by decide) (isOn_flagOf _ on)
  | nodelay | deferAccept => exact .of_cached (by decide) (by decide) rfl
  | freebind =>
    exact .of_setsockopt (by decide) (fun hcached => absurd rfl hcached.2) fun _ => isOn_flagOf _ on
  | sndbuf =>
    exact .of_setsockopt (by decide) (fun hcached => absurd rfl hcached.1.1) fun honoff => absurd rfl honoff.1
  | rcvbuf =>
    exact .of_setsockopt (by decide) (fun hcached => absurd rfl hcached.1.2) fun honoff => absurd rfl honoff.2

/-! ### One call -/

/-- The cache stays in step when the kernel has what the call has cached. -/
theorem inStep_set_iff (h : InStep s) {s' : SocketOptions} (hoptions : s'.options = s.options)
    (hothers : ∀ o' ≠ o, s'.kernelOn o' = s.kernelOn o') :
    InStep { s' with options := rsocketSetOption s'.options o.mask on } ↔ (o.Cached → s'.kernelOn o = on) := by
  have hbits (o' : SockOption) : cachedOn { s' with options := rsocketSetOption s'.options o.mask on } o' =
      if o' = o then on else s.cachedOn o' := by
    have hold : s'.cachedOn o' = s.cachedOn o' := by
      rw [cachedOn, cachedOn, hoptions]
    rw [cachedOn_set, hold]
  constructor
  · intro hstep hcached
    have ho := hstep o hcached
    rw [hbits, if_pos rfl, kernelOn_options] at ho
    exact ho.symm
  · intro hkernel o' hcached'
    rw [hbits, kernelOn_options]
    by_cases heq : o' = o
    · subst heq
      rw [if_pos rfl, hkernel hcached']
    · rw [if_neg heq, hothers o' heq]
      exact h o' hcached'

theorem rsocketSetopt_mask (env : OptEnv) (o : SockOption) (on : Bool) (s : SocketOptions) :
    rsocketSetopt env o.mask on s =
      if (setoptCase env o on s).1 ≠ rcodeOk then setoptCase env o on s
      else (rcodeIoDone, { (setoptCase env o on s).2 with
        options := rsocketSetOption (setoptCase env o on s).2.options o.mask on }) := by
  rw [rsocketSetopt, SockOption.ofMask_mask]

theorem SockOption.mask_injective {o o' : SockOption} (h : o.mask = o'.mask) : o = o' := by
  have hof := SockOption.ofMask_mask o
  rw [h, SockOption.ofMask_mask] at hof
  exact (Option.some.inj hof).symm

theorem harmless_of_skipped (hbit : s.cachedOn o = on) : OptionCall.Harmless s (env, .setopt o.mask on) := by
  intro o' hmask hcached hne
  cases SockOption.mask_injective hmask
  exact absurd hbit hne

theorem harmless_of_failed {e : Errno} (herror : env.error = some e) (hne : o ≠ .nonblock) :
    OptionCall.Harmless s (env, .setopt o.mask on) := by
  intro o' hmask hcached hbit
  cases SockOption.mask_injective hmask
  refine ⟨fun hnonblock => absurd hnonblock hne, fun _ hnone => ?_⟩
  rw [herror] at hnone
  cases hnone

/-- With the cached value no system call is made. -/
theorem setoptCase_skips (hcached : o.Cached) (env : OptEnv) (s : SocketOptions) :
    setoptCase env o (s.cachedOn o) s = (rcodeOk, s) := by
  have hskip (call : SocketOptions → Int × SocketOptions) :
      unlessCached o (s.cachedOn o) call s = (rcodeOk, s) := if_neg (not_not.mpr rfl)
  cases o with
  | sndbuf => exact absurd rfl hcached.1.1
  | rcvbuf => exact absurd rfl hcached.1.2
  | freebind => exact absurd rfl hcached.2
  | _ => exact hskip _

/-- The calls that are skipped are truthful exactly when the cached bits are the kernel's. -/
theorem inStep_iff_skips (s : SocketOptions) (env : OptEnv) :
    InStep s ↔ ∀ o : SockOption, o.Cached → Truthful s env (.setopt o.mask (s.cachedOn o)) := by
  have hskip (o : SockOption) (hcached : o.Cached) : rsocketSetopt env o.mask (s.cachedOn o) s =
      (rcodeIoDone, { s with options := rsocketSetOption s.options o.mask (s.cachedOn o) }) := by
    rw [rsocketSetopt_mask, setoptCase_skips hcached, if_neg (not_not.mpr rfl)]
  constructor
  · intro h o hcached o' on _ hcall _
    cases SockOption.mask_injective (OptionCall.setopt.inj hcall).1
    cases (OptionCall.setopt.inj hcall).2
    rw [OptionCall.run, hskip o hcached]
    exact (h o hcached).symm
  · intro hall o hcached
    have hkernel := hall o hcached o _ hcached.1 rfl
    rw [OptionCall.run, hskip o hcached] at hkernel
    exact (hkernel rfl).symm

/-- A call that tells the kernel is harmless exactly when the kernel then has what was asked for. -/
theorem harmless_iff_reached (h : InStep s) (hbit : o.Cached → s.cachedOn o ≠ on)
    (herror : o ≠ .nonblock → env.error = none) :
    OptionCall.Harmless s (env, .setopt o.mask on) ↔ (o.Cached → reached env o on s = on) := by
  have hcases : OptionCall.Harmless s (env, .setopt o.mask on) ↔ (o.Cached →
      (o = .nonblock → env.setfl = true) ∧ (o = .nodelay ∨ o = .deferAccept → o.isOn (intAt on env.junk) = on)) := by
    constructor
    · intro hharm hcached
      obtain ⟨hset, hvalue⟩ := hharm o rfl hcached (hbit hcached)
      refine ⟨hset, fun ho => hvalue ho (herror ?_)⟩
      rcases ho with rfl | rfl <;> decide
    · intro hall o' hmask hcached _
      cases SockOption.mask_injective hmask
      obtain ⟨hset, hvalue⟩ := hall hcached
      exact ⟨hset, fun ho _ => hvalue ho⟩
  rw [hcases]
  refine forall_congr' fun hcached => ?_
  cases o with
  | nonblock =>
    -- the kernel has the opposite, as the cached bit has
    have hkernel : s.kernelOn .nonblock ≠ on := by
      rw [← h .nonblock hcached]
      exact hbit hcached
    cases hset : env.setfl <;> simp [reached, hset, hkernel]
  | nodelay | deferAccept => simp [reached]
  | keepalive | debug | broadcast | reuseaddr | linger | freebind | sndbuf | rcvbuf => simp [reached]

/-- `rsocket_setopt` of a supported option. -/
theorem setopt_truthful_iff (h : InStep s) (env : OptEnv) (o : SockOption) (on : Bool) :
    (Truthful s env (.setopt o.mask on) ∧ InStep (rsocketSetopt env o.mask on s).2) ↔
      OptionCall.Harmless s (env, .setopt o.mask on) := by
  have htruth : Truthful s env (.setopt o.mask on) ↔ (o.OnOff → (rsocketSetopt env o.mask on s).1 = rcodeOk →
      (rsocketSetopt env o.mask on s).2.kernelOn o = on) := by
    constructor
    · exact fun htruthful honoff => htruthful o on honoff rfl
    · intro hall o' on' honoff' hcall
      cases SockOption.mask_injective (OptionCall.setopt.inj hcall).1
      cases (OptionCall.setopt.inj hcall).2
      exact hall honoff'
  rw [htruth, rsocketSetopt_mask]
  have houtcome := setoptCase_outcome env o on s
  generalize setoptCase env o on s = result at houtcome ⊢
  cases houtcome with
  | skipped hcached hbit =>
    rw [if_neg (not_not.mpr rfl)]
    refine iff_of_true ⟨fun _ _ => ?_, ?_⟩ (harmless_of_skipped hbit)
    · exact (h o hcached).symm.trans hbit
    · exact (inStep_set_iff h rfl fun o' _ => rfl).mpr fun _ => (h o hcached).symm.trans hbit
  | failed e herror hne =>
    have hcode : (e.1, s).1 ≠ rcodeOk := e.2
    rw [if_pos hcode]
    exact iff_of_true ⟨fun _ hok => absurd hok e.2, h⟩ (harmless_of_failed herror hne)
  | told hbit herror hoptions hkernel hothers =>
    rw [if_neg (not_not.mpr rfl), inStep_set_iff h hoptions hothers, harmless_iff_reached h hbit herror]
    constructor
    · rintro ⟨-, hstep⟩ hcached
      rw [← hkernel hcached.1, hstep hcached]
    · intro hreached
      refine ⟨fun honoff _ => ?_, fun hcached => (hkernel hcached.1).trans (hreached hcached)⟩
      refine (hkernel honoff).trans ?_
      by_cases hcached : o.Cached
      · exact hreached hcached
      · -- `RSO_FREEBIND` is told always, as a flag
        obtain rfl : o = .freebind := by
          by_contra hne
          exact hcached ⟨honoff, hne⟩
        rfl

/-- `rsocket_setblocking` and `rsocket_setnonblocking` leave all but the descriptor's flags. -/
theorem inStep_flags_iff (h : InStep s) (flags : BitVec 32) :
    InStep (s.setfl env flags) ↔ (s.setfl env flags).kernelOn .nonblock = s.cachedOn .nonblock := by
  have hcache (o : SockOption) : (s.setfl env flags).cachedOn o = s.cachedOn o := by
    unfold setfl
    split <;> rfl
  have hothers : ∀ o ≠ SockOption.nonblock, (s.setfl env flags).kernelOn o = s.kernelOn o := by
    intro o ho
    unfold setfl
    split <;> simp [kernelOn, ho]
  constructor
  · intro hstep
    rw [← hstep .nonblock (by decide), hcache]
  · intro hkernel o hcached
    rw [hcache]
    by_cases heq : o = .nonblock
    · rw [heq, hkernel]
    · rw [hothers o heq]
      exact h o hcached

/-- Exactly when a call keeps the cache true. -/
theorem cacheTrue_iff (h : InStep s) (env : OptEnv) (call : OptionCall) :
    (Truthful s env call ∧ InStep (call.run env s).2) ↔ OptionCall.Harmless s (env, call) := by
  cases call with
  | setopt option on =>
    cases hof : SockOption.ofMask option with
    | some o =>
      obtain rfl := SockOption.mask_of_ofMask hof
      exact setopt_truthful_iff h env o on
    | none =>
      have hno (o : SockOption) : option ≠ o.mask := by
        rintro rfl
        rw [SockOption.ofMask_mask] at hof
        cases hof
      have hrun : (OptionCall.setopt option on).run env s = (rcodeInvalid, s) := by
        simp only [OptionCall.run, rsocketSetopt, hof]
      refine iff_of_true ⟨fun o on' _ hcall => ?_, ?_⟩ fun o hmask => absurd hmask (hno o)
      · exact absurd (OptionCall.setopt.inj hcall).1 (hno o)
      · rw [hrun]
        exact h
  | setblocking =>
    have hbit := h .nonblock (by decide)
    have htruth : Truthful s env .setblocking := fun _ _ _ hcall => nomatch hcall
    have hkernel := setblocking_kernelOn env s
    rw [and_iff_right htruth]
    refine (inStep_flags_iff h _).trans ?_
    rw [show (s.setfl env (s.getfl env &&& ~~~O_NONBLOCK)).kernelOn .nonblock = _ from hkernel, ← hbit,
      OptionCall.Harmless]
    cases s.cachedOn .nonblock <;> cases env.setfl <;> simp
  | setnonblocking =>
    have hbit := h .nonblock (by decide)
    have htruth : Truthful s env .setnonblocking := fun _ _ _ hcall => nomatch hcall
    have hkernel := setnonblocking_kernelOn env s
    rw [and_iff_right htruth]
    refine (inStep_flags_iff h _).trans ?_
    rw [show (s.setfl env (s.getfl env ||| O_NONBLOCK)).kernelOn .nonblock = _ from hkernel, ← hbit,
      OptionCall.Harmless]
    cases s.cachedOn .nonblock <;> cases env.setfl <;> simp

end

/-! ## Runs -/

/-- From a socket whose cached bits are the kernel's, in every state that harmless calls reach: the bits are still
the kernel's, and the next call is truthful and keeps them so exactly when it is harmless too. -/
theorem cacheTrue_run {s s' : SocketOptions} {calls : List (OptEnv × OptionCall)} (h : InStep s)
    (hrun : Steps (Guarded OptionCall.Harmless OptionCall.Step) s calls s') :
    InStep s' ∧ ∀ env call, (Truthful s' env call ∧ InStep (call.run env s').2) ↔
      OptionCall.Harmless s' (env, call) := by
  have hstep : InStep s' := by
    refine hrun.invariant (fun {s call s'} hs hcall => ?_) h
    obtain ⟨hharm, rfl⟩ := hcall
    exact ((cacheTrue_iff hs call.1 call.2).mpr hharm).2
  exact ⟨hstep, fun env call => cacheTrue_iff hstep env call⟩

/-- A new descriptor: nothing is on, and it blocks. `options` is what the memory held. -/
def newSocket (options : BitVec 32) : SocketOptions := ⟨options, fun _ => 0, 0⟩

theorem newSocket_inStep : InStep (newSocket 0) := by
  intro o hcached
  cases o <;> decide

/-- All system calls succeed, and the bytes behind `on` are 0. -/
def calmEnv : OptEnv := ⟨none, true, true, 0⟩

theorem cacheTrue_run_reuse :
    let s := (rsocketSetopt calmEnv SockOption.reuseaddr.mask true (newSocket 0)).2
    InStep s ∧ ∀ env call, (Truthful s env call ∧ InStep (call.run env s).2) ↔
      OptionCall.Harmless s (env, call) := by
  have hharm : OptionCall.Harmless (newSocket 0) (calmEnv, .setopt SockOption.reuseaddr.mask true) := by
    intro o hmask _ _
    cases SockOption.mask_injective hmask
    exact ⟨fun ho => absurd ho (by decide), fun ho => absurd ho (by decide)⟩
  exact cacheTrue_run newSocket_inStep (.cons ⟨hharm, rfl⟩ (.nil _))

/-- With bit 3 left in `options`, the call for `RSO_NONBLOCK` returns ok and the descriptor blocks. -/
theorem cache_lies : ¬ ∀ (options : BitVec 32) (env : OptEnv) (call : OptionCall),
    Truthful (newSocket options) env call := by
  intro hall
  have hkernel := hall 0x8 calmEnv (.setopt SockOption.nonblock.mask true) .nonblock true (by decide)
    rfl (by decide)
  exact absurd hkernel (by decide)

end Funra
