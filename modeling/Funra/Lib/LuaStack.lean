import Mathlib.Data.List.Basic
import Mathlib.Tactic.Common

/-!
# The stack of the Lua C API

What the manual says of the functions a C program calls a Lua function with. The stack is a list from the
bottom up, of which the C function may use `slots`; an index counts from 1 at the bottom, or from -1 down from
the top. To use more, for values pushed or for the results of a call, to pass an index that is not acceptable, or
to raise an error outside a protected call is a fault.

A `World` is what the stack is used on: the globals, the fields of tables, and what the functions return.
-/

namespace Lua

variable {V ν : Type*}

inductive LuaType
  | nil | boolean | lightuserdata | number | string | table | function | userdata | thread
  deriving DecidableEq

/-- The error of a protected call: a status other than `LUA_OK`, and the error value. -/
structure Raised (V : Type*) where
  status : Int
  value : V
  status_ne : status ≠ 0

structure World (V ν : Type*) where
  nil : V
  type : V → LuaType
  type_nil : type nil = .nil
  global : ν → V
  /-- None for what cannot be indexed, which raises an error. -/
  field : V → ν → Option V
  call : V → List V → Except (Raised V) (List V)

inductive Fault
  | overflow | badIndex | raised
  deriving DecidableEq

/-- The stack, and the calls made with their arguments. -/
structure State (V : Type*) where
  stack : List V
  slots : Nat
  calls : List (V × List V)
  deriving DecidableEq

namespace State

def getTop (s : State V) : Int := s.stack.length

/-- The place of an index, from 0. -/
def place (s : State V) (i : Int) : Option Nat :=
  if 0 < i ∧ i ≤ s.getTop then some (i - 1).toNat
  else if i < 0 ∧ -i ≤ s.getTop then some (s.getTop + i).toNat
  else none

def value (s : State V) (i : Int) : Option V := (s.place i).bind fun p => s.stack[p]?

/-- `lua_type`; none is `LUA_TNONE`. -/
def typeAt (W : World V ν) (s : State V) (i : Int) : Option LuaType := (s.value i).map W.type

def push (s : State V) (v : V) : Except Fault (State V) :=
  if s.stack.length < s.slots then .ok { s with stack := s.stack ++ [v] } else .error .overflow

/-- `lua_settop`: what is above is dropped, what is missing is nil. -/
def setTop (W : World V ν) (s : State V) (i : Int) : Except Fault (State V) :=
  let top := if 0 ≤ i then i else s.getTop + i + 1
  if top < 0 then .error .badIndex
  else if s.slots < top.toNat then .error .overflow
  else .ok { s with
    stack := s.stack.take top.toNat ++ List.replicate (top.toNat - s.stack.length) W.nil }

def pop (W : World V ν) (s : State V) (n : Nat) : Except Fault (State V) := s.setTop W (-n - 1)

/-- `lua_rotate` towards the top: the last `n` values go under those from `i` on. -/
def rotate (s : State V) (i : Int) (n : Nat) : Except Fault (State V) :=
  match s.place i with
  | none => .error .badIndex
  | some p =>
    let moved := s.stack.drop p
    if moved.length < n then .error .badIndex
    else .ok { s with
      stack := s.stack.take p ++ (moved.drop (moved.length - n) ++ moved.take (moved.length - n)) }

def copy (s : State V) (source target : Int) : Except Fault (State V) :=
  match s.value source, s.place target with
  | some v, some p => .ok { s with stack := s.stack.set p v }
  | _, _ => .error .badIndex

def getGlobal (W : World V ν) (s : State V) (name : ν) : Except Fault (State V) := s.push (W.global name)

def getField (W : World V ν) (s : State V) (i : Int) (name : ν) : Except Fault (State V) :=
  match s.value i with
  | none => .error .badIndex
  | some t =>
    match W.field t name with
    | none => .error .raised
    | some v => s.push v

/-- The results wanted of those returned. -/
def adjust (W : World V ν) (results : List V) (n : Nat) : List V :=
  results.take n ++ List.replicate (n - results.length) W.nil

/-- `lua_pcall` without a message handler, for a fixed number of results. The function and its arguments make way
for the results; Lua does not grow the stack for them. -/
def pcall (W : World V ν) (s : State V) (nargs nresults : Nat) : Except Fault (Int × State V) :=
  if s.stack.length < nargs + 1 then .error .badIndex
  else
    let base := s.stack.take (s.stack.length - (nargs + 1))
    match s.stack.drop (s.stack.length - (nargs + 1)) with
    | [] => .error .badIndex
    | f :: args =>
      let calls := s.calls ++ [(f, args)]
      match W.call f args with
      | .ok results =>
        if s.slots < base.length + nresults then .error .overflow
        else .ok (0, { s with stack := base ++ adjust W results nresults, calls })
      | .error e => .ok (e.status, { s with stack := base ++ [e.value], calls })

/-! ### What the functions do -/

section rules

variable {W : World V ν} {s : State V} {l m x : List V} {u v w : V}

theorem place_pos {i : Nat} (h : i < s.stack.length) : s.place (i + 1) = some i := by
  unfold place getTop
  rw [if_pos (by omega)]
  exact congrArg some (by omega)

theorem place_neg {i : Nat} (h : i < s.stack.length) : s.place (-(i + 1)) = some (s.stack.length - (i + 1)) := by
  unfold place getTop
  rw [if_neg (by omega), if_pos (by omega)]
  exact congrArg some (by omega)

/-- The value above `l`. -/
theorem value_above (h : s.stack = l ++ v :: m) : s.value (l.length + 1) = some v := by
  have hlen := congrArg List.length h
  rw [List.length_append, List.length_cons] at hlen
  rw [value, place_pos (by omega), h]
  simp

/-- The value below `m`. -/
theorem value_below (h : s.stack = l ++ v :: m) : s.value (-(m.length + 1)) = some v := by
  have hlen := congrArg List.length h
  rw [List.length_append, List.length_cons] at hlen
  rw [value, place_neg (by omega), show s.stack.length - (m.length + 1) = l.length by omega, h]
  simp

theorem value_top (h : s.stack = l ++ [v]) : s.value (-1) = some v := value_below h

theorem push_ok (h : s.stack.length < s.slots) : s.push v = .ok { s with stack := s.stack ++ [v] } := if_pos h

theorem push_overflow (h : s.slots ≤ s.stack.length) : s.push v = .error .overflow := if_neg (by omega)

theorem getField_top {name : ν} (h : s.stack = l ++ [u]) (hfield : W.field u name = some v) :
    s.getField W (-1) name = s.push v := by
  rw [getField, value_top h]
  dsimp only
  rw [hfield]

theorem setTop_append (h : s.stack = l ++ m) (hslots : l.length ≤ s.slots) :
    s.setTop W l.length = .ok { s with stack := l } := by
  unfold setTop
  simp only [Int.natCast_nonneg, if_true, Int.toNat_natCast]
  rw [if_neg (by omega), if_neg (by omega), h, List.take_left, List.length_append, Nat.sub_eq_zero_of_le (by omega),
    List.replicate_zero, List.append_nil]

theorem pop_one (h : s.stack = l ++ [v]) (hslots : l.length ≤ s.slots) : s.pop W 1 = .ok { s with stack := l } := by
  have hlen := congrArg List.length h
  rw [List.length_append, List.length_singleton] at hlen
  have hneg : ¬ (0 : Int) ≤ -(1 : Nat) - 1 := by omega
  have hindex : s.getTop + (-(1 : Nat) - 1) + 1 = l.length := by
    unfold getTop
    omega
  rw [pop, ← setTop_append h hslots]
  unfold setTop
  rw [if_neg hneg, hindex, if_pos (Int.natCast_nonneg _)]

/-- The values `x` at the top go under the values `m`. -/
theorem rotate_append (h : s.stack = l ++ (m ++ x)) (hx : x ≠ []) :
    s.rotate (l.length + 1) x.length = .ok { s with stack := l ++ (x ++ m) } := by
  have hlen := congrArg List.length h
  have hpos := List.length_pos_iff.mpr hx
  rw [List.length_append, List.length_append] at hlen
  rw [rotate, place_pos (by omega)]
  dsimp only
  rw [h, List.drop_left, List.take_left, List.length_append, if_neg (by omega), Nat.add_sub_cancel, List.drop_left,
    List.take_left]

/-- The third value from the top, copied over the first. -/
theorem copy_third (h : s.stack = l ++ [u, v, w]) : s.copy (-3) (-1) = .ok { s with stack := l ++ [u, v, u] } := by
  have hlen := congrArg List.length h
  rw [List.length_append] at hlen
  have hsource : s.value (-3) = some u := value_below (m := [v, w]) h
  have htarget : s.place (-1) = some (l.length + 2) := by
    have hplace := place_neg (s := s) (i := 0) (by simp at hlen; omega)
    rw [show s.stack.length - (0 + 1) = l.length + 2 by simp at hlen; omega] at hplace
    exact hplace
  rw [copy, hsource, htarget, h]
  dsimp only
  rw [List.set_append_right _ _ (by omega), Nat.add_sub_cancel_left]
  rfl

theorem pcall_eq {f : V} {args : List V} {n : Nat} (h : s.stack = l ++ f :: args) :
    s.pcall W args.length n = match W.call f args with
      | .ok results =>
        if s.slots < l.length + n then .error .overflow
        else .ok (0, { s with stack := l ++ adjust W results n, calls := s.calls ++ [(f, args)] })
      | .error e => .ok (e.status, { s with stack := l ++ [e.value], calls := s.calls ++ [(f, args)] }) := by
  have hlen := congrArg List.length h
  rw [List.length_append, List.length_cons] at hlen
  rw [pcall, if_neg (by omega), show s.stack.length - (args.length + 1) = l.length by omega, h, List.drop_left,
    List.take_left]

end rules

end State

end Lua
