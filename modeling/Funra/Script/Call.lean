import Funra.Epoll.Client
import Funra.Lib.LuaStack
import Funra.Uv.Send

/-!
# Calling a script function by its name

`set_script_func` and `call_script_lua` of `rscript_lua.c`, over the stack of the Lua API. A name is a global
followed by fields, `a.b.c` or `a.b:c`; the values of its parts are pushed above the arguments, a rotation puts
the function below them and `lua_settop` drops the rest.

With `:` three values go below the arguments, where the call takes two off: the table stays behind. The other
calls leave the stack as they should, as long as it has room for the parts and for the results
(`callsDisciplined_iff`). Nothing calls `lua_checkstack`.
-/

namespace Funra

open Lua

variable {V : Type*}

/-! ## `set_script_func` -/

def dot : UInt8 := 46

def colon : UInt8 := 58

def blank : UInt8 := 32

/-- The size of `temp_name`. -/
def tempNameSize : Nat := 64

/-- The part in `temp_name` is pushed: a global first, then fields of what is at the top. -/
def pushPart (W : World V (List UInt8)) (first : Bool) (tempName : List UInt8) (s : State V) :
    Except Lua.Fault (State V) :=
  if first then s.getGlobal W tempName else s.getField W (-1) tempName

/-- The loop over the name, from `p` on. It gives `method`, or none for a part that is nil. -/
def partsLoop (W : World V (List UInt8)) : List UInt8 → List UInt8 → Bool → Bool → State V →
    Except Lua.Fault (Option Bool × State V)
  | [], tempName, first, method, s =>
    if tempNameSize ≤ tempName.length then .ok (some method, s)
    else do
      let s ← pushPart W first tempName s
      .ok (if s.typeAt W (-1) = some .nil then none else some method, s)
  | p :: name, tempName, first, method, s =>
    if tempNameSize ≤ tempName.length then .ok (some method, s)
    else if p = dot ∨ p = colon then do
      let s ← pushPart W first tempName s
      if s.typeAt W (-1) = some .nil then .ok (none, s)
      else partsLoop W name [] false (method || p = colon) s
    else if p = blank then partsLoop W name tempName first method s
    else partsLoop W name (tempName ++ [p]) first method s

/-- The code, `top_add` and the stack. -/
structure ScriptFunc (V : Type*) where
  code : Int
  topAdd : Nat
  state : State V

/-- The function is at `index`, else the stack goes back to `funcTop`. -/
def checkFunction (W : World V (List UInt8)) (s : State V) (index funcTop : Int) (topAdd : Nat) :
    Except Lua.Fault (ScriptFunc V) :=
  if s.typeAt W index = some .function then .ok ⟨rcodeOk, topAdd, s⟩
  else do
    let s ← s.setTop W funcTop
    .ok ⟨rcodeInvalid, topAdd, s⟩

def setScriptFunc (W : World V (List UInt8)) (funcName : List UInt8) (frameTop : Int) (s : State V) :
    Except Lua.Fault (ScriptFunc V) := do
  let funcTop := s.getTop
  let (found, s) ← partsLoop W funcName [] true false s
  match found with
  | none =>
    let s ← s.setTop W funcTop
    .ok ⟨rcodeInvalid, 0, s⟩
  | some true =>
    let s ← s.push W.nil
    let s ← s.copy (-3) (-1)
    let s ← s.rotate (frameTop + 1) 3
    let s ← s.setTop W (funcTop + 3)
    checkFunction W s (frameTop + 2) funcTop 1
  | some false =>
    let s ← s.rotate (frameTop + 1) 1
    let s ← s.setTop W (funcTop + 1)
    checkFunction W s (frameTop + 1) funcTop 0

/-! ## `call_script_lua` -/

def luaOk : Int := 0

/-- The message is removed. -/
def checkResult (W : World V (List UInt8)) (status : Int) (s : State V) : Except Lua.Fault (Bool × State V) :=
  if status = luaOk then .ok (true, s)
  else do
    let s ← s.pop W 1
    .ok (false, s)

def callScriptLua (W : World V (List UInt8)) (funcName : List UInt8) (paramsAmount retAmount : Nat) (s : State V) :
    Except Lua.Fault (Int × State V) := do
  let frameTop := s.getTop - paramsAmount
  let func ← setScriptFunc W funcName frameTop s
  if func.code ≠ rcodeOk then
    let s ← func.state.setTop W frameTop
    .ok (rcodeInvalid, s)
  else
    let (status, s) ← func.state.pcall W (paramsAmount + func.topAdd) retAmount
    let (result, s) ← checkResult W status s
    if result then .ok (rcodeOk, s)
    else
      let s ← s.setTop W frameTop
      .ok (rcodeInvalid, s)

/-! ## Names -/

/-- A part of a name as it is written. The code passes over blanks. -/
structure Segment where
  text : List UInt8
  plain : ∀ c ∈ text, c ≠ 0 ∧ c ≠ dot ∧ c ≠ colon
  short : (text.filter (· != blank)).length < tempNameSize

def Segment.key (seg : Segment) : List UInt8 := seg.text.filter (· != blank)

theorem Segment.key_short (seg : Segment) : seg.key.length < tempNameSize := seg.short

/-- `head.field.field` or `head.field:method`. -/
structure FuncName where
  head : Segment
  fields : List Segment
  method : Option Segment

namespace FuncName

/-- What follows the first part, with the separators; true stands for `:`. -/
def tail (name : FuncName) : List (Bool × Segment) :=
  name.fields.map (false, ·) ++ name.method.toList.map (true, ·)

def tailText (tail : List (Bool × Segment)) : List UInt8 :=
  tail.flatMap fun part => (if part.1 then colon else dot) :: part.2.text

def text (name : FuncName) : List UInt8 := name.head.text ++ tailText name.tail

end FuncName

/-- The values of the parts from the value `v` on, up to the first that is nil. None: an error is raised. -/
def walk (W : World V (List UInt8)) (v : V) : List (List UInt8) → Option (List V)
  | [] => some [v]
  | key :: keys =>
    if W.type v = .nil then some [v] else (W.field v key).bind fun u => (walk W u keys).map (v :: ·)

def FuncName.values (name : FuncName) (W : World V (List UInt8)) : Option (List V) :=
  walk W (W.global name.head.key) (name.tail.map fun part => part.2.key)

/-- What is called: the last value, if it is a function. -/
def calleeOf (W : World V (List UInt8)) (values : List V) : Option V :=
  values.getLast?.filter (W.type · = .function)

/-- With `:` the table goes before the arguments. -/
def FuncName.self (name : FuncName) (values : List V) : List V :=
  if name.method.isSome then values.dropLast.getLast?.toList else []

def lastType (W : World V (List UInt8)) (values : List V) : Option LuaType := values.getLast?.map W.type

/-! ### The loop over the name -/

section loop

variable {W : World V (List UInt8)} {s : State V} {u : V} {first method : Bool} {tempName : List UInt8}

/-- The text of a part goes to `temp_name`. -/
theorem partsLoop_text {text rest : List UInt8} (hplain : ∀ c ∈ text, c ≠ 0 ∧ c ≠ dot ∧ c ≠ colon)
    (hshort : (tempName ++ text.filter (· != blank)).length < tempNameSize) :
    partsLoop W (text ++ rest) tempName first method s =
      partsLoop W rest (tempName ++ text.filter (· != blank)) first method s := by
  induction text generalizing tempName with
  | nil => rw [List.filter_nil, List.append_nil, List.nil_append]
  | cons c text ih =>
    obtain ⟨-, hdot, hcolon⟩ := hplain c List.mem_cons_self
    have hplain' : ∀ d ∈ text, d ≠ 0 ∧ d ≠ dot ∧ d ≠ colon := fun d hd => hplain d (List.mem_cons_of_mem c hd)
    have hlen : ¬ tempNameSize ≤ tempName.length := by
      rw [List.length_append] at hshort
      omega
    rw [List.cons_append, partsLoop, if_neg hlen, if_neg (by simp [hdot, hcolon])]
    by_cases hblank : c = blank
    · rw [if_pos hblank]
      rw [List.filter_cons_of_neg (by simp [hblank])] at hshort ⊢
      exact ih hplain' hshort
    · rw [if_neg hblank]
      rw [List.filter_cons_of_pos (by simp [hblank]), List.append_cons] at hshort
      rw [List.filter_cons_of_pos (by simp [hblank]), List.append_cons tempName c (text.filter (· != blank))]
      exact ih hplain' hshort

theorem partsLoop_segment {seg : Segment} {rest : List UInt8} :
    partsLoop W (seg.text ++ rest) [] first method s = partsLoop W rest seg.key first method s :=
  partsLoop_text seg.plain (by simpa using seg.short)

theorem walk_ne_nil {keys : List (List UInt8)} {values : List V} (h : walk W u keys = some values) :
    ∃ rest, values = u :: rest := by
  cases keys with
  | nil =>
    cases h
    exact ⟨[], rfl⟩
  | cons key keys =>
    rw [walk] at h
    split at h
    · cases h
      exact ⟨[], rfl⟩
    · obtain ⟨v, -, hrest⟩ := Option.bind_eq_some_iff.mp h
      obtain ⟨rest, -, rfl⟩ := Option.map_eq_some_iff.mp hrest
      exact ⟨rest, rfl⟩

theorem typeAt_top {l : List V} (h : s.stack = l ++ [u]) : s.typeAt W (-1) = some (W.type u) := by
  rw [State.typeAt, State.value_top h]
  rfl

/-- From a part that is `u` on, the values are pushed, as far as there is room. -/
theorem partsLoop_tail (tail : List (Bool × Segment)) {values : List V} (hshort : tempName.length < tempNameSize)
    (hpart : pushPart W first tempName s = s.push u)
    (hwalk : walk W u (tail.map fun part => part.2.key) = some values) :
    partsLoop W (FuncName.tailText tail) tempName first method s =
      if s.stack.length + values.length ≤ s.slots then
        .ok (if lastType W values = some .nil then none else some (method || tail.any (·.1)),
          { s with stack := s.stack ++ values })
      else .error .overflow := by
  induction tail generalizing s u first tempName method values with
  | nil =>
    cases hwalk
    rw [FuncName.tailText, List.flatMap_nil, partsLoop, if_neg (by omega), hpart]
    by_cases hroom : s.stack.length < s.slots
    · rw [State.push_ok hroom, if_pos (by rw [List.length_singleton]; omega)]
      have htype := typeAt_top (W := W) (s := { s with stack := s.stack ++ [u] }) rfl
      simp only [bind, Except.bind, htype, lastType, List.getLast?_singleton, Option.map_some, List.any_nil,
        Bool.or_false]
    · rw [State.push_overflow (by omega), if_neg (by rw [List.length_singleton]; omega)]
      rfl
  | cons part tail ih =>
    obtain ⟨isColon, seg⟩ := part
    have htext : FuncName.tailText ((isColon, seg) :: tail) =
        (if isColon then colon else dot) :: (seg.text ++ FuncName.tailText tail) := rfl
    have hsep : (if isColon then colon else dot) = dot ∨ (if isColon then colon else dot) = colon := by
      cases isColon
      · exact .inl rfl
      · exact .inr rfl
    have hmethod : decide ((if isColon then colon else dot) = colon) = isColon := by
      cases isColon <;> decide
    rw [htext, partsLoop, if_neg (by omega), if_pos hsep, hpart, hmethod]
    obtain ⟨more, rfl⟩ := walk_ne_nil hwalk
    rw [List.map_cons, walk] at hwalk
    by_cases hroom : s.stack.length < s.slots
    · rw [State.push_ok hroom]
      have htype := typeAt_top (W := W) (s := { s with stack := s.stack ++ [u] }) rfl
      simp only [bind, Except.bind, htype]
      by_cases hnil : W.type u = .nil
      · rw [if_pos hnil] at hwalk
        cases hwalk
        rw [if_pos (congrArg some hnil), if_pos (by rw [List.length_singleton]; omega),
          if_pos (by simp [lastType, hnil])]
      · rw [if_neg hnil] at hwalk
        obtain ⟨v, hfield, hrest⟩ := Option.bind_eq_some_iff.mp hwalk
        obtain ⟨rest, hrest, heq⟩ := Option.map_eq_some_iff.mp hrest
        cases heq
        obtain ⟨more, rfl⟩ := walk_ne_nil hrest
        have hnext : pushPart W false seg.key { s with stack := s.stack ++ [u] } =
            State.push { s with stack := s.stack ++ [u] } v := State.getField_top rfl hfield
        have hlast : lastType W (u :: v :: more) = lastType W (v :: more) := by
          rw [lastType, lastType, List.getLast?_cons_cons]
        have hlen : (s.stack ++ [u]).length + (v :: more).length = s.stack.length + (u :: v :: more).length := by
          simp only [List.length_append, List.length_cons, List.length_nil]
          omega
        rw [if_neg (by simpa using hnil), partsLoop_segment, ih seg.key_short hnext hrest, hlast]
        dsimp only
        rw [hlen, List.append_assoc, List.singleton_append, List.any_cons, Bool.or_assoc]
    · rw [State.push_overflow (by omega), if_neg (by rw [List.length_cons]; omega)]
      rfl

theorem partsLoop_name (name : FuncName) {values : List V} (hvalues : name.values W = some values) :
    partsLoop W name.text [] true false s =
      if s.stack.length + values.length ≤ s.slots then
        .ok (if lastType W values = some .nil then none else some name.method.isSome,
          { s with stack := s.stack ++ values })
      else .error .overflow := by
  have hcolon : name.tail.any (·.1) = name.method.isSome := by
    cases hmethod : name.method <;> simp [FuncName.tail, hmethod]
  rw [FuncName.text, partsLoop_segment, partsLoop_tail name.tail name.head.key_short rfl hvalues, hcolon,
    Bool.false_or]

end loop

/-! ### What a call does -/

/-- When the last value is not nil, it is that of the last part. -/
theorem walk_length {W : World V (List UInt8)} {u : V} {keys : List (List UInt8)} {values : List V}
    (h : walk W u keys = some values) (hlast : lastType W values ≠ some .nil) :
    values.length = keys.length + 1 := by
  induction keys generalizing u values with
  | nil =>
    cases h
    rfl
  | cons key keys ih =>
    rw [walk] at h
    split at h
    · rename_i hnil
      cases h
      exact absurd (by simp [lastType, hnil]) hlast
    · obtain ⟨v, -, hrest⟩ := Option.bind_eq_some_iff.mp h
      obtain ⟨rest, hwalk, rfl⟩ := Option.map_eq_some_iff.mp hrest
      obtain ⟨more, rfl⟩ := walk_ne_nil hwalk
      rw [lastType, List.getLast?_cons_cons] at hlast
      rw [List.length_cons, ih hwalk hlast, List.length_cons]

section call

variable {W : World V (List UInt8)} {name : FuncName} {values : List V} {f : V}

/-- The values the rotation moves: the table, for `:`, and what is called. -/
theorem values_method (hvalues : name.values W = some values) (hlast : lastType W values ≠ some .nil)
    (hmethod : name.method.isSome) : ∃ front t f, values = front ++ [t, f] := by
  have hlen := walk_length hvalues hlast
  have htail : 0 < name.tail.length := by
    cases h : name.method with
    | none =>
      rw [h] at hmethod
      cases hmethod
    | some m =>
      simp [FuncName.tail, h]
  rw [List.length_map] at hlen
  obtain ⟨init, f, rfl⟩ : ∃ init f, values = init ++ [f] := by
    refine (List.eq_nil_or_concat' values).resolve_left ?_
    rintro rfl
    rw [List.length_nil] at hlen
    omega
  rw [List.length_append, List.length_singleton] at hlen
  obtain ⟨front, t, rfl⟩ : ∃ front t, init = front ++ [t] := by
    refine (List.eq_nil_or_concat' init).resolve_left ?_
    rintro rfl
    rw [List.length_nil] at hlen
    omega
  exact ⟨front, t, f, by rw [List.append_assoc]; rfl⟩

variable (below args : List V) (slots : Nat) (calls : List (V × List V))

theorem setScriptFunc_nil (hvalues : name.values W = some values) (hnil : lastType W values = some .nil)
    (hroom : (below ++ args).length + values.length ≤ slots) :
    setScriptFunc W name.text below.length ⟨below ++ args, slots, calls⟩ =
      .ok ⟨rcodeInvalid, 0, ⟨below ++ args, slots, calls⟩⟩ := by
  have hloop := partsLoop_name (s := ⟨below ++ args, slots, calls⟩) name hvalues
  rw [if_pos hroom, if_pos hnil] at hloop
  have htop := State.setTop_append (W := W) (s := ⟨below ++ args ++ values, slots, calls⟩) (l := below ++ args)
    rfl (show (below ++ args).length ≤ slots by omega)
  rw [setScriptFunc, hloop]
  simp only [bind, Except.bind, State.getTop, htop]

/-- The function, with the table for `:`, is put below the arguments. -/
theorem setScriptFunc_moved (hvalues : name.values W = some values) (hlast : lastType W values ≠ some .nil)
    (hf : values.getLast? = some f) (hroom : (below ++ args).length + values.length + (name.self values).length ≤ slots) :
    setScriptFunc W name.text below.length ⟨below ++ args, slots, calls⟩ =
      checkFunction W ⟨below ++ name.self values ++ f :: (name.self values ++ args), slots, calls⟩
        ((below ++ name.self values).length + 1) (below ++ args).length (name.self values).length := by
  have hloop := partsLoop_name (s := ⟨below ++ args, slots, calls⟩) name hvalues
  rw [if_pos (by dsimp only; omega), if_neg hlast] at hloop
  rw [setScriptFunc, hloop]
  cases hmethod : name.method.isSome with
  | true =>
    obtain ⟨front, t, f', rfl⟩ := values_method hvalues hlast hmethod
    have hself : name.self (front ++ [t, f']) = [t] := by simp [FuncName.self, hmethod]
    obtain rfl : f' = f := by simpa using hf
    rw [hself] at hroom ⊢
    simp only [List.length_append, List.length_cons, List.length_nil] at hroom
    have hpush : State.push ⟨below ++ args ++ (front ++ [t, f']), slots, calls⟩ W.nil =
        .ok ⟨below ++ args ++ front ++ [t, f', W.nil], slots, calls⟩ := by
      rw [State.push_ok (by simp; omega)]
      simp
    have hcopy : State.copy ⟨below ++ args ++ front ++ [t, f', W.nil], slots, calls⟩ (-3) (-1) =
        .ok ⟨below ++ args ++ front ++ [t, f', t], slots, calls⟩ := State.copy_third rfl
    have hrotate : State.rotate ⟨below ++ args ++ front ++ [t, f', t], slots, calls⟩ (below.length + 1) 3 =
        .ok ⟨below ++ ([t, f', t] ++ (args ++ front)), slots, calls⟩ :=
      State.rotate_append (x := [t, f', t]) (by simp) (by simp)
    have htop : State.setTop W ⟨below ++ ([t, f', t] ++ (args ++ front)), slots, calls⟩
        ((below ++ args).length + 3) = .ok ⟨below ++ [t] ++ f' :: ([t] ++ args), slots, calls⟩ := by
      have hmany := State.setTop_append (W := W) (s := ⟨below ++ ([t, f', t] ++ (args ++ front)), slots, calls⟩)
        (l := below ++ [t] ++ f' :: ([t] ++ args)) (m := front) (by simp) (by simp; omega)
      rw [← hmany]
      congr 1
      simp
      omega
    simp only [bind, Except.bind, State.getTop, hpush, hcopy, hrotate, htop]
    congr 1
    simp
    omega
  | false =>
    have hself : name.self values = [] := by simp [FuncName.self, hmethod]
    obtain ⟨front, rfl⟩ : ∃ front, values = front ++ [f] := List.getLast?_eq_some_iff.mp hf
    rw [hself]
    have hrotate : State.rotate ⟨below ++ args ++ (front ++ [f]), slots, calls⟩ (below.length + 1) 1 =
        .ok ⟨below ++ ([f] ++ (args ++ front)), slots, calls⟩ :=
      State.rotate_append (x := [f]) (by simp) (by simp)
    have htop : State.setTop W ⟨below ++ ([f] ++ (args ++ front)), slots, calls⟩ ((below ++ args).length + 1) =
        .ok ⟨below ++ [] ++ f :: ([] ++ args), slots, calls⟩ := by
      have hmany := State.setTop_append (W := W) (s := ⟨below ++ ([f] ++ (args ++ front)), slots, calls⟩)
        (l := below ++ [] ++ f :: ([] ++ args)) (m := front) (by simp) (by simp at hroom ⊢; omega)
      rw [← hmany]
      congr 1
      simp
      omega
    simp only [bind, Except.bind, State.getTop, hrotate, htop]
    congr 1
    simp

/-- The slots a call takes: one for each value, and one for the table of `:`. -/
def FuncName.needs (name : FuncName) (W : World V (List UInt8)) (values : List V) : Nat :=
  values.length + if lastType W values = some .nil then 0 else (name.self values).length

theorem setScriptFunc_overflow (hvalues : name.values W = some values)
    (hroom : slots < (below ++ args).length + name.needs W values) :
    setScriptFunc W name.text below.length ⟨below ++ args, slots, calls⟩ = .error .overflow := by
  have hloop := partsLoop_name (s := ⟨below ++ args, slots, calls⟩) name hvalues
  unfold FuncName.needs at hroom
  by_cases hfirst : (below ++ args).length + values.length ≤ slots
  · have hlast : lastType W values ≠ some .nil := by
      intro hnil
      rw [if_pos hnil] at hroom
      omega
    rw [if_neg hlast] at hroom
    have hmethod : name.method.isSome = true := by
      by_contra hno
      rw [FuncName.self, if_neg hno, List.length_nil] at hroom
      omega
    have hself : (name.self values).length ≤ 1 := by
      rw [FuncName.self, if_pos hmethod]
      cases values.dropLast.getLast? <;> simp
    rw [if_pos hfirst, if_neg hlast, hmethod] at hloop
    have hpush : State.push ⟨below ++ args ++ values, slots, calls⟩ W.nil = .error .overflow :=
      State.push_overflow (by rw [List.length_append]; dsimp only; omega)
    rw [setScriptFunc, hloop]
    simp only [bind, Except.bind, hpush]
  · rw [if_neg hfirst] at hloop
    rw [setScriptFunc, hloop]
    rfl

theorem getTop_frame : State.getTop ⟨below ++ args, slots, calls⟩ - (args.length : Int) = below.length := by
  unfold State.getTop
  rw [List.length_append]
  omega

theorem checkFunction_function (l m : List V) (hf : W.type f = .function) (funcTop : Int) (topAdd : Nat) :
    checkFunction W ⟨l ++ f :: m, slots, calls⟩ (l.length + 1) funcTop topAdd =
      .ok ⟨rcodeOk, topAdd, ⟨l ++ f :: m, slots, calls⟩⟩ := by
  have htype : State.typeAt W ⟨l ++ f :: m, slots, calls⟩ (l.length + 1) = some .function := by
    rw [State.typeAt, State.value_above rfl, Option.map_some, hf]
  rw [checkFunction, if_pos htype]

/-- Another value is dropped, with what is above `funcTop`. -/
theorem checkFunction_other (self : List V) (hf : W.type f ≠ .function) (topAdd : Nat)
    (hslots : (below ++ args).length ≤ slots) :
    ∃ m, checkFunction W ⟨below ++ self ++ f :: (self ++ args), slots, calls⟩ ((below ++ self).length + 1)
      (below ++ args).length topAdd = .ok ⟨rcodeInvalid, topAdd, ⟨below ++ m, slots, calls⟩⟩ := by
  have htype : State.typeAt W ⟨below ++ self ++ f :: (self ++ args), slots, calls⟩ ((below ++ self).length + 1) ≠
      some .function := by
    rw [State.typeAt, State.value_above rfl, Option.map_some]
    exact fun heq => hf (Option.some.inj heq)
  have hsplit : below ++ self ++ f :: (self ++ args) = below ++ (self ++ f :: (self ++ args)).take args.length ++
      (self ++ f :: (self ++ args)).drop args.length := by
    rw [List.append_assoc, List.append_assoc, List.take_append_drop]
  have hlen : (below ++ (self ++ f :: (self ++ args)).take args.length).length = (below ++ args).length := by
    simp only [List.length_append, List.length_take, List.length_cons]
    omega
  have htop := State.setTop_append (W := W) (s := ⟨below ++ self ++ f :: (self ++ args), slots, calls⟩) hsplit
    (by rw [hlen]; exact hslots)
  rw [hlen] at htop
  refine ⟨(self ++ f :: (self ++ args)).take args.length, ?_⟩
  rw [checkFunction, if_neg htype]
  simp only [bind, Except.bind, htop]

theorem lastType_of_getLast (hlast : values.getLast? = some f) : lastType W values = some (W.type f) := by
  rw [lastType, hlast]
  rfl

/-- There is nothing to call. -/
theorem callScriptLua_none (hvalues : name.values W = some values) (hf : calleeOf W values = none)
    (hroom : (below ++ args).length + name.needs W values ≤ slots) (retAmount : Nat) :
    callScriptLua W name.text args.length retAmount ⟨below ++ args, slots, calls⟩ =
      .ok (rcodeInvalid, ⟨below, slots, calls⟩) := by
  have hslots : below.length ≤ slots := by
    rw [List.length_append] at hroom
    omega
  obtain ⟨k, m, hset⟩ : ∃ k m, setScriptFunc W name.text below.length ⟨below ++ args, slots, calls⟩ =
      .ok ⟨rcodeInvalid, k, ⟨below ++ m, slots, calls⟩⟩ := by
    unfold FuncName.needs at hroom
    by_cases hnil : lastType W values = some .nil
    · exact ⟨0, args, setScriptFunc_nil below args slots calls hvalues hnil (by omega)⟩
    · rw [if_neg hnil] at hroom
      obtain ⟨rest, rfl⟩ := walk_ne_nil hvalues
      obtain ⟨f, hlast⟩ : ∃ f, (W.global name.head.key :: rest).getLast? = some f := ⟨_, List.getLast?_cons⟩
      have hother : W.type f ≠ .function := by
        intro hfunction
        simp [calleeOf, hlast, hfunction] at hf
      obtain ⟨m, hm⟩ := checkFunction_other below args slots calls
        (name.self (W.global name.head.key :: rest)) hother _ (by omega)
      exact ⟨_, m, (setScriptFunc_moved below args slots calls hvalues hnil hlast (by omega)).trans hm⟩
  have htop := State.setTop_append (W := W) (s := ⟨below ++ m, slots, calls⟩) (l := below) rfl hslots
  rw [callScriptLua]
  simp only [bind, Except.bind, getTop_frame, hset, htop]
  rfl

/-- What is called, and where the stack is then: with `:` the table is left behind. -/
theorem callScriptLua_some (hvalues : name.values W = some values) (hf : calleeOf W values = some f)
    (hroom : (below ++ args).length + name.needs W values ≤ slots) (retAmount : Nat) :
    callScriptLua W name.text args.length retAmount ⟨below ++ args, slots, calls⟩ =
      match W.call f (name.self values ++ args) with
      | .ok results =>
        if slots < (below ++ name.self values).length + retAmount then .error .overflow
        else .ok (rcodeOk, ⟨below ++ name.self values ++ State.adjust W results retAmount, slots,
          calls ++ [(f, name.self values ++ args)]⟩)
      | .error _ => .ok (rcodeInvalid, ⟨below, slots, calls ++ [(f, name.self values ++ args)]⟩) := by
  obtain ⟨hlast, hfunction⟩ := Option.filter_eq_some_iff.mp hf
  have hfunction : W.type f = .function := by simpa using hfunction
  have hnil : lastType W values ≠ some .nil := by
    rw [lastType_of_getLast hlast, hfunction]
    exact nofun
  have hslots : (below ++ args).length + values.length + (name.self values).length ≤ slots := by
    unfold FuncName.needs at hroom
    rw [if_neg hnil] at hroom
    omega
  have hpos : 1 ≤ values.length := by
    obtain ⟨rest, rfl⟩ := walk_ne_nil hvalues
    exact Nat.le_add_left 1 rest.length
  have hset := (setScriptFunc_moved below args slots calls hvalues hnil hlast hslots).trans
    (checkFunction_function slots calls _ _ hfunction _ _)
  have hpcall := State.pcall_eq (W := W) (n := retAmount)
    (s := ⟨below ++ name.self values ++ f :: (name.self values ++ args), slots, calls⟩) rfl
  rw [List.length_append, Nat.add_comm] at hpcall
  rw [List.length_append] at hslots
  rw [callScriptLua]
  simp only [bind, Except.bind, getTop_frame, hset, hpcall]
  cases W.call f (name.self values ++ args) with
  | ok results =>
    rw [if_neg (not_not.mpr rfl)]
    by_cases hback : slots < (below ++ name.self values).length + retAmount
    · simp only [if_pos hback]
    · simp only [if_neg hback]
      rfl
  | error e =>
    have hstatus : e.status ≠ luaOk := e.status_ne
    have hpop := State.pop_one (W := W) (s := ⟨below ++ name.self values ++ [e.value], slots,
      calls ++ [(f, name.self values ++ args)]⟩) rfl (by rw [List.length_append]; dsimp only; omega)
    have htop := State.setTop_append (W := W) (s := ⟨below ++ name.self values, slots,
      calls ++ [(f, name.self values ++ args)]⟩) (l := below) rfl (by dsimp only; omega)
    rw [if_neg (not_not.mpr rfl)]
    simp only [checkResult, if_neg hstatus, bind, Except.bind, hpop, htop]
    rfl

theorem callScriptLua_overflow (hvalues : name.values W = some values)
    (hroom : slots < (below ++ args).length + name.needs W values) (retAmount : Nat) :
    callScriptLua W name.text args.length retAmount ⟨below ++ args, slots, calls⟩ = .error .overflow := by
  rw [callScriptLua]
  simp only [bind, Except.bind, getTop_frame, setScriptFunc_overflow below args slots calls hvalues hroom]

end call

/-! ## The discipline of the stack -/

/-- What a call owes: just the function is called, with just the arguments, and its results take their place;
else the frame is empty. -/
def CallMeets (W : World V (List UInt8)) (name : FuncName) (values below args : List V) (retAmount : Nat)
    (result : Except Lua.Fault (Int × State V)) : Prop :=
  ∃ code s, result = .ok (code, s) ∧
    match calleeOf W values with
    | none => s.calls = [] ∧ code ≠ rcodeOk ∧ s.stack = below
    | some f =>
      s.calls = [(f, name.self values ++ args)] ∧
        match W.call f (name.self values ++ args) with
        | .ok results => code = rcodeOk ∧ s.stack = below ++ State.adjust W results retAmount
        | .error _ => code ≠ rcodeOk ∧ s.stack = below

/-- The stack has room for what is pushed and for the results, and no call with `:` succeeds. -/
def CallAllowed (W : World V (List UInt8)) (name : FuncName) (values below args : List V) (retAmount slots : Nat) :
    Prop :=
  (below ++ args).length + name.needs W values ≤ slots ∧
    ∀ f, calleeOf W values = some f → ∀ results, W.call f (name.self values ++ args) = .ok results →
      below.length + retAmount ≤ slots ∧ name.method = none

section discipline

variable {W : World V (List UInt8)} {name : FuncName} {values below args : List V} {slots : Nat} {f : V}

theorem self_length (hvalues : name.values W = some values) (hf : calleeOf W values = some f)
    (hmethod : name.method.isSome) : (name.self values).length = 1 := by
  obtain ⟨hlast, hfunction⟩ := Option.filter_eq_some_iff.mp hf
  have hfunction : W.type f = .function := by simpa using hfunction
  have hnil : lastType W values ≠ some .nil := by
    rw [lastType_of_getLast hlast, hfunction]
    exact nofun
  obtain ⟨front, t, f', rfl⟩ := values_method hvalues hnil hmethod
  simp [FuncName.self, hmethod]

/-- Exactly when a call by name keeps the discipline of the stack. -/
theorem callsDisciplined_iff (hvalues : name.values W = some values) (retAmount : Nat) :
    CallMeets W name values below args retAmount
        (callScriptLua W name.text args.length retAmount ⟨below ++ args, slots, []⟩) ↔
      CallAllowed W name values below args retAmount slots := by
  unfold CallMeets CallAllowed
  by_cases hroom : (below ++ args).length + name.needs W values ≤ slots
  · cases hf : calleeOf W values with
    | none =>
      rw [callScriptLua_none below args slots [] hvalues hf hroom]
      exact iff_of_true ⟨_, _, rfl, rfl, by decide, rfl⟩ ⟨hroom, nofun⟩
    | some f =>
      rw [callScriptLua_some below args slots [] hvalues hf hroom]
      cases hcall : W.call f (name.self values ++ args) with
      | error e =>
        refine iff_of_true ⟨_, _, rfl, rfl, ?_⟩ ⟨hroom, ?_⟩
        · rw [hcall]
          exact ⟨by decide, rfl⟩
        · rintro f' ⟨⟩ results hok
          rw [hcall] at hok
          cases hok
      | ok results =>
        dsimp only
        constructor
        · rintro ⟨code, s, heq, -, hstack⟩
          split at heq
          · cases heq
          · rename_i hback
            obtain ⟨rfl, rfl⟩ := Prod.mk.inj (Except.ok.inj heq)
            rw [hcall] at hstack
            have hlen := congrArg List.length hstack.2
            simp only [List.length_append] at hlen hback
            refine ⟨hroom, ?_⟩
            rintro f' ⟨⟩ - -
            refine ⟨by omega, Option.not_isSome_iff_eq_none.mp fun hmethod => ?_⟩
            have hself := self_length hvalues hf hmethod
            omega
        · rintro ⟨-, hallowed⟩
          obtain ⟨hback, hmethod⟩ := hallowed f rfl results hcall
          have hself : name.self values = [] := if_neg (by rw [hmethod]; nofun)
          rw [hself, List.append_nil, if_neg (by omega)]
          refine ⟨_, _, rfl, rfl, ?_⟩
          rw [hself] at hcall
          rw [hcall]
          exact ⟨rfl, rfl⟩
  · rw [callScriptLua_overflow below args slots [] hvalues (by omega)]
    refine iff_of_false ?_ fun h => hroom h.1
    rintro ⟨code, s, heq, -⟩
    cases heq

end discipline

/-- `t` is a table, `t.f` a function that returns its arguments twice. -/
def smallWorld : World Nat (List UInt8) where
  nil := 0
  type v := if v = 0 then .nil else if v = 1 then .table else .function
  type_nil := rfl
  global key := if key = [116] then 1 else 0
  field v key := if v = 1 then some (if key = [102] then 2 else 0) else none
  call _ args := .ok (args ++ args)

def segT : Segment := ⟨[116], by simp [dot, colon], by decide⟩

def segF : Segment := ⟨[102], by simp [dot, colon], by decide⟩

/-- `t.f` with two arguments and three results above a value. -/
theorem callsDisciplined_iff_field :
    CallMeets smallWorld ⟨segT, [segF], none⟩ [1, 2] [5] [6, 7] 3
        (callScriptLua smallWorld (FuncName.mk segT [segF] none).text 2 3 ⟨[5] ++ [6, 7], 20, []⟩) ∧
      ¬ CallMeets smallWorld ⟨segT, [segF], none⟩ [1, 2] [] [] 1000
        (callScriptLua smallWorld (FuncName.mk segT [segF] none).text 0 1000 ⟨[] ++ [], 20, []⟩) := by
  have hallowed : CallAllowed smallWorld ⟨segT, [segF], none⟩ [1, 2] [5] [6, 7] 3 20 :=
    ⟨by decide, fun f hf results hcall => ⟨by decide, rfl⟩⟩
  refine ⟨(@callsDisciplined_iff _ smallWorld ⟨segT, [segF], none⟩ _ _ _ _ rfl 3).mpr hallowed, fun hmeets => ?_⟩
  -- a thousand results do not fit into the slots
  obtain ⟨-, hback⟩ := (@callsDisciplined_iff _ smallWorld ⟨segT, [segF], none⟩ _ _ _ _ rfl 1000).mp hmeets
  exact absurd (hback 2 rfl [] rfl).1 (by decide)

/-- `t:f` succeeds, and `t` stays on the stack. -/
theorem method_leaves_table : ¬ ∀ (W : World Nat (List UInt8)) (name : FuncName) (values below args : List Nat)
    (retAmount slots : Nat), name.values W = some values →
      (below ++ args).length + name.needs W values + retAmount ≤ slots →
        CallMeets W name values below args retAmount
          (callScriptLua W name.text args.length retAmount ⟨below ++ args, slots, []⟩) := by
  intro hall
  obtain ⟨code, s, hrun, -, -, hstack⟩ := hall smallWorld ⟨segT, [], some segF⟩ [1, 2] [] [] 0 20 rfl (by decide)
  have hleft : callScriptLua smallWorld (FuncName.mk segT [] (some segF)).text 0 0 ⟨[], 20, []⟩ =
      .ok (0, ⟨[1], 20, [(2, [1])]⟩) := by
    rfl
  rw [show ([] ++ [] : List Nat) = [] from rfl, show ([] : List Nat).length = 0 from rfl, hleft] at hrun
  obtain ⟨rfl, rfl⟩ := Prod.mk.inj (Except.ok.inj hrun)
  exact absurd hstack (by decide)

end Funra
