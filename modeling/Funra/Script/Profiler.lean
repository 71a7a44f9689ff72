import Mathlib.Logic.Function.Basic
import Funra.Lib.CInt
import Funra.Lib.Loop
import Funra.Lib.Mem

/-!
# The memory profiler

`profiler_lua.c` goes through the tables that can be reached from a root, one after the other and level by level, and notes
for each its size and what is in it; `write_json_item` then writes the root, and below it everything that is in it. A table
that is met again is not read again, but it is noted again below the table it is in.

`all_data` is the map from the tables to what is noted of them. What is noted is named by its table, or, for a value that is
no table, is in the list of its table only. The descriptions are left out.
-/

namespace Funra

open CInt Mem Except

/-! ## Lua's tables -/

inductive LuaValue (τ : Type) where
  | table (t : τ)
  | other
  deriving DecidableEq, Repr

/-- The entries are in the order of `lua_next`. -/
structure LuaTable (τ : Type) where
  metatable : Option τ
  entries : List (LuaValue τ × LuaValue τ)
  lsizenode : Nat
  sizearray : Nat

/-- `get_table_size`, with the sizes of `Table`, `Node` and `TValue` on 64 bits. -/
structure TableSize where
  nodes : Int
  arrays : Int
  size : Int
  deriving DecidableEq, Repr

def getTableSize {τ : Type} (h : LuaTable τ) : TableSize :=
  let nodes := int32 (2 ^ h.lsizenode)
  let arrays := int32 h.sizearray
  ⟨nodes, arrays, int32 (56 + nodes * 32 + arrays * 16)⟩

/-! ## The notes -/

/-- `rprofiler_mem_data_t *`. -/
inductive DataRef (τ : Type) where
  | table (t : τ)
  | value (level size : Int)
  deriving DecidableEq, Repr

structure MemData (τ : Type) where
  level : Int
  size : Int
  tableNodes : Int
  tableArrays : Int
  children : List (DataRef τ)
  deriving DecidableEq, Repr

def initNodeData {τ : Type} (level size : Int) : MemData τ := ⟨level, size, 0, 0, []⟩

structure Profiler (τ : Type) where
  allData : τ → Option (MemData τ)
  travelList : List τ

variable {τ : Type} [DecidableEq τ]

def Profiler.deref (s : Profiler τ) : DataRef τ → Option (MemData τ)
  | .table t => s.allData t
  | .value level size => some (initNodeData level size)

def addNodeChildData (s : Profiler τ) (data : τ) (child : DataRef τ) : Profiler τ :=
  { s with allData := Function.update s.allData data ((s.allData data).map fun d => { d with children := d.children ++ [child] }) }

/-- The notes of a table, without children. -/
def newTableData (h : LuaTable τ) (level : Int) : MemData τ :=
  let size := getTableSize h
  { initNodeData level size.size with tableNodes := size.nodes, tableArrays := size.arrays }

/-- `read_object` for a table in another one, which is not travelled at once. -/
def readObject (heap : τ → LuaTable τ) (s : Profiler τ) (parentData p : τ) (level : Int) : Profiler τ :=
  match s.allData p with
  | some _ => addNodeChildData s parentData (.table p)
  | none =>
    let s := { s with allData := Function.update s.allData p (some (newTableData (heap p) level)) }
    let s := addNodeChildData s parentData (.table p)
    { s with travelList := s.travelList ++ [p] }

/-- The body of the loop over the entries. -/
def travelEntry (heap : τ → LuaTable τ) (tableData : τ) (tableLevel : Int) (s : Profiler τ) (entry : LuaValue τ × LuaValue τ) :
    Profiler τ :=
  let s := match entry.1 with
    | .table key => readObject heap s tableData key tableLevel
    | .other => s
  match entry.2 with
  | .table value => readObject heap s tableData value tableLevel
  | .other => addNodeChildData s tableData (.value tableLevel 1)

def travelTable (heap : τ → LuaTable τ) (s : Profiler τ) (t : τ) (tableLevel : Int) : Profiler τ :=
  let s := match (heap t).metatable with
    | some metatable => readObject heap s t metatable tableLevel
    | none => s
  (heap t).entries.foldl (travelEntry heap t tableLevel) s

/-- `read_object` for the root, which is travelled at once. -/
def readRoot (heap : τ → LuaTable τ) (root : τ) : Profiler τ :=
  travelTable heap ⟨Function.update (fun _ => none) root (some (newTableData (heap root) 0)), []⟩ root 0

/-- The loop's variables. -/
structure Travel (τ : Type) where
  state : Profiler τ
  levelSize : Int
  levelCur : Int

/-- The body of the loop over `travel_list`. `level_cur` is counted only if there is a maximum. -/
def travelRound (heap : τ → LuaTable τ) (tableLevelMax : Int) (x : Travel τ) : Except Fault (Travel τ ⊕ Profiler τ) :=
  match x.state.travelList with
  | [] => .ok (.inr x.state)
  | t :: rest =>
    let s := travelTable heap { x.state with travelList := rest } t x.levelCur
    if x.levelSize - 1 = 0 then
      if 0 < tableLevelMax then
        if x.levelCur + 1 > tableLevelMax then .ok (.inr s) else .ok (.inl ⟨s, s.travelList.length, x.levelCur + 1⟩)
      else .ok (.inl ⟨s, s.travelList.length, x.levelCur⟩)
    else .ok (.inl ⟨s, x.levelSize - 1, x.levelCur⟩)

/-- The traversal, with nothing in `all_data` and `travel_list` before. -/
def travel (heap : τ → LuaTable τ) (root : τ) (tableLevelMax : Int) (fuel : Nat) : Except Fault (Profiler τ) :=
  let s := readRoot heap root
  loop .outOfFuel (travelRound heap tableLevelMax) fuel ⟨s, s.travelList.length, 1⟩

/-! ## The output -/

/-- The body of the loop over the children. The list is what has been written. -/
def writeChild (s : Profiler τ) (writeItem : DataRef τ → Except Fault (Int × List (DataRef τ))) (lastLevel : Int)
    (child : DataRef τ) (r : Int × List (DataRef τ)) : Except Fault (Int × List (DataRef τ)) :=
  match s.deref child with
  | none => .error .nullDeref
  | some data =>
    if lastLevel ≤ data.level then do
      let (size, written) ← writeItem child
      return (int32 (r.1 + size), r.2 ++ written)
    else .ok r

/-- The total size, and what has been written, in its order. -/
def writeJsonItem (s : Profiler τ) : Nat → DataRef τ → Except Fault (Int × List (DataRef τ))
  | 0, _ => .error .outOfFuel
  | fuel + 1, data =>
    match s.deref data with
    | none => .error .nullDeref
    | some dataCur => forEach (writeChild s (writeJsonItem s fuel) dataCur.level) dataCur.children (int32 dataCur.size, [data])

/-- `rprofiler` of a table. -/
def rprofiler (heap : τ → LuaTable τ) (root : τ) (tableLevelMax : Int) (fuel : Nat) : Except Fault (Int × List (DataRef τ)) := do
  let s ← travel heap root tableLevelMax fuel
  writeJsonItem s fuel (.table root)

end Funra
