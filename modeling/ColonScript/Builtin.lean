/-! The functions that every script can call without declaring them. -/

namespace ColonScript

inductive Builtin
  | print | println | scan | scanln | len | toString | toFloat | toInt
  | push | pop | insert | remove | delete | getIndex
  | keys | values | containsKey | typeOf | slice | equals | copy
  deriving DecidableEq, Repr

namespace Builtin

def all : List Builtin :=
  [print, println, scan, scanln, len, toString, toFloat, toInt, push, pop, insert, remove,
    delete, getIndex, keys, values, containsKey, typeOf, slice, equals, copy]

theorem mem_all (builtin : Builtin) : builtin ∈ all := by cases builtin <;> decide

def name : Builtin → String
  | print => "print"
  | println => "println"
  | scan => "scan"
  | scanln => "scanln"
  | len => "len"
  | toString => "toString"
  | toFloat => "toFloat"
  | toInt => "toInt"
  | push => "push"
  | pop => "pop"
  | insert => "insert"
  | remove => "remove"
  | delete => "delete"
  | getIndex => "getIndex"
  | keys => "keys"
  | values => "values"
  | containsKey => "containsKey"
  | typeOf => "typeOf"
  | slice => "slice"
  | equals => "equals"
  | copy => "copy"

def ofName? (name : String) : Option Builtin := all.find? fun builtin => builtin.name = name

theorem ofName?_name (builtin : Builtin) : ofName? builtin.name = some builtin := by
  cases builtin <;> decide

def usage : Builtin → String
  | print => "`print(value)`"
  | println => "`println()` or `println(value)`"
  | scan => "`scan()`, `scan(prompt)` or `scan(prompt, newline)`"
  | scanln => "`scanln()`, `scanln(prompt)` or `scanln(prompt, newline)`"
  | len => "`len(array/hashmap/string)`"
  | toString => "`toString(value)`"
  | toFloat => "`toFloat(int/float/string)`"
  | toInt => "`toInt(int/float/string/char)`"
  | push => "`push(array, element)` or `push(map, key, value)`"
  | pop => "`pop(array)` or `pop(array, index)`"
  | insert => "`insert(array, index, element)`"
  | remove => "`remove(array, element)` or `remove(map, key)`"
  | delete => "`delete(array, element)` or `delete(map, key)`"
  | getIndex => "`getIndex(array, element)`"
  | keys => "`keys(map)`"
  | values => "`values(map)`"
  | containsKey => "`containsKey(map, key)`"
  | typeOf => "`typeOf(value)`"
  | slice => "`slice(array/string, start, end)` or `slice(array/string, start, end, step)`"
  | equals => "`equals(a, b)`"
  | copy => "`copy(array/hashmap)`"

end Builtin

end ColonScript
