import WsEngine.Lib.CString
import WsEngine.Lib.EventSystem

/-! # The string class

`ws::String` (`src/include/ws/String.h`): a pointer to the bytes, which the destructor deletes, and
their number. A string is its place among all that were made, as references may be to one and the same
string, and the operations go step by step through the memory: what a copy assignment deletes before it
reads, and what a copy reads behind a null pointer, shows only there. -/
set_option autoImplicit false

namespace WsEngine

structure WsString where
  data_ : Pointer
  size_ : ℕ
  deriving DecidableEq, Repr

namespace WsString

def data (str : WsString) : Pointer := str.data_

def size (str : WsString) : ℕ := str.size_

end WsString

/-- The strings and the memory that they point to. -/
structure Strings where
  heap : Heap
  strings : Table WsString

/-- The memory, or a string that is not there. -/
inductive StringFault
  | memory (fault : MemoryFault)
  | noString
  deriving DecidableEq, Repr

/-- Constructors, assignments and the destructor. An event that calls `new` says what the new memory
holds. -/
inductive StringEvent
  | construct (garbage : ℕ → UInt8)
  | constructCString (garbage : ℕ → UInt8) (src : List UInt8)
  | constructBytes (garbage : ℕ → UInt8) (src : List UInt8)
  | constructCopy (garbage : ℕ → UInt8) (lhs : ℕ)
  | constructMove (rhs : ℕ)
  | assignCopy (garbage : ℕ → UInt8) (this lhs : ℕ)
  | assignMove (this rhs : ℕ)
  | destruct (this : ℕ)

namespace Strings

def string (s : Strings) (k : ℕ) : Except StringFault WsString :=
  match s.strings.get k with
  | some str => .ok str
  | none => .error .noString

def put (s : Strings) (k : ℕ) (str : WsString) : Strings :=
  { s with strings := s.strings.put k str }

/-- A step in the memory. -/
def onHeap (s : Strings) (r : Except MemoryFault Heap) : Except StringFault Strings :=
  (r.mapError .memory).map fun heap => { s with heap := heap }

/-- `data_(new char[size + 1]), size_(size)` of a string that is constructed. -/
def newString (s : Strings) (garbage : ℕ → UInt8) (size : ℕ) : WsString × Strings :=
  let (data, heap) := s.heap.new garbage (size + 1)
  (⟨data, size⟩, ⟨heap, s.strings.push ⟨data, size⟩⟩)

/-- `String()` -/
def construct (s : Strings) (garbage : ℕ → UInt8) : Except StringFault Strings :=
  let (str, s) := s.newString garbage 0
  s.onHeap (s.heap.store str.data_ 0 0)

/-- `String(const char* src)`. `src` is what the caller's memory holds up to where it is known to have a
zero byte. -/
def constructCString (s : Strings) (garbage : ℕ → UInt8) (src : List UInt8) :
    Except StringFault Strings := do
  let (str, s) := s.newString garbage (cstring src).length
  let s ← s.onHeap (s.heap.memcpy str.data_ (cstring src ++ [0]))
  s.onHeap (s.heap.store str.data_ str.size_ 0)

/-- `String(const char* src, size_t size)` -/
def constructBytes (s : Strings) (garbage : ℕ → UInt8) (src : List UInt8) :
    Except StringFault Strings := do
  let (str, s) := s.newString garbage src.length
  let s ← s.onHeap (s.heap.memcpy str.data_ src)
  s.onHeap (s.heap.store str.data_ src.length 0)

/-- `String(const String& lhs)` -/
def constructCopy (s : Strings) (garbage : ℕ → UInt8) (lhs : ℕ) : Except StringFault Strings := do
  let src ← s.string lhs
  let (str, s) := s.newString garbage src.size
  let s ← s.onHeap (s.heap.strcpy str.data_ src.data)
  s.onHeap (s.heap.store str.data_ str.size_ 0)

/-- `String(String &&rhs)` -/
def constructMove (s : Strings) (rhs : ℕ) : Except StringFault Strings := do
  let src ← s.string rhs
  let s : Strings := { s with strings := s.strings.push src }
  return s.put rhs ⟨none, 0⟩

/-- `operator=(const String& lhs)`. What is read of `lhs` is read when it is needed: by then `lhs` has
changed if it is this string. -/
def assignCopy (s : Strings) (garbage : ℕ → UInt8) (this lhs : ℕ) :
    Except StringFault Strings := do
  let str ← s.string this
  let s ← s.onHeap (s.heap.delete str.data_)
  let src ← s.string lhs
  let size := src.size
  let (data, heap) := s.heap.new garbage (size + 1)
  let s : Strings := ⟨heap, s.strings.put this ⟨data, size⟩⟩
  let src ← s.string lhs
  let s ← s.onHeap (s.heap.strcpy data src.data)
  s.onHeap (s.heap.store data size 0)

def swap (s : Strings) (this rhs : ℕ) : Except StringFault Strings := do
  let str ← s.string this
  let src ← s.string rhs
  return (s.put this src).put rhs str

/-- `operator=(String &&rhs)` -/
def assignMove (s : Strings) (this rhs : ℕ) : Except StringFault Strings := do
  let s ← s.swap this rhs
  let src ← s.string rhs
  return s.put rhs { src with data_ := none }

/-- `~String()` -/
def destruct (s : Strings) (this : ℕ) : Except StringFault Strings := do
  let str ← s.string this
  let s ← s.onHeap (s.heap.delete str.data_)
  return { s with strings := s.strings.remove this }

def step (s : Strings) : StringEvent → Except StringFault Strings
  | .construct garbage => s.construct garbage
  | .constructCString garbage src => s.constructCString garbage src
  | .constructBytes garbage src => s.constructBytes garbage src
  | .constructCopy garbage lhs => s.constructCopy garbage lhs
  | .constructMove rhs => s.constructMove rhs
  | .assignCopy garbage this lhs => s.assignCopy garbage this lhs
  | .assignMove this rhs => s.assignMove this rhs
  | .destruct this => s.destruct this

/-- The string was made, and not destructed yet. -/
def Alive (s : Strings) (k : ℕ) : Prop := (s.strings.get k).isSome

instance (s : Strings) (k : ℕ) : Decidable (s.Alive k) :=
  inferInstanceAs (Decidable ((s.strings.get k).isSome = true))

def Possible (s : Strings) : StringEvent → Prop
  | .construct _ | .constructCString _ _ | .constructBytes _ _ => True
  | .constructCopy _ lhs => s.Alive lhs
  | .constructMove rhs => s.Alive rhs
  | .assignCopy _ this lhs => s.Alive this ∧ s.Alive lhs
  | .assignMove this rhs => s.Alive this ∧ s.Alive rhs
  | .destruct this => s.Alive this

instance (s : Strings) : DecidablePred s.Possible
  | .construct _ | .constructCString _ _ | .constructBytes _ _ => isTrue trivial
  | .constructCopy _ _ | .constructMove _ | .destruct _ => inferInstanceAs (Decidable (Alive _ _))
  | .assignCopy _ _ _ | .assignMove _ _ => inferInstanceAs (Decidable (_ ∧ _))

def system : EventSystem Strings StringEvent StringFault := ⟨Possible, step⟩

instance (s : Strings) (e : StringEvent) : Decidable (system.enabled s e) :=
  inferInstanceAs (Decidable (s.Possible e))

def initial : Strings := ⟨.empty, .empty⟩

end Strings
end WsEngine
