import BoostConnector.Json.Bytes
import BoostConnector.Transition.Run

/-!
# Property values

A `property_value` holds a value of any type in a buffer of the size of a string, or behind a
pointer in that buffer if it does not fit. What is in the buffer is known to its jump table only,
and the two are updated one after the other.

The model keeps them apart in the same way. All objects brought to life by the functions of
`property_value` are numbered in the order of their construction, and none is ever forgotten, so
that it can be told how often each was destroyed. The `unique_ptr` that leads to a value is an
object as well, and a buffer holds an object or raw bytes. Where a jump table meets something else
in the buffer than what it is for, or an object that is not alive, the behaviour of the source is
undefined, and the model has no result.
-/

namespace BoostConnector

namespace Property

variable {ι : Type}

/-! ## Types and objects -/

/-- The types of values, with what `property_value` uses of them. -/
structure Types (ι : Type) where
  Value : ι → Type
  /-- `sizeof` -/
  size : ι → ℕ
  /-- `sizeof(sbo_)`, which is the size of a string. -/
  stringSize : ℕ
  /-- `std::equal_to` -/
  equalTo : ∀ T, Value T → Value T → Bool
  /-- `boost::hash` -/
  hash : ∀ T, Value T → UInt64
  /-- `operator<<` -/
  print : ∀ T, Value T → Bytes
  /-- What the move constructor leaves behind in its source. -/
  movedFrom : ∀ T, Value T → Value T
  /-- `std::unique_ptr<T>` -/
  uniquePtr : ι → ι
  /-- The buffer has room for a pointer. -/
  uniquePtr_le : ∀ T, size (uniquePtr T) ≤ stringSize

variable {types : Types ι}

/-- An object is a value that the program gave, or the `std::unique_ptr<T>` to one. The program may
give a `std::unique_ptr<T>` of its own, which is a value of the type `types.uniquePtr T`. -/
inductive Shape (ι : Type) where
  | value (T : ι)
  | uniquePtr (T : ι)
  deriving DecidableEq

namespace Shape

def type (types : Types ι) : Shape ι → ι
  | value T => T
  | uniquePtr T => types.uniquePtr T

abbrev Value (types : Types ι) : Shape ι → Type
  | value T => types.Value T
  | uniquePtr _ => Option ℕ

def movedFrom : (shape : Shape ι) → shape.Value types → shape.Value types
  | value T => types.movedFrom T
  | uniquePtr _ => fun _ ↦ none

end Shape

structure Obj (types : Types ι) where
  shape : Shape ι
  value : shape.Value types
  /-- How many times the destructor has run. -/
  destroyed : ℕ := 0

def Obj.type (o : Obj types) : ι := o.shape.type types

section Objects

variable [DecidableEq ι] (objects : List (Obj types)) (shape : Shape ι) (id : ℕ)

/-- What an object holds that is alive and of that shape. -/
def read : Option (shape.Value types) := do
  let o ← objects[id]?
  if h : o.shape = shape ∧ o.destroyed = 0 then some (h.1 ▸ o.value) else none

/-- `new (dest) T (std::move(*source))`. The new object has the value of the old one. -/
def moveObject : Option (List (Obj types)) :=
  (read objects shape id).map fun v ↦
    objects.set id ⟨shape, shape.movedFrom v, 0⟩ ++ [⟨shape, v, 0⟩]

/-- The destructor. -/
def destroyObject : Option (List (Obj types)) :=
  (read objects shape id).map fun v ↦ objects.set id ⟨shape, v, 1⟩

/-- The destructor of `std::unique_ptr<T>` destroys first what it leads to. -/
def destroyUniquePtr (T : ι) : Option (List (Obj types)) := do
  let p : Option ℕ ← read objects (.uniquePtr T) id
  let objects ← p.elim (some objects) (destroyObject objects (.value T))
  destroyObject objects (.uniquePtr T) id

end Objects

/-! ## Jump tables -/

/-- What is in a buffer. -/
inductive Storage where
  | raw
  | object (id : ℕ)
  deriving DecidableEq

inductive JumpTable (ι : Type) where
  | void
  | short (T : ι)
  | long (T : ι)
  deriving DecidableEq

/-- `typeid(void)` is `none`. Of the address it is kept which object is there. -/
structure ValueInfo (ι : Type) where
  type : Option ι
  address : Option ℕ

namespace JumpTable

variable [DecidableEq ι]

def info (objects : List (Obj types)) : JumpTable ι → Storage → ValueInfo ι
  | void, _ => ⟨none, none⟩
  | short T, .object id => ⟨some T, some id⟩
  | long T, .object id => ⟨some T, Option.join (read objects (.uniquePtr T) id)⟩
  | short T, .raw | long T, .raw => ⟨some T, none⟩

def destroy : JumpTable ι → Storage → List (Obj types) → Option (Storage × List (Obj types))
  | void, pv, objects => some (pv, objects)
  | short T, .object id, objects => (destroyObject objects (.value T) id).map (.raw, ·)
  | long T, .object id, objects => (destroyUniquePtr objects id T).map (.raw, ·)
  | _, .raw, _ => none

/-- The buffers `dest` and `source` afterwards, and the objects. -/
def moveConstruct : JumpTable ι → Storage → Storage → List (Obj types) →
    Option (Storage × Storage × List (Obj types))
  | void, dest, source, objects => some (dest, source, objects)
  | short T, _, .object id, objects =>
    (moveObject objects (.value T) id).map (.object objects.length, .object id, ·)
  | long T, _, .object id, objects =>
    (moveObject objects (.uniquePtr T) id).map (.object objects.length, .object id, ·)
  | _, _, .raw, _ => none

/-- `compare_equal<T>` for the tables of a type `T`. -/
def equal (objects : List (Obj types)) (jt : JumpTable ι) (l : Storage) (vi : ValueInfo ι) :
    Option Bool :=
  match jt with
  | void => some (vi.type = none)
  | short T | long T =>
    if vi.type = some T then do
      let x ← read objects (.value T) (← (jt.info objects l).address)
      let y ← read objects (.value T) (← vi.address)
      some (types.equalTo T x y)
    else some false

def hashValue (objects : List (Obj types)) (jt : JumpTable ι) (l : Storage) : Option UInt64 :=
  match jt with
  | void => some 0
  | short T | long T => do
    let x ← read objects (.value T) (← (jt.info objects l).address)
    some (types.hash T x)

def toOstream (objects : List (Obj types)) (jt : JumpTable ι) (l : Storage) : Option Bytes :=
  match jt with
  | void => some (ascii "empty")
  | short T | long T => do
    let x ← read objects (.value T) (← (jt.info objects l).address)
    some (types.print T x)

end JumpTable

/-! ## Boxes -/

structure PropertyValue (ι : Type) where
  sbo : Storage := .raw
  jt : JumpTable ι := .void
  deriving DecidableEq

namespace PropertyValue

variable [DecidableEq ι]

/-- The body that the move constructor and the assignment share: `other` is moved to `self`, which
holds nothing, by its `move_construct`, and the tables are exchanged. -/
def transfer (other self : PropertyValue ι) (objects : List (Obj types)) :
    Option (PropertyValue ι × PropertyValue ι × List (Obj types)) := do
  let (dest, source, objects) ← other.jt.moveConstruct self.sbo other.sbo objects
  some (⟨source, .void⟩, ⟨dest, other.jt⟩, objects)

/-- `construct`. What it brings to life comes last in `objects`. -/
def construct (T : ι) (v : types.Value T) (objects : List (Obj types)) :
    PropertyValue ι × List (Obj types) :=
  if types.size T ≤ types.stringSize then
    (⟨.object objects.length, .short T⟩, objects ++ [⟨.value T, v, 0⟩])
  else
    (⟨.object (objects.length + 1), .long T⟩,
      objects ++ [⟨.value T, v, 0⟩, ⟨.uniquePtr T, some objects.length, 0⟩])

/-- `query<T>()`: a null pointer, or the value it points to. -/
def query (objects : List (Obj types)) (T : ι) (self : PropertyValue ι) :
    Option (Option (types.Value T)) :=
  let vi := self.jt.info objects self.sbo
  if vi.type = some T then (vi.address.bind (read objects (.value T))).map some else some none

/-- `query<void>() != nullptr` -/
def queryVoid (objects : List (Obj types)) (self : PropertyValue ι) : Bool :=
  (self.jt.info objects self.sbo).type = none

/-- `operator==` -/
def equal (objects : List (Obj types)) (self r : PropertyValue ι) : Option Bool :=
  self.jt.equal objects self.sbo (r.jt.info objects r.sbo)

def hashValue (objects : List (Obj types)) (self : PropertyValue ι) : Option UInt64 :=
  self.jt.hashValue objects self.sbo

/-- `operator<<` -/
def print (objects : List (Obj types)) (self : PropertyValue ι) : Option Bytes :=
  self.jt.toOstream objects self.sbo

/-! ## Programs -/

/-- All objects that were brought to life, and the boxes of the program in the order of their
construction, `none` for one that was destroyed. -/
structure Memory (types : Types ι) where
  objects : List (Obj types) := []
  boxes : List (Option (PropertyValue ι)) := []

inductive Statement (types : Types ι) where
  | default
  | construct (T : ι) (v : types.Value T)
  | moveConstruct (other : ℕ)
  | moveAssign (self other : ℕ)
  | destroy (self : ℕ)

namespace Memory

def box (s : Memory types) (i : ℕ) : Option (PropertyValue ι) := s.boxes[i]?.join

/-- `operator=`. The temporary is not one of the boxes; its destructor runs last. -/
def moveAssign (s : Memory types) (self other : ℕ) : Option (Memory types) := do
  let source ← s.box other
  let (source, tmp, objects) ← source.transfer {} s.objects
  let s : Memory types := ⟨objects, s.boxes.set other (some source)⟩
  let this ← s.box self
  let (sbo, objects) ← this.jt.destroy this.sbo s.objects
  let (tmp, this, objects) ← tmp.transfer ⟨sbo, .void⟩ objects
  let (_, objects) ← tmp.jt.destroy tmp.sbo objects
  some ⟨objects, s.boxes.set self (some this)⟩

def step : Statement types → Memory types → Option (Memory types)
  | .default, s => some { s with boxes := s.boxes ++ [some {}] }
  | .construct T v, s =>
    let (this, objects) := construct T v s.objects
    some ⟨objects, s.boxes ++ [some this]⟩
  | .moveConstruct other, s => do
    let source ← s.box other
    let (source, this, objects) ← source.transfer {} s.objects
    some ⟨objects, s.boxes.set other (some source) ++ [some this]⟩
  | .moveAssign self other, s => s.moveAssign self other
  | .destroy self, s => do
    let this ← s.box self
    let (_, objects) ← this.jt.destroy this.sbo s.objects
    some ⟨objects, s.boxes.set self none⟩

def run (program : List (Statement types)) : Option (Memory types) :=
  Transition.exec step program {}

end Memory

end PropertyValue

end Property

end BoostConnector
