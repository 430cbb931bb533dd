import Lox.Value

/-
  Frames — variables, and the heap that holds them

  A frame binds names to values and may have an enclosing frame, made before
  it. Frames and objects are known by number and are never removed. A variable
  is reached in one of two ways: by its name along the chain of enclosing
  frames, or at a distance, which names one frame of the chain.
-/

namespace Lox

/-- Names with their values; the order means nothing. -/
abbrev Bindings := List (String × Value)

namespace Bindings

/-- The value of a name. -/
def find? (b : Bindings) (name : String) : Option Value := b.lookup name

/-- Gives a name a value, whether it had one or not. -/
def insert (name : String) (value : Value) : Bindings → Bindings
  | [] => [(name, value)]
  | (n, v) :: rest =>
    if n = name then (n, value) :: rest else (n, v) :: insert name value rest

theorem find?_nil (name : String) : find? [] name = none := rfl

theorem find?_cons (n name : String) (v : Value) (b : Bindings) :
    find? ((n, v) :: b) name = if name = n then some v else find? b name := by
  by_cases h : name = n
  · simp [find?, h]
  · rw [find?, List.lookup_cons, beq_false_of_ne h, if_neg h]
    rfl

/-- A name that got a value has it, and the others keep theirs. -/
theorem find?_insert (name other : String) (value : Value) (b : Bindings) :
    find? (insert name value b) other = if other = name then some value else find? b other := by
  induction b with
  | nil => simp [insert, find?_cons]
  | cons entry rest ih =>
    obtain ⟨n, v⟩ := entry
    by_cases hn : n = name
    · by_cases h : other = name <;> simp [insert, find?_cons, hn, h]
    · by_cases h : other = n
      · simp [insert, find?_cons, hn, h]
      · simp [insert, find?_cons, hn, h, ih]

end Bindings

/-- The variables of one scope. -/
structure Frame where
  bindings : Bindings
  enclosing : Option FrameId

/-- All frames, and the fields of all objects. -/
structure Heap where
  frames : Array Frame
  objects : Array Bindings
  /-- The identity that the next function or class gets. -/
  nextIdentity : Nat

namespace Heap

/-- The frame that all others lie in. -/
def globals : FrameId := 0

/-- The heap that holds nothing. -/
def empty : Heap := ⟨#[], #[], 0⟩

/-- Makes a frame without variables. -/
def newFrame (h : Heap) (enclosing : Option FrameId) : FrameId × Heap :=
  (h.frames.size, { h with frames := h.frames.push ⟨[], enclosing⟩ })

/-- The variables of a frame. -/
def bindings (h : Heap) (f : FrameId) : Bindings :=
  match h.frames[f]? with
  | some frame => frame.bindings
  | none => []

/-- The frame around a frame. -/
def enclosing? (h : Heap) (f : FrameId) : Option FrameId :=
  match h.frames[f]? with
  | some frame => frame.enclosing
  | none => none

/-- Gives a name a value in one frame, whether it had one or not. -/
def define (h : Heap) (f : FrameId) (name : String) (value : Value) : Heap :=
  { h with
    frames := h.frames.modify f fun frame =>
      { frame with bindings := Bindings.insert name value frame.bindings } }

/-- Gives several names values in one frame, later ones over earlier ones. -/
def defineAll (h : Heap) (f : FrameId) (values : List (String × Value)) : Heap :=
  values.foldl (fun h (name, value) => h.define f name value) h

/-- A frame and those around it, from the inside out. Enclosing frames are older
and so have smaller numbers. -/
def chain (h : Heap) (f : FrameId) : List FrameId :=
  match h.enclosing? f with
  | some e => if e < f then f :: h.chain e else [f]
  | none => [f]
termination_by f

/-- The first frame of a chain that binds a name. -/
def holder? (h : Heap) (f : FrameId) (name : String) : Option FrameId :=
  (h.chain f).find? fun e => ((h.bindings e).find? name).isSome

/-- The value of a name in the first frame of the chain that binds it. -/
def get? (h : Heap) (f : FrameId) (name : String) : Option Value :=
  (h.chain f).findSome? fun e => (h.bindings e).find? name

/-- Changes the value of a name in the first frame of the chain that binds it. -/
def assign? (h : Heap) (f : FrameId) (name : String) (value : Value) : Option Heap :=
  (h.holder? f name).map fun e => h.define e name value

/-- The frame that lies the given number of steps outward. -/
def ancestor? (h : Heap) (f : FrameId) : Nat → Option FrameId
  | 0 => some f
  | distance + 1 =>
    match h.enclosing? f with
    | some e => h.ancestor? e distance
    | none => none

/-- The frame at a distance, if it binds a name. -/
def holderAt? (h : Heap) (f : FrameId) (distance : Nat) (name : String) : Option FrameId :=
  (h.ancestor? f distance).filter fun e => ((h.bindings e).find? name).isSome

/-- The value of a name in the frame at a distance. -/
def getAt? (h : Heap) (f : FrameId) (distance : Nat) (name : String) : Option Value :=
  match h.ancestor? f distance with
  | some e => (h.bindings e).find? name
  | none => none

/-- Changes the value of a name in the frame at a distance, which has to bind
it. -/
def assignAt? (h : Heap) (f : FrameId) (distance : Nat) (name : String) (value : Value) :
    Option Heap :=
  (h.holderAt? f distance name).map fun e => h.define e name value

/-- Makes an object without fields and gives its number. -/
def newObject (h : Heap) : Nat × Heap :=
  (h.objects.size, { h with objects := h.objects.push [] })

/-- The fields of an object. -/
def fields (h : Heap) (object : Nat) : Bindings :=
  match h.objects[object]? with
  | some fields => fields
  | none => []

/-- Gives a field of an object a value, whether it had one or not. -/
def setField (h : Heap) (object : Nat) (name : String) (value : Value) : Heap :=
  { h with objects := h.objects.modify object (Bindings.insert name value) }

/-- An identity that no function and no class has. -/
def newIdentity (h : Heap) : Nat × Heap :=
  (h.nextIdentity, { h with nextIdentity := h.nextIdentity + 1 })

/-! ## What the operations do to frames and fields -/

theorem size_frames_define (h : Heap) (f : FrameId) (name : String) (value : Value) :
    (h.define f name value).frames.size = h.frames.size := by
  simp [define]

/-- A definition changes the variables of its own frame only. -/
theorem bindings_define (h : Heap) (f e : FrameId) (name : String) (value : Value) :
    (h.define f name value).bindings e =
      if e = f ∧ e < h.frames.size then Bindings.insert name value (h.bindings e)
      else h.bindings e := by
  simp only [bindings, define, Array.getElem?_modify]
  by_cases he : e < h.frames.size
  · by_cases hf : f = e
    · subst hf; simp [he]
    · simp [hf, Ne.symm hf, he]
  · simp [he]

/-- A definition leaves the way outward as it is. -/
theorem enclosing?_define (h : Heap) (f e : FrameId) (name : String) (value : Value) :
    (h.define f name value).enclosing? e = h.enclosing? e := by
  simp only [enclosing?, define, Array.getElem?_modify]
  by_cases hf : f = e
  · cases h.frames[e]? <;> simp [hf]
  · simp [hf]

/-- A new frame is empty, and the others keep their variables. -/
theorem bindings_newFrame (h : Heap) (enclosing : Option FrameId) (e : FrameId) :
    (h.newFrame enclosing).2.bindings e = h.bindings e := by
  simp only [bindings, newFrame, Array.getElem?_push]
  by_cases he : e = h.frames.size
  · simp [he]
  · simp [he]

/-- A new frame lies where it was put, and the others where they were. -/
theorem enclosing?_newFrame (h : Heap) (enclosing : Option FrameId) (e : FrameId) :
    (h.newFrame enclosing).2.enclosing? e =
      if e = h.frames.size then enclosing else h.enclosing? e := by
  simp only [enclosing?, newFrame, Array.getElem?_push]
  by_cases he : e = h.frames.size <;> simp [he]

/-- Setting a field changes the fields of its own object only. -/
theorem fields_setField (h : Heap) (o p : Nat) (name : String) (value : Value) :
    (h.setField o name value).fields p =
      if p = o ∧ p < h.objects.size then Bindings.insert name value (h.fields p)
      else h.fields p := by
  simp only [fields, setField, Array.getElem?_modify]
  by_cases hp : p < h.objects.size
  · by_cases ho : o = p
    · subst ho; simp [hp]
    · simp [ho, Ne.symm ho, hp]
  · simp [hp]

end Heap
end Lox
