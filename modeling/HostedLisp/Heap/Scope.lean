import HostedLisp.Heap.Printer

/-!
# Frames

A frame looks up a name in itself and then in its parent. A parent is older than its frames, so
every chain of frames ends at a root. Main definitions: `Heap.chain`, `Heap.lookup?`,
`Heap.assign?`, `Heap.allBindings`, `Heap.teardown`, and the texts that the debugger shows.
-/

namespace HostedLisp

/-- The frame that every program starts in. -/
def FrameId.global : FrameId := ⟨0⟩

namespace Heap

/-! ### Making and walking -/

def newRoot (h : Heap) : FrameId × Heap :=
  let id : FrameId := ⟨h.frames.size⟩
  let frame : Frame := ⟨.empty, none, "global", none, id, true⟩
  (id, { h with frames := h.frames.push frame })

/-- A new frame inside `parent`. -/
def newFrame (h : Heap) (parent : FrameId) (label : String) : FrameId × Heap :=
  let frame : Frame := ⟨.empty, some parent, label, none, (h.frame parent).root, true⟩
  (⟨h.frames.size⟩, { h with frames := h.frames.push frame })

def parent? (h : Heap) (id : FrameId) : Option FrameId :=
  (h.frame id).parent.filter fun parent => parent.index < id.index

theorem parent?_lt {h : Heap} {id parent : FrameId} (eq : h.parent? id = some parent) :
    parent.index < id.index := by
  have found := (Option.filter_eq_some_iff.1 eq).2
  simpa using found

/-- A frame and at most `steps` frames around it. -/
def chainFrom (h : Heap) : Nat → FrameId → List FrameId
  | 0, id => [id]
  | steps + 1, id =>
    match h.parent? id with
    | some parent => id :: h.chainFrom steps parent
    | none => [id]

/-- A frame and all frames around it, from the inside to the root. -/
def chain (h : Heap) (id : FrameId) : List FrameId := h.chainFrom id.index id

/-! ### Bindings -/

def modifyFrame (h : Heap) (id : FrameId) (change : Frame → Frame) : Heap :=
  { h with frames := h.frames.modify id.index change }

def define (h : Heap) (id : FrameId) (name : Symbol) (value : Value) : Heap :=
  h.modifyFrame id fun f => { f with bindings := f.bindings.insert name value }

/-- Whether a frame itself binds a name. -/
def binds (h : Heap) (id : FrameId) (name : Symbol) : Bool :=
  (h.frame id).bindings.contains name

/-- The innermost frame around `id` that binds a name. -/
def resolve? (h : Heap) (id : FrameId) (name : Symbol) : Option FrameId :=
  (h.chain id).find? fun frame => h.binds frame name

/-- The value of a name as seen from a frame. -/
def lookup? (h : Heap) (id : FrameId) (name : Symbol) : Option Value :=
  (h.chain id).findSome? fun frame => (h.frame frame).bindings.find? name

/-- Changes the innermost binding of a name. There is none to change if the name is not bound. -/
def assign? (h : Heap) (id : FrameId) (name : Symbol) (value : Value) : Option Heap :=
  (h.resolve? id name).map fun frame => h.define frame name value

/-- All bindings that are seen from a frame. -/
def allBindings (h : Heap) (id : FrameId) : Bindings :=
  (h.chain id).foldr (fun frame outer => outer.merge (h.frame frame).bindings) .empty

/-- Remembers the expression that is evaluated in a frame. -/
def setCode (h : Heap) (id : FrameId) (code : Value) : Heap :=
  h.modifyFrame id fun f => { f with code := some code }

/-- Clears the frames that the root of a frame keeps track of, and lets go of them. -/
def teardown (h : Heap) (id : FrameId) : Heap :=
  let root := (h.frame id).root
  { h with frames := h.frames.map fun f =>
      if f.tracked && f.root == root then f.clear else f }

/-! ### Texts -/

/-- A number of a frame, at least three characters wide. -/
def frameNumber (index : Nat) : String :=
  let digits := toString index
  "".pushn ' ' (3 - digits.length) ++ digits

/-- The label of a frame and what was last evaluated in it. -/
def header (h : Heap) (id : FrameId) : String :=
  let frame := h.frame id
  match frame.code with
  | some code => s!"{frame.label}: {h.render code}"
  | none => frame.label

/-- A frame in a debugging view. -/
def inspectFrame (h : Heap) (id : FrameId) : String := s!"Environment({(h.frame id).label})"

/-- The numbered line of a frame. -/
def headerLine (h : Heap) (index : Nat) (id : FrameId) : String :=
  s!"{frameNumber index}: {h.header id}\n"

/-- The numbered line of a frame and its bindings. -/
def frameText (h : Heap) (index : Nat) (id : FrameId) : String :=
  (h.frame id).bindings.entries.foldl
    (fun text e => text ++ s!"       {e.1.name} => {h.render e.2}\n") (h.headerLine index id)

/-- The texts of numbered frames, one after the other. -/
def frameTexts (text : Nat → FrameId → String) : Nat → List FrameId → String
  | _, [] => ""
  | index, id :: rest => text index id ++ frameTexts text (index + 1) rest

/-- The lines of all frames around a frame. -/
def headers (h : Heap) (id : FrameId) : String := frameTexts h.headerLine 0 (h.chain id)

/-- The contents of all frames around a frame. -/
def dump (h : Heap) (id : FrameId) : String := frameTexts h.frameText 0 (h.chain id)

/-- The contents of one frame, counted from the inside. -/
def dumpFrame (h : Heap) (id : FrameId) (index : Nat) : String :=
  match (h.chain id)[index]? with
  | some frame => h.frameText index frame
  | none => s!"No such frame: {index}\n"

end Heap

end HostedLisp
