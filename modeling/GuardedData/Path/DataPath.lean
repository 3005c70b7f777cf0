import GuardedData.Path.Dotted

/-!
# Paths into data

A data path tells a reader of an error message where a value is: a bracketed label followed by
keys and indices, as in `[user].publishers[2].id`.
-/

namespace GuardedData

/-- One step into data. -/
inductive Segment
  | key (name : String)
  | index (i : Nat)
deriving DecidableEq

def Segment.text : Segment → String
  | .key name => "." ++ name
  | .index i => "[" ++ toString i ++ "]"

/-- A step read from a part of a dotted path: an index if it can be one. -/
def Segment.ofPart (part : String) : Segment :=
  match Dotted.index? part with
  | some i => .index i
  | none => .key part

/-- A labelled root and the steps below it. -/
structure DataPath where
  label : String
  segments : List Segment
deriving DecidableEq

namespace DataPath

def root (label : String) : DataPath := ⟨label, []⟩

def step (path : DataPath) (segment : Segment) : DataPath :=
  ⟨path.label, path.segments ++ [segment]⟩

def key (path : DataPath) (name : String) : DataPath := path.step (.key name)

def index (path : DataPath) (i : Nat) : DataPath := path.step (.index i)

/-- The path extended by the parts of a dotted path. -/
def joinDotted (path : DataPath) (dotted : String) : DataPath :=
  ⟨path.label, path.segments ++ (Dotted.segments dotted).map Segment.ofPart⟩

def isRoot (path : DataPath) : Bool := path.segments.isEmpty

/-- The label as it is written. -/
def rootText (path : DataPath) : String := "[" ++ path.label ++ "]"

def text (path : DataPath) : String :=
  path.rootText ++ String.join (path.segments.map Segment.text)

end DataPath

end GuardedData
