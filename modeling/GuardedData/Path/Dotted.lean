import GuardedData.Text.Basic

/-!
# Dotted paths

A dotted path is a string whose segments are the non-empty parts between its dots; the empty path
is the root. The parent of a path and whether two paths are related are read off its text, trimmed
of outer dots.
-/

namespace GuardedData.Dotted

/-! ### Segments -/

def segments (path : String) : List String :=
  ((path.toList.splitOn '.').filter (!·.isEmpty)).map String.ofList

@[simp] theorem segments_empty : segments "" = [] := rfl

/-- A path with a dot in it leads through the segments before the dot and then those behind. -/
theorem segments_append_dot (p q : String) :
    segments (p ++ "." ++ q) = segments p ++ segments q := by
  have h : (p ++ "." ++ q).toList = p.toList ++ '.' :: q.toList := by simp
  simp [segments, h, List.splitOn_append_cons_self]

/-- The path of some segments. -/
def join (segments : List String) : String := ".".intercalate segments

/-- The array index that a segment writes: digits after an optional plus sign, below `2⁶⁴`. -/
def index? (segment : String) : Option Nat :=
  let digits := match segment.toList with
    | '+' :: rest => rest
    | all => all
  if !digits.isEmpty && digits.all Text.isDigit then
    (some (Text.valueIn 10 digits)).filter (· < 0x10000000000000000)
  else none

/-! ### Trimmed paths -/

/-- A text without the dots at its front. -/
def dropDots (s : List Char) : List Char := s.dropWhile (· == '.')

/-- A text without the dots at both ends. -/
def trimDots (s : List Char) : List Char := (dropDots (dropDots s).reverse).reverse

/-- What is before the last dot of a text and what is behind it, if there is a dot. -/
def splitAtLastDot? : List Char → Option (List Char × List Char)
  | [] => none
  | c :: rest =>
    match splitAtLastDot? rest with
    | some (before, behind) => some (c :: before, behind)
    | none => if c = '.' then some ([], rest) else none

/-- The path of the parent and the last segment of a path, unless it is the root. -/
def parent? (path : String) : Option (String × String) :=
  let trimmed := trimDots path.toList
  if trimmed.isEmpty then none
  else
    let (before, behind) := (splitAtLastDot? trimmed).getD ([], trimmed)
    some (String.ofList before, String.ofList behind)

/-- Whether a text continues another one with a dot. -/
def isBelow : List Char → List Char → Bool
  | '.' :: _, [] => true
  | c :: rest, a :: ancestor => c == a && isBelow rest ancestor
  | _, _ => false

/-- Whether a change at one path counts as touching a watched path: the changed path is the root,
the same path, or one of the two continues the other. -/
def related (watched changed : String) : Bool :=
  let w := trimDots watched.toList
  let c := trimDots changed.toList
  c.isEmpty || w == c || isBelow w c || isBelow c w

end GuardedData.Dotted
