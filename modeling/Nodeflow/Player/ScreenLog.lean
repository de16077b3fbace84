/-!
# The screen log

The newest printed lines, each shown until its time is up.  Lines stand in the order
they were printed; only as many as fit are kept.
-/

namespace Nodeflow

structure ScreenLine where
  text : String
  remaining : Float32

structure ScreenLog where
  lines : List ScreenLine
  ttl : Float32
  maxLines : Nat

namespace ScreenLog

def defaultTtl : Float32 := 2

def defaultMaxLines : Nat := 6

def empty (ttl : Float32) (maxLines : Nat) : ScreenLog :=
  ⟨[], ttl, maxLines⟩

instance : Inhabited ScreenLog := ⟨empty defaultTtl defaultMaxLines⟩

/-- Shows a line; the oldest lines make room for it. -/
def push (s : ScreenLog) (text : String) : ScreenLog :=
  let lines := s.lines ++ [⟨text, s.ttl⟩]
  { s with lines := lines.drop (lines.length - s.maxLines) }

def ScreenLine.age (line : ScreenLine) (dt : Float32) : ScreenLine :=
  { line with remaining := line.remaining - dt }

def ScreenLine.expired (line : ScreenLine) : Bool :=
  line.remaining ≤ 0

/-- Lets `dt` seconds pass; expired lines leave from the front, up to the first that has
not expired. -/
def update (s : ScreenLog) (dt : Float32) : ScreenLog :=
  { s with lines := (s.lines.map (ScreenLine.age · dt)).dropWhile ScreenLine.expired }

def changes (s : ScreenLog) (dt : Float32) : Bool :=
  (s.update dt).lines.length != s.lines.length

def texts (s : ScreenLog) : List String :=
  s.lines.map ScreenLine.text

def render (s : ScreenLog) : String :=
  "\n".intercalate s.texts

def isEmpty (s : ScreenLog) : Bool :=
  s.lines.isEmpty

end ScreenLog

end Nodeflow
