import ShardCommon.ObjectSize

/-!
# Splitting a lane into objects

`Reader.next` keeps a window of unconsumed bytes in a buffer, returns the object at its front, and
reads more where the window ends inside an object. The `io.Reader` below it is a byte string with a
script: how many bytes the next reads hand out, and how the end of the stream is reported.
-/

namespace ShardCommon.Objfmt

open Go ShardCommon.Frame

/-- An `io.Reader`. A read hands out what the script says, at most what fits; when the script is
used up it fills the slice. The end of the stream comes with the last bytes or by itself, after any
empty reads of the script, and is reported from then on. -/
structure Source where
  remaining : Bytes
  script : List Nat
  eofWithLast : Bool
  ended : Bool
  deriving Repr, DecidableEq

/-- `Read` into a slice of length `space`: the bytes, and whether the error is `io.EOF`. -/
def Source.read (src : Source) (space : Nat) : (Bytes × Bool) × Source :=
  if src.ended then (([], true), src)
  else
    let count := min (src.script.headD space) space
    let rest := src.remaining.drop count
    let eof :=
      if src.remaining = [] then decide (count ≠ 0) else rest.isEmpty && src.eofWithLast
    ((src.remaining.take count, eof),
      { src with remaining := rest, script := src.script.tail, ended := eof })

def defaultMaxObject : Int := 64 * 2 ^ 20

/-- `stop` is the source's `end`; `offered` records the lengths of the slices given to `Read`. -/
structure Reader where
  r : Source
  c : Class
  max : Int
  buf : Bytes
  start : Nat
  stop : Nat
  offered : List Nat
  deriving Repr, DecidableEq

def newReader (r : Source) (c : Class) : Reader :=
  { r, c, max := defaultMaxObject, buf := [], start := 0, stop := 0, offered := [] }

def Reader.setMaxObject (rd : Reader) (n : Int) : Reader := { rd with max := n }

inductive NextError where
  | eof
  | unexpectedEOF
  | objfmt (error : ObjfmtError)
  deriving Repr, DecidableEq

abbrev NextOutcome := Outcome NextError Bytes

/-- `Size` of the window. -/
def Reader.windowSize (rd : Reader) : SizeRun Nat :=
  Run.slice rd.buf rd.start rd.stop >>= size rd.c

/-- `obj := rd.buf[rd.start : rd.start+n]`, and the window moves past it. -/
def Reader.take (rd : Reader) (n : Nat) : NextOutcome × Reader :=
  match (Run.slice rd.buf rd.start (rd.start + n) : SizeRun Bytes).outcome with
  | .ok obj => (.ok obj, { rd with start := rd.start + n })
  | .fail error => (.fail (.objfmt error), rd)
  | .panic cause => (.panic cause, rd)

/-- The part of a round in front of the read: what `Next` returns there, if it does. -/
def Reader.parse (rd : Reader) : Option (NextOutcome × Reader) :=
  if rd.start < rd.stop then
    match rd.windowSize.outcome with
    | .ok n => some (rd.take n)
    | .fail .short =>
      if rd.max ≤ rd.stop - rd.start then some (.fail (.objfmt (.objectTooLarge rd.max)), rd)
      else none
    | .fail error => some (.fail (.objfmt error), rd)
    | .panic cause => some (.panic cause, rd)
  else none

/-- `copy(rd.buf, rd.buf[rd.start:rd.end])`. -/
def Reader.compact (rd : Reader) : Reader :=
  if 0 < rd.start then
    let pending := (rd.buf.drop rd.start).take (rd.stop - rd.start)
    { rd with
      buf := pending ++ rd.buf.drop pending.length
      start := 0
      stop := rd.stop - rd.start }
  else rd

/-- The new length of the buffer. Twice the length of a slice in memory stays in range, but `max`
is any integer. -/
def Reader.growTo (rd : Reader) : Int :=
  let doubled : Int := 2 * rd.buf.length
  let grow := if doubled = 0 then 64 * 2 ^ 10 else doubled
  let limit := wrap64 (rd.max + 4096)
  if limit < grow then limit else grow

def Reader.grow (rd : Reader) : SizeRun Reader :=
  if (rd.buf.length : Int) - rd.stop < 4096 then do
    Run.make 1 rd.growTo
    let pending ← Run.slice rd.buf 0 rd.stop
    let copied := pending.take rd.growTo.toNat
    pure { rd with buf := copied ++ List.replicate (rd.growTo.toNat - copied.length) 0 }
  else pure rd

/-- `n, err := rd.r.Read(rd.buf[rd.end:])` and `rd.end += n`. -/
def Reader.fill (rd : Reader) : Bool × Reader :=
  let space := rd.buf.length - rd.stop
  let ((bytes, eof), r) := rd.r.read space
  (eof,
    { rd with
      r := r
      buf := rd.buf.take rd.stop ++ bytes ++ rd.buf.drop (rd.stop + bytes.length)
      stop := rd.stop + bytes.length
      offered := rd.offered ++ [space] })

/-- What `Next` returns when the read reported the end; `none` goes round the loop again. -/
def Reader.atEOF (rd : Reader) : Option NextOutcome :=
  if rd.stop = rd.start then some (.fail .eof)
  else
    match rd.windowSize.outcome with
    | .ok _ => none
    | .fail .short => some (.fail .unexpectedEOF)
    | .fail error => some (.fail (.objfmt error))
    | .panic cause => some (.panic cause)

/-- One round of the loop of `Next`, with what it returns unless the loop goes on. -/
def Reader.round (rd : Reader) : Option NextOutcome × Reader :=
  match rd.parse with
  | some (outcome, rd') => (some outcome, rd')
  | none =>
    match rd.compact.grow.outcome with
    | .ok grown =>
      if grown.buf.length < grown.stop then (some (.panic .sliceOutOfRange), grown)
      else
        let (eof, filled) := grown.fill
        if eof then (filled.atEOF, filled) else (none, filled)
    | .fail error => (some (.fail (.objfmt error)), rd.compact)
    | .panic cause => (some (.panic cause), rd.compact)

/-- `Next`; `none` when the rounds given do not suffice. -/
def Reader.next : Nat → Reader → Option (NextOutcome × Reader)
  | 0, _ => none
  | fuel + 1, rd =>
    match rd.round with
    | (some outcome, rd') => some (outcome, rd')
    | (none, rd') => Reader.next fuel rd'

/-- Successive calls of `Next`. -/
def Reader.calls (fuel : Nat) : Nat → Reader → Option (List NextOutcome × Reader)
  | 0, rd => some ([], rd)
  | count + 1, rd => do
    let (outcome, rd') ← rd.next fuel
    let (outcomes, rd'') ← Reader.calls fuel count rd'
    pure (outcome :: outcomes, rd'')

end ShardCommon.Objfmt
