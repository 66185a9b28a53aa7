import ShardCommon.NetAddr
import Mathlib.Data.List.Nodup

/-!
# Bootstrap source lists

`bootstrap/bootstrap.go`: a set of addresses resolved from a list of names and literals, refreshed in
rounds, and the changes that `OnChange` is given. How literals are parsed is a parameter. So is what
the lookups of a round answer, at each place of the list, since a name can answer differently each
time.
-/

namespace ShardCommon.Bootstrap

open ShardCommon.Netip

variable {ε : Type}

/-- The outcomes of one round of lookups, by the place of the entry. -/
abbrev Lookups (ε : Type) := Nat → Except ε (List Addr)

/-- The addresses found so far, as a map with unit values, and the last error. -/
structure Seen (ε : Type) where
  addrs : List Addr
  nodup : addrs.Nodup
  anyErr : Option ε

namespace Seen

def empty : Seen ε := ⟨[], .nil, none⟩

def insert (seen : Seen ε) (a : Addr) : Seen ε :=
  { seen with addrs := seen.addrs.insert a, nodup := seen.nodup.insert }

/-- A literal is not looked up, and counts if it is an IPv6 address. -/
def resolve (parseAddr : String → Option Addr) (answer : Except ε (List Addr)) (seen : Seen ε)
    (e : String) : Seen ε :=
  match parseAddr e with
  | some a => if a.is6 && !a.is4In6 then seen.insert a.unmap else seen
  | none =>
    match answer with
    | .error err => { seen with anyErr := some err }
    | .ok addrs => addrs.foldl insert seen

end Seen

/-- An error shows only when nothing was found. -/
def resolveAll (parseAddr : String → Option Addr) (entries : List String) (lookups : Lookups ε) :
    Except ε (List Addr) :=
  let seen := entries.zipIdx.foldl
    (fun seen item => seen.resolve parseAddr (lookups item.2) item.1) Seen.empty
  match seen.addrs, seen.anyErr with
  | [], some err => .error err
  | addrs, _ => .ok (addrs.mergeSort fun a b => !b.less a)

/-- The loop of `diffSorted`, with what is left of the two lists and the lists built so far. -/
def diffLoop : List Addr → List Addr → List Addr → List Addr → List Addr × List Addr
  | p :: prev, n :: next, added, removed =>
    if p.less n then diffLoop prev (n :: next) added (removed ++ [p])
    else if n.less p then diffLoop (p :: prev) next (added ++ [n]) removed
    else diffLoop prev next added removed
  | prev, next, added, removed => (added ++ next, removed ++ prev)
termination_by prev next => prev.length + next.length

/-- What is added and what is removed. -/
def diffSorted (prev next : List Addr) : List Addr × List Addr := diffLoop prev next [] []

/-- A call of `OnChange`. -/
structure Change where
  added : List Addr
  removed : List Addr
  deriving DecidableEq

inductive StartError (ε : Type) where
  | noEntries
  | initialResolution (err : ε)
  | failClosed

def StartError.text (errText : ε → String) : StartError ε → String
  | noEntries => "bootstrap: no entries configured"
  | initialResolution err => "bootstrap: initial resolution: " ++ errText err
  | failClosed => "bootstrap: no IPv6 addresses resolved from any entry; fail-closed"

structure Resolver where
  entries : List String
  current : List Addr
  errs : UInt64

namespace Resolver

variable (parseAddr : String → Option Addr)

/-- `Start`: the resolver and the first change. -/
def start (entries : List String) (lookups : Lookups ε) :
    Except (StartError ε) (Resolver × Change) :=
  if entries.length = 0 then .error .noEntries
  else
    match resolveAll parseAddr entries lookups with
    | .error err => .error (.initialResolution err)
    | .ok [] => .error .failClosed
    | .ok set => .ok (⟨entries, set, 0⟩, ⟨set, []⟩)

/-- One turn of `loop`. -/
def refresh (r : Resolver) (lookups : Lookups ε) : Resolver × Option Change :=
  match resolveAll parseAddr r.entries lookups with
  | .error _ => ({ r with errs := r.errs + 1 }, none)
  | .ok [] => ({ r with errs := r.errs + 1 }, none)
  | .ok next =>
    let (added, removed) := diffSorted r.current next
    ({ r with current := next },
      if 0 < added.length ∨ 0 < removed.length then some ⟨added, removed⟩ else none)

/-- A round, with the changes told so far. -/
def round (state : Resolver × List Change) (lookups : Lookups ε) : Resolver × List Change :=
  let (r, change) := state.1.refresh parseAddr lookups
  (r, state.2 ++ change.toList)

/-- A start and the rounds after it: the resolver and all changes, in order. -/
def run (entries : List String) (first : Lookups ε) (rounds : List (Lookups ε)) :
    Except (StartError ε) (Resolver × List Change) :=
  (start parseAddr entries first).map fun started =>
    rounds.foldl (round parseAddr) (started.1, [started.2])

end Resolver

end ShardCommon.Bootstrap
