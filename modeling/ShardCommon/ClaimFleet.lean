import Mathlib.Logic.Function.Basic
import Mathlib.Logic.Relation
import Mathlib.Tactic.Simps.Basic
import ShardCommon.Lib.Leases
import ShardCommon.TxidStore

/-!
# A fleet of claim stores

Any number of stores share one backend. Claims and marks run in them at the same time, each call in
its atomic halves, next to the workers that write queued marks and to `Close`. The backend's clock
never goes back; the local sets read a wall clock of their own, which may show anything.

Beside the state of the code a fleet keeps the writes that created a key, newest first.
-/

namespace ShardCommon.TxidSet

open Leases

/-- A call of `Claim` or of `Mark`, with the store it is made in. -/
structure Call (σ : Type) where
  store : σ
  pre : List UInt8
  txid : Key

/-- The backend's key for a call. -/
def Call.key {σ : Type} (call : Call σ) : List UInt8 := call.pre ++ Store.hexEncode call.txid.val

inductive ClaimPhase (ε : Type) where
  | idle
  | sent (req : SetNXRequest)
  | done (result : ClaimResult ε) (time : Int)
  deriving DecidableEq

inductive MarkPhase where
  | idle
  | touched
  | ended
  deriving DecidableEq

/-- A backend as the stores see it: the replies it may give to a create-only write at a time, and what
it may do on its own. -/
structure Tier2 (β ε : Type) where
  setNX : β → Int → SetNXRequest → SetNXReply ε → β → Prop
  upkeep : β → Int → β → Prop

/-- The grants of the backend by who made the write: a claim, or a worker of a store. -/
abbrev WriteGrant (σ ι : Type) := Grant (List UInt8) (ι ⊕ σ)

structure Fleet (σ ι κ β ε : Type) where
  nodes : σ → Node
  claims : ι → ClaimPhase ε
  marks : κ → MarkPhase
  backend : β
  clock : Int
  grants : List (WriteGrant σ ι)

namespace Fleet

variable {σ ι κ β ε : Type} [DecidableEq σ] [DecidableEq ι] [DecidableEq κ]

@[simps]
def setNode (f : Fleet σ ι κ β ε) (s : σ) (n : Node) : Fleet σ ι κ β ε :=
  { f with nodes := Function.update f.nodes s n }

@[simps]
def setClaim (f : Fleet σ ι κ β ε) (c : ι) (phase : ClaimPhase ε) : Fleet σ ι κ β ε :=
  { f with claims := Function.update f.claims c phase }

@[simps]
def setMark (f : Fleet σ ι κ β ε) (k : κ) (phase : MarkPhase) : Fleet σ ι κ β ε :=
  { f with marks := Function.update f.marks k phase }

/-- The backend after a reply, with the grant if the key was created. -/
def replied (f : Fleet σ ι κ β ε) (owner : ι ⊕ σ) (req : SetNXRequest) (reply : SetNXReply ε)
    (backend : β) : Fleet σ ι κ β ε :=
  { f with
    backend := backend
    grants := match reply with
      | .created => ⟨req.key, owner, f.clock, req.ttl⟩ :: f.grants
      | _ => f.grants }

/-- The local half of a claim, which ends it or sends a request. -/
def claimLocal (f : Fleet σ ι κ β ε) (call : Call σ) (c : ι) (now : Int) : Fleet σ ι κ β ε :=
  let half := (f.nodes call.store).toStore.claimLocal (ε := ε) call.pre call.txid now
  (f.setNode call.store { f.nodes call.store with toStore := half.2 }).setClaim c
    (match half.1 with
      | .inl result => .done result f.clock
      | .inr req => .sent req)

/-- One atomic step of one goroutine, of the backend, or of time. -/
inductive Step (tier : Tier2 β ε) (claimCall : ι → Call σ) (markCall : κ → Call σ) :
    Fleet σ ι κ β ε → Fleet σ ι κ β ε → Prop
  | wait (f : Fleet σ ι κ β ε) (later : Int) (hlater : f.clock ≤ later) :
      Step tier claimCall markCall f { f with clock := later }
  | upkeep (f : Fleet σ ι κ β ε) (backend : β) (h : tier.upkeep f.backend f.clock backend) :
      Step tier claimCall markCall f { f with backend := backend }
  | claimLocal (f : Fleet σ ι κ β ε) (c : ι) (now : Int) (hidle : f.claims c = .idle) :
      Step tier claimCall markCall f (f.claimLocal (claimCall c) c now)
  | claimBackend (f : Fleet σ ι κ β ε) (c : ι) (req : SetNXRequest) (reply : SetNXReply ε)
      (backend : β) (hsent : f.claims c = .sent req)
      (hreply : tier.setNX f.backend f.clock req reply backend) :
      Step tier claimCall markCall f
        ((f.replied (.inl c) req reply backend).setClaim c (.done (Store.claimReply reply) f.clock))
  | markLocal (f : Fleet σ ι κ β ε) (k : κ) (now : Int) (hidle : f.marks k = .idle) :
      Step tier claimCall markCall f
        ((f.setNode (markCall k).store
          ((f.nodes (markCall k).store).touch (markCall k).txid now)).setMark k .touched)
  | markOffer (f : Fleet σ ι κ β ε) (k : κ) (htouched : f.marks k = .touched) :
      Step tier claimCall markCall f
        ((f.setNode (markCall k).store ((f.nodes (markCall k).store).offer (ε := ε) (markCall k).pre
          (markCall k).txid).2).setMark k .ended)
  | receive (f : Fleet σ ι κ β ε) (s : σ) (i : Nat) (action : MarkAction ε) (n : Node)
      (h : (f.nodes s).receive i = some (action, n)) :
      Step tier claimCall markCall f (f.setNode s n)
  | answer (f : Fleet σ ι κ β ε) (s : σ) (i : Nat) (job : MarkJob) (reply : SetNXReply ε)
      (backend : β) (n : Node) (h : (f.nodes s).answer i reply = some (.answered job reply, n))
      (hreply : tier.setNX f.backend f.clock job.request reply backend) :
      Step tier claimCall markCall f ((f.replied (.inr s) job.request reply backend).setNode s n)
  | close (f : Fleet σ ι κ β ε) (s : σ) :
      Step tier claimCall markCall f (f.setNode s (f.nodes s).beginClose)

/-- Stores that `New` returned for configurations with a backend, and no call made yet. -/
structure Initial (cfg : σ → Config) (f : Fleet σ ι κ β ε) : Prop where
  nodes : ∀ s, (cfg s).hasBackend = true ∧
    new (fun _ => (none : Option ε)) (cfg s) = .ok (f.nodes s)
  claims : ∀ c, f.claims c = .idle
  marks : ∀ k, f.marks k = .idle
  grants : f.grants = []

end Fleet

end ShardCommon.TxidSet
