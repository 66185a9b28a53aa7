import Mathlib.Logic.Relation
import Mathlib.Tactic.Simps.Basic
import ShardCommon.Lib.Steps
import ShardCommon.Proof.LocalWindow

/-!
# Concurrent claims on one TxID

Any number of stores share a backend, and any number of claims on one prefix and TxID run in them.
The step relation interleaves the two atomic halves of each claim with traffic on other TxIDs. What
carries the proof is that once a claim has touched its local set, some claim is on its way to the
backend or has already been told to proceed. `Store.claim` is such a claim run without a pause.
-/

namespace ShardCommon.TxidSet

inductive ClaimState (ε : Type) where
  | pending
  | atBackend
  | done (result : ClaimResult ε)
  deriving Repr, DecidableEq

/-- The backend as far as the claimed key goes: whether it is there, and whether it ever was. -/
structure BackendKey where
  present : Bool
  created : Bool
  deriving Repr, DecidableEq

/-- An atomic create-only write. It reports an existing key only for one that was created before,
and a failed call may or may not have been applied. -/
inductive SetNXStep {ε : Type} : BackendKey → SetNXReply ε → BackendKey → Prop
  | created {b : BackendKey} : b.present = false → SetNXStep b .created ⟨true, true⟩
  | existed {b : BackendKey} : b.created = true → SetNXStep b .existed b
  | lost {b : BackendKey} (error : ε) : SetNXStep b (.failed error) b
  | applied {b : BackendKey} (error : ε) : SetNXStep b (.failed error) ⟨true, true⟩

variable {σ ι ε : Type}

structure System (σ ι ε : Type) where
  stores : σ → Store
  backend : BackendKey
  claims : ι → ClaimState ε

/-- What the local half of a claim leaves behind. -/
def ClaimState.ofLocal : ClaimResult ε ⊕ SetNXRequest → ClaimState ε
  | .inl result => .done result
  | .inr _ => .atBackend

@[simps]
def System.setStore [DecidableEq σ] (sys : System σ ι ε) (store : σ) (s : Store) : System σ ι ε :=
  { sys with stores := Function.update sys.stores store s }

@[simps]
def System.setClaim [DecidableEq ι] (sys : System σ ι ε) (c : ι) (state : ClaimState ε) :
    System σ ι ε :=
  { sys with claims := Function.update sys.claims c state }

/-- One atomic step. Failing calls and expiry of the key only happen to a faulty backend. -/
inductive System.Step [DecidableEq σ] [DecidableEq ι] (owner : ι → σ) (pre : List UInt8) (txid : Key)
    (faulty : Prop) : System σ ι ε → System σ ι ε → Prop
  | localTest (sys : System σ ι ε) (c : ι) (now : Int) (hpending : sys.claims c = .pending) :
      Step owner pre txid faulty sys
        ((sys.setStore (owner c)
          ((sys.stores (owner c)).claimLocal (ε := ε) pre txid now).2).setClaim c
            (.ofLocal ((sys.stores (owner c)).claimLocal pre txid now).1))
  | setNX (sys : System σ ι ε) (c : ι) (reply : SetNXReply ε) (backend : BackendKey)
      (hsent : sys.claims c = .atBackend) (hreply : SetNXStep sys.backend reply backend)
      (hfault : ∀ error, reply = .failed error → faulty) :
      Step owner pre txid faulty sys
        ({ sys with backend := backend }.setClaim c (.done (Store.claimReply reply)))
  | otherTxid (sys : System σ ι ε) (store : σ) (key : Key) (now : Int) (hkey : key ≠ txid) :
      Step owner pre txid faulty sys
        (sys.setStore store { sys.stores store with
          localSet := ((sys.stores store).localSet.seenAndAdd key now).2 })
  | expire (sys : System σ ι ε) (hfault : faulty) :
      Step owner pre txid faulty sys { sys with backend := { sys.backend with present := false } }

/-- The local set has an entry for the key, expired or not. -/
def LocalSet.knows (l : LocalSet) (key : Key) : Bool :=
  match l with
  | .disabled => false
  | .striped shards => ((shards (LocalSet.shardOf key)).entries.lookup key).isSome

/-- Nobody has seen the TxID, and no claim has started. -/
structure System.Initial (txid : Key) (sys : System σ ι ε) : Prop where
  backend : ∀ store, (sys.stores store).hasBackend = true
  unknown : ∀ store, (sys.stores store).localSet.knows txid = false
  absent : sys.backend = ⟨false, false⟩
  pending : ∀ c, sys.claims c = .pending

def ClaimState.Proceeds (state : ClaimState ε) : Prop :=
  ∃ result, state = .done result ∧ result.proceed = true

/-! ## The local half -/

theorem LocalSet.knows_of_seen {l : LocalSet} {key : Key} {now : Int}
    (h : (l.seenAndAdd key now).1 = true) : l.knows key = true := by
  cases l with
  | disabled => cases h
  | striped shards =>
      rw [seenAndAdd, LocalShard.seenAndAdd] at h
      rw [knows]
      cases hlookup : (shards (shardOf key)).entries.lookup key with
      | some exp => rfl
      | none => simp [LocalShard.remembers, hlookup] at h

theorem LocalShard.lookup_of_seenAndAdd_ne {s : LocalShard} {key k : Key} {now : Int}
    (hk : k ≠ key) (h : ((s.seenAndAdd key now).2.entries.lookup k).isSome) :
    (s.entries.lookup k).isSome := by
  rw [seenAndAdd] at h
  split at h
  · rwa [AList.lookup_insert_ne hk] at h
  · rw [LocalShard.lookup_insert_ne hk] at h
    split at h
    · cases h
    · exact h

theorem LocalSet.knows_of_seenAndAdd_ne {l : LocalSet} {key txid : Key} {now : Int}
    (hkey : key ≠ txid) (h : (l.seenAndAdd key now).2.knows txid = true) :
    l.knows txid = true := by
  cases l with
  | disabled => cases h
  | striped shards =>
      rw [seenAndAdd, knows] at h
      rw [knows]
      by_cases hshard : shardOf txid = shardOf key
      · rw [hshard, Function.update_self] at h
        rw [hshard]
        exact LocalShard.lookup_of_seenAndAdd_ne hkey.symm h
      · rwa [Function.update_of_ne hshard] at h

theorem Store.claimLocal_hasBackend {s : Store} {pre : List UInt8} {txid : Key} {now : Int} :
    (s.claimLocal (ε := ε) pre txid now).2.hasBackend = s.hasBackend := by
  rw [claimLocal]
  split
  · rfl
  · split <;> rfl

/-- With a backend, the local half of a claim refuses it or sends its request. -/
theorem Store.claimLocal_cases {s : Store} (hbackend : s.hasBackend = true) (pre : List UInt8)
    (txid : Key) (now : Int) :
    (s.claimLocal (ε := ε) pre txid now).1 = .inr (s.request pre txid) ∨
      s.localSet.knows txid = true ∧
        (s.claimLocal (ε := ε) pre txid now).1 = .inl ⟨false, none, .localHit⟩ := by
  rw [claimLocal, hbackend]
  split
  · next hseen => exact Or.inr ⟨LocalSet.knows_of_seen hseen, rfl⟩
  · exact Or.inl rfl

/-! ## A claim without a pause -/

/-- A call of `Claim` that nothing comes in between is a run of its two steps. -/
theorem Store.claim_run [DecidableEq σ] [DecidableEq ι] {owner : ι → σ} {pre : List UInt8} {txid : Key}
    {faulty : Prop} {sys : System σ ι ε} {c : ι}
    (setNX : SetNXRequest → BackendKey → SetNXReply ε × BackendKey)
    (hsetNX : ∀ req, SetNXStep sys.backend (setNX req sys.backend).1 (setNX req sys.backend).2)
    (hfault : ∀ req error, (setNX req sys.backend).1 = .failed error → faulty)
    (hpending : sys.claims c = .pending) (now : Int) :
    ∃ result s backend,
      (sys.stores (owner c)).claim setNX pre txid now sys.backend = (result, s, backend) ∧
        Relation.ReflTransGen (System.Step owner pre txid faulty) sys
          ({ sys.setStore (owner c) s with backend := backend }.setClaim c (.done result)) := by
  have hlocal : Relation.ReflTransGen (System.Step owner pre txid faulty) sys _ :=
    .single (.localTest sys c now hpending)
  rw [claim]
  generalize (sys.stores (owner c)).claimLocal pre txid now = half at hlocal ⊢
  obtain ⟨result | req, s⟩ := half
  · exact ⟨result, s, sys.backend, rfl, hlocal⟩
  · refine ⟨_, s, _, rfl, ?_⟩
    have hreply := hlocal.tail (.setNX _ c _ _ (Function.update_self ..) (hsetNX req) (hfault req))
    simpa [System.setClaim] using hreply

/-! ## Some claim proceeds -/

namespace System

variable {owner : ι → σ} {pre : List UInt8} {txid : Key} {faulty : Prop} {sys sys' : System σ ι ε}

structure Inv (txid : Key) (sys : System σ ι ε) : Prop where
  hasBackend : ∀ store, (sys.stores store).hasBackend = true
  created : sys.backend.created = true → ∃ c, (sys.claims c).Proceeds
  known : ∀ store, (sys.stores store).localSet.knows txid = true → ∃ c, sys.claims c ≠ .pending
  started : (∃ c, sys.claims c ≠ .pending) →
    ∃ c, sys.claims c = .atBackend ∨ (sys.claims c).Proceeds

theorem Initial.inv (h : sys.Initial txid) : sys.Inv txid := by
  constructor
  · exact h.backend
  · intro hcreated
    rw [h.absent] at hcreated
    cases hcreated
  · intro store hknown
    rw [h.unknown store] at hknown
    cases hknown
  · rintro ⟨c, hc⟩
    exact absurd (h.pending c) hc

theorem not_proceeds_pending : ¬ (ClaimState.pending : ClaimState ε).Proceeds := by
  rintro ⟨_, h, _⟩
  cases h

theorem not_proceeds_atBackend : ¬ (ClaimState.atBackend : ClaimState ε).Proceeds := by
  rintro ⟨_, h, _⟩
  cases h

theorem Inv.localTest [DecidableEq σ] [DecidableEq ι] (h : sys.Inv txid) {c : ι} (now : Int)
    (hpending : sys.claims c = .pending) :
    Inv txid ((sys.setStore (owner c)
      ((sys.stores (owner c)).claimLocal (ε := ε) pre txid now).2).setClaim c
        (.ofLocal ((sys.stores (owner c)).claimLocal pre txid now).1)) := by
  have hlocal := Store.claimLocal_cases (ε := ε) (h.hasBackend (owner c)) pre txid now
  constructor
  · apply Function.forall_update_of_forall (p := fun _ (s : Store) => s.hasBackend = true) h.hasBackend
    rw [Store.claimLocal_hasBackend]
    exact h.hasBackend _
  · intro hcreated
    apply Function.exists_update_of_not _ (h.created hcreated)
    rw [hpending]
    exact not_proceeds_pending
  · intro _ _
    refine ⟨c, ?_⟩
    rw [setClaim_claims, Function.update_self]
    rcases hlocal with hlocal | ⟨_, hlocal⟩ <;> simp [hlocal, ClaimState.ofLocal]
  · intro _
    rcases hlocal with hlocal | ⟨hknown, _⟩
    · exact ⟨c, Or.inl (by rw [setClaim_claims, Function.update_self, hlocal, ClaimState.ofLocal])⟩
    · -- a local hit relies on the claim that put the entry there
      apply Function.exists_update_of_not
        (p := fun _ (state : ClaimState ε) => state = .atBackend ∨ state.Proceeds) _
        (h.started (h.known _ hknown))
      rw [hpending]
      rintro (hstate | hstate)
      · cases hstate
      · exact not_proceeds_pending hstate

theorem proceeds_or_created {reply : SetNXReply ε} {backend : BackendKey}
    (hreply : SetNXStep sys.backend reply backend) :
    (ClaimState.done (Store.claimReply reply)).Proceeds ∨
      sys.backend.created = true ∧ backend = sys.backend := by
  cases hreply with
  | created => exact Or.inl ⟨_, rfl, rfl⟩
  | existed hcreated => exact Or.inr ⟨hcreated, rfl⟩
  | lost error => exact Or.inl ⟨_, rfl, rfl⟩
  | applied error => exact Or.inl ⟨_, rfl, rfl⟩

theorem Inv.setNX [DecidableEq ι] (h : sys.Inv txid) {c : ι} {reply : SetNXReply ε} {backend : BackendKey}
    (hsent : sys.claims c = .atBackend) (hreply : SetNXStep sys.backend reply backend) :
    Inv txid ({ sys with backend := backend }.setClaim c (.done (Store.claimReply reply))) := by
  have hsome : ∃ c', (({ sys with backend := backend }.setClaim c
      (.done (Store.claimReply reply))).claims c').Proceeds := by
    rcases proceeds_or_created hreply with hproceeds | ⟨hcreated, _⟩
    · exact ⟨c, by rwa [setClaim_claims, Function.update_self]⟩
    · -- the key exists because of a claim that went ahead
      apply Function.exists_update_of_not _ (h.created hcreated)
      rw [hsent]
      exact not_proceeds_atBackend
  constructor
  · exact h.hasBackend
  · intro _
    exact hsome
  · intro store hknown
    refine ⟨c, ?_⟩
    rw [setClaim_claims, Function.update_self]
    nofun
  · intro _
    obtain ⟨c', hc'⟩ := hsome
    exact ⟨c', Or.inr hc'⟩

theorem Inv.otherTxid [DecidableEq σ] (h : sys.Inv txid) {store : σ} {key : Key} {now : Int}
    (hkey : key ≠ txid) :
    Inv txid (sys.setStore store { sys.stores store with
      localSet := ((sys.stores store).localSet.seenAndAdd key now).2 }) := by
  constructor
  · apply Function.forall_update_of_forall (p := fun _ (s : Store) => s.hasBackend = true) h.hasBackend
    exact h.hasBackend store
  · exact h.created
  · apply Function.forall_update_of_forall
      (p := fun _ (s : Store) => s.localSet.knows txid = true → _) h.known
    intro hknown
    exact h.known store (LocalSet.knows_of_seenAndAdd_ne hkey hknown)
  · exact h.started

theorem Inv.step [DecidableEq σ] [DecidableEq ι] (h : sys.Inv txid)
    (hstep : Step owner pre txid faulty sys sys') :
    sys'.Inv txid := by
  cases hstep with
  | localTest c now hpending => exact h.localTest now hpending
  | setNX c reply backend hsent hreply _ => exact h.setNX hsent hreply
  | otherTxid store key now hkey => exact h.otherTxid hkey
  | expire _ => exact ⟨h.hasBackend, h.created, h.known, h.started⟩

/-! ## Without faults, no two claims proceed -/

/-- The key is there exactly when a claim has been told to proceed, and then only one has. -/
structure OneWinner (sys : System σ ι ε) : Prop where
  present : sys.backend.created = true → sys.backend.present = true
  winner : ∀ c result, sys.claims c = .done result → result.proceed = true →
    result.error = none ∧ sys.backend.created = true
  unique : ∀ c c', (sys.claims c).Proceeds → (sys.claims c').Proceeds → c = c'

theorem Initial.oneWinner (h : sys.Initial txid) : sys.OneWinner := by
  constructor
  · intro hcreated
    rw [h.absent] at hcreated
    cases hcreated
  · intro c result hdone
    rw [h.pending c] at hdone
    cases hdone
  · rintro c c' ⟨result, hdone, _⟩
    rw [h.pending c] at hdone
    cases hdone

/-- A claim that ends without proceeding, or goes to the backend, changes nothing. -/
theorem OneWinner.setClaim [DecidableEq ι] (h : sys.OneWinner) {c : ι} {state : ClaimState ε}
    (hstate : ¬ state.Proceeds) : (sys.setClaim c state).OneWinner := by
  have hold : ∀ c', ((sys.setClaim c state).claims c').Proceeds → (sys.claims c').Proceeds := by
    intro c' hc'
    by_cases heq : c' = c
    · subst heq
      rw [setClaim_claims, Function.update_self] at hc'
      exact absurd hc' hstate
    · rwa [setClaim_claims, Function.update_of_ne heq] at hc'
  constructor
  · exact h.present
  · intro c' result hdone hproceed
    have hne : c' ≠ c := by
      rintro rfl
      rw [setClaim_claims, Function.update_self] at hdone
      exact hstate ⟨result, hdone, hproceed⟩
    rw [setClaim_claims, Function.update_of_ne hne] at hdone
    exact h.winner c' result hdone hproceed
  · intro c₁ c₂ h₁ h₂
    exact h.unique c₁ c₂ (hold c₁ h₁) (hold c₂ h₂)

/-- The write that creates the key finds no winner before it. -/
theorem OneWinner.created [DecidableEq ι] (h : sys.OneWinner) {c : ι}
    (habsent : sys.backend.present = false) :
    OneWinner ({ sys with backend := ⟨true, true⟩ }.setClaim c
      (.done (⟨true, none, .won⟩ : ClaimResult ε))) := by
  have hnone : ∀ c', ¬ (sys.claims c').Proceeds := by
    rintro c' ⟨result, hdone, hproceed⟩
    have hpresent := h.present (h.winner c' result hdone hproceed).2
    rw [habsent] at hpresent
    cases hpresent
  have honly : ∀ c', (({ sys with backend := ⟨true, true⟩ }.setClaim c
      (.done (⟨true, none, .won⟩ : ClaimResult ε))).claims c').Proceeds → c' = c := by
    intro c' hc'
    by_contra hne
    rw [setClaim_claims, Function.update_of_ne hne] at hc'
    exact hnone c' hc'
  constructor
  · intro _
    rfl
  · intro c' result hdone hproceed
    obtain rfl := honly c' ⟨result, hdone, hproceed⟩
    rw [setClaim_claims, Function.update_self] at hdone
    cases hdone
    exact ⟨rfl, rfl⟩
  · intro c₁ c₂ h₁ h₂
    rw [honly c₁ h₁, honly c₂ h₂]

variable [DecidableEq σ] [DecidableEq ι]

theorem OneWinner.step (h : sys.OneWinner) (hinv : sys.Inv txid)
    (hstep : Step owner pre txid False sys sys') : sys'.OneWinner := by
  cases hstep with
  | localTest c now hpending =>
      have hlocal := Store.claimLocal_cases (ε := ε) (hinv.hasBackend (owner c)) pre txid now
      have hkept : (sys.setStore (owner c)
          ((sys.stores (owner c)).claimLocal (ε := ε) pre txid now).2).OneWinner :=
        ⟨h.present, h.winner, h.unique⟩
      apply hkept.setClaim
      rcases hlocal with hlocal | ⟨_, hlocal⟩ <;> rw [hlocal]
      · exact not_proceeds_atBackend
      · rintro ⟨result, hresult, hproceed⟩
        cases hresult
        cases hproceed
  | setNX c reply backend hsent hreply hfault =>
      cases hreply with
      | created habsent => exact h.created habsent
      | existed _ =>
          apply h.setClaim
          rintro ⟨result, hresult, hproceed⟩
          cases hresult
          cases hproceed
      | lost error => exact (hfault error rfl).elim
      | applied error => exact (hfault error rfl).elim
  | otherTxid store key now hkey => exact ⟨h.present, h.winner, h.unique⟩
  | expire hfault => exact hfault.elim

theorem inv_of_reachable {start : System σ ι ε} (hstart : start.Initial txid)
    (hrun : Relation.ReflTransGen (Step owner pre txid faulty) start sys) : sys.Inv txid := by
  induction hrun with
  | refl => exact hstart.inv
  | tail _ hstep ih => exact ih.step hstep

theorem oneWinner_of_reachable {start : System σ ι ε} (hstart : start.Initial txid)
    (hrun : Relation.ReflTransGen (Step owner pre txid False) start sys) : sys.OneWinner := by
  induction hrun with
  | refl => exact hstart.oneWinner
  | tail hrun hstep ih => exact ih.step (inv_of_reachable hstart hrun) hstep

/-- When all claims are through, at least one proceeds, whatever the backend did; and with a backend
that neither fails nor forgets, exactly one does, without an error. -/
theorem claims_safe {start : System σ ι ε} (hstart : start.Initial txid)
    (hrun : Relation.ReflTransGen (Step owner pre txid faulty) start sys)
    (hdone : ∀ c, ∃ result, sys.claims c = .done result) (hclaim : Nonempty ι) :
    (∃ c result, sys.claims c = .done result ∧ result.proceed = true) ∧
      (¬ faulty → ∃! c, ∃ result, sys.claims c = .done result ∧ result.proceed = true ∧
        result.error = none) := by
  have hsome : ∃ c result, sys.claims c = .done result ∧ result.proceed = true := by
    obtain ⟨c₀⟩ := hclaim
    have hstarted : sys.claims c₀ ≠ .pending := by
      obtain ⟨result, hresult⟩ := hdone c₀
      rw [hresult]
      nofun
    obtain ⟨c, hc | hc⟩ := (inv_of_reachable hstart hrun).started ⟨c₀, hstarted⟩
    · obtain ⟨result, hresult⟩ := hdone c
      rw [hc] at hresult
      cases hresult
    · exact ⟨c, hc⟩
  refine ⟨hsome, fun hfaultless => ?_⟩
  have hwinner : sys.OneWinner := by
    rw [eq_false hfaultless] at hrun
    exact oneWinner_of_reachable hstart hrun
  obtain ⟨c, result, hresult, hproceed⟩ := hsome
  refine ⟨c, ⟨result, hresult, hproceed, (hwinner.winner c result hresult hproceed).1⟩, ?_⟩
  rintro c' ⟨result', hresult', hproceed', _⟩
  exact hwinner.unique c' c ⟨result', hresult', hproceed'⟩ ⟨result, hresult, hproceed⟩

/-- Two claims on a TxID in one fresh store. -/
def twoClaims : System Unit Bool String :=
  ⟨fun _ => ⟨.new 64 1000, true, 1000⟩, ⟨false, false⟩, fun _ => .pending⟩

/-- The second claim is tested while the first is on its way to the backend. -/
theorem claims_safe_twoClaims : ∃ sys : System Unit Bool String,
    Relation.ReflTransGen (Step (fun _ => ()) [] LocalShard.keyA False) twoClaims sys ∧
      ∃! c, ∃ result, sys.claims c = .done result ∧ result.proceed = true ∧
        result.error = none := by
  have hstart : twoClaims.Initial LocalShard.keyA :=
    ⟨fun _ => rfl, fun _ => rfl, rfl, fun _ => rfl⟩
  have hfirst : Relation.ReflTransGen (Step (fun _ => ()) [] LocalShard.keyA False) twoClaims _ :=
    .single (.localTest twoClaims false 5 rfl)
  have hsecond := hfirst.tail (.localTest _ true 6 (by decide))
  have hthird := hsecond.tail
    (.setNX _ false .created ⟨true, true⟩ (by decide) (.created rfl) nofun)
  refine ⟨_, hthird, (claims_safe hstart hthird ?_ ⟨true⟩).2 id⟩
  intro c
  cases c
  · exact ⟨⟨true, none, .won⟩, by decide⟩
  · exact ⟨⟨false, none, .localHit⟩, by decide⟩

end System

end ShardCommon.TxidSet
