import ShardCommon.Proof.ClaimFleet

/-!
# Every refusal has a cause

Whatever the backend does, as long as it only reports keys as existing that it was asked to write
before: a claim is refused because another claim on its prefix and TxID proceeds or is on its way to
the backend, or because the TxID was marked, or claimed under another prefix. The last case is real,
since the local sets do not look at the prefix.
-/

namespace ShardCommon.TxidSet

/-- `written` bounds from above what the backend may report as existing. -/
structure Tier2.Truthful {β ε : Type} (tier : Tier2 β ε) (written : β → List UInt8 → Prop) : Prop where
  existed : ∀ {b now req b'}, tier.setNX b now req .existed b' → written b req.key
  write : ∀ {b now req reply b' key}, tier.setNX b now req reply b' → written b' key →
    written b key ∨ key = req.key
  upkeep : ∀ {b now b' key}, tier.upkeep b now b' → written b' key → written b key

def ClaimPhase.Proceeds {ε : Type} (phase : ClaimPhase ε) : Prop :=
  ∃ result t, phase = .done result t ∧ result.proceed = true

/-- The claim is on its way to the backend, or was told to proceed. -/
def ClaimPhase.Ahead {ε : Type} (phase : ClaimPhase ε) : Prop :=
  (∃ req, phase = .sent req) ∨ phase.Proceeds

theorem ClaimPhase.not_ahead_idle {ε : Type} : ¬ (ClaimPhase.idle : ClaimPhase ε).Ahead := by
  rintro (⟨req, h⟩ | ⟨result, t, h, _⟩) <;> cases h

theorem LocalSet.knows_new (capacity ttl : Int) (txid : Key) :
    (LocalSet.new capacity ttl).knows txid = false := by
  rw [LocalSet.new]
  split <;> rfl

namespace Fleet

variable {σ ι κ β ε : Type}
  {tier : Tier2 β ε} {written : β → List UInt8 → Prop} {claimCall : ι → Call σ}
  {markCall : κ → Call σ} {cfg : σ → Config} {target : Call σ} {f f' start : Fleet σ ι κ β ε}

/-- A claim on the prefix and TxID of `target`. -/
def OnTarget (target : Call σ) (call : Call σ) : Prop :=
  call.pre = target.pre ∧ call.txid = target.txid

/-- The TxID was marked, or claimed under another prefix. -/
def Foreign (claimCall : ι → Call σ) (markCall : κ → Call σ) (target : Call σ)
    (f : Fleet σ ι κ β ε) : Prop :=
  (∃ k, (markCall k).txid = target.txid ∧ f.marks k ≠ .idle) ∨
    ∃ c, (claimCall c).txid = target.txid ∧ (claimCall c).pre ≠ target.pre ∧ f.claims c ≠ .idle

/-- A local set knows the TxID, or a claim on the target was refused. -/
def Stirred (claimCall : ι → Call σ) (target : Call σ) (f : Fleet σ ι κ β ε) : Prop :=
  (∃ s, (f.nodes s).localSet.knows target.txid = true) ∨
    ∃ c result t, OnTarget target (claimCall c) ∧ f.claims c = .done result t ∧ result.proceed = false

structure Caused (written : β → List UInt8 → Prop) (claimCall : ι → Call σ) (target : Call σ)
    (f : Fleet σ ι κ β ε) : Prop where
  written : written f.backend target.key → ∃ c, OnTarget target (claimCall c) ∧ (f.claims c).Proceeds
  stirred : Stirred claimCall target f → ∃ c, OnTarget target (claimCall c) ∧ (f.claims c).Ahead

/-! ## Calls that have begun stay so -/

theorem claimLocal_phase_ne_idle [DecidableEq σ] [DecidableEq ι] (f : Fleet σ ι κ β ε) (call : Call σ)
    (c : ι) (now : Int) :
    (f.claimLocal call c now).claims c ≠ .idle := by
  rw [claimLocal, setClaim_claims, Function.update_self]
  split <;> rintro ⟨⟩

theorem Step.begun [DecidableEq σ] [DecidableEq ι] [DecidableEq κ]
    (hstep : Step tier claimCall markCall f f') :
    (∀ c, f.claims c ≠ .idle → f'.claims c ≠ .idle) ∧ ∀ k, f.marks k ≠ .idle → f'.marks k ≠ .idle := by
  cases hstep with
  | wait | upkeep | receive | answer | close => exact ⟨fun _ h => h, fun _ h => h⟩
  | claimLocal c now hidle =>
      refine ⟨fun c' h => ?_, fun _ h => h⟩
      by_cases hc : c' = c
      · subst hc
        exact claimLocal_phase_ne_idle f _ _ now
      · rwa [Fleet.claimLocal, setClaim_claims, Function.update_of_ne hc]
  | claimBackend c req reply backend hsent hreply =>
      refine ⟨fun c' h => Function.update_ne ?_ h, fun _ h => h⟩
      rintro ⟨⟩
  | markLocal k now hidle | markOffer k htouched =>
      refine ⟨fun _ h => h, fun k' h => Function.update_ne ?_ h⟩
      rintro ⟨⟩

theorem Foreign.step [DecidableEq σ] [DecidableEq ι] [DecidableEq κ]
    (h : Foreign claimCall markCall target f)
    (hstep : Step tier claimCall markCall f f') : Foreign claimCall markCall target f' := by
  obtain ⟨hclaims, hmarks⟩ := hstep.begun
  rcases h with ⟨k, htxid, hbegun⟩ | ⟨c, htxid, hpre, hbegun⟩
  · exact Or.inl ⟨k, htxid, hmarks k hbegun⟩
  · exact Or.inr ⟨c, htxid, hpre, hclaims c hbegun⟩

/-! ## One step -/

/-- What the claims on the target have reached stays when another claim moves. -/
theorem exists_setClaim [DecidableEq ι] {P : ClaimPhase ε → Prop} {c : ι} (phase : ClaimPhase ε)
    (hc : ¬ (OnTarget target (claimCall c) ∧ P (f.claims c)))
    (h : ∃ c', OnTarget target (claimCall c') ∧ P (f.claims c')) :
    ∃ c', OnTarget target (claimCall c') ∧ P ((f.setClaim c phase).claims c') :=
  Function.exists_update_of_not (p := fun c phase => OnTarget target (claimCall c) ∧ P phase) phase h hc

theorem Stirred.of_setClaim [DecidableEq ι] {c : ι} {phase : ClaimPhase ε}
    (hphase : ∀ result t, OnTarget target (claimCall c) → phase = .done result t →
      result.proceed = true)
    (h : Stirred claimCall target (f.setClaim c phase)) : Stirred claimCall target f := by
  rcases h with hknown | ⟨c', result, t, htarget, hdone, hrefused⟩
  · exact Or.inl hknown
  · refine Or.inr ⟨c', result, t, htarget, ?_, hrefused⟩
    by_cases hc : c' = c
    · subst hc
      rw [setClaim_claims, Function.update_self] at hdone
      rw [hphase result t htarget hdone] at hrefused
      cases hrefused
    · rwa [setClaim_claims, Function.update_of_ne hc] at hdone

/-- A store that learns nothing about the TxID. -/
theorem Stirred.of_setNode [DecidableEq σ] {s : σ} {n : Node}
    (hn : n.localSet.knows target.txid = true →
      (f.nodes s).localSet.knows target.txid = true)
    (h : Stirred claimCall target (f.setNode s n)) : Stirred claimCall target f := by
  rcases h with ⟨s', hknown⟩ | hrefused
  · refine Or.inl ⟨s', ?_⟩
    by_cases hs : s' = s
    · subst hs
      exact hn (by simpa [setNode] using hknown)
    · simpa [setNode, hs] using hknown
  · exact Or.inr hrefused

theorem Caused.setNode [DecidableEq σ] (h : f.Caused written claimCall target) {s : σ} {n : Node}
    (hn : n.localSet.knows target.txid = true →
      (f.nodes s).localSet.knows target.txid = true) :
    (f.setNode s n).Caused written claimCall target :=
  ⟨h.written, fun hstirred => h.stirred (hstirred.of_setNode hn)⟩

/-- A claim on another prefix or TxID. -/
theorem Caused.setClaim_of_not_onTarget [DecidableEq ι] (h : f.Caused written claimCall target)
    {c : ι} (phase : ClaimPhase ε) (hc : ¬ OnTarget target (claimCall c)) :
    (f.setClaim c phase).Caused written claimCall target := by
  constructor
  · intro hwritten
    exact exists_setClaim phase (fun hc' => hc hc'.1) (h.written hwritten)
  · intro hstirred
    refine exists_setClaim phase (fun hc' => hc hc'.1) (h.stirred (hstirred.of_setClaim ?_))
    exact fun _ _ htarget => absurd htarget hc

theorem knows_claimLocal {s : Store} {pre : List UInt8} {key txid : Key} {now : Int} (hne : key ≠ txid)
    (h : (s.claimLocal (ε := ε) pre key now).2.localSet.knows txid = true) :
    s.localSet.knows txid = true := by
  have hseen : (s.localSet.seenAndAdd key now).2.knows txid = true := by
    rw [Store.claimLocal] at h
    split at h
    · exact h
    · split at h <;> exact h
  exact LocalSet.knows_of_seenAndAdd_ne hne hseen

theorem Caused.claimLocal [DecidableEq σ] [DecidableEq ι] (h : f.Caused written claimCall target)
    (hwired : f.Wired cfg claimCall markCall) {c : ι} (now : Int) (hidle : f.claims c = .idle)
    (hforeign : ¬ Foreign claimCall markCall target (f.claimLocal (claimCall c) c now)) :
    (f.claimLocal (claimCall c) c now).Caused written claimCall target := by
  by_cases htxid : (claimCall c).txid = target.txid
  · by_cases hpre : (claimCall c).pre = target.pre
    · have hnone : ¬ (f.claims c).Ahead := by
        rw [hidle]
        exact ClaimPhase.not_ahead_idle
      have hahead : ∃ c', OnTarget target (claimCall c') ∧
          ((f.claimLocal (claimCall c) c now).claims c').Ahead := by
        rw [Fleet.claimLocal]
        rcases Store.claimLocal_cases (ε := ε) (hwired.hasBackend (claimCall c).store)
          (claimCall c).pre (claimCall c).txid now with hhalf | ⟨hknown, hhalf⟩
        · exact ⟨c, ⟨hpre, htxid⟩, Or.inl ⟨_, by rw [setClaim_claims, Function.update_self, hhalf]⟩⟩
        · -- a local hit relies on the claim that put the entry there
          rw [htxid] at hknown
          exact exists_setClaim _ (fun hc => hnone hc.2) (h.stirred (Or.inl ⟨_, hknown⟩))
      refine ⟨fun hwritten => ?_, fun _ => hahead⟩
      exact exists_setClaim _ (fun hc => hnone (Or.inr hc.2)) (h.written hwritten)
    · exact absurd (Or.inr ⟨c, htxid, hpre, claimLocal_phase_ne_idle f _ c now⟩) hforeign
  · rw [Fleet.claimLocal]
    refine Caused.setClaim_of_not_onTarget (h.setNode ?_) _ fun hc => htxid hc.2
    exact knows_claimLocal htxid

theorem Caused.replied (h : f.Caused written claimCall target) (htruthful : tier.Truthful written)
    {owner : ι ⊕ σ} {req : SetNXRequest} {reply : SetNXReply ε} {backend : β}
    (hreply : tier.setNX f.backend f.clock req reply backend) (hkey : target.key ≠ req.key) :
    (f.replied owner req reply backend).Caused written claimCall target := by
  refine ⟨fun hwritten => h.written ?_, h.stirred⟩
  exact (htruthful.write hreply hwritten).resolve_right hkey

theorem Caused.claimBackend [DecidableEq ι] (h : f.Caused written claimCall target)
    (hwired : f.Wired cfg claimCall markCall) (htruthful : tier.Truthful written) {c : ι}
    {req : SetNXRequest} {reply : SetNXReply ε} {backend : β} (hsent : f.claims c = .sent req)
    (hreply : tier.setNX f.backend f.clock req reply backend) :
    ((f.replied (.inl c) req reply backend).setClaim c
      (.done (Store.claimReply reply) f.clock)).Caused written claimCall target := by
  obtain rfl := hwired.sent c req hsent
  by_cases hc : OnTarget target (claimCall c)
  · -- the claim proceeds, or the key is there because of another one that did
    have hsome : ∃ c', OnTarget target (claimCall c') ∧
        (((f.replied (.inl c) (claimRequest cfg (claimCall c)) reply backend).setClaim c
          (.done (Store.claimReply reply) f.clock)).claims c').Proceeds := by
      cases reply with
      | created => exact ⟨c, hc, _, _, Function.update_self .., rfl⟩
      | failed error => exact ⟨c, hc, _, _, Function.update_self .., rfl⟩
      | existed =>
          have hwritten := htruthful.existed hreply
          rw [claimRequest, Call.key_congr hc.1 hc.2] at hwritten
          refine exists_setClaim _ ?_ (h.written hwritten)
          rintro ⟨_, result, t, hdone, _⟩
          rw [show (f.replied (.inl c) (claimRequest cfg (claimCall c)) .existed backend).claims c
            = _ from hsent] at hdone
          cases hdone
    refine ⟨fun _ => hsome, fun _ => ?_⟩
    obtain ⟨c', htarget, hproceeds⟩ := hsome
    exact ⟨c', htarget, Or.inr hproceeds⟩
  · refine Caused.setClaim_of_not_onTarget (h.replied htruthful hreply ?_) _ hc
    intro hkey
    exact hc ((Call.key_inj hkey).imp Eq.symm Eq.symm)

theorem Caused.step [DecidableEq σ] [DecidableEq ι] [DecidableEq κ]
    (h : f.Caused written claimCall target)
    (hwired : f.Wired cfg claimCall markCall) (htruthful : tier.Truthful written)
    (hstep : Step tier claimCall markCall f f')
    (hforeign : ¬ Foreign claimCall markCall target f') : f'.Caused written claimCall target := by
  have hbefore : ¬ Foreign claimCall markCall target f := fun hf => hforeign (hf.step hstep)
  cases hstep with
  | wait later hlater => exact ⟨h.written, h.stirred⟩
  | upkeep backend hup => exact ⟨fun hwritten => h.written (htruthful.upkeep hup hwritten), h.stirred⟩
  | claimLocal c now hidle => exact h.claimLocal hwired now hidle hforeign
  | claimBackend c req reply backend hsent hreply =>
      exact h.claimBackend hwired htruthful hsent hreply
  | markLocal k now hidle =>
      by_cases htxid : (markCall k).txid = target.txid
      · refine absurd (Or.inl ⟨k, htxid, ?_⟩) hforeign
        rw [setMark_marks, Function.update_self]
        rintro ⟨⟩
      · have hnode := h.setNode (s := (markCall k).store)
          (n := (f.nodes (markCall k).store).touch (markCall k).txid now)
          (LocalSet.knows_of_seenAndAdd_ne htxid)
        exact ⟨hnode.written, hnode.stirred⟩
  | markOffer k htouched =>
      have hnode := h.setNode (s := (markCall k).store)
        (n := ((f.nodes (markCall k).store).offer (ε := ε) (markCall k).pre (markCall k).txid).2)
        (by rw [Node.offer_localSet]; exact id)
      exact ⟨hnode.written, hnode.stirred⟩
  | receive s i action n hreceive =>
      exact h.setNode (by rw [Node.receive_localSet hreceive]; exact id)
  | answer s i job reply backend n hanswer hreply =>
      obtain ⟨k, rfl, hbegun, rfl⟩ := hwired.jobs s job (Node.hasJob_of_answer hanswer)
      refine (h.replied htruthful hreply fun hkey => ?_).setNode
        (by rw [Node.answer_localSet hanswer]; exact id)
      exact hbefore (Or.inl ⟨k, (Call.key_inj hkey).2.symm, hbegun⟩)
  | close s => exact h.setNode (by rw [Node.beginClose_localSet]; exact id)

/-! ## Runs -/

theorem Initial.unknown (h : start.Initial cfg) (s : σ) (txid : Key) :
    (start.nodes s).localSet.knows txid = false := by
  rw [(Node.new_ok (h.nodes s).2).2]
  exact LocalSet.knows_new ..

variable [DecidableEq σ] [DecidableEq ι] [DecidableEq κ]

theorem caused_of_reachable (htruthful : tier.Truthful written) (hstart : start.Initial cfg)
    (hunwritten : ¬ written start.backend target.key)
    (hrun : Relation.ReflTransGen (Step tier claimCall markCall) start f) :
    Foreign claimCall markCall target f ∨ f.Caused written claimCall target := by
  induction hrun with
  | refl =>
      refine Or.inr ⟨fun hwritten => absurd hwritten hunwritten, ?_⟩
      rintro (⟨s, hknown⟩ | ⟨c, result, t, _, hdone, _⟩)
      · rw [hstart.unknown] at hknown
        cases hknown
      · rw [hstart.claims c] at hdone
        cases hdone
  | @tail f f' hrun hstep ih =>
      by_cases hforeign : Foreign claimCall markCall target f'
      · exact Or.inl hforeign
      · have hcaused := ih.resolve_left fun hf => hforeign (hf.step hstep)
        exact Or.inr (hcaused.step (wired_of_reachable hstart hrun) htruthful hstep hforeign)

/-- **No refusal without a cause.** In every interleaving, with a backend that may fail, lose keys and
answer in any order but does not make up keys nobody wrote: when a claim has been refused, another
claim on its prefix and TxID proceeds or is still on its way to the backend, or the TxID has been
marked, or claimed under another prefix. -/
theorem refusals_caused (htruthful : tier.Truthful written) (hstart : start.Initial cfg)
    {c : ι} (hunwritten : ¬ written start.backend (claimCall c).key)
    (hrun : Relation.ReflTransGen (Step tier claimCall markCall) start f)
    {result : ClaimResult ε} {t : Int} (hdone : f.claims c = .done result t)
    (hrefused : result.proceed = false) :
    (∃ c', (claimCall c').pre = (claimCall c).pre ∧ (claimCall c').txid = (claimCall c).txid ∧
        ((∃ req, f.claims c' = .sent req) ∨ (f.claims c').Proceeds)) ∨
      (∃ k, (markCall k).txid = (claimCall c).txid ∧ f.marks k ≠ .idle) ∨
      ∃ c', (claimCall c').txid = (claimCall c).txid ∧ (claimCall c').pre ≠ (claimCall c).pre ∧
        f.claims c' ≠ .idle := by
  rcases caused_of_reachable htruthful hstart hunwritten hrun with hforeign | hcaused
  · exact Or.inr hforeign
  · obtain ⟨c', ⟨hpre, htxid⟩, hahead⟩ :=
      hcaused.stirred (Or.inr ⟨c, result, t, ⟨rfl, rfl⟩, hdone, hrefused⟩)
    exact Or.inl ⟨c', hpre, htxid, hahead⟩

end Fleet

/-- A create-only register that may fail before or after it took the write, and may forget. -/
def registerTier (ε : Type) : Tier2 (Set (List UInt8)) ε where
  setNX b _ req reply b' :=
    match reply with
    | .created => req.key ∉ b ∧ b' = insert req.key b
    | .existed => req.key ∈ b ∧ b' = b
    | .failed _ => b' = b ∨ b' = insert req.key b
  upkeep b _ b' := b' ⊆ b

theorem registerTier_truthful (ε : Type) :
    (registerTier ε).Truthful fun b key => key ∈ b where
  existed h := h.1
  write {b now req reply b' key} h hkey := by
    have hinsert : b' = b ∨ b' = insert req.key b := by
      cases reply with
      | created => exact Or.inr h.2
      | existed => exact Or.inl h.2
      | failed error => exact h
    rcases hinsert with rfl | rfl
    · exact Or.inl hkey
    · exact hkey.symm
  upkeep h hkey := h hkey

namespace Fleet

def soleStart : Fleet Unit Bool Unit (Set (List UInt8)) Unit where
  nodes := fun _ => .fresh Node.smallConfig true false
  claims := fun _ => .idle
  marks := fun _ => .idle
  backend := ∅
  clock := 0
  grants := []

def soleCall : Call Unit := ⟨(), [], .copy 32 []⟩

/-- Two claims in one store: the second is a local hit while the first is at the backend. -/
theorem refusals_caused_localHit :
    (∃ c', (∃ req, ((soleStart.claimLocal soleCall true 0).claimLocal soleCall false 0).claims c'
        = .sent req) ∨
      (((soleStart.claimLocal soleCall true 0).claimLocal soleCall false 0).claims c').Proceeds) := by
  have hstart : soleStart.Initial fun _ => Node.smallConfig :=
    ⟨fun _ => ⟨rfl, rfl⟩, fun _ => rfl, fun _ => rfl, rfl⟩
  have hrun : Relation.ReflTransGen (Step (registerTier Unit) (fun _ => soleCall) fun _ => soleCall)
      soleStart ((soleStart.claimLocal soleCall true 0).claimLocal soleCall false 0) :=
    .tail (.single (.claimLocal _ true 0 rfl)) (.claimLocal _ false 0 rfl)
  have hdone : ((soleStart.claimLocal soleCall true 0).claimLocal soleCall false 0).claims false
      = .done ⟨false, none, .localHit⟩ 0 := by decide +kernel
  rcases refusals_caused (registerTier_truthful Unit) hstart (Set.notMem_empty _) hrun hdone rfl with
    ⟨c', _, _, h⟩ | ⟨k, _, hbegun⟩ | ⟨c', _, hpre, _⟩
  · exact ⟨c', h⟩
  · exact absurd rfl hbegun
  · exact absurd rfl hpre

end Fleet

end ShardCommon.TxidSet
