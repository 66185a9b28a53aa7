import ShardCommon.Proof.CacheRefinement
import ShardCommon.Proof.ClaimFleet

/-!
# A fleet over the in-memory backend

With the in-memory backend as the shared tier, and no cap on it, every write that creates a key is a
lease: the backend is a TTL map, whose create-only write goes through exactly when the last grant on
the key is over. Claims and queued marks take part in it alike.
-/

namespace ShardCommon.TxidSet

open MemoryCache (Backend Simulates maxInt64)
open Leases

/-- The in-memory backend never fails; on its own it runs passes of its expirer. -/
def memoryTier (ε : Type) : Tier2 Backend ε where
  setNX b now req reply b' :=
    b' = (b.setNX req.key (some req.value) req.ttl now).1 ∧
      reply = if (b.setNX req.key (some req.value) req.ttl now).2 then .created else .existed
  upkeep b now b' := (∃ index, b' = b.expirePass index now) ∨ b' = b.expireAll now

namespace Fleet

variable {σ ι κ ε : Type}
  {claimCall : ι → Call σ} {markCall : κ → Call σ} {cfg : σ → Config}
  {f f' start : Fleet σ ι κ Backend ε}

structure Leased (cfg : σ → Config) (claimCall : ι → Call σ) (markCall : κ → Call σ)
    (f : Fleet σ ι κ Backend ε) : Prop where
  sound : ∃ m, Simulates f.backend m f.clock ∧ Sound maxInt64 m f.grants
  past : ∀ g ∈ f.grants, g.time ≤ f.clock
  won : ∀ c result t, f.claims c = .done result t → result.proceed = true →
    ⟨(claimCall c).key, .inl c, t, (cfg (claimCall c).store).ttl⟩ ∈ f.grants
  lost : ∀ c result t, f.claims c = .done result t → result.event = .lost →
    ∃ g ∈ f.grants, g.key = (claimCall c).key ∧ g.time ≤ t ∧ g.Live maxInt64 t
  origin : ∀ g ∈ f.grants, (∃ c, g.owner = .inl c ∧ g.key = (claimCall c).key) ∨
    ∃ k, g.owner = .inr (markCall k).store ∧ f.marks k ≠ .idle ∧ g.key = (markCall k).key

/-- The reply of the backend is a grant from now on, or names one that is running. -/
theorem Leased.replied (h : f.Leased cfg claimCall markCall) {owner : ι ⊕ σ} {req : SetNXRequest}
    {reply : SetNXReply ε} {backend : Backend}
    (hreply : (memoryTier ε).setNX f.backend f.clock req reply backend)
    (horigin : (∃ c, owner = .inl c ∧ req.key = (claimCall c).key) ∨
      ∃ k, owner = .inr (markCall k).store ∧ f.marks k ≠ .idle ∧ req.key = (markCall k).key) :
    (f.replied owner req reply backend).Leased cfg claimCall markCall ∧
      ((reply = .created ∧
          ⟨req.key, owner, f.clock, req.ttl⟩ ∈ (f.replied owner req reply backend).grants) ∨
        (reply = .existed ∧ ∃ g ∈ (f.replied owner req reply backend).grants,
          g.key = req.key ∧ g.time ≤ f.clock ∧ g.Live maxInt64 f.clock)) := by
  obtain ⟨m, hsim, hsound⟩ := h.sound
  obtain ⟨rfl, rfl⟩ := hreply
  obtain ⟨hverdict, hnext⟩ := hsim.setNX req.key (some req.value) req.ttl
  cases hwon : (f.backend.setNX req.key (some req.value) req.ttl f.clock).2 with
  | true =>
      rw [hwon, eq_comm] at hverdict
      have hgranted := hsound.granted owner hverdict
      refine ⟨⟨⟨_, hnext, hgranted⟩, ?_, ?_, ?_, ?_⟩, Or.inl ⟨rfl, List.mem_cons_self⟩⟩
      · intro g hg
        rcases List.mem_cons.mp hg with rfl | hg
        · exact Int.le_refl _
        · exact h.past g hg
      · intro c result t hdone hproceed
        exact List.mem_cons_of_mem _ (h.won c result t hdone hproceed)
      · intro c result t hdone hevent
        obtain ⟨g, hg, hlive⟩ := h.lost c result t hdone hevent
        exact ⟨g, List.mem_cons_of_mem _ hg, hlive⟩
      · intro g hg
        rcases List.mem_cons.mp hg with rfl | hg
        · exact horigin
        · exact h.origin g hg
  | false =>
      rw [hwon, eq_comm] at hverdict
      obtain ⟨hsame, g, hg, hkey, hlive⟩ := hsound.refused hverdict
      rw [hsame] at hnext
      exact ⟨⟨⟨m, hnext, hsound⟩, h.past, h.won, h.lost, h.origin⟩,
        Or.inr ⟨rfl, g, hg, hkey, h.past g hg, hlive⟩⟩

/-- Moving a claim on, to a result that the grants bear out. -/
theorem Leased.setClaim [DecidableEq ι] (h : f.Leased cfg claimCall markCall) {c : ι}
    {phase : ClaimPhase ε}
    (hwon : ∀ result t, phase = .done result t → result.proceed = true →
      ⟨(claimCall c).key, .inl c, t, (cfg (claimCall c).store).ttl⟩ ∈ f.grants)
    (hlost : ∀ result t, phase = .done result t → result.event = .lost →
      ∃ g ∈ f.grants, g.key = (claimCall c).key ∧ g.time ≤ t ∧ g.Live maxInt64 t) :
    (f.setClaim c phase).Leased cfg claimCall markCall where
  sound := h.sound
  past := h.past
  won := Function.forall_update_of_forall (p := fun c (phase : ClaimPhase ε) =>
    ∀ result t, phase = .done result t → result.proceed = true →
      ⟨(claimCall c).key, .inl c, t, (cfg (claimCall c).store).ttl⟩ ∈ f.grants) h.won hwon
  lost := Function.forall_update_of_forall (p := fun c (phase : ClaimPhase ε) =>
    ∀ result t, phase = .done result t → result.event = .lost →
      ∃ g ∈ f.grants, g.key = (claimCall c).key ∧ g.time ≤ t ∧ g.Live maxInt64 t) h.lost hlost
  origin := h.origin

theorem Leased.setNode [DecidableEq σ] (h : f.Leased cfg claimCall markCall) (s : σ) (n : Node) :
    (f.setNode s n).Leased cfg claimCall markCall := ⟨h.sound, h.past, h.won, h.lost, h.origin⟩

theorem Leased.setMark [DecidableEq κ] (h : f.Leased cfg claimCall markCall) (k : κ)
    {phase : MarkPhase} (hphase : phase ≠ .idle) :
    (f.setMark k phase).Leased cfg claimCall markCall := by
  refine ⟨h.sound, h.past, h.won, h.lost, fun g hg => ?_⟩
  rcases h.origin g hg with hclaim | ⟨k', howner, hbegun, hkey⟩
  · exact Or.inl hclaim
  · exact Or.inr ⟨k', howner, Function.update_ne hphase hbegun, hkey⟩

theorem Leased.claimLocal [DecidableEq σ] [DecidableEq ι] (h : f.Leased cfg claimCall markCall)
    (hwired : f.Wired cfg claimCall markCall) (c : ι) (now : Int) :
    (f.claimLocal (claimCall c) c now).Leased cfg claimCall markCall := by
  refine Leased.setClaim (h.setNode _ _) ?_ ?_
  all_goals
    intro result t hphase hresult
    rcases Store.claimLocal_cases (ε := ε) (hwired.hasBackend (claimCall c).store) (claimCall c).pre
      (claimCall c).txid now with hhalf | ⟨_, hhalf⟩ <;> rw [hhalf] at hphase
    · cases hphase
    · cases hphase
      cases hresult

theorem Leased.claimBackend [DecidableEq ι] (h : f.Leased cfg claimCall markCall)
    (hwired : f.Wired cfg claimCall markCall) {c : ι} {req : SetNXRequest} {reply : SetNXReply ε}
    {backend : Backend} (hsent : f.claims c = .sent req)
    (hreply : (memoryTier ε).setNX f.backend f.clock req reply backend) :
    ((f.replied (.inl c) req reply backend).setClaim c
      (.done (Store.claimReply reply) f.clock)).Leased cfg claimCall markCall := by
  have hreq := hwired.sent c req hsent
  obtain ⟨hreplied, hcases⟩ := h.replied hreply (Or.inl ⟨c, rfl, by rw [hreq, claimRequest]⟩)
  subst hreq
  refine hreplied.setClaim ?_ ?_
  · intro result t hdone hproceed
    cases hdone
    rcases hcases with ⟨_, hgrant⟩ | ⟨rfl, _⟩
    · exact hgrant
    · cases hproceed
  · intro result t hdone hevent
    cases hdone
    rcases hcases with ⟨rfl, _⟩ | ⟨_, hrunning⟩
    · cases hevent
    · exact hrunning

variable [DecidableEq σ] [DecidableEq ι] [DecidableEq κ]

theorem Leased.step (h : f.Leased cfg claimCall markCall) (hwired : f.Wired cfg claimCall markCall)
    (hstep : Step (memoryTier ε) claimCall markCall f f') : f'.Leased cfg claimCall markCall := by
  cases hstep with
  | wait later hlater =>
      obtain ⟨m, hsim, hsound⟩ := h.sound
      exact ⟨⟨m, hsim.mono hlater, hsound⟩, fun g hg => (h.past g hg).trans hlater, h.won, h.lost,
        h.origin⟩
  | upkeep backend hup =>
      obtain ⟨m, hsim, hsound⟩ := h.sound
      refine ⟨⟨m, ?_, hsound⟩, h.past, h.won, h.lost, h.origin⟩
      rcases hup with ⟨index, rfl⟩ | rfl
      · exact hsim.expirePass index
      · exact hsim.expireAll
  | claimLocal c now hidle => exact h.claimLocal hwired c now
  | claimBackend c req reply backend hsent hreply => exact h.claimBackend hwired hsent hreply
  | markLocal k now hidle =>
      refine (h.setNode _ _).setMark k ?_
      intro hphase
      cases hphase
  | markOffer k htouched =>
      refine (h.setNode _ _).setMark k ?_
      intro hphase
      cases hphase
  | receive s i action n hreceive => exact h.setNode s n
  | answer s i job reply backend n hanswer hreply =>
      obtain ⟨k, rfl, hbegun, rfl⟩ := hwired.jobs s job (Node.hasJob_of_answer hanswer)
      exact (h.replied hreply (Or.inr ⟨k, rfl, hbegun, rfl⟩)).1.setNode _ n
  | close s => exact h.setNode s _

theorem leased_of_reachable {opts : MemoryCache.Options} (hkeys : opts.maxKeys ≤ 0)
    (hbytes : opts.maxBytes ≤ 0) (hstart : start.Initial cfg)
    (hbackend : start.backend = .newWithOptions opts) (hclock : 0 ≤ start.clock)
    (hrun : Relation.ReflTransGen (Step (memoryTier ε) claimCall markCall) start f) :
    f.Leased cfg claimCall markCall := by
  induction hrun with
  | refl =>
      constructor
      · refine ⟨fun _ => none, ?_, ?_⟩
        · rw [hbackend]
          exact (MemoryCache.newWithOptions_simulates hkeys hbytes).mono hclock
        · rw [hstart.grants]
          exact Sound.empty _
      · rw [hstart.grants]
        intro g hg
        cases hg
      · intro c result t hdone
        rw [hstart.claims c] at hdone
        cases hdone
      · intro c result t hdone
        rw [hstart.claims c] at hdone
        cases hdone
      · rw [hstart.grants]
        intro g hg
        cases hg
  | tail hrun hstep ih => exact ih.step (wired_of_reachable hstart hrun) hstep

/-- **One winner per lifetime.** Over the uncapped in-memory backend, in every interleaving of claims,
marks, workers, closes and passes of the expirer: two claims on one prefix and TxID that are both told
to proceed are at least a TTL apart, in whichever stores; so are such a claim and a queued mark whose
write created the key; and a claim that loses at the backend loses to a write, by a claim or a mark on
the same prefix and TxID, that has not run out. -/
theorem winners_apart {opts : MemoryCache.Options} (hkeys : opts.maxKeys ≤ 0)
    (hbytes : opts.maxBytes ≤ 0) (hstart : start.Initial cfg)
    (hbackend : start.backend = .newWithOptions opts) (hclock : 0 ≤ start.clock)
    (hrun : Relation.ReflTransGen (Step (memoryTier ε) claimCall markCall) start f) :
    (∀ c c' result result' t t', c ≠ c' → (claimCall c).pre = (claimCall c').pre →
        (claimCall c).txid = (claimCall c').txid → f.claims c = .done result t →
        f.claims c' = .done result' t' → result.proceed = true → result'.proceed = true →
        t + (cfg (claimCall c).store).ttl ≤ t' ∨ t' + (cfg (claimCall c').store).ttl ≤ t) ∧
      (∀ c result t s, f.claims c = .done result t → result.proceed = true →
        ∀ g ∈ f.grants, g.owner = .inr s → g.key = (claimCall c).key →
          t + (cfg (claimCall c).store).ttl ≤ g.time ∨ g.time + g.ttl ≤ t) ∧
      ∀ c result t, f.claims c = .done result t → result.event = .lost →
        ∃ g ∈ f.grants, g.time ≤ t ∧ g.Live maxInt64 t ∧
          ((∃ c', g.owner = .inl c' ∧ (claimCall c').pre = (claimCall c).pre ∧
              (claimCall c').txid = (claimCall c).txid) ∨
            ∃ k, g.owner = .inr (markCall k).store ∧ f.marks k ≠ .idle ∧
              (markCall k).pre = (claimCall c).pre ∧ (markCall k).txid = (claimCall c).txid) := by
  have hleased := leased_of_reachable hkeys hbytes hstart hbackend hclock hrun
  obtain ⟨m, _, hsound⟩ := hleased.sound
  refine ⟨?_, ?_, ?_⟩
  · intro c c' result result' t t' hne hpre htxid hdone hdone' hproceed hproceed'
    have hg := hleased.won c result t hdone hproceed
    have hg' := hleased.won c' result' t' hdone' hproceed'
    refine hsound.disjoint hg hg' ?_ (Call.key_congr hpre htxid)
    intro hsame
    exact hne (Sum.inl.inj (Grant.mk.inj hsame).2.1)
  · intro c result t s hdone hproceed g hg howner hkey
    refine hsound.disjoint (hleased.won c result t hdone hproceed) hg ?_ hkey.symm
    rintro rfl
    cases howner
  · intro c result t hdone hevent
    obtain ⟨g, hg, hkey, htime, hlive⟩ := hleased.lost c result t hdone hevent
    refine ⟨g, hg, htime, hlive, ?_⟩
    rcases hleased.origin g hg with ⟨c', howner, horigin⟩ | ⟨k, howner, hbegun, horigin⟩
    · exact Or.inl ⟨c', howner, Call.key_inj (horigin.symm.trans hkey)⟩
    · exact Or.inr ⟨k, howner, hbegun, Call.key_inj (horigin.symm.trans hkey)⟩

/-- Two stores, one claim in each, both on the same TxID; the first one is through. -/
def pairStart : Fleet Bool Bool Unit Backend Unit where
  nodes := fun _ => .fresh Node.smallConfig true false
  claims := fun _ => .idle
  marks := fun _ => .idle
  backend := .newWithOptions ⟨0, 0⟩
  clock := 0
  grants := []

def pairCall (store : Bool) : Call Bool := ⟨store, [], .copy 32 []⟩

def pairRequest : SetNXRequest := claimRequest (fun _ => Node.smallConfig) (pairCall true)

/-- The fleet after both halves of one claim. -/
def pairClaim (f : Fleet Bool Bool Unit Backend Unit) (c : Bool) (reply : SetNXReply Unit) :
    Fleet Bool Bool Unit Backend Unit :=
  ((f.claimLocal (pairCall c) c 0).replied (.inl c) pairRequest reply
    (f.backend.setNX pairRequest.key (some pairRequest.value) pairRequest.ttl f.clock).1).setClaim c
      (.done (Store.claimReply reply) f.clock)

theorem pairClaim_steps {f : Fleet Bool Bool Unit Backend Unit} {c : Bool}
    {reply : SetNXReply Unit} (hidle : f.claims c = .idle)
    (hsent : (f.claimLocal (pairCall c) c 0).claims c = .sent pairRequest)
    (hreply : reply = if (f.backend.setNX pairRequest.key (some pairRequest.value) pairRequest.ttl
      f.clock).2 then .created else .existed) :
    Relation.ReflTransGen (Step (memoryTier Unit) pairCall fun _ => pairCall true) f
      (pairClaim f c reply) :=
  .tail (.single (.claimLocal f c 0 hidle)) (.claimBackend _ c pairRequest reply _ hsent ⟨rfl, hreply⟩)

/-- The second store's claim loses to the grant of the first. -/
theorem winners_apart_lost : ∃ g ∈ (pairClaim (pairClaim pairStart true .created) false .existed).grants,
    g.time ≤ 0 ∧ g.Live maxInt64 0 := by
  have hstart : pairStart.Initial fun _ => Node.smallConfig :=
    ⟨fun _ => ⟨rfl, rfl⟩, fun _ => rfl, fun _ => rfl, rfl⟩
  have hfirst : Relation.ReflTransGen (Step (memoryTier Unit) pairCall fun _ => pairCall true)
      pairStart (pairClaim pairStart true .created) :=
    pairClaim_steps rfl (by decide +kernel) (by decide +kernel)
  have hsecond : Relation.ReflTransGen (Step (memoryTier Unit) pairCall fun _ => pairCall true)
      (pairClaim pairStart true .created)
      (pairClaim (pairClaim pairStart true .created) false .existed) :=
    pairClaim_steps rfl (by decide +kernel) (by decide +kernel)
  obtain ⟨g, hg, htime, hlive, _⟩ := (winners_apart (Int.le_refl 0) (Int.le_refl 0) hstart rfl
    (Int.le_refl 0) (hfirst.trans hsecond)).2.2 false _ 0 rfl rfl
  exact ⟨g, hg, htime, hlive⟩

end Fleet

end ShardCommon.TxidSet
