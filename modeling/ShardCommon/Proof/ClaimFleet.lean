import ShardCommon.ClaimFleet
import ShardCommon.Proof.ClaimSafety
import ShardCommon.Proof.MarkQueue

/-!
# What every fleet keeps

The requests that are on their way to the backend are those of the calls that were made: a claim asks
for its own key, and every queued job stands for a mark that has begun. The keys tell the calls apart,
since the TxID has a fixed width behind the prefix.
-/

namespace ShardCommon.TxidSet

open Go

/-! ## Keys -/

theorem hexDigit_inj {a b : Nat} (ha : a < 16) (hb : b < 16)
    (h : Store.hexDigit a = Store.hexDigit b) : a = b := by
  rw [Store.hexDigit, Store.hexDigit] at h
  have hnat := congrArg UInt8.toNat h
  rw [UInt8.toNat_ofNat', UInt8.toNat_ofNat'] at hnat
  split at hnat <;> split at hnat <;> omega

theorem hexEncode_length (bytes : List UInt8) :
    (Store.hexEncode bytes).length = 2 * bytes.length := by
  induction bytes with
  | nil => rfl
  | cons b bytes ih =>
      rw [Store.hexEncode, List.flatMap_cons, List.length_append, ← Store.hexEncode, ih]
      simp only [List.length_cons, List.length_nil]
      omega

theorem hexEncode_inj {a b : List UInt8} (h : Store.hexEncode a = Store.hexEncode b) : a = b := by
  induction a generalizing b with
  | nil =>
      have hlength := congrArg List.length h
      rw [hexEncode_length, hexEncode_length] at hlength
      exact (List.length_eq_zero_iff.mp (by simpa using hlength.symm)).symm
  | cons x a ih =>
      cases b with
      | nil => cases h
      | cons y b =>
          have hx := x.toNat_lt
          have hy := y.toNat_lt
          obtain ⟨hhigh, hrest⟩ := List.cons.inj h
          obtain ⟨hlow, htail⟩ := List.cons.inj hrest
          have hdiv := hexDigit_inj (by omega) (by omega) hhigh
          have hmod := hexDigit_inj (by omega) (by omega) hlow
          have hxy : x = y := UInt8.toNat_inj.mp (by omega)
          rw [hxy, ih htail]

/-- Two calls share a key of the backend only if they share prefix and TxID. -/
theorem Call.key_inj {σ : Type} {a b : Call σ} (h : a.key = b.key) :
    a.pre = b.pre ∧ a.txid = b.txid := by
  have hlength : (Store.hexEncode a.txid.val).length = (Store.hexEncode b.txid.val).length := by
    rw [hexEncode_length, hexEncode_length, a.txid.property, b.txid.property]
  obtain ⟨hpre, htxid⟩ := List.append_inj' h hlength
  exact ⟨hpre, Subtype.ext (hexEncode_inj htxid)⟩

theorem Call.key_congr {σ : Type} {a b : Call σ} (hpre : a.pre = b.pre) (htxid : a.txid = b.txid) :
    a.key = b.key := by
  rw [Call.key, Call.key, hpre, htxid]

/-! ## The jobs of a store -/

namespace Node

variable {ε : Type} {n n' : Node} {job : MarkJob}

/-- The job waits in the channel or is with a worker. -/
def HasJob (n : Node) (job : MarkJob) : Prop :=
  job ∈ n.markCh.buffer ∨ .calling job ∈ n.workers

theorem HasJob.of_offer {pre : List UInt8} {txid : Key}
    (h : (n.offer (ε := ε) pre txid).2.HasJob job) : n.HasJob job ∨ job = n.job pre txid := by
  rcases offer_cases (ε := ε) n pre txid with ⟨ch, hoffer, _, hsent⟩ | hoffer | ⟨hoffer, _⟩
  · rw [hoffer] at h
    rcases h with hjob | hjob
    · rw [(Chan.trySend_sent hsent).2.2.2] at hjob
      rcases List.mem_append.mp hjob with hjob | hjob
      · exact Or.inl (Or.inl hjob)
      · exact Or.inr (List.mem_singleton.mp hjob)
    · exact Or.inl (Or.inr hjob)
  · rw [hoffer] at h
    exact Or.inl h
  · rw [hoffer] at h
    exact Or.inl h

theorem HasJob.of_receive {i : Nat} {action : MarkAction ε}
    (hreceive : n.receive i = some (action, n')) (h : n'.HasJob job) : n.HasJob job := by
  obtain ⟨_, ⟨taken, ch, _, rfl, hvalue⟩ | ⟨_, rfl, _⟩⟩ := receive_cases hreceive
  · have hbuffer := (Chan.receive_value hvalue).2.2
    rcases h with hjob | hjob
    · exact Or.inl (hbuffer ▸ List.mem_cons_of_mem _ hjob)
    · rcases mem_setWorker hjob with hjob | hjob
      · cases hjob
        exact Or.inl (hbuffer ▸ List.mem_cons_self)
      · exact Or.inr hjob
  · rcases h with hjob | hjob
    · exact Or.inl hjob
    · rcases mem_setWorker hjob with hjob | hjob
      · cases hjob
      · exact Or.inr hjob

theorem HasJob.of_answer {i : Nat} {reply : SetNXReply ε} {action : MarkAction ε}
    (hanswer : n.answer i reply = some (action, n')) (h : n'.HasJob job) : n.HasJob job := by
  obtain ⟨_, _, _, rfl⟩ := answer_cases hanswer
  rcases h with hjob | hjob
  · exact Or.inl hjob
  · rcases mem_setWorker hjob with hjob | hjob
    · cases hjob
    · exact Or.inr hjob

theorem hasJob_beginClose : n.beginClose.HasJob job ↔ n.HasJob job := by
  rw [HasJob, HasJob, beginClose_buffer, beginClose_workers]

theorem hasJob_of_answer {i : Nat} {reply : SetNXReply ε}
    (hanswer : n.answer i reply = some (.answered job reply, n')) : n.HasJob job := by
  obtain ⟨_, hworker, haction, _⟩ := answer_cases hanswer
  cases haction
  exact Or.inr (List.mem_of_getElem? hworker)

theorem not_hasJob_fresh (cfg : Config) (hasBackend ownBackend : Bool) :
    ¬ (fresh cfg hasBackend ownBackend).HasJob job := by
  rintro (hjob | hjob)
  · cases hjob
  · cases List.eq_of_mem_replicate hjob

theorem offer_localSet (n : Node) (pre : List UInt8) (txid : Key) :
    (n.offer (ε := ε) pre txid).2.localSet = n.localSet := by
  rcases offer_cases (ε := ε) n pre txid with ⟨ch, hoffer, _⟩ | hoffer | ⟨hoffer, _⟩ <;> rw [hoffer]

theorem receive_localSet {i : Nat} {action : MarkAction ε} (h : n.receive i = some (action, n')) :
    n'.localSet = n.localSet := by
  obtain ⟨_, ⟨_, _, _, rfl, _⟩ | ⟨_, rfl, _⟩⟩ := receive_cases h <;> rfl

theorem answer_localSet {i : Nat} {reply : SetNXReply ε} {action : MarkAction ε}
    (h : n.answer i reply = some (action, n')) : n'.localSet = n.localSet := by
  obtain ⟨_, _, _, rfl⟩ := answer_cases h
  rfl

theorem beginClose_localSet (n : Node) : n.beginClose.localSet = n.localSet := by
  rw [Node.beginClose]
  split <;> rfl

end Node

theorem Store.claimLocal_defaultTTL {ε : Type} {s : Store} {pre : List UInt8} {txid : Key}
    {now : Int} : (s.claimLocal (ε := ε) pre txid now).2.defaultTTL = s.defaultTTL := by
  rw [claimLocal]
  split
  · rfl
  · split <;> rfl

/-! ## Requests and jobs of a fleet -/

namespace Fleet

variable {σ ι κ β ε : Type}
  {tier : Tier2 β ε} {claimCall : ι → Call σ} {markCall : κ → Call σ} {cfg : σ → Config}
  {f f' start : Fleet σ ι κ β ε}

def claimRequest (cfg : σ → Config) (call : Call σ) : SetNXRequest :=
  ⟨call.key, Store.oneVal, (cfg call.store).ttl⟩

def markJob (cfg : σ → Config) (call : Call σ) : MarkJob :=
  ⟨call.pre, call.key, (cfg call.store).ttl⟩

structure Wired (cfg : σ → Config) (claimCall : ι → Call σ) (markCall : κ → Call σ)
    (f : Fleet σ ι κ β ε) : Prop where
  hasBackend : ∀ s, (f.nodes s).hasBackend = true
  defaultTTL : ∀ s, (f.nodes s).defaultTTL = (cfg s).ttl
  sent : ∀ c req, f.claims c = .sent req → req = claimRequest cfg (claimCall c)
  jobs : ∀ s job, (f.nodes s).HasJob job →
    ∃ k, (markCall k).store = s ∧ f.marks k ≠ .idle ∧ job = markJob cfg (markCall k)

theorem Initial.wired (h : f.Initial cfg) : f.Wired cfg claimCall markCall := by
  have hfresh : ∀ s, f.nodes s = .fresh (cfg s) true false := by
    intro s
    obtain ⟨hbackend, hnew⟩ := h.nodes s
    rw [(Node.new_ok hnew).2, hbackend]
    rfl
  constructor
  · intro s
    rw [hfresh s]
    rfl
  · intro s
    rw [hfresh s]
    rfl
  · intro c req hsent
    rw [h.claims c] at hsent
    cases hsent
  · intro s job hjob
    rw [hfresh s] at hjob
    exact absurd hjob (Node.not_hasJob_fresh _ _ _)

/-- A store that changes but for its settings, and gets no job that no mark stands for. -/
theorem Wired.setNode [DecidableEq σ] (h : f.Wired cfg claimCall markCall) {s : σ} {n : Node}
    (hsame : (f.nodes s).Same n)
    (hjobs : ∀ job, n.HasJob job →
      ∃ k, (markCall k).store = s ∧ f.marks k ≠ .idle ∧ job = markJob cfg (markCall k)) :
    (f.setNode s n).Wired cfg claimCall markCall where
  hasBackend := Function.forall_update_of_forall (p := fun _ (n : Node) => n.hasBackend = true)
    h.hasBackend (hsame.hasBackend.trans (h.hasBackend s))
  defaultTTL := Function.forall_update_of_forall (p := fun s (n : Node) => n.defaultTTL = (cfg s).ttl)
    h.defaultTTL (hsame.defaultTTL.trans (h.defaultTTL s))
  sent := h.sent
  jobs := Function.forall_update_of_forall (p := fun s (n : Node) => ∀ job, n.HasJob job →
    ∃ k, (markCall k).store = s ∧ f.marks k ≠ .idle ∧ job = markJob cfg (markCall k)) h.jobs hjobs

theorem Wired.setClaim [DecidableEq ι] (h : f.Wired cfg claimCall markCall) {c : ι}
    {phase : ClaimPhase ε} (hphase : ∀ req, phase = .sent req → req = claimRequest cfg (claimCall c)) :
    (f.setClaim c phase).Wired cfg claimCall markCall where
  hasBackend := h.hasBackend
  defaultTTL := h.defaultTTL
  sent := Function.forall_update_of_forall (p := fun c (phase : ClaimPhase ε) =>
    ∀ req, phase = .sent req → req = claimRequest cfg (claimCall c)) h.sent hphase
  jobs := h.jobs

theorem Wired.setMark [DecidableEq κ] (h : f.Wired cfg claimCall markCall) {k : κ} {phase : MarkPhase}
    (hphase : phase ≠ .idle) : (f.setMark k phase).Wired cfg claimCall markCall := by
  refine ⟨h.hasBackend, h.defaultTTL, h.sent, fun s job hjob => ?_⟩
  obtain ⟨k', hstore, hbegun, rfl⟩ := h.jobs s job hjob
  exact ⟨k', hstore, Function.update_ne hphase hbegun, rfl⟩

theorem Wired.claimLocal [DecidableEq σ] [DecidableEq ι] (h : f.Wired cfg claimCall markCall) (c : ι)
    (now : Int) :
    (f.claimLocal (claimCall c) c now).Wired cfg claimCall markCall := by
  have hbackend := h.hasBackend (claimCall c).store
  have hnode := h.setNode (s := (claimCall c).store) (n := { f.nodes (claimCall c).store with
    toStore := ((f.nodes (claimCall c).store).toStore.claimLocal (ε := ε) (claimCall c).pre
      (claimCall c).txid now).2 })
    ⟨Store.claimLocal_hasBackend, Store.claimLocal_defaultTTL, rfl⟩ (h.jobs _)
  refine hnode.setClaim fun req hreq => ?_
  rcases Store.claimLocal_cases (ε := ε) hbackend (claimCall c).pre (claimCall c).txid now with
    hhalf | ⟨_, hhalf⟩ <;> rw [hhalf] at hreq
  · cases hreq
    rw [Store.request, h.defaultTTL, claimRequest, Call.key]
  · cases hreq

variable [DecidableEq σ] [DecidableEq ι] [DecidableEq κ]

theorem Wired.step (h : f.Wired cfg claimCall markCall)
    (hstep : Step tier claimCall markCall f f') : f'.Wired cfg claimCall markCall := by
  cases hstep with
  | wait later hlater => exact ⟨h.hasBackend, h.defaultTTL, h.sent, h.jobs⟩
  | upkeep backend hup => exact ⟨h.hasBackend, h.defaultTTL, h.sent, h.jobs⟩
  | claimLocal c now hidle => exact h.claimLocal c now
  | claimBackend c req reply backend hsent hreply =>
      have hreplied : (f.replied (.inl c) req reply backend).Wired cfg claimCall markCall :=
        ⟨h.hasBackend, h.defaultTTL, h.sent, h.jobs⟩
      refine hreplied.setClaim ?_
      intro req hphase
      cases hphase
  | markLocal k now hidle =>
      refine (h.setNode (.touch _ _ _) (h.jobs _)).setMark ?_
      intro hphase
      cases hphase
  | markOffer k htouched =>
      refine (h.setNode (.offer _ _ _) fun job hjob => ?_).setMark ?_
      · rcases hjob.of_offer with hjob | rfl
        · exact h.jobs _ job hjob
        · refine ⟨k, rfl, ?_, ?_⟩
          · rw [htouched]
            intro hphase
            cases hphase
          · rw [Node.job, Store.request, h.defaultTTL, markJob, Call.key]
      · intro hphase
        cases hphase
  | receive s i action n hreceive =>
      exact h.setNode (.receive hreceive) fun job hjob => h.jobs s job (hjob.of_receive hreceive)
  | answer s i job reply backend n hanswer hreply =>
      have hreplied : (f.replied (.inr s) job.request reply backend).Wired cfg claimCall markCall :=
        ⟨h.hasBackend, h.defaultTTL, h.sent, h.jobs⟩
      exact hreplied.setNode (.answer hanswer) fun job hjob => h.jobs s job (hjob.of_answer hanswer)
  | close s =>
      exact h.setNode (.beginClose _) fun job hjob => h.jobs s job (Node.hasJob_beginClose.mp hjob)

theorem wired_of_reachable (hstart : start.Initial cfg)
    (hrun : Relation.ReflTransGen (Step tier claimCall markCall) start f) :
    f.Wired cfg claimCall markCall := by
  induction hrun with
  | refl => exact hstart.wired
  | tail _ hstep ih => exact ih.step hstep

end Fleet

end ShardCommon.TxidSet
