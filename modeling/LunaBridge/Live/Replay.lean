import LunaBridge.Live.Isolation
import LunaBridge.Scheduling.Ledger
import LunaBridge.Scheduling.Run

/-!
# Replay — the live gateway and the offline scheduler make the same admission choice

A replay gives every live bundle a record for the offline scheduler.  One side evicts from the
tails of its class queues, the other sorts a list of candidates; on the same content both come to
the same victims in the same order (`victimOrder_map`), and `tryAdmit` and `admit` take the content
to the same content.
-/

namespace LunaBridge
namespace LinkController

open Foundation.Machine Foundation.Selection Foundation.Python Foundation.StableSort Gateway

/-! ## Records of live bundles -/

/-- `record` is how a replay represents live bundles, on a clock that starts at `start`. -/
structure Replays (record : LiveBundle → Bundle) (start : ℚ) : Prop where
  trafficClass : ∀ b, (record b).trafficClass = b.cls
  sizeBytes : ∀ b, (record b).sizeBytes = b.n
  ingressTs : ∀ b, (record b).ingressTs = b.t - start

/-- The record a replay makes of a live bundle. -/
def replayRecord (start : ℚ) (L : TrafficClass → ℚ) (b : LiveBundle) : Bundle :=
  Bundle.setTtl { bundleId := toString b.ref
                  flowId := b.cls.value
                  trafficClass := b.cls
                  sizeBytes := b.n
                  ingressTs := b.t - start } (some (L b.cls))

theorem replayRecord_replays (start : ℚ) (L : TrafficClass → ℚ) :
    Replays (replayRecord start L) start where
  trafficClass := fun _ => rfl
  sizeBytes := fun _ => rfl
  ingressTs := fun _ => rfl

/-- The live and the offline buffer both hold `content`, oldest first. -/
structure Mirrors (record : LiveBundle → Bundle) (content : List LiveBundle) (s : LiveState)
    (σ : SchedulerState) : Prop where
  queues : ∀ c, s.q c = content.filter fun b => decide (b.cls = c)
  active : σ.active = content.map record
  bytes : s.bytes = bytesOf content
  activeBytes : σ.activeBytes = bytesOf content

theorem classSpecs_rank (c : TrafficClass) : (classSpecs c).rank = rank c := by
  cases c <;> rfl

section Records

variable {record : LiveBundle → Bundle} {start : ℚ} {gw : LiveGateway} {sch : Scheduler}
  {content : List LiveBundle} {b : LiveBundle}

theorem Replays.rank (h : Replays record start) (b : LiveBundle) :
    (record b).rank = LinkController.rank b.cls := by
  rw [Bundle.rank, h.trafficClass, classSpecs_rank]

theorem Replays.totalBytes (h : Replays record start) (bs : List LiveBundle) :
    totalBytes (bs.map record) = bytesOf bs := by
  induction bs with
  | nil => rfl
  | cons b bs ih => rw [List.map_cons, totalBytes_cons, bytesOf_cons, ih, h.sizeBytes]

/-- Both sides test for room alike. -/
theorem Replays.fits_iff (h : Replays record start) (hcap : sch.maxQueueBytes = gw.cap)
    (b : LiveBundle) (bytes : ℤ) :
    sch.Fits bytes (record b).sizeBytes ↔ ¬ (gw.cap : ℤ) < bytes + b.n := by
  rw [Scheduler.Fits, hcap, h.sizeBytes, not_lt]
  exact_mod_cast Iff.rfl

theorem nodup_of_ordered (hordered : content.Pairwise fun a b => a.t < b.t) : content.Nodup :=
  hordered.imp fun hlt heq => absurd (heq ▸ hlt) (lt_irrefl _)

/-- Of bundles that arrive one after the other no two share an arrival time. -/
theorem eq_of_ingressTs_eq (h : Replays record start)
    (hordered : content.Pairwise fun a b => a.t < b.t) {a a' : LiveBundle} (ha : a ∈ content)
    (ha' : a' ∈ content) (heq : (record a).ingressTs = (record a').ingressTs) : a = a' := by
  rw [h.ingressTs, h.ingressTs] at heq
  have htimes : (content.map LiveBundle.t).Nodup :=
    List.pairwise_map.2 (hordered.imp fun hlt => hlt.ne)
  exact List.inj_on_of_nodup_map htimes ha ha' (by linarith)

/-! ## Victims -/

/-- The order in which both sides evict: lowest priority first, newest first within a class. -/
def EvictedBefore (a b : LiveBundle) : Prop :=
  LinkController.rank b.cls < LinkController.rank a.cls ∨ a.cls = b.cls ∧ b.t < a.t

/-- The live gateway evicts in that order. -/
theorem displaceable_pairwise (hordered : content.Pairwise fun a b => a.t < b.t)
    {q : TrafficClass → List LiveBundle}
    (hq : ∀ c, q c = content.filter fun b => decide (b.cls = c)) (b : LiveBundle) :
    (displaceable q b LiveGateway.lowestFirst).Pairwise EvictedBefore := by
  have hranks : LiveGateway.lowestFirst.Pairwise fun c c' =>
      LinkController.rank c' < LinkController.rank c := by decide
  have hcls : ∀ c, ∀ a ∈ (q c).reverse, a.cls = c := by
    intro c a ha
    rw [List.mem_reverse, hq] at ha
    exact of_decide_eq_true (List.mem_filter.1 ha).2
  refine List.pairwise_flatMap.2 ⟨fun c _ => ?_, ?_⟩
  · -- within a class the newest go first
    have hclass : (q c).Pairwise fun a b => a.t < b.t := by
      rw [hq]
      exact hordered.filter _
    refine (List.pairwise_reverse.2 hclass).imp_of_mem fun {a a'} ha ha' hlt => Or.inr ⟨?_, hlt⟩
    exact (hcls c a ha).trans (hcls c a' ha').symm
  · -- the lower classes go first
    refine (hranks.sublist (List.takeWhile_sublist _)).imp fun {c c'} hlt a ha a' ha' => Or.inl ?_
    rwa [hcls c a ha, hcls c' a' ha']

/-- Whom the live gateway may evict. -/
theorem displaceable_perm (hnd : content.Nodup) {q : TrafficClass → List LiveBundle}
    (hq : ∀ c, q c = content.filter fun b => decide (b.cls = c)) (b : LiveBundle) :
    (displaceable q b LiveGateway.lowestFirst).Perm
      (content.filter fun a =>
        decide (LinkController.rank b.cls < LinkController.rank a.cls)) := by
  have hbelow : ∀ c, c ∈ LiveGateway.lowestFirst.takeWhile (fun c =>
      decide (LinkController.rank b.cls < LinkController.rank c)) ↔
        LinkController.rank b.cls < LinkController.rank c := by
    intro c
    have hall : c ∈ LiveGateway.lowestFirst := (sortByDesc_perm _ _).mem_iff.2 (mem_rankClasses c)
    have hranks := View.lowestFirst_ordered
    rw [takeWhile_eq_filter (hranks.imp fun {c c'} hle hlt => by
      simp only [decide_eq_true_eq] at hlt ⊢
      omega)]
    simp [hall]
  have hkeys : LiveGateway.lowestFirst.Nodup := by decide
  have hreverse : (displaceable q b LiveGateway.lowestFirst).Perm
      ((LiveGateway.lowestFirst.takeWhile fun c =>
        decide (LinkController.rank b.cls < LinkController.rank c)).flatMap fun c =>
          content.filter fun a => decide (a.cls = c)) :=
    List.Perm.flatMap_left _ fun c _ => hq c ▸ List.reverse_perm _
  refine hreverse.trans ((flatMap_filter_perm (hkeys.sublist (List.takeWhile_sublist _)) hnd
    LiveBundle.cls).trans (List.Perm.of_eq (List.filter_congr fun a _ => ?_)))
  rw [decide_eq_decide]
  exact hbelow a.cls

/-- The offline scheduler sorts its candidates into the order in which the live gateway evicts. -/
theorem victimOrder_map (h : Replays record start)
    (hordered : content.Pairwise fun a b => a.t < b.t) {q : TrafficClass → List LiveBundle}
    (hq : ∀ c, q c = content.filter fun b => decide (b.cls = c)) (b : LiveBundle) :
    victimOrder (candidates (content.map record) (record b)) =
      (displaceable q b LiveGateway.lowestFirst).map record := by
  have hnd : content.Nodup := nodup_of_ordered hordered
  have hcandidates : candidates (content.map record) (record b) =
      (content.filter fun a =>
        decide (LinkController.rank b.cls < LinkController.rank a.cls)).map record := by
    rw [candidates, List.filter_map]
    refine congrArg (List.map record) (List.filter_congr fun a _ => ?_)
    simp [h.rank]
  have hperm : (victimOrder (candidates (content.map record) (record b))).Perm
      ((displaceable q b LiveGateway.lowestFirst).map record) := by
    refine (sortBy_perm _ _).trans ?_
    rw [hcandidates]
    exact ((displaceable_perm hnd hq b).map record).symm
  have hkey : ∀ a a', EvictedBefore a a' →
      toLex (-(record a).rank, -(record a).ingressTs) <
        toLex (-(record a').rank, -(record a').ingressTs) := by
    intro a a' hbefore
    rw [Prod.Lex.toLex_lt_toLex, h.rank, h.rank, h.ingressTs, h.ingressTs]
    rcases hbefore with hlt | ⟨hcls, hlt⟩
    · left
      simpa using hlt
    · right
      rw [hcls]
      exact ⟨rfl, by linarith⟩
  have hsorted : ((displaceable q b LiveGateway.lowestFirst).map record).Pairwise fun a a' =>
      toLex (-a.rank, -a.ingressTs) ≤ toLex (-a'.rank, -a'.ingressTs) :=
    List.pairwise_map.2 ((displaceable_pairwise hordered hq b).imp fun {a a'} hbefore =>
      (hkey a a' hbefore).le)
  refine List.Perm.eq_of_pairwise (fun r r' hr hr' hle hge => ?_) (sortBy_pairwise _ _) hsorted
    hperm
  -- the order leaves no two candidates on a par
  have hcontent : ∀ a ∈ displaceable q b LiveGateway.lowestFirst, a ∈ content := fun a ha =>
    List.mem_of_mem_filter ((displaceable_perm hnd hq b).subset ha)
  obtain ⟨a, ha, rfl⟩ := List.mem_map.1 (hperm.subset hr)
  obtain ⟨a', ha', rfl⟩ := List.mem_map.1 hr'
  have hsame := (Prod.mk.inj (toLex.injective (le_antisymm hle hge))).2
  rw [eq_of_ingressTs_eq h hordered (hcontent a ha) (hcontent a' ha') (neg_injective hsame)]

/-- Both sides stop evicting at the same victim. -/
theorem neededVictims_map (h : Replays record start) (hcap : sch.maxQueueBytes = gw.cap)
    (b : LiveBundle) (bytes : ℤ) (vs : List LiveBundle) :
    neededVictims sch (record b).sizeBytes bytes (vs.map record) =
      (gw.needed b bytes vs).map record := by
  induction vs generalizing bytes with
  | nil => rfl
  | cons v vs ih =>
      have hfits := h.fits_iff hcap b bytes
      rw [List.map_cons, neededVictims, LiveGateway.needed]
      by_cases hover : (gw.cap : ℤ) < bytes + b.n
      · rw [if_neg fun hfit => hfits.1 hfit hover, if_pos hover, List.map_cons, ← ih,
          h.sizeBytes v]
      · rw [if_pos (hfits.2 hover), if_neg hover, List.map_nil]

/-- Taking bundles out of the content takes their records out of the records. -/
theorem map_without (h : Replays record start)
    (hordered : content.Pairwise fun a b => a.t < b.t) {vs : List LiveBundle}
    (hsub : ∀ v ∈ vs, v ∈ content) :
    (without content vs).map record = without (content.map record) (vs.map record) := by
  rw [without, without, List.filter_map]
  refine congrArg (List.map record) (List.filter_congr fun a ha => ?_)
  have hmem : record a ∈ vs.map record ↔ a ∈ vs := by
    constructor
    · intro hr
      obtain ⟨v, hv, heq⟩ := List.mem_map.1 hr
      have hav := eq_of_ingressTs_eq h hordered (hsub v hv) ha (congrArg Bundle.ingressTs heq)
      exact hav ▸ hv
    · exact fun hv => List.mem_map_of_mem hv
  simp only [Function.comp_apply, hmem]

end Records

/-! ## One arrival on both sides -/

/-- Whom the live gateway evicts for `b` from `content`. -/
def victimsFor (gw : LiveGateway) (content : List LiveBundle) (q : TrafficClass → List LiveBundle)
    (b : LiveBundle) : List LiveBundle :=
  if (gw.cap : ℤ) < bytesOf content + b.n ∧ gw.admission = .priority then
    gw.needed b (bytesOf content) (displaceable q b LiveGateway.lowestFirst)
  else []

section Arrivals

variable {record : LiveBundle → Bundle} {start now : ℚ} {gw : LiveGateway} {sch : Scheduler}
  {content : List LiveBundle} {b : LiveBundle} {s : LiveState} {σ : SchedulerState}

theorem victimsFor_subset (hnd : content.Nodup)
    (hq : ∀ c, s.q c = content.filter fun b => decide (b.cls = c)) :
    (victimsFor gw content s.q b).Nodup ∧ ∀ v ∈ victimsFor gw content s.q b, v ∈ content := by
  have hperm := displaceable_perm hnd hq b
  have hfront := needed_isPrefix gw b (bytesOf content)
    (displaceable s.q b LiveGateway.lowestFirst)
  rw [victimsFor]
  split
  · exact ⟨(hperm.nodup_iff.2 (hnd.filter _)).sublist hfront.sublist, fun v hv =>
      List.mem_of_mem_filter (hperm.subset (hfront.subset hv))⟩
  · exact ⟨List.nodup_nil, nofun⟩

/-- With nothing expired in the queues the purge changes nothing. -/
theorem Mirrors.roomFor (h : Mirrors record content s σ)
    (hfresh : ∀ a ∈ content, gw.expired now a = false) :
    gw.roomFor b now s = s.expel .evict now (victimsFor gw content s.q b) := by
  have hstale : gw.staleOf now s rankClasses = [] := by
    refine List.flatMap_eq_nil_iff.2 fun c _ => List.filter_eq_nil_iff.2 fun a ha => ?_
    rw [h.queues] at ha
    simp [hfresh a (List.mem_of_mem_filter ha)]
  have hpurged : gw.purgedFor b now s = s := by
    rw [LiveGateway.purgedFor, hstale, LiveState.expel_nil, ite_self]
  rw [LiveGateway.roomFor, hpurged, LiveGateway.evictedFor, victimsFor, ← h.bytes]
  by_cases hboth : gw.Over b s ∧ gw.admission = .priority
  · rw [if_pos hboth, if_pos ⟨hboth.1, hboth.2⟩]
  · rw [if_neg hboth, if_neg fun hboth' => hboth ⟨hboth'.1, hboth'.2⟩, LiveState.expel_nil]

/-- What is left on both sides once the victims have gone. -/
theorem Mirrors.evict (h : Mirrors record content s σ) (hrec : Replays record start)
    (hordered : content.Pairwise fun a b => a.t < b.t) {vs : List LiveBundle} (hvs : vs.Nodup)
    (hsub : ∀ v ∈ vs, v ∈ content) {s' : LiveState} {σ' : SchedulerState}
    (hs' : s'.q = (s.leave vs).q ∧ s'.bytes = (s.leave vs).bytes)
    (hσ' : σ'.toBuffer = σ.toBuffer.evict (vs.map record)) :
    Mirrors record (without content vs) s' σ' where
  queues := by
    intro c
    rw [hs'.1, filter_without, ← h.queues]
    rfl
  active := by
    rw [hσ', map_without hrec hordered hsub, ← h.active]
    rfl
  bytes := by
    have hnd : content.Nodup := nodup_of_ordered hordered
    rw [hs'.2, bytesOf_without hnd hvs hsub, ← h.bytes]
    rfl
  activeBytes := by
    have hnd : content.Nodup := nodup_of_ordered hordered
    rw [hσ', bytesOf_without hnd hvs hsub, ← h.activeBytes, ← hrec.totalBytes]
    rfl

/-- An arrival joins on both sides. -/
theorem Mirrors.accept (h : Mirrors record content s σ) (hrec : Replays record start)
    (b : LiveBundle) {σ' : SchedulerState} (hσ' : σ'.toBuffer = σ.toBuffer.accept (record b)) :
    Mirrors record (content ++ [b]) (s.enqueued b) σ' where
  queues := by
    intro c
    rw [LiveState.enqueued_q, h.queues, List.filter_append]
    by_cases hc : b.cls = c <;> simp [hc]
  active := by
    rw [hσ', List.map_append, ← h.active]
    rfl
  bytes := by
    rw [bytesOf_append, ← h.bytes]
    simp [LiveState.enqueued]
  activeBytes := by
    rw [hσ', bytesOf_append, ← h.activeBytes]
    simp [Buffer.accept, hrec.sizeBytes]

/-- An arrival that is dropped leaves both contents as they are. -/
theorem Mirrors.drop (h : Mirrors record content s σ) (b : LiveBundle) (now : ℚ)
    {σ' : SchedulerState} (hσ' : σ'.toBuffer = σ.toBuffer.drop (record b)) :
    Mirrors record content (s.dropped b now) σ' where
  queues := h.queues
  active := by
    rw [hσ']
    exact h.active
  bytes := h.bytes
  activeBytes := by
    rw [hσ']
    exact h.activeBytes

/-- An arrival stays pending when it joins behind those that stay. -/
theorem Mirrors.accepted_pending (h : Mirrors record content s σ) {vs : List LiveBundle}
    (hsub : ∀ v ∈ vs, v ∈ content) (hnew : record b ∉ σ.active)
    (hpending : (σ.records (record b)).terminalState = .pending) :
    (((σ.toBuffer.evict (vs.map record)).accept (record b)).records (record b)).terminalState =
      .pending := by
  have hstays : record b ∉ vs.map record := by
    intro hmem
    obtain ⟨v, hv, heq⟩ := List.mem_map.1 hmem
    exact hnew (h.active ▸ heq ▸ List.mem_map_of_mem (hsub v hv))
  simpa [Buffer.accept, Buffer.evict, Buffer.remove, Buffer.settle, overwrite, hstays,
    Lifecycle.admitted] using hpending

/-- Evicting all who may be leaves the protected bundles. -/
theorem protected_bytes (hnd : content.Nodup)
    (hq : ∀ c, s.q c = content.filter fun b => decide (b.cls = c)) :
    bytesOf (content.filter fun a => decide (rank a.cls ≤ rank b.cls)) =
      bytesOf content - bytesOf (displaceable s.q b LiveGateway.lowestFirst) := by
  have hsplit := bytesOf_perm
    (List.filter_append_perm (fun a => decide (rank a.cls ≤ rank b.cls)) content)
  have hbelow := bytesOf_perm (displaceable_perm hnd hq b)
  have hnot : (content.filter fun a => !decide (rank a.cls ≤ rank b.cls)) =
      content.filter fun a => decide (rank b.cls < rank a.cls) :=
    List.filter_congr fun a _ => by rw [← decide_not, decide_eq_decide, not_le]
  rw [bytesOf_append, hnot] at hsplit
  omega

/-- Where the protected bundles leave room the victims suffice. -/
theorem victims_suffice (hnd : content.Nodup)
    (hq : ∀ c, s.q c = content.filter fun b => decide (b.cls = c))
    (hroom : bytesOf (content.filter fun a => decide (rank a.cls ≤ rank b.cls)) + b.n ≤ gw.cap)
    (hpriority : gw.admission = .priority) :
    ¬ (gw.cap : ℤ) < bytesOf content - bytesOf (victimsFor gw content s.q b) + b.n := by
  rw [victimsFor]
  split
  · refine (needed_fits_or_all gw b (bytesOf content) _).elim id fun hall => ?_
    rw [hall, ← protected_bytes hnd hq]
    exact not_lt.2 hroom
  · next hfits =>
    rw [bytesOf_nil, sub_zero]
    exact fun hover => hfits ⟨hover, hpriority⟩

/-- Where an arrival does not fit all the same, nobody has to go for it. -/
theorem victimsFor_eq_nil (hnd : content.Nodup)
    (hq : ∀ c, s.q c = content.filter fun b => decide (b.cls = c))
    (hroom : gw.admission = .priority →
      bytesOf (content.filter fun a => decide (rank a.cls ≤ rank b.cls)) + b.n ≤ gw.cap)
    (hover : (gw.cap : ℤ) < bytesOf content - bytesOf (victimsFor gw content s.q b) + b.n) :
    victimsFor gw content s.q b = [] := by
  by_cases hpriority : gw.admission = .priority
  · exact absurd hover (victims_suffice hnd hq (hroom hpriority) hpriority)
  · exact if_neg fun hboth => hpriority hboth.2

/-- Both sides decide alike: they evict the same victims, or drop the arrival. -/
theorem admission_map (hrec : Replays record start) (hcap : sch.maxQueueBytes = gw.cap)
    (hmode : sch.admissionIsPriorityAware = decide (gw.admission = .priority))
    (hordered : content.Pairwise fun a b => a.t < b.t)
    (hq : ∀ c, s.q c = content.filter fun b => decide (b.cls = c))
    (hroom : gw.admission = .priority →
      bytesOf (content.filter fun a => decide (rank a.cls ≤ rank b.cls)) + b.n ≤ gw.cap) :
    sch.admission (content.map record) (record b) =
      if (gw.cap : ℤ) < bytesOf content - bytesOf (victimsFor gw content s.q b) + b.n then none
      else some ((victimsFor gw content s.q b).map record) := by
  have hnd : content.Nodup := nodup_of_ordered hordered
  have hfits := hrec.fits_iff hcap b
  have hprotected : protectedFrom (content.map record) (record b) =
      (content.filter fun a => decide (rank a.cls ≤ rank b.cls)).map record := by
    rw [protectedFrom, List.filter_map]
    refine congrArg (List.map record) (List.filter_congr fun a _ => ?_)
    simp [hrec.rank]
  rw [Scheduler.admission, hrec.totalBytes, hprotected, hrec.totalBytes]
  by_cases hover : (gw.cap : ℤ) < bytesOf content + b.n
  · rw [if_neg fun hfit => (hfits _).1 hfit hover]
    by_cases hpriority : gw.admission = .priority
    · have hprot := (hfits _).2 (not_lt.2 (hroom hpriority))
      have hvictims : victimsFor gw content s.q b =
          gw.needed b (bytesOf content) (displaceable s.q b LiveGateway.lowestFirst) :=
        if_pos ⟨hover, hpriority⟩
      rw [if_pos ⟨by simp [hmode, hpriority], hprot⟩, victimOrder_map hrec hordered hq,
        neededVictims_map hrec hcap, ← hvictims,
        if_neg (victims_suffice hnd hq (hroom hpriority) hpriority)]
    · have hvictims : victimsFor gw content s.q b = [] := if_neg fun hboth => hpriority hboth.2
      rw [if_neg (by simp [hmode, hpriority]), hvictims, bytesOf_nil, sub_zero, if_pos hover]
  · have hvictims : victimsFor gw content s.q b = [] := if_neg fun hboth => hover hboth.1
    rw [if_pos ((hfits _).2 hover), hvictims, bytesOf_nil, sub_zero, if_neg hover, List.map_nil]

end Arrivals

/-- On the same content, without expired bundles, live and offline admission make the same choice,
under drop-tail always and under priority admission whenever the bundles that may not be displaced
leave room: both admit the arrival or both drop it, they evict the same victims in the same order,
and what they leave is the same again. -/
theorem live_and_offline_admit_alike {record : LiveBundle → Bundle} {start : ℚ}
    (hrec : Replays record start) {gw : LiveGateway} {sch : Scheduler}
    (hcap : sch.maxQueueBytes = gw.cap)
    (hmode : sch.admissionIsPriorityAware = decide (gw.admission = .priority))
    {content : List LiveBundle} {b : LiveBundle} {now : ℚ}
    (hordered : content.Pairwise fun a b => a.t < b.t)
    (hfresh : ∀ a ∈ content, gw.expired now a = false)
    (hroom : gw.admission = .priority →
      bytesOf (content.filter fun a => decide (rank a.cls ≤ rank b.cls)) + b.n ≤ gw.cap)
    {s : LiveState} (hs : Coherent s) {σ : SchedulerState} {future : List Bundle}
    (hσ : σ.toBuffer.WellFormed sch (record b :: future)) (h : Mirrors record content s σ) :
    ∃ (accepted : Bool) (victims : List LiveBundle) (s' : LiveState) (σ' : SchedulerState),
      gw.admitBundle b now s = .ok accepted s' ∧
      tryAdmit sch (record b) (record b).ingressTs σ = .ok ⟨⟩ σ' ∧
      (σ'.records (record b)).terminalState = (if accepted then .pending else .queueOverflow) ∧
      s'.log = s.log ++ evictionEntries now victims ++
        (if accepted then [] else [{ event := .drop, bundle := b, now := now }]) ∧
      σ'.decisions = σ.decisions ++
        (victims.map record).map (evictedEntry (record b).ingressTs) ++
        (if accepted then [] else [overflowEntry (record b).ingressTs (record b)]) ∧
      Mirrors record (without content victims ++ if accepted then [b] else []) s' σ' := by
  have hnd : content.Nodup := nodup_of_ordered hordered
  obtain ⟨hvs, hsub⟩ : (victimsFor gw content s.q b).Nodup ∧
      ∀ v ∈ victimsFor gw content s.q b, v ∈ content := victimsFor_subset hnd h.queues
  have hadmit := admit_eq hs gw b now
  have hdecision := admission_map hrec hcap hmode hordered h.queues hroom
  obtain ⟨⟨⟩, σ', htry, hbecame, -⟩ := tryAdmit_spec hσ
  have hentries := tryAdmit_entries hσ _ _ htry
  have hbuffer := hbecame.buffer
  have hpending := hσ.pending (record b) (List.mem_append_right _ (List.mem_cons_self ..))
  have hnew : record b ∉ σ.active := hσ.future_notMem_active (List.mem_cons_self ..)
  rw [Buffer.offer, h.active, hdecision] at hbuffer
  rw [h.active, hdecision] at hentries
  rw [h.roomFor hfresh] at hadmit
  have hover : gw.Over b (s.expel .evict now (victimsFor gw content s.q b)) ↔
      (gw.cap : ℤ) < bytesOf content - bytesOf (victimsFor gw content s.q b) + b.n := by
    rw [← h.bytes]
    rfl
  by_cases hlt : (gw.cap : ℤ) < bytesOf content - bytesOf (victimsFor gw content s.q b) + b.n
  · -- there is no room, and nobody had to go for it
    have hnone := victimsFor_eq_nil hnd h.queues hroom hlt
    rw [if_pos (hover.2 hlt), hnone, LiveState.expel_nil] at hadmit
    rw [if_pos hlt] at hbuffer hentries
    refine ⟨false, [], _, σ', hadmit, htry, ?_, by simp [LiveState.dropped, evictionEntries],
      by simpa using hentries, ?_⟩
    · rw [hbuffer]
      simp [Buffer.drop, overwrite, Lifecycle.overflowed]
    · rw [without_nil, if_neg Bool.false_ne_true, List.append_nil]
      exact h.drop b now hbuffer
  · -- the victims go on both sides, and the arrival joins
    rw [if_neg fun h' => hlt (hover.1 h')] at hadmit
    rw [if_neg hlt] at hbuffer hentries
    refine ⟨true, victimsFor gw content s.q b, _, σ', hadmit, htry, ?_, ?_, by simpa using hentries,
      ?_⟩
    · rw [hbuffer]
      exact h.accepted_pending hsub hnew hpending
    · simp [LiveState.enqueued, LiveState.expel, evictionEntries]
    · have hevicted : Mirrors record (without content (victimsFor gw content s.q b))
          (s.expel .evict now (victimsFor gw content s.q b))
          { σ with toBuffer := σ.toBuffer.evict ((victimsFor gw content s.q b).map record) } :=
        h.evict hrec hordered hvs hsub ⟨rfl, rfl⟩ rfl
      exact hevicted.accept hrec b hbuffer

namespace Small

/-- The offline scheduler with the buffer of `gateway`. -/
def twin : Scheduler :=
  { Gateway.Small.scheduler with
    maxQueueBytes := 1000
    maxQueueBytes_pos := by norm_num
    priorityAwareAdmission := some true }

/-- It holds a clip and a beacon. -/
def twinState : SchedulerState :=
  { SchedulerState.fresh (fun _ => {}) with
    active := [clip, beacon].map (replayRecord 0 fun _ => 10)
    activeBytes := 700 }

/-- Displaces the clip. -/
def siren : LiveBundle := { ref := 8, cls := .emergency, n := 700, t := 5 }

end Small

theorem live_and_offline_admit_alike_small :
    ∃ (accepted : Bool) (victims : List LiveBundle) (s' : LiveState) (σ' : SchedulerState),
      (Small.gateway .strict).admitBundle Small.siren 5
          ((LiveState.initial.enqueued Small.clip).enqueued Small.beacon) = .ok accepted s' ∧
      tryAdmit Small.twin (replayRecord 0 (fun _ => 10) Small.siren)
          (replayRecord 0 (fun _ => 10) Small.siren).ingressTs Small.twinState = .ok ⟨⟩ σ' ∧
      (σ'.records (replayRecord 0 (fun _ => 10) Small.siren)).terminalState =
        (if accepted then .pending else .queueOverflow) ∧
      s'.log = ((LiveState.initial.enqueued Small.clip).enqueued Small.beacon).log ++
        evictionEntries 5 victims ++
        (if accepted then [] else [{ event := .drop, bundle := Small.siren, now := 5 }]) ∧
      σ'.decisions = Small.twinState.decisions ++
        (victims.map (replayRecord 0 fun _ => 10)).map
          (evictedEntry (replayRecord 0 (fun _ => 10) Small.siren).ingressTs) ++
        (if accepted then [] else
          [overflowEntry (replayRecord 0 (fun _ => 10) Small.siren).ingressTs
            (replayRecord 0 (fun _ => 10) Small.siren)]) ∧
      Mirrors (replayRecord 0 fun _ => 10)
        (without [Small.clip, Small.beacon] victims ++ if accepted then [Small.siren] else [])
        s' σ' := by
  have hcoherent : Coherent ((LiveState.initial.enqueued Small.clip).enqueued Small.beacon) :=
    (LiveState.initial_coherent.enqueued nofun nofun).enqueued (by decide +kernel)
      (by decide +kernel)
  have hwell : Small.twinState.toBuffer.WellFormed Small.twin
      (replayRecord 0 (fun _ => 10) Small.siren :: []) :=
    ⟨by decide +kernel, by decide +kernel, by decide +kernel, by decide +kernel,
      by decide +kernel, by decide +kernel, by decide +kernel⟩
  have hmirrors : Mirrors (replayRecord 0 fun _ => 10) [Small.clip, Small.beacon]
      ((LiveState.initial.enqueued Small.clip).enqueued Small.beacon) Small.twinState :=
    ⟨fun c => by cases c <;> rfl, rfl, by decide +kernel, by decide +kernel⟩
  exact live_and_offline_admit_alike (replayRecord_replays 0 _) rfl rfl (by decide +kernel)
    (by decide +kernel) (by decide +kernel) hcoherent hwell hmirrors

end LinkController
end LunaBridge
