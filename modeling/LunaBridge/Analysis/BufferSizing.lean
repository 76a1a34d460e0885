import LunaBridge.Scheduling.Buffer
import Mathlib.Algebra.Order.Floor.Semiring
import Mathlib.Data.Rat.Floor

/-!
# BufferSizing — the mission profile, its trace and the analytical rates

The trace of a profile emits each class at its own period over the gap.  `makeTrace_bytes` bounds
what it holds of the protected classes by the analytical critical rate: from below exactly, from
above up to one bundle for each protected class.
-/

namespace LunaBridge
namespace Analysis

open Gateway Foundation.Python

/-- `ClassLoad`: sustained generation of one class, in bytes per second and bytes per bundle. -/
structure ClassLoad where
  cls : TrafficClass
  byteRate : ℚ
  bundleSize : ℤ

/-- `PROTECTED_MAX_RANK`. -/
def protectedMaxRank : ℤ := 1

/-- A class that must not be dropped. -/
def isProtected (cls : TrafficClass) : Bool := decide ((classSpecs cls).rank ≤ protectedMaxRank)

/-- The protected entries of a profile. -/
def protectedLoads (profile : List ClassLoad) : List ClassLoad :=
  profile.filter fun c => isProtected c.cls

/-- The bundles of the protected classes. -/
def protectedBundles (bundles : List Bundle) : List Bundle :=
  bundles.filter fun b => isProtected b.trafficClass

/-- The dictionary `analytical` returns. -/
structure Sizing where
  totalRate : ℚ
  critRate : ℚ
  bNative : ℚ
  bCritical : ℚ
  ratio : ℚ

/-- The rate of all entries of a profile together. -/
def sumRate (profile : List ClassLoad) : ℚ := (profile.map ClassLoad.byteRate).sum

/-- `analytical`. -/
def analytical (profile : List ClassLoad) (gapS : ℚ) : Except PyError Sizing :=
  let totalRate := sumRate profile
  let critRate := sumRate (protectedLoads profile)
  if critRate = 0 then
    .error .zeroDivisionError
  else
    .ok { totalRate := totalRate
          critRate := critRate
          bNative := totalRate * gapS
          bCritical := critRate * gapS
          ratio := totalRate / critRate }

/-! ## The trace -/

/-- The bundle with sequence number `seq` that class `c` emits at time `t`. -/
def ClassLoad.emit (c : ClassLoad) (seq : ℕ) (t : ℚ) : Bundle :=
  Bundle.setTtl { bundleId := toString seq
                  flowId := c.cls.value
                  trafficClass := c.cls
                  sizeBytes := c.bundleSize
                  ingressTs := t } none

/-- The `while t < gap_s` loop, for at most `fuel` rounds.  Returns the bundles it appends and the
sequence number it has reached. -/
def emitLoop (c : ClassLoad) (gapS interval : ℚ) : ℕ → ℕ → ℚ → Except PyError (List Bundle × ℕ)
  | 0, seq, t =>
      if t < gapS then
        .error .outOfFuel
      else
        .ok ([], seq)
  | fuel + 1, seq, t =>
      if t < gapS then do
        let (later, seq') ← emitLoop c gapS interval fuel (seq + 1) (t + interval)
        .ok (c.emit (seq + 1) t :: later, seq')
      else
        .ok ([], seq)

/-- The rounds the loop of a class may take. -/
def emitRounds (gapS interval : ℚ) : ℕ := ⌈gapS / interval⌉₊

/-- `for c in profile`. -/
def traceFrom (gapS : ℚ) : List ClassLoad → ℕ → Except PyError (List Bundle)
  | [], _ => .ok []
  | c :: cs, seq =>
      if c.byteRate = 0 then
        .error .zeroDivisionError
      else do
        let interval := c.bundleSize / c.byteRate
        let (emitted, seq') ← emitLoop c gapS interval (emitRounds gapS interval) seq 0
        let rest ← traceFrom gapS cs seq'
        .ok (emitted ++ rest)

/-- `make_trace`. -/
def makeTrace (profile : List ClassLoad) (gapS : ℚ) : Except PyError (List Bundle) :=
  traceFrom gapS profile 0

/-! ## The safety guarantee -/

/-- `all_protected_delivered`. -/
def allProtectedDelivered (bundles : List Bundle) (records : Bundle → Lifecycle) : Bool :=
  if protectedBundles bundles = [] then
    true
  else
    (protectedBundles bundles).all fun b => decide ((records b).terminalState = .delivered)

theorem allProtectedDelivered_iff {bundles : List Bundle} {records : Bundle → Lifecycle} :
    allProtectedDelivered bundles records = true ↔
      ∀ b ∈ bundles, b.rank ≤ protectedMaxRank → (records b).terminalState = .delivered := by
  have hmem : ∀ b, b ∈ protectedBundles bundles ↔ b ∈ bundles ∧ b.rank ≤ protectedMaxRank := by
    intro b
    rw [protectedBundles, List.mem_filter, isProtected, decide_eq_true_eq]
    rfl
  unfold allProtectedDelivered
  split
  · rename_i hnil
    simp only [hnil, List.not_mem_nil, false_iff, not_and] at hmem
    exact iff_of_true rfl fun b hb hrank => absurd hrank (hmem b hb)
  · simp [hmem]

/-! ## How much a class emits -/

section Emission

variable {c : ClassLoad} {gapS interval : ℚ}

/-- The loop emits as many bundles as periods begin before the gap ends, all of its class and
size. -/
theorem emitLoop_spec :
    ∀ (fuel seq : ℕ) (t : ℚ), gapS - t ≤ fuel * interval → t < gapS + interval →
      ∃ bundles, emitLoop c gapS interval fuel seq t = .ok (bundles, seq + bundles.length) ∧
        (∀ b ∈ bundles, b.trafficClass = c.cls ∧ b.sizeBytes = c.bundleSize) ∧
        gapS - t ≤ bundles.length * interval ∧ bundles.length * interval < gapS - t + interval := by
  -- once the gap is over nothing more is emitted
  have hstop : ∀ t, ¬ t < gapS → t < gapS + interval →
      gapS - t ≤ (([] : List Bundle).length : ℚ) * interval ∧
        (([] : List Bundle).length : ℚ) * interval < gapS - t + interval := by
    intro t ht hlast
    simp only [List.length_nil, Nat.cast_zero, zero_mul]
    constructor <;> linarith
  intro fuel
  induction fuel with
  | zero =>
      intro seq t hfuel hlast
      -- the rounds are used up only once the gap is over
      have ht : ¬ t < gapS := by
        simp only [Nat.cast_zero, zero_mul] at hfuel
        linarith
      exact ⟨[], by simp [emitLoop, ht], by simp, hstop t ht hlast⟩
  | succ fuel ih =>
      intro seq t hfuel hlast
      by_cases ht : t < gapS
      · push_cast at hfuel
        obtain ⟨later, hrun, hall, hlower, hupper⟩ :=
          ih (seq + 1) (t + interval) (by linarith) (by linarith)
        refine ⟨c.emit (seq + 1) t :: later, ?_, ?_, ?_, ?_⟩
        · simp only [emitLoop, ht, if_true, hrun, List.length_cons]
          show Except.ok _ = Except.ok _
          rw [Nat.add_assoc, Nat.add_comm 1]
        · intro b hb
          rcases List.mem_cons.1 hb with rfl | hb
          · exact ⟨rfl, rfl⟩
          · exact hall b hb
        · rw [List.length_cons]
          push_cast
          linarith
        · rw [List.length_cons]
          push_cast
          linarith
      · exact ⟨[], by simp [emitLoop, ht], by simp, hstop t ht hlast⟩

theorem totalBytes_uniform {bundles : List Bundle} {size : ℤ}
    (h : ∀ b ∈ bundles, b.sizeBytes = size) :
    totalBytes bundles = bundles.length * size := by
  rw [totalBytes, List.map_congr_left h, List.map_const', List.sum_replicate, nsmul_eq_mul]

/-- A class emits its rate times the gap, rounded up to whole bundles. -/
theorem emitLoop_bytes (hrate : 0 < c.byteRate) (hsize : 0 < c.bundleSize) (hgap : 0 ≤ gapS)
    (seq : ℕ) :
    ∃ bundles seq', emitLoop c gapS (c.bundleSize / c.byteRate)
        (emitRounds gapS (c.bundleSize / c.byteRate)) seq 0 = .ok (bundles, seq') ∧
      (∀ b ∈ bundles, b.trafficClass = c.cls) ∧
      c.byteRate * gapS ≤ (totalBytes bundles : ℤ) ∧
      ((totalBytes bundles : ℤ) : ℚ) < c.byteRate * gapS + c.bundleSize := by
  have hsize' : (0 : ℚ) < c.bundleSize := by exact_mod_cast hsize
  have hinterval : 0 < (c.bundleSize : ℚ) / c.byteRate := div_pos hsize' hrate
  have hfuel : gapS - 0 ≤ (emitRounds gapS (c.bundleSize / c.byteRate) : ℕ) *
      ((c.bundleSize : ℚ) / c.byteRate) := by
    rw [sub_zero, ← div_le_iff₀ hinterval]
    exact Nat.le_ceil _
  obtain ⟨bundles, hrun, hall, hlower, hupper⟩ :=
    emitLoop_spec (c := c) _ seq 0 hfuel (by linarith)
  have hbytes : ((totalBytes bundles : ℤ) : ℚ) =
      bundles.length * (c.bundleSize / c.byteRate) * c.byteRate := by
    rw [totalBytes_uniform fun b hb => (hall b hb).2]
    push_cast
    field_simp
  refine ⟨bundles, _, hrun, fun b hb => (hall b hb).1, ?_, ?_⟩
  · calc c.byteRate * gapS
        _ = (gapS - 0) * c.byteRate := by ring
        _ ≤ bundles.length * (c.bundleSize / c.byteRate) * c.byteRate :=
          mul_le_mul_of_nonneg_right hlower hrate.le
        _ = (totalBytes bundles : ℤ) := hbytes.symm
  · calc ((totalBytes bundles : ℤ) : ℚ)
        _ = bundles.length * (c.bundleSize / c.byteRate) * c.byteRate := hbytes
        _ < (gapS - 0 + c.bundleSize / c.byteRate) * c.byteRate :=
          mul_lt_mul_of_pos_right hupper hrate
        _ = c.byteRate * gapS + c.bundleSize := by
          field_simp
          ring

end Emission

/-! ## How much a trace holds -/

/-- One bundle of each protected class. -/
def protectedSlack (profile : List ClassLoad) : ℤ :=
  ((protectedLoads profile).map ClassLoad.bundleSize).sum

/-- Of the bundles of one class in front all are protected, or none. -/
theorem protectedBundles_append {cls : TrafficClass} {emitted : List Bundle}
    (hcls : ∀ b ∈ emitted, b.trafficClass = cls) (rest : List Bundle) :
    protectedBundles (emitted ++ rest) =
      if isProtected cls then emitted ++ protectedBundles rest else protectedBundles rest := by
  rw [protectedBundles, List.filter_append]
  split
  · next hprot =>
    have hself : emitted.filter (fun b => isProtected b.trafficClass) = emitted :=
      List.filter_eq_self.2 fun b hb => by rw [hcls b hb, hprot]
    rw [hself]
    rfl
  · next hprot =>
    have hnone : emitted.filter (fun b => isProtected b.trafficClass) = [] :=
      List.filter_eq_nil_iff.2 fun b hb => by rwa [hcls b hb]
    rw [hnone]
    rfl

/-- The protected bytes of a trace make up the critical backlog, rounded up for each class. -/
theorem traceFrom_bytes {gapS : ℚ} (hgap : 0 ≤ gapS) :
    ∀ (profile : List ClassLoad) (seq : ℕ),
      (∀ c ∈ profile, 0 < c.byteRate ∧ 0 < c.bundleSize) →
      ∃ trace, traceFrom gapS profile seq = .ok trace ∧
        sumRate (protectedLoads profile) * gapS ≤ (totalBytes (protectedBundles trace) : ℤ) ∧
        ((totalBytes (protectedBundles trace) : ℤ) : ℚ) ≤
          sumRate (protectedLoads profile) * gapS + protectedSlack profile ∧
        (protectedLoads profile ≠ [] → ((totalBytes (protectedBundles trace) : ℤ) : ℚ) <
          sumRate (protectedLoads profile) * gapS + protectedSlack profile) := by
  intro profile
  induction profile with
  | nil =>
      intro seq _
      exact ⟨[], rfl, by simp [protectedLoads, protectedBundles, sumRate],
        by simp [protectedLoads, protectedBundles, sumRate, protectedSlack],
        fun hne => absurd rfl hne⟩
  | cons c cs ih =>
      intro seq hpos
      rcases hpos c (by simp) with ⟨hrate, hsize⟩
      obtain ⟨emitted, seq', hrun, hcls, hlower, hupper⟩ := emitLoop_bytes hrate hsize hgap seq
      obtain ⟨rest, hrest, hrestLower, hrestUpper, hrestStrict⟩ :=
        ih seq' fun d hd => hpos d (List.mem_cons_of_mem _ hd)
      refine ⟨emitted ++ rest, ?_, ?_⟩
      · simp only [traceFrom, hrate.ne', if_false, hrun]
        show (traceFrom gapS cs seq' >>= fun rest => Except.ok (emitted ++ rest)) = _
        rw [hrest]
        rfl
      · cases hprot : isProtected c.cls with
        | true =>
            -- the bundles of a protected class count, and so does its rate
            have hloads : protectedLoads (c :: cs) = c :: protectedLoads cs := by
              simp [protectedLoads, hprot]
            have hbundles : protectedBundles (emitted ++ rest) =
                emitted ++ protectedBundles rest := by
              rw [protectedBundles_append hcls, if_pos hprot]
            have hrates : sumRate (c :: protectedLoads cs) =
                c.byteRate + sumRate (protectedLoads cs) := by
              simp [sumRate]
            have hslack : protectedSlack (c :: cs) = c.bundleSize + protectedSlack cs := by
              simp [protectedSlack, hloads]
            rw [hloads, hbundles, hrates, hslack, totalBytes_append, add_mul, Int.cast_add,
              Int.cast_add]
            exact ⟨by linarith, by linarith, fun _ => by linarith⟩
        | false =>
            -- another class changes neither side
            have hloads : protectedLoads (c :: cs) = protectedLoads cs := by
              simp [protectedLoads, hprot]
            have hbundles : protectedBundles (emitted ++ rest) = protectedBundles rest := by
              rw [protectedBundles_append hcls, hprot, if_neg Bool.false_ne_true]
            simp only [hloads, hbundles, protectedSlack] at hrestLower hrestUpper hrestStrict ⊢
            exact ⟨hrestLower, hrestUpper, hrestStrict⟩

/-- Where `analytical` returns a critical rate, the protected bytes of the trace lie between the
critical backlog and one bundle of each protected class more. -/
theorem makeTrace_bytes {profile : List ClassLoad} {gapS : ℚ} {sizing : Sizing}
    (hpos : ∀ c ∈ profile, 0 < c.byteRate ∧ 0 < c.bundleSize) (hgap : 0 ≤ gapS)
    (hsizing : analytical profile gapS = .ok sizing) :
    ∃ trace, makeTrace profile gapS = .ok trace ∧
      sizing.critRate * gapS ≤ (totalBytes (protectedBundles trace) : ℤ) ∧
      ((totalBytes (protectedBundles trace) : ℤ) : ℚ) <
        sizing.critRate * gapS + protectedSlack profile := by
  obtain ⟨trace, hrun, hlower, _, hupper⟩ := traceFrom_bytes hgap profile 0 hpos
  unfold analytical at hsizing
  by_cases hzero : sumRate (protectedLoads profile) = 0
  · simp [hzero] at hsizing
  · simp only [hzero, if_false, Except.ok.injEq] at hsizing
    subst hsizing
    refine ⟨trace, hrun, hlower, hupper fun hnil => hzero ?_⟩
    rw [hnil]
    rfl

end Analysis
end LunaBridge
