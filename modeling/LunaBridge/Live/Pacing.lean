import LunaBridge.Foundation.PacedLink
import LunaBridge.Foundation.Rounding
import LunaBridge.LinkController.WorkerGateway
import LunaBridge.Live.Fairness
import Mathlib.Algebra.BigOperators.Ring.List

/-!
# Pacing — the drain loop keeps to the contacts and to their rate

Whatever the reader admits between two calls of `next`, the loop starts a bundle only once the link
has had the time for the ones before (`drainLoop_spec`), so the bundles it forwards are `Paced` and
what a contact carries is bounded by its length.  The instant at which the link is free again is a
double of the size of the clock, so the time a bundle is given may fall short of the time it takes
by the last place of the clock.
-/

namespace LunaBridge
namespace LinkController

open Foundation.Machine Foundation.PacedLink Foundation.Python Gateway

/-- What the gateway may hold when the loop starts: every bundle is queued under its class, and the
classes below EMERGENCY take turns. -/
structure Content where
  state : LiveState
  filed : Filed state
  turns : state.rr.Perm wfqWeightClasses

namespace Forward

/-- The bits of a forwarded bundle, as a double. -/
def bits (f : Forward) : ℚ := nearestDouble (f.bundle.n * 8)

/-- The time the link takes for them. -/
def duration (rateBps : ℚ) (f : Forward) : ℚ := f.bits / rateBps

/-- The instant from which on the loop takes the link to be free again. -/
def release (rateBps : ℚ) (f : Forward) : ℚ :=
  nearestDouble (f.now + nearestDouble (f.duration rateBps))

end Forward

/-- The bundles forwarded in one contact. -/
def forwardedIn (c : ℚ × ℚ) (sent : List Forward) : List Forward :=
  sent.filter fun f => decide (c.1 ≤ f.now) && decide (f.now < c.2)

section Forward

variable {rateBps : ℚ} {f g : Forward}

/-- Up to a pebibyte the bits are not rounded. -/
theorem Forward.bits_eq (h : f.bundle.n < 2 ^ 50) : f.bits = f.bundle.n * 8 := by
  have hbits : |((f.bundle.n * 8 : ℕ) : ℤ)| < 2 ^ 53 := by
    rw [Nat.abs_cast]
    exact_mod_cast (by omega : f.bundle.n * 8 < 2 ^ 53)
  have hdouble := nearestDouble_of_isDouble (isDouble_intCast hbits)
  rw [Forward.bits]
  exact_mod_cast hdouble

theorem Forward.duration_nonneg (hrate : 0 < rateBps) (f : Forward) : 0 ≤ f.duration rateBps :=
  div_nonneg (nearestDouble_nonneg (by positivity)) hrate.le

/-- The link is not free again before the bundle was started. -/
theorem Forward.le_release (hrate : 0 < rateBps) {x : ℚ} (hx : nearestDouble x = x) (hpos : 0 ≤ x)
    (h : x ≤ f.now) : x ≤ f.release rateBps := by
  have hbusy := nearestDouble_nonneg (f.duration_nonneg hrate)
  rw [← hx]
  exact nearestDouble_mono hpos (by linarith)

/-- What is started on a free link has left the bundle before it its time, up to the last place of
the clock. -/
theorem Forward.spaced (hrate : 0 < rateBps) (hf : 0 ≤ f.now) (h : f.release rateBps ≤ g.now) :
    f.now + f.duration rateBps ≤ g.now + ulp g.now := by
  have hduration := f.duration_nonneg hrate
  have hbusy := nearestDouble_nonneg hduration
  have hsum : 0 ≤ f.now + nearestDouble (f.duration rateBps) := add_nonneg hf hbusy
  -- the quotient and the sum are rounded by half a unit each, none larger than that of `g.now`
  have hsumUlp : ulp (f.now + nearestDouble (f.duration rateBps)) ≤ ulp g.now :=
    (ulp_le_ulp_nearestDouble hsum).trans (ulp_mono (nearestDouble_nonneg hsum) h)
  have hbusyUlp : ulp (f.duration rateBps) ≤ ulp g.now := by
    calc ulp (f.duration rateBps)
        _ ≤ ulp (nearestDouble (f.duration rateBps)) := ulp_le_ulp_nearestDouble hduration
        _ ≤ ulp (f.now + nearestDouble (f.duration rateBps)) := ulp_mono hbusy (by linarith)
        _ ≤ ulp g.now := hsumUlp
  have hquotient := (abs_le.1 (abs_nearestDouble_sub_le (f.duration rateBps))).1
  have hround := (abs_le.1 (abs_nearestDouble_sub_le
    (f.now + nearestDouble (f.duration rateBps)))).1
  rw [Forward.release] at h
  linarith

end Forward

theorem inContact_iff {C : List (ℚ × ℚ)} {t : ℚ} :
    inContact C t = true ↔ ∃ c ∈ C, c.1 ≤ t ∧ t < c.2 := by
  simp [inContact]

section Loop

variable {gw : LiveGateway} {C : List (ℚ × ℚ)} {rateBps t1 : ℚ} {s : LiveState}

/-- The reader's calls keep the bundles under their classes. -/
theorem admitAll_files (gw : LiveGateway) : ∀ (admits : List (LiveBundle × ℚ)) (s : LiveState),
    Filed s → Returns (gw.admitAll admits) s fun _ s' => Filed s' ∧ s'.rr = s.rr := by
  intro admits
  induction admits with
  | nil => exact fun s h => Returns.pure ⟨h, rfl⟩
  | cons a admits ih =>
      intro s h
      refine (admit_sheds gw a.1 a.2 s).bind fun accepted s' h' => ?_
      obtain ⟨s₁, s₂, hpurged, hevicted, rfl⟩ := h'
      have hroom := (h.thinned hpurged.thinned).thinned hevicted.thinned
      have hrr : s₂.rr = s.rr := hevicted.rr.trans hpurged.rr
      cases accepted with
      | true => exact (ih _ (hroom.enqueued a.1)).mono fun _ _ h' => ⟨h'.1, h'.2.trans hrr⟩
      | false =>
          have hdropped : Filed (s₂.dropped a.1 a.2) := hroom
          exact (ih _ hdropped).mono fun _ _ h' => ⟨h'.1, h'.2.trans hrr⟩

/-- What holds of everything the loop forwards from now on. -/
structure KeepsPace (gw : LiveGateway) (C : List (ℚ × ℚ)) (rateBps tFree : ℚ)
    (sent : List Forward) : Prop where
  paced : Paced Forward.now (Forward.release rateBps) tFree sent
  contact : ∀ f ∈ sent, inContact C f.now = true
  alive : ∀ f ∈ sent, f.now - f.bundle.t ≤ gw.L f.bundle.cls

theorem KeepsPace.nil (tFree : ℚ) : KeepsPace gw C rateBps tFree [] := ⟨trivial, nofun, nofun⟩

/-- A bundle is forwarded inside a contact on a free link. -/
theorem KeepsPace.cons {tFree : ℚ} {f : Forward} {later : List Forward} (hfree : tFree ≤ f.now)
    (hcontact : inContact C f.now = true) (halive : f.now - f.bundle.t ≤ gw.L f.bundle.cls)
    (h : KeepsPace gw C rateBps
      (nearestDouble (max tFree f.now + nearestDouble (f.duration rateBps))) later) :
    KeepsPace gw C rateBps tFree (f :: later) where
  paced := ⟨hfree, by rw [Forward.release, ← max_eq_right hfree]; exact h.paced⟩
  contact := List.forall_mem_cons.2 ⟨hcontact, h.contact⟩
  alive := List.forall_mem_cons.2 ⟨halive, h.alive⟩

theorem drainLoop_spec (gw : LiveGateway) (C : List (ℚ × ℚ)) (hrate : 0 < rateBps) (t1 : ℚ) :
    ∀ (rounds : List DrainRound) (tFree : ℚ) (s : LiveState), Filed s → s.rr ≠ [] →
      Returns (gw.drainLoop C rateBps t1 rounds tFree) s fun sent _ =>
        KeepsPace gw C rateBps tFree sent := by
  intro rounds
  induction rounds with
  | nil => exact fun tFree s _ _ => Returns.pure (.nil tFree)
  | cons round rounds ih =>
      intro tFree s hfiled hrr
      refine (admitAll_files gw round.admits s hfiled).bind fun _ s₁ h₁ => ?_
      have hrr₁ : s₁.rr ≠ [] := h₁.2 ▸ hrr
      split
      · exact Returns.pure (.nil tFree)
      · split
        · exact ih tFree s₁ h₁.1 hrr₁
        · next hcontact =>
          split
          · exact ih tFree s₁ h₁.1 hrr₁
          · next hfree =>
            refine (next_gives gw round.now hrr₁).bind fun r s₂ h₂ => ?_
            have hfiled₂ := h₁.1.thinned h₂.thinned
            have hrr₂ : s₂.rr ≠ [] := fun hnil =>
              hrr₁ (List.Perm.nil_eq (hnil ▸ h₂.thinned.turns)).symm
            cases r with
            | none => exact ih tFree s₂ hfiled₂ hrr₂
            | some b =>
                obtain ⟨c, hmem, halive⟩ := h₂.alive b rfl
                have hcls : b.cls = c := h₁.1 c b hmem
                have hbusy : LiveGateway.linkTime rateBps b s₂ =
                    .ok (nearestDouble (nearestDouble (b.n * 8) / rateBps)) s₂ := by
                  rw [LiveGateway.linkTime, if_neg hrate.ne']
                  rfl
                refine Returns.ok_bind hbusy ((ih _ s₂ hfiled₂ hrr₂).bind
                  fun later _ h' => Returns.pure ?_)
                exact .cons (not_lt.1 hfree) (by simpa using hcontact) (hcls ▸ halive) h'

/-- On a link that was free at zero, what comes later has left the earlier bundles their time. -/
theorem KeepsPace.pairwise (hrate : 0 < rateBps) {sent : List Forward}
    (h : KeepsPace gw C rateBps 0 sent) :
    sent.Pairwise fun f g =>
      0 ≤ f.now ∧ 0 ≤ g.now ∧ f.now + f.duration rateBps ≤ g.now + ulp g.now := by
  have hnow : ∀ f ∈ sent, 0 ≤ f.now := h.paced.le_start le_rfl fun f _ hf =>
    f.le_release hrate (nearestDouble_of_isDouble isDouble_zero) le_rfl hf
  have hpairwise := h.paced.pairwise fun f hf g _ hle =>
    g.le_release hrate (nearestDouble_nearestDouble _)
      (f.le_release hrate (nearestDouble_of_isDouble isDouble_zero) le_rfl (hnow f hf)) hle
  exact hpairwise.imp_of_mem fun hf hg hle =>
    ⟨hnow _ hf, hnow _ hg, Forward.spaced hrate (hnow _ hf) hle⟩

/-- A contact carries less than its rate allows before the last bundle it starts, but for the last
place of the clock per bundle. -/
theorem KeepsPace.bits_lt (hrate : 0 < rateBps) {sent earlier : List Forward}
    {last : Forward} {c : ℚ × ℚ} (h : KeepsPace gw C rateBps 0 sent)
    (hsplit : forwardedIn c sent = earlier ++ [last]) :
    (earlier.map Forward.bits).sum < rateBps * (c.2 - c.1 + earlier.length * ulp c.2) := by
  have hinside : ∀ f ∈ earlier ++ [last], c.1 ≤ f.now ∧ f.now < c.2 := by
    intro f hf
    rw [← hsplit, forwardedIn, List.mem_filter] at hf
    simpa using hf.2
  have hpairwise := (h.pairwise hrate).filter fun f => decide (c.1 ≤ f.now) && decide (f.now < c.2)
  rw [show sent.filter _ = earlier ++ [last] from hsplit] at hpairwise
  have hspaced : Spaced Forward.now (fun f => f.duration rateBps - ulp c.2)
      (earlier ++ [last]) := by
    refine hpairwise.imp_of_mem fun _ hg hle => ?_
    obtain ⟨-, hnow, hle⟩ := hle
    have hulp := ulp_mono hnow (hinside _ hg).2.le
    linarith
  have hlt := hspaced.sum_lt (fun f hf => (hinside f hf).1) (hinside last (by simp)).2
  have hslack : (earlier.map (Forward.duration rateBps)).sum =
      (earlier.map fun f => f.duration rateBps - ulp c.2).sum + earlier.length * ulp c.2 := by
    have hconst : (earlier.map fun _ => ulp c.2).sum = earlier.length * ulp c.2 := by
      rw [List.map_const', List.sum_replicate, nsmul_eq_mul]
    rw [← hconst, ← List.sum_map_add]
    simp only [sub_add_cancel]
  have hbits : ∀ f : Forward, f.bits = rateBps * f.duration rateBps := fun f => by
    rw [Forward.duration, mul_div_cancel₀ _ hrate.ne']
  calc (earlier.map Forward.bits).sum
      _ = rateBps * (earlier.map (Forward.duration rateBps)).sum := by
        rw [funext hbits, List.sum_map_mul_left]
      _ < rateBps * (c.2 - c.1 + earlier.length * ulp c.2) :=
        mul_lt_mul_of_pos_left (by linarith) hrate

end Loop

/-- The loop raises nothing.  It forwards inside contacts only, and leaves the link the time every
bundle takes, but for the last place of the clock; so a contact carries less than its bits before
its last bundle, but for one last place per bundle.  It forwards no bundle that is older than its
class allows; the age it goes by is exact when neither clock reading is more than twice the
other. -/
theorem drainLoop_is_paced (gw : LiveGateway) (content : Content) (C : List (ℚ × ℚ)) {rateBps : ℚ}
    (hrate : 0 < rateBps) (t1 : ℚ) (rounds : List DrainRound) :
    ∃ sent s', gw.drainLoop C rateBps t1 rounds 0 content.state = .ok sent s' ∧
      (∀ f ∈ sent, ∃ c ∈ C, c.1 ≤ f.now ∧ f.now < c.2) ∧
      sent.Pairwise (fun f g => f.now + f.bits / rateBps ≤ g.now + ulp g.now) ∧
      (∀ c ∈ C, ∀ earlier last, forwardedIn c sent = earlier ++ [last] →
        (earlier.map Forward.bits).sum <
          rateBps * (c.2 - c.1 + earlier.length * ulp c.2)) ∧
      ∀ f ∈ sent, (f.bundle.n < 2 ^ 50 → f.bits = f.bundle.n * 8) ∧
        f.now - f.bundle.t ≤ gw.L f.bundle.cls ∧
        (IsDouble f.now → IsDouble f.bundle.t → f.bundle.t ≤ f.now → f.now ≤ 2 * f.bundle.t →
          nearestDouble (f.now - f.bundle.t) = f.now - f.bundle.t) := by
  have hrr : content.state.rr ≠ [] := fun hnil => nomatch (hnil ▸ content.turns).nil_eq
  obtain ⟨sent, s', hrun, h⟩ := drainLoop_spec gw C hrate t1 rounds 0 _ content.filed hrr
  refine ⟨sent, s', hrun, fun f hf => inContact_iff.1 (h.contact f hf), ?_,
    fun c _ earlier last hsplit => h.bits_lt hrate hsplit,
    fun f hf => ⟨f.bits_eq, h.alive f hf, nearestDouble_sub⟩⟩
  exact (h.pairwise hrate).imp fun hle => hle.2.2

/-- What the constructor sets up. -/
def Content.initial : Content where
  state := .initial
  filed := fun _ _ hb => absurd hb List.not_mem_nil
  turns := List.Perm.refl _

/-- The link is busy with `alarm` in the second round; the last one falls outside the contact. -/
def Small.rounds : List DrainRound :=
  [{ admits := [(Small.clip, 0), (Small.alarm, 1)], checked := 2, now := 2 },
    { admits := [(Small.survey, 2)], checked := 2, now := 5 / 2 },
    { admits := [], checked := 4, now := 4 },
    { admits := [(Small.beacon, 4)], checked := 11, now := 11 }]

theorem drainLoop_is_paced_small :
    ∃ sent s', (Small.gateway .wfq).drainLoop [(0, 10)] 4800 20 Small.rounds 0
        Content.initial.state = .ok sent s' ∧
      (∀ f ∈ sent, ∃ c ∈ [((0 : ℚ), (10 : ℚ))], c.1 ≤ f.now ∧ f.now < c.2) ∧
      sent.Pairwise (fun f g => f.now + f.bits / 4800 ≤ g.now + ulp g.now) ∧
      (∀ c ∈ [((0 : ℚ), (10 : ℚ))], ∀ earlier last, forwardedIn c sent = earlier ++ [last] →
        (earlier.map Forward.bits).sum <
          4800 * (c.2 - c.1 + earlier.length * ulp c.2)) ∧
      ∀ f ∈ sent, (f.bundle.n < 2 ^ 50 → f.bits = f.bundle.n * 8) ∧
        f.now - f.bundle.t ≤ (Small.gateway .wfq).L f.bundle.cls ∧
        (IsDouble f.now → IsDouble f.bundle.t → f.bundle.t ≤ f.now → f.now ≤ 2 * f.bundle.t →
          nearestDouble (f.now - f.bundle.t) = f.now - f.bundle.t) :=
  drainLoop_is_paced (Small.gateway .wfq) .initial [(0, 10)] (by norm_num : (0 : ℚ) < 4800) 20
    Small.rounds

/-- The instant at which `earlier` below is forwarded. -/
def Small.opening : ℚ := 1700000000

/-- Two bundles of 150 bytes. -/
def Small.earlier : LiveBundle := { ref := 0, cls := .telemetry, n := 150, t := Small.opening }

def Small.later : LiveBundle := { ref := 1, cls := .telemetry, n := 150, t := Small.opening }

/-- At 500 kbit/s they take 2.4 ms each; the double that is nearest to the end of the first is
below it. -/
def Small.release : ℚ := Small.opening + 10066 / 2 ^ 22

/-- Without the last place of the clock the second bundle starts too early. -/
theorem second_bundle_starts_early :
    (∃ s', (Small.gateway .wfq).drainLoop [(Small.opening, Small.opening + 10)] 500000
        (Small.opening + 20)
        [{ admits := [(Small.earlier, Small.opening), (Small.later, Small.opening)],
           checked := Small.opening, now := Small.opening },
         { admits := [], checked := Small.release, now := Small.release }] 0
        Content.initial.state = .ok [⟨Small.opening, Small.earlier⟩, ⟨Small.release, Small.later⟩]
          s') ∧
      IsDouble Small.opening ∧ IsDouble Small.release ∧ IsDouble 500000 ∧
      Small.release < Small.opening + 8 * Small.earlier.n / 500000 := by
  refine ⟨?_, ?_, ?_, ?_, by norm_num [Small.release, Small.opening, Small.earlier]⟩
  · have hrun : (Foundation.Machine.outcome ((Small.gateway .wfq).drainLoop
        [(Small.opening, Small.opening + 10)] 500000 (Small.opening + 20)
        [{ admits := [(Small.earlier, Small.opening), (Small.later, Small.opening)],
           checked := Small.opening, now := Small.opening },
         { admits := [], checked := Small.release, now := Small.release }] 0
        Content.initial.state)).map Prod.fst =
        some [⟨Small.opening, Small.earlier⟩, ⟨Small.release, Small.later⟩] := by
      decide +kernel
    obtain ⟨sent, s', hloop, rfl⟩ := eq_ok_of_outcome hrun
    exact ⟨s', hloop⟩
  · exact ⟨1700000000, 0, by norm_num [Small.opening], by norm_num, by norm_num, by norm_num⟩
  · exact ⟨7130316800010066, -22, by norm_num [Small.release, Small.opening], by norm_num,
      by norm_num, by norm_num⟩
  · exact ⟨500000, 0, by norm_num, by norm_num, by norm_num, by norm_num⟩

end LinkController
end LunaBridge
