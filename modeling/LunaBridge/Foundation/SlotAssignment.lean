import Mathlib.Data.Finset.Card
import Mathlib.Logic.Equiv.Basic
import Mathlib.Data.Fintype.Basic

/-!
# SlotAssignment — unit jobs in capacitated slots, served one slot at a time

A job may be placed in at most one of a list of slots, only where `allowed` says so, and no slot
takes more jobs than its capacity.  The main result is the exchange step behind earliest-deadline
scheduling (`exchange`): a maximal choice of urgent jobs for the first slot can replace whatever
an assignment puts there without placing fewer jobs overall.
-/

namespace Foundation
namespace SlotAssignment

variable {α σ : Type} [DecidableEq α] [DecidableEq σ]

/-- `A` places jobs of `jobs` into `slots` where they are allowed, within every capacity. -/
structure Feasible (allowed : α → σ → Prop) (cap : σ → ℕ) (jobs : Finset α) (slots : List σ)
    (A : α → Option σ) : Prop where
  supported : ∀ a s, A a = some s → a ∈ jobs ∧ s ∈ slots ∧ allowed a s
  capacity : ∀ s ∈ slots, (jobs.filter (fun a => A a = some s)).card ≤ cap s

/-- The jobs an assignment places. -/
def placed (jobs : Finset α) (A : α → Option σ) : Finset α :=
  jobs.filter (fun a => (A a).isSome)

variable {allowed : α → σ → Prop} {cap : σ → ℕ} {jobs : Finset α} {slots : List σ}
  {A : α → Option σ} {w : σ}

omit [DecidableEq α] in
/-- Dropping jobs that are not placed changes nothing. -/
theorem Feasible.restrict (hA : Feasible allowed cap jobs slots A) {jobs' : Finset α}
    (hsub : jobs' ⊆ jobs) (hkeep : ∀ a s, A a = some s → a ∈ jobs') :
    Feasible allowed cap jobs' slots A ∧ placed jobs' A = placed jobs A := by
  refine ⟨⟨fun a s h => ⟨hkeep a s h, (hA.supported a s h).2⟩, fun s hs => ?_⟩, ?_⟩
  · exact (Finset.card_le_card (Finset.filter_subset_filter _ hsub)).trans (hA.capacity s hs)
  · ext a
    simp only [placed, Finset.mem_filter]
    constructor
    · rintro ⟨ha, hs⟩
      exact ⟨hsub ha, hs⟩
    · rintro ⟨_, hs⟩
      rcases Option.isSome_iff_exists.1 hs with ⟨s, hs'⟩
      exact ⟨hkeep a s hs', hs⟩

/-! ## The exchange step -/

/-- `G` is a maximal urgent choice for slot `w` among `jobs`: it fits, and a job that may use `w`
but was left out finds the slot full and can stand in for every chosen job later on. -/
structure UrgentChoice (allowed : α → σ → Prop) (cap : σ → ℕ) (jobs : Finset α) (w : σ)
    (slots : List σ) (G : Finset α) : Prop where
  subset : G ⊆ jobs
  allowedAt : ∀ g ∈ G, allowed g w
  fits : G.card ≤ cap w
  maximal : ∀ x ∈ jobs, x ∉ G → allowed x w →
    cap w ≤ G.card ∧ ∀ g ∈ G, ∀ s ∈ slots, allowed g s → allowed x s

variable {G : Finset α}

private theorem card_filter_swap {g x : α} (hg : g ∈ jobs) (hx : x ∈ jobs) (p : α → Prop)
    [DecidablePred p] :
    (jobs.filter (fun a => p (Equiv.swap g x a))).card = (jobs.filter p).card := by
  have hmem : ∀ a ∈ jobs, Equiv.swap g x a ∈ jobs := by
    intro a ha
    by_cases h1 : a = g
    · simpa [h1] using hx
    · by_cases h2 : a = x
      · simpa [h2] using hg
      · rwa [Equiv.swap_apply_of_ne_of_ne h1 h2]
  apply Finset.card_bij (fun a _ => Equiv.swap g x a)
  · intro a ha
    rcases Finset.mem_filter.1 ha with ⟨haj, hap⟩
    exact Finset.mem_filter.2 ⟨hmem a haj, hap⟩
  · intro a _ b _ hab
    exact (Equiv.swap g x).injective hab
  · intro b hb
    rcases Finset.mem_filter.1 hb with ⟨hbj, hbp⟩
    refine ⟨Equiv.swap g x b, Finset.mem_filter.2 ⟨hmem b hbj, ?_⟩, Equiv.swap_apply_self g x b⟩
    simpa using hbp

/-- A job outside the choice gives its place in `w` to a chosen job and takes over the place the
chosen job had. -/
private theorem swap_step (hG : UrgentChoice allowed cap jobs w slots G)
    (hA : Feasible allowed cap jobs (w :: slots) A) {g x : α} (hg : g ∈ G) (hgw : A g ≠ some w)
    (hx : x ∉ G) (hxw : A x = some w) :
    Feasible allowed cap jobs (w :: slots) (A ∘ Equiv.swap g x) ∧
      (placed jobs (A ∘ Equiv.swap g x)).card = (placed jobs A).card := by
  rcases hA.supported x w hxw with ⟨hxj, _, hxa⟩
  have hgj := hG.subset hg
  refine ⟨⟨?_, ?_⟩, ?_⟩
  · intro a s has
    by_cases hag : a = g
    · -- `g` now has the place of `x`, which is in `w`
      subst hag
      simp only [Function.comp, Equiv.swap_apply_left, hxw, Option.some.injEq] at has
      subst has
      exact ⟨hgj, List.mem_cons_self, hG.allowedAt a hg⟩
    · by_cases hax : a = x
      · -- `x` now has the place of `g`, where urgency allows it to be
        subst hax
        simp only [Function.comp, Equiv.swap_apply_right] at has
        rcases hA.supported g s has with ⟨_, hs, hgs⟩
        have hsw : s ≠ w := by
          rintro rfl
          exact hgw has
        have hs' : s ∈ slots := (List.mem_cons.1 hs).resolve_left hsw
        exact ⟨hxj, hs, (hG.maximal a hxj hx hxa).2 g hg s hs' hgs⟩
      · simp only [Function.comp, Equiv.swap_apply_of_ne_of_ne hag hax] at has
        exact hA.supported a s has
  · intro s hs
    have := card_filter_swap hgj hxj (fun a => A a = some s)
    simpa [this] using hA.capacity s hs
  · exact card_filter_swap hgj hxj (fun a => (A a).isSome)

/-- With room left in `w`, a chosen job simply moves there. -/
private theorem move_step (hG : UrgentChoice allowed cap jobs w slots G)
    (hA : Feasible allowed cap jobs (w :: slots) A) {g : α} (hg : g ∈ G)
    (hin : ∀ x, A x = some w → x ∈ G) :
    Feasible allowed cap jobs (w :: slots) (Function.update A g (some w)) ∧
      (placed jobs A).card ≤ (placed jobs (Function.update A g (some w))).card := by
  refine ⟨⟨?_, ?_⟩, ?_⟩
  · intro a s has
    by_cases hag : a = g
    · subst hag
      simp only [Function.update_self, Option.some.injEq] at has
      subst has
      exact ⟨hG.subset hg, List.mem_cons_self, hG.allowedAt a hg⟩
    · rw [Function.update_of_ne hag] at has
      exact hA.supported a s has
  · intro s hs
    by_cases hsw : s = w
    · subst hsw
      refine (Finset.card_le_card ?_).trans hG.fits
      intro a ha
      rcases Finset.mem_filter.1 ha with ⟨_, has⟩
      by_cases hag : a = g
      · exact hag ▸ hg
      · rw [Function.update_of_ne hag] at has
        exact hin a has
    · refine (Finset.card_le_card ?_).trans (hA.capacity s hs)
      intro a ha
      rcases Finset.mem_filter.1 ha with ⟨haj, has⟩
      refine Finset.mem_filter.2 ⟨haj, ?_⟩
      by_cases hag : a = g
      · subst hag
        simp only [Function.update_self, Option.some.injEq] at has
        exact absurd has.symm hsw
      · rwa [Function.update_of_ne hag] at has
  · apply Finset.card_le_card
    intro a ha
    rcases Finset.mem_filter.1 ha with ⟨haj, has⟩
    refine Finset.mem_filter.2 ⟨haj, ?_⟩
    by_cases hag : a = g
    · simp [hag]
    · rwa [Function.update_of_ne hag]

/-- One more chosen job can be brought into `w`, while every other chosen job stays in or out. -/
private theorem promote (hG : UrgentChoice allowed cap jobs w slots G)
    (hA : Feasible allowed cap jobs (w :: slots) A) {g : α} (hg : g ∈ G) (hgw : A g ≠ some w) :
    ∃ B, Feasible allowed cap jobs (w :: slots) B ∧
      (placed jobs A).card ≤ (placed jobs B).card ∧ B g = some w ∧
      ∀ a ∈ G, a ≠ g → (B a = some w ↔ A a = some w) := by
  by_cases hout : ∃ x, A x = some w ∧ x ∉ G
  · -- somebody outside the choice is in `w` and makes way
    rcases hout with ⟨x, hxw, hxG⟩
    rcases swap_step hG hA hg hgw hxG hxw with ⟨hB, hcard⟩
    refine ⟨A ∘ Equiv.swap g x, hB, hcard.ge, by simp [hxw], fun a ha hag => ?_⟩
    have hax : a ≠ x := fun heq => hxG (heq ▸ ha)
    simp [Equiv.swap_apply_of_ne_of_ne hag hax]
  · -- only chosen jobs are in `w`, so there is room for one more of them
    have hin : ∀ x, A x = some w → x ∈ G := by
      intro x hxw
      by_contra hxG
      exact hout ⟨x, hxw, hxG⟩
    rcases move_step hG hA hg hin with ⟨hB, hcard⟩
    refine ⟨Function.update A g (some w), hB, hcard, by simp, fun a _ hag => ?_⟩
    rw [Function.update_of_ne hag]

/-- When all chosen jobs are in `w`, nobody else is: the choice is maximal. -/
private theorem mem_of_served (hG : UrgentChoice allowed cap jobs w slots G)
    (hA : Feasible allowed cap jobs (w :: slots) A) (hGA : ∀ g ∈ G, A g = some w) {a : α}
    (haw : A a = some w) : a ∈ G := by
  by_contra haG
  -- `a` would overfill the slot: `G` alone already reaches the capacity
  rcases hA.supported a w haw with ⟨haj, _, haa⟩
  have hfull := (hG.maximal a haj haG haa).1
  have hsub : insert a G ⊆ jobs.filter (fun b => A b = some w) := by
    intro b hb
    rcases Finset.mem_insert.1 hb with rfl | hbG
    · exact Finset.mem_filter.2 ⟨haj, haw⟩
    · exact Finset.mem_filter.2 ⟨hG.subset hbG, hGA b hbG⟩
  have hcard := (Finset.card_le_card hsub).trans (hA.capacity w List.mem_cons_self)
  rw [Finset.card_insert_of_notMem haG] at hcard
  omega

/-- Step by step the first slot can be handed over to the urgent choice. -/
private theorem handover (hG : UrgentChoice allowed cap jobs w slots G) :
    ∀ (n : ℕ) (A : α → Option σ), (G.filter (fun g => A g ≠ some w)).card = n →
      Feasible allowed cap jobs (w :: slots) A →
      ∃ B, Feasible allowed cap jobs (w :: slots) B ∧
        (placed jobs A).card ≤ (placed jobs B).card ∧ ∀ a, B a = some w ↔ a ∈ G := by
  -- induction on the number of chosen jobs that are not in `w` yet
  intro n
  induction n with
  | zero =>
      intro A hn hA
      -- all chosen jobs are in `w`, so nobody else is
      have hGA : ∀ g ∈ G, A g = some w := by
        intro g hg
        have := Finset.filter_eq_empty_iff.1 (Finset.card_eq_zero.1 hn) hg
        simpa using this
      exact ⟨A, hA, le_rfl, fun a => ⟨mem_of_served hG hA hGA, hGA a⟩⟩
  | succ n ih =>
      intro A hn hA
      obtain ⟨g, hgmem⟩ : (G.filter (fun g => A g ≠ some w)).Nonempty := by
        rw [← Finset.card_pos, hn]
        omega
      rcases Finset.mem_filter.1 hgmem with ⟨hg, hgw⟩
      obtain ⟨B, hB, hcard, hBg, hsame⟩ := promote hG hA hg hgw
      -- one chosen job less is outside `w`
      have hfewer : G.filter (fun b => B b ≠ some w) =
          (G.filter (fun b => A b ≠ some w)).erase g := by
        ext b
        simp only [Finset.mem_filter, Finset.mem_erase]
        by_cases hbg : b = g
        · simp [hbg, hBg]
        · constructor
          · rintro ⟨hb, hbw⟩
            exact ⟨hbg, hb, fun h => hbw ((hsame b hb hbg).2 h)⟩
          · rintro ⟨_, hb, hbw⟩
            exact ⟨hb, fun h => hbw ((hsame b hb hbg).1 h)⟩
      have hn' : (G.filter (fun b => B b ≠ some w)).card = n := by
        rw [hfewer, Finset.card_erase_of_mem hgmem, hn]
        rfl
      rcases ih B hn' hB with ⟨C, hC, hle, hCG⟩
      exact ⟨C, hC, hcard.trans hle, hCG⟩

/-- **Exchange.**  Serving an urgent choice in the first slot costs no assignment more than the
jobs it serves: what remains of the jobs can still fill the later slots as well as before. -/
theorem exchange (hw : w ∉ slots) (hG : UrgentChoice allowed cap jobs w slots G)
    (hA : Feasible allowed cap jobs (w :: slots) A) :
    ∃ A', Feasible allowed cap (jobs \ G) slots A' ∧
      (placed jobs A).card ≤ G.card + (placed (jobs \ G) A').card := by
  rcases handover hG _ A rfl hA with ⟨B, hB, hle, hBG⟩
  refine ⟨fun a => if a ∈ G then none else B a, ⟨?_, ?_⟩, ?_⟩
  · intro a s has
    by_cases haG : a ∈ G
    · simp [haG] at has
    · simp only [haG, if_false] at has
      rcases hB.supported a s has with ⟨haj, hs, hall⟩
      have hsw : s ≠ w := by
        rintro rfl
        exact haG ((hBG a).1 has)
      exact ⟨Finset.mem_sdiff.2 ⟨haj, haG⟩, (List.mem_cons.1 hs).resolve_left hsw, hall⟩
  · intro s hs
    refine (Finset.card_le_card ?_).trans (hB.capacity s (List.mem_cons_of_mem _ hs))
    intro a ha
    rcases Finset.mem_filter.1 ha with ⟨haj, has⟩
    rcases Finset.mem_sdiff.1 haj with ⟨haj', haG⟩
    simp only [haG, if_false] at has
    exact Finset.mem_filter.2 ⟨haj', has⟩
  · refine hle.trans ?_
    rw [← Finset.card_union_of_disjoint]
    · apply Finset.card_le_card
      intro a ha
      rcases Finset.mem_filter.1 ha with ⟨haj, has⟩
      by_cases haG : a ∈ G
      · exact Finset.mem_union_left _ haG
      · refine Finset.mem_union_right _ (Finset.mem_filter.2 ⟨Finset.mem_sdiff.2 ⟨haj, haG⟩, ?_⟩)
        simpa [haG] using has
    · rw [Finset.disjoint_left]
      intro a haG ha
      exact (Finset.mem_sdiff.1 (Finset.mem_filter.1 ha).1).2 haG

end SlotAssignment
end Foundation
