import LunaBridge.Live.View

/-!
# Isolation — lower classes are invisible to higher ones at the live gateway

On views, what happens to the classes up to rank `r` is what would happen if there were no other
classes: lower classes are evicted first and are served last.  By the refinement the same holds of
the gateway, although the two runs hold different stale bundles.
-/

namespace LunaBridge
namespace LinkController

open Foundation.Machine Foundation.Selection Foundation.Python Foundation.StableSort Gateway

/-! ## Cutting off the lower classes -/

/-- The bundle is of rank `r` or higher priority. -/
def LiveBundle.upTo (r : ℕ) (b : LiveBundle) : Bool := decide (rank b.cls ≤ r)

/-- The call is no `admit` of a bundle below rank `r`. -/
def LiveCall.upTo (r : ℕ) : LiveCall → Bool
  | .admitBundle b _ => b.upTo r
  | .next _ => true

/-- The answer, with no bundle instead of one below rank `r`. -/
def LiveAnswer.upTo (r : ℕ) : LiveAnswer → LiveAnswer
  | .admitted accepted => .admitted accepted
  | .popped b => .popped (b.filter (LiveBundle.upTo r))

namespace View

/-- The view of the classes up to rank `r`. -/
def upTo (r : ℕ) (view : View) : View := fun c => if rank c ≤ r then view c else []

/-- Every bundle is listed under its class. -/
def Sorted (view : View) : Prop := ∀ c, ∀ b ∈ view c, b.cls = c

variable {gw : LiveGateway} {view : View} {r : ℕ} {b : LiveBundle}

theorem upTo_of_le {c : TrafficClass} (hc : rank c ≤ r) : view.upTo r c = view c := if_pos hc

theorem upTo_of_lt {c : TrafficClass} (hc : r < rank c) : view.upTo r c = [] :=
  if_neg (not_le.2 hc)

theorem Sorted.mem_upTo (h : view.Sorted) {c : TrafficClass} {a : LiveBundle} (ha : a ∈ view c) :
    a.upTo r = true ↔ rank c ≤ r := by
  rw [LiveBundle.upTo, decide_eq_true_eq, h c a ha]

/-! ## Orders of the classes -/

theorem lowestFirst_ordered :
    LiveGateway.lowestFirst.Pairwise fun c c' => rank c' ≤ rank c := by
  decide

/-- In front come the classes below rank `r`, behind them the others. -/
theorem mem_dropWhile_lowestFirst {c : TrafficClass}
    (hc : c ∈ LiveGateway.lowestFirst.dropWhile fun c => decide (r < rank c)) : rank c ≤ r := by
  have hordered : LiveGateway.lowestFirst.Pairwise fun c c' =>
      decide (r < rank c') = true → decide (r < rank c) = true :=
    lowestFirst_ordered.imp fun {c c'} hle hlt => by
      simp only [decide_eq_true_eq] at hlt ⊢
      omega
  rw [dropWhile_eq_filter hordered] at hc
  simpa using (List.mem_filter.1 hc).2

/-- The bundles below rank `r`, in the order in which they are evicted. -/
def below (r : ℕ) (view : View) : List LiveBundle :=
  (LiveGateway.lowestFirst.takeWhile fun c => decide (r < rank c)).flatMap fun c => (view c).reverse

theorem Sorted.mem_below (h : view.Sorted) {a : LiveBundle} (ha : a ∈ view.below r) :
    a.upTo r = false := by
  obtain ⟨c, hc, ha'⟩ := List.mem_flatMap.1 ha
  have hlt : r < rank c := of_mem_takeWhile (P := fun c => r < rank c) hc
  rw [LiveBundle.upTo, h c a (List.mem_reverse.1 ha'), decide_eq_false_iff_not, not_le]
  exact hlt

/-- A bundle up to rank `r` may displace all bundles below, and then some up to rank `r`. -/
theorem displaceable_upTo (hb : b.upTo r = true) :
    displaceable view b LiveGateway.lowestFirst =
      view.below r ++ displaceable (view.upTo r) b LiveGateway.lowestFirst := by
  have hrank : rank b.cls ≤ r := of_decide_eq_true hb
  have hsplit := List.takeWhile_append_dropWhile
    (p := fun c => decide (r < rank c)) (l := LiveGateway.lowestFirst)
  have hfront : ∀ c ∈ LiveGateway.lowestFirst.takeWhile (fun c => decide (r < rank c)),
      decide (rank b.cls < rank c) = true := fun c hc => by
    have hlt : r < rank c := of_mem_takeWhile (P := fun c => r < rank c) hc
    exact decide_eq_true (by omega)
  have hnone : ((LiveGateway.lowestFirst.takeWhile fun c => decide (r < rank c)).flatMap
      fun c => (view.upTo r c).reverse) = [] := by
    refine List.flatMap_eq_nil_iff.2 fun c hc => ?_
    have hlt : r < rank c := of_mem_takeWhile (P := fun c => r < rank c) hc
    rw [upTo_of_lt hlt, List.reverse_nil]
  have hsame : (((LiveGateway.lowestFirst.dropWhile fun c => decide (r < rank c)).takeWhile
      fun c => decide (rank b.cls < rank c)).flatMap fun c => (view.upTo r c).reverse) =
        ((LiveGateway.lowestFirst.dropWhile fun c => decide (r < rank c)).takeWhile
          fun c => decide (rank b.cls < rank c)).flatMap fun c => (view c).reverse := by
    refine List.flatMap_congr fun c hc => ?_
    rw [upTo_of_le (mem_dropWhile_lowestFirst ((List.takeWhile_sublist _).subset hc))]
  rw [displaceable, displaceable, ← hsplit, List.takeWhile_append_of_pos hfront,
    List.flatMap_append, List.flatMap_append, hnone, hsame, List.nil_append]
  rfl

/-- The bytes of the view are those below rank `r` and those of the classes up to it. -/
theorem bytes_upTo (view : View) (r : ℕ) :
    view.bytes = bytesOf (view.below r) + (view.upTo r).bytes := by
  have hperm : LiveGateway.lowestFirst.Perm rankClasses := sortByDesc_perm _ _
  have hbytes : ∀ v : View, v.bytes = bytesOf (LiveGateway.lowestFirst.flatMap v) := fun v =>
    bytesOf_perm (hperm.flatMap_right v).symm
  have hsplit := List.takeWhile_append_dropWhile
    (p := fun c => decide (r < rank c)) (l := LiveGateway.lowestFirst)
  have hnone : (LiveGateway.lowestFirst.takeWhile fun c => decide (r < rank c)).flatMap
      (view.upTo r) = [] := by
    refine List.flatMap_eq_nil_iff.2 fun c hc => ?_
    exact upTo_of_lt (of_mem_takeWhile (P := fun c => r < rank c) hc)
  have hsame : (LiveGateway.lowestFirst.dropWhile fun c => decide (r < rank c)).flatMap
      (view.upTo r) =
        (LiveGateway.lowestFirst.dropWhile fun c => decide (r < rank c)).flatMap view :=
    List.flatMap_congr fun c hc => upTo_of_le (mem_dropWhile_lowestFirst hc)
  have hbelow : bytesOf (view.below r) =
      bytesOf ((LiveGateway.lowestFirst.takeWhile fun c => decide (r < rank c)).flatMap view) :=
    bytesOf_perm (List.Perm.flatMap_left _ fun c _ => List.reverse_perm _)
  calc view.bytes
      _ = bytesOf
            ((LiveGateway.lowestFirst.takeWhile fun c => decide (r < rank c)).flatMap view) +
          bytesOf
            ((LiveGateway.lowestFirst.dropWhile fun c => decide (r < rank c)).flatMap view) := by
        rw [hbytes, ← bytesOf_append, ← List.flatMap_append, hsplit]
      _ = bytesOf (view.below r) + (view.upTo r).bytes := by
        rw [hbytes, hbelow, ← hsame, ← List.nil_append (List.flatMap _ (List.dropWhile _ _)),
          ← hnone, ← List.flatMap_append, hsplit]

/-! ## One call on views -/

/-- The victims up to rank `r`, and whether they make room, do not depend on the classes below. -/
theorem victims_upTo (gw : LiveGateway) (view : View) (hb : b.upTo r = true) :
    (∃ front, (∀ v ∈ front, v ∈ view.below r) ∧
      view.victims gw b = front ++ (view.upTo r).victims gw b) ∧
    (view.Accepts gw b ↔ (view.upTo r).Accepts gw b) := by
  have hvictims : view.victims gw b =
      gw.needed b view.bytes (view.below r) ++
        gw.needed b (view.bytes - bytesOf (gw.needed b view.bytes (view.below r)))
          (displaceable (view.upTo r) b LiveGateway.lowestFirst) := by
    rw [victims, displaceable_upTo hb, needed_append]
  have hbytes := bytes_upTo view r
  have hstart := needed_isPrefix gw b view.bytes (view.below r)
  rcases needed_fits_or_all gw b view.bytes (view.below r) with hfits | hall
  · -- the classes below make room, so nobody else has to go, with or without them
    obtain ⟨rest, hrest⟩ := hstart
    have hle : bytesOf (gw.needed b view.bytes (view.below r)) ≤ bytesOf (view.below r) := by
      have := congrArg bytesOf hrest
      have := bytesOf_nonneg rest
      rw [bytesOf_append] at *
      omega
    have hfits' : ¬ (gw.cap : ℤ) < (view.upTo r).bytes + b.n := by omega
    have hnone : (view.upTo r).victims gw b = [] := needed_of_fits hfits' _
    rw [needed_of_fits hfits, List.append_nil] at hvictims
    refine ⟨⟨_, fun v hv => hrest ▸ List.mem_append_left _ hv, by rw [hnone, hvictims,
      List.append_nil]⟩, ?_⟩
    rw [Accepts, Accepts, hnone, hvictims, bytesOf_nil, sub_zero]
    exact iff_of_true (not_lt.1 hfits) (not_lt.1 hfits')
  · -- all of the classes below have to go, and then the two decide alike
    have hleft : view.bytes - bytesOf (view.below r) = (view.upTo r).bytes := by omega
    rw [hall, hleft] at hvictims
    refine ⟨⟨_, fun v hv => hv, hvictims⟩, ?_⟩
    have hsame : view.victims gw b = view.below r ++ (view.upTo r).victims gw b := hvictims
    rw [Accepts, Accepts, hsame, bytesOf_append, ← hleft, sub_sub]

theorem mem_victims {v : LiveBundle} (hv : v ∈ view.victims gw b) :
    ∃ c, rank b.cls < rank c ∧ v ∈ view c := by
  obtain ⟨c, hc, hv'⟩ := List.mem_flatMap.1 ((needed_isPrefix gw b _ _).subset hv)
  exact ⟨c, of_mem_takeWhile (P := fun c => rank b.cls < rank c) hc, List.mem_reverse.1 hv'⟩

theorem Sorted.upTo (h : view.Sorted) (r : ℕ) : (view.upTo r).Sorted := by
  intro c a ha
  rw [View.upTo] at ha
  split at ha
  · exact h c a ha
  · cases ha

theorem Sorted.of_mem_upTo (h : view.Sorted) {c : TrafficClass} {a : LiveBundle}
    (ha : a ∈ view.upTo r c) : a.upTo r = true := by
  rw [View.upTo] at ha
  split at ha
  · next hc => exact (h.mem_upTo ha).2 hc
  · cases ha

/-- Whom an `admit` up to rank `r` evicts up to rank `r`. -/
theorem Sorted.victims_filter (h : view.Sorted) (gw : LiveGateway) (hb : b.upTo r = true) :
    (view.victims gw b).filter (LiveBundle.upTo r) = (view.upTo r).victims gw b := by
  obtain ⟨⟨front, hfront, hsplit⟩, -⟩ := victims_upTo gw view hb
  have hnone : front.filter (LiveBundle.upTo r) = [] := List.filter_eq_nil_iff.2 fun v hv => by
    simp [h.mem_below (hfront v hv)]
  have hall : ((view.upTo r).victims gw b).filter (LiveBundle.upTo r) =
      (view.upTo r).victims gw b := List.filter_eq_self.2 fun v hv => by
    obtain ⟨c, _, hv'⟩ := mem_victims hv
    exact h.of_mem_upTo hv'
  rw [hsplit, List.filter_append, hnone, hall, List.nil_append]

/-- An `admit` below rank `r` evicts nobody up to rank `r`. -/
theorem Sorted.victims_filter_of_below (h : view.Sorted) (gw : LiveGateway)
    (hb : b.upTo r = false) :
    (view.victims gw b).filter (LiveBundle.upTo r) = [] := by
  refine List.filter_eq_nil_iff.2 fun v hv hlow => ?_
  obtain ⟨c, hc, hv'⟩ := mem_victims hv
  have hle := (h.mem_upTo hv').1 hlow
  have hlt : ¬ rank b.cls ≤ r := of_decide_eq_false hb
  omega

/-- Only those who leave from the classes up to rank `r` matter to them. -/
theorem Sorted.leave_upTo (h : view.Sorted) (vs : List LiveBundle) :
    (view.leave vs).upTo r = (view.upTo r).leave (vs.filter (LiveBundle.upTo r)) := by
  funext c
  by_cases hc : rank c ≤ r
  · rw [upTo_of_le hc, leave, leave, upTo_of_le hc]
    exact (without_filter_right _ vs fun a ha => (h.mem_upTo ha).2 hc).symm
  · rw [upTo_of_lt (not_le.1 hc), leave, upTo_of_lt (not_le.1 hc)]
    rfl

theorem join_upTo (hb : b.upTo r = true) (now : ℚ) :
    (view.join gw b now).upTo r = (view.upTo r).join gw b now := by
  have hrank : rank b.cls ≤ r := of_decide_eq_true hb
  rw [join, join]
  split
  · rfl
  · funext c
    by_cases hc : c = b.cls
    · subst hc
      rw [Function.update_self, upTo_of_le hrank, upTo_of_le hrank, Function.update_self]
    · rw [Function.update_of_ne hc, View.upTo, View.upTo, Function.update_of_ne hc]

theorem join_upTo_of_below (hb : b.upTo r = false) (now : ℚ) :
    (view.join gw b now).upTo r = view.upTo r := by
  have hrank : r < rank b.cls := not_le.1 (of_decide_eq_false hb)
  rw [join]
  split
  · rfl
  · funext c
    by_cases hc : c = b.cls
    · subst hc
      rw [upTo_of_lt hrank, upTo_of_lt hrank]
    · rw [View.upTo, View.upTo, Function.update_of_ne hc]

/-- The first bundle of the classes up to rank `r` is the first of all, or there is none. -/
theorem Sorted.first_upTo (h : view.Sorted) :
    (view.upTo r).first = view.first.filter (LiveBundle.upTo r) := by
  have hordered : rankClasses.Pairwise fun c c' =>
      decide (rank c' ≤ r) = true → decide (rank c ≤ r) = true := by
    have hranks : rankClasses.Pairwise fun c c' => rank c ≤ rank c' := by decide
    refine hranks.imp fun {c c'} hle hle' => ?_
    simp only [decide_eq_true_eq] at hle' ⊢
    omega
  have hsplit := List.takeWhile_append_dropWhile
    (p := fun c => decide (rank c ≤ r)) (l := rankClasses)
  have hsame : (rankClasses.takeWhile fun c => decide (rank c ≤ r)).flatMap (view.upTo r) =
      (rankClasses.takeWhile fun c => decide (rank c ≤ r)).flatMap view :=
    List.flatMap_congr fun c hc => upTo_of_le (of_mem_takeWhile (P := fun c => rank c ≤ r) hc)
  have hlater : ∀ c ∈ rankClasses.dropWhile (fun c => decide (rank c ≤ r)), r < rank c := by
    intro c hc
    rw [dropWhile_eq_filter hordered] at hc
    simpa using (List.mem_filter.1 hc).2
  have hnone : (rankClasses.dropWhile fun c => decide (rank c ≤ r)).flatMap (view.upTo r) = [] :=
    List.flatMap_eq_nil_iff.2 fun c hc => upTo_of_lt (hlater c hc)
  rw [first, first, ← hsplit, List.flatMap_append, List.flatMap_append, hsame, hnone,
    List.append_nil]
  cases hfront : (rankClasses.takeWhile fun c => decide (rank c ≤ r)).flatMap view with
  | cons a rest =>
      -- somebody up to rank `r` is waiting, and is first either way
      have ha : a ∈ (rankClasses.takeWhile fun c => decide (rank c ≤ r)).flatMap view := by
        rw [hfront]
        exact List.mem_cons_self ..
      obtain ⟨c, hc, ha'⟩ := List.mem_flatMap.1 ha
      have hlow := (h.mem_upTo (r := r) ha').2 (of_mem_takeWhile (P := fun c => rank c ≤ r) hc)
      simp [Option.filter, hlow]
  | nil =>
      rw [List.nil_append, List.head?_nil]
      -- nobody up to rank `r` is waiting, so whoever is first is below
      cases hback : (rankClasses.dropWhile fun c => decide (rank c ≤ r)).flatMap view with
      | nil => rfl
      | cons a rest =>
          have ha : a ∈ (rankClasses.dropWhile fun c => decide (rank c ≤ r)).flatMap view := by
            rw [hback]
            exact List.mem_cons_self ..
          obtain ⟨c, hc, ha'⟩ := List.mem_flatMap.1 ha
          have hhigh : a.upTo r = false := by
            rw [LiveBundle.upTo, h c a ha', decide_eq_false_iff_not, not_le]
            exact hlater c hc
          simp [Option.filter, hhigh]

/-- A call that concerns the classes up to rank `r` treats them as if there were no others. -/
theorem Sorted.call_upTo (h : view.Sorted) (gw : LiveGateway) {call : LiveCall}
    (hcall : call.upTo r = true) :
    (view.upTo r).answer gw call = (view.answer gw call).upTo r ∧
      (view.upTo r).after gw call = (view.after gw call).upTo r ∧
      (view.evicted gw call).filter (LiveBundle.upTo r) = (view.upTo r).evicted gw call := by
  cases call with
  | admitBundle b now =>
      have hb : b.upTo r = true := hcall
      have hvictims := h.victims_filter gw hb
      have haccepts := (victims_upTo gw view hb).2
      have hleave : (view.leave (view.victims gw b)).upTo r =
          (view.upTo r).leave ((view.upTo r).victims gw b) := by
        rw [h.leave_upTo, hvictims]
      refine ⟨?_, ?_, hvictims⟩
      · simp only [answer, LiveAnswer.upTo, haccepts]
      · by_cases hacc : view.Accepts gw b
        · simp only [after, if_pos hacc, if_pos (haccepts.1 hacc)]
          rw [join_upTo hb, hleave]
        · simp only [after, if_neg hacc, if_neg fun h' => hacc (haccepts.2 h')]
          rw [hleave]
  | next now =>
      refine ⟨?_, ?_, rfl⟩
      · simp only [answer, LiveAnswer.upTo, h.first_upTo]
      · simp only [after]
        rw [h.leave_upTo, h.first_upTo]
        cases hfirst : view.first with
        | none => rfl
        | some a => cases hlow : a.upTo r <;> simp [Option.filter, hlow]

/-- An `admit` below rank `r` leaves the classes up to rank `r` alone. -/
theorem Sorted.call_below (h : view.Sorted) (gw : LiveGateway) {call : LiveCall}
    (hcall : call.upTo r = false) :
    (view.after gw call).upTo r = view.upTo r ∧
      (view.evicted gw call).filter (LiveBundle.upTo r) = [] := by
  cases call with
  | next now => cases hcall
  | admitBundle b now =>
      have hb : b.upTo r = false := hcall
      have hnone := h.victims_filter_of_below gw hb
      have hleave : (view.leave (view.victims gw b)).upTo r = view.upTo r := by
        rw [h.leave_upTo, hnone]
        funext c
        exact without_nil _
      refine ⟨?_, hnone⟩
      by_cases hacc : view.Accepts gw b
      · simp only [after, if_pos hacc]
        rw [join_upTo_of_below hb, hleave]
      · simp only [after, if_neg hacc]
        rw [hleave]

end View

/-! ## Two gateways -/

/-- At `now`, `t` holds of the classes up to rank `r` what `s` holds, and has evicted of them whom
`s` has evicted; of the classes below it has never heard. -/
structure Shadow (gw : LiveGateway) (r : ℕ) (now : ℚ) (s t : LiveState) : Prop where
  view : gw.view now t = (gw.view now s).upTo r
  evictions : t.evictions = s.evictions.filter fun e => e.bundle.upTo r

theorem view_sorted {s : LiveState} (h : Coherent s) (gw : LiveGateway) (now : ℚ) :
    (gw.view now s).Sorted := fun _ _ hb => (h.mem_q.1 (List.mem_of_mem_filter hb)).2.2

theorem evictionEntries_filter (now : ℚ) (vs : List LiveBundle) (r : ℕ) :
    (evictionEntries now vs).filter (fun e => e.bundle.upTo r) =
      evictionEntries now (vs.filter (LiveBundle.upTo r)) := by
  rw [evictionEntries, evictionEntries, List.filter_map]
  rfl

section TwoRuns

variable {gw : LiveGateway} {r : ℕ} {hist hist' : History} {now : ℚ} {s t : LiveState}

theorem Shadow.later (h : Shadow gw r now s t) {later : ℚ} (hle : now ≤ later) :
    Shadow gw r later s t where
  view := by
    funext c
    rw [view_later gw hle, h.view, View.upTo, View.upTo]
    split
    · exact (view_later gw hle s c).symm
    · rfl
  evictions := h.evictions

/-- Both gateways serve a call that concerns the classes up to rank `r`. -/
theorem Shadow.kept {call : LiveCall} {calls calls' : List LiveCall}
    (hpolicy : gw.policy = .strict) (hadmission : gw.admission = .priority)
    (hcall : call.upTo r = true) (hready : Ready hist now (call :: calls))
    (hready' : Ready hist' now (call :: calls')) (hs : Sound gw hist now s)
    (ht : Sound gw hist' now t) (h : Shadow gw r now s t) :
    ∃ a s₁ t₁, call.exec gw s = .ok a s₁ ∧ call.exec gw t = .ok (a.upTo r) t₁ ∧
      Sound gw (hist.extend [call] [a]) call.now s₁ ∧
      Ready (hist.extend [call] [a]) call.now calls ∧
      Sound gw (hist'.extend [call] [a.upTo r]) call.now t₁ ∧
      Ready (hist'.extend [call] [a.upTo r]) call.now calls' ∧ Shadow gw r call.now s₁ t₁ := by
  have hnow := h.later (hready.later call (List.mem_cons_self ..))
  obtain ⟨hanswer, hafter, hevicted⟩ :=
    (view_sorted hs.coherent gw call.now).call_upTo gw hcall
  obtain ⟨a, s₁, hexec, ⟨hs₁, -, hready₁⟩, ha, hview, hevictions⟩ :=
    (hready.exec hs).and (exec_refines hpolicy hadmission hs.coherent call)
  obtain ⟨a', t₁, hexec', ⟨ht₁, -, hready₁'⟩, ha', hview', hevictions'⟩ :=
    (hready'.exec ht).and (exec_refines hpolicy hadmission ht.coherent call)
  have hanswers : a' = a.upTo r := by rw [ha', ha, hnow.view, hanswer]
  subst hanswers
  refine ⟨a, s₁, t₁, hexec, hexec', hs₁, hready₁, ht₁, hready₁', ?_, ?_⟩
  · rw [hview', hview, hnow.view, hafter]
  · rw [hevictions', hevictions, List.filter_append, evictionEntries_filter, hnow.evictions,
      hevicted, hnow.view]

/-- Only the first gateway serves an `admit` below rank `r`. -/
theorem Shadow.skipped {call : LiveCall} {calls : List LiveCall}
    (hpolicy : gw.policy = .strict) (hadmission : gw.admission = .priority)
    (hcall : call.upTo r = false) (hready : Ready hist now (call :: calls))
    (hs : Sound gw hist now s) (h : Shadow gw r now s t) :
    ∃ a s₁, call.exec gw s = .ok a s₁ ∧ Sound gw (hist.extend [call] [a]) call.now s₁ ∧
      Ready (hist.extend [call] [a]) call.now calls ∧ Shadow gw r call.now s₁ t := by
  have hnow := h.later (hready.later call (List.mem_cons_self ..))
  obtain ⟨hafter, hevicted⟩ :=
    (view_sorted hs.coherent gw call.now).call_below gw hcall
  obtain ⟨a, s₁, hexec, ⟨hs₁, -, hready₁⟩, -, hview, hevictions⟩ :=
    (hready.exec hs).and (exec_refines hpolicy hadmission hs.coherent call)
  refine ⟨a, s₁, hexec, hs₁, hready₁, ?_, ?_⟩
  · rw [hnow.view, hview, hafter]
  · rw [hnow.evictions, hevictions, List.filter_append, evictionEntries_filter, hevicted,
      evictionEntries, List.map_nil, List.append_nil]

/-- Calls that come later still may follow. -/
theorem Ready.advance {calls : List LiveCall} (h : Ready hist now calls) {later : ℚ}
    (hlater : ∀ call ∈ calls, later ≤ call.now) : Ready hist later calls :=
  { h with later := hlater }

theorem Ready.filter {calls : List LiveCall} (h : Ready hist now calls) (p : LiveCall → Bool) :
    Ready hist now (calls.filter p) where
  later call hcall := h.later call (List.mem_of_mem_filter hcall)
  monotone := h.monotone.sublist (List.filter_sublist.map _)
  fresh := h.fresh.sublist ((List.filter_sublist.filterMap _).append_left _)
  stamped b ts hb := h.stamped b ts (List.mem_of_mem_filter hb)

/-- The calls that concern the classes up to rank `r`, with what of their answers does. -/
def answersUpTo (r : ℕ) (calls : List LiveCall) (answers : List LiveAnswer) : List LiveAnswer :=
  ((calls.zip answers).filter fun p => p.1.upTo r).map fun p => p.2.upTo r

/-- Two gateways go on side by side. -/
theorem shadow_serve (hpolicy : gw.policy = .strict) (hadmission : gw.admission = .priority) :
    ∀ (calls : List LiveCall) (hist hist' : History) (now : ℚ) (s t : LiveState),
      Ready hist now calls → Ready hist' now (calls.filter (LiveCall.upTo r)) →
      Sound gw hist now s → Sound gw hist' now t → Shadow gw r now s t →
      ∃ answers s' t' later, gw.serve calls s = .ok answers s' ∧
        gw.serve (calls.filter (LiveCall.upTo r)) t = .ok (answersUpTo r calls answers) t' ∧
        Shadow gw r later s' t' := by
  intro calls
  induction calls with
  | nil =>
      intro hist hist' now s t _ _ _ _ h
      exact ⟨[], s, t, now, rfl, rfl, h⟩
  | cons call calls ih =>
      intro hist hist' now s t hready hready' hs ht h
      cases hcall : call.upTo r with
      | true =>
          rw [List.filter_cons_of_pos hcall] at hready' ⊢
          obtain ⟨a, s₁, t₁, hexec, hexec', hs₁, hready₁, ht₁, hready₁', h₁⟩ :=
            h.kept hpolicy hadmission hcall hready hready' hs ht
          obtain ⟨answers, s', t', later, hserve, hserve', hend⟩ :=
            ih _ _ _ _ _ hready₁ hready₁' hs₁ ht₁ h₁
          refine ⟨a :: answers, s', t', later, ?_, ?_, hend⟩
          · exact (bind_ok hexec).trans ((bind_ok hserve).trans rfl)
          · have hanswers : answersUpTo r (call :: calls) (a :: answers) =
                a.upTo r :: answersUpTo r calls answers := by
              simp [answersUpTo, hcall]
            rw [hanswers]
            exact (bind_ok hexec').trans ((bind_ok hserve').trans rfl)
      | false =>
          have hskip : (call :: calls).filter (LiveCall.upTo r) = calls.filter (LiveCall.upTo r) :=
            List.filter_cons_of_neg (by simp [hcall])
          rw [hskip] at hready' ⊢
          obtain ⟨a, s₁, hexec, hs₁, hready₁, h₁⟩ :=
            h.skipped hpolicy hadmission hcall hready hs
          have hlater : ∀ call' ∈ calls.filter (LiveCall.upTo r), call.now ≤ call'.now :=
            fun call' hmem => hready.first_le call' (List.mem_of_mem_filter hmem)
          have hle : now ≤ call.now := hready.later call (List.mem_cons_self ..)
          obtain ⟨answers, s', t', later, hserve, hserve', hend⟩ :=
            ih _ _ _ _ _ hready₁ (hready'.advance hlater) hs₁ (ht.mono hle) h₁
          refine ⟨a :: answers, s', t', later, ?_, ?_, hend⟩
          · exact (bind_ok hexec).trans ((bind_ok hserve).trans rfl)
          · have hanswers : answersUpTo r (call :: calls) (a :: answers) =
                answersUpTo r calls answers := by
              simp [answersUpTo, hcall]
            rw [hanswers]
            exact hserve'

end TwoRuns

/-- Under STRICT with priority admission, leaving out every `admit` below rank `r` changes nothing
for the classes up to it: the other calls to `admit` are answered alike, the same bundles are
evicted at the same instants, and `next` returns the same bundle where it returned one of these
classes and nothing where it did not. -/
theorem live_priority_noninterference {gw : LiveGateway} (hpolicy : gw.policy = .strict)
    (hadmission : gw.admission = .priority) {calls : List LiveCall} (h : Admissible calls) (r : ℕ) :
    ∃ answers s t, gw.serve calls .initial = .ok answers s ∧
      gw.serve (calls.filter (LiveCall.upTo r)) .initial = .ok (answersUpTo r calls answers) t ∧
      t.evictions = s.evictions.filter fun e => e.bundle.upTo r := by
  obtain ⟨start, hready⟩ := h.ready
  have hinitial := Sound.initial gw start
  have hshadow : Shadow gw r start .initial .initial := by
    refine ⟨funext fun c => ?_, rfl⟩
    rw [View.upTo]
    split <;> rfl
  obtain ⟨answers, s, t, later, hserve, hserve', hend⟩ := shadow_serve hpolicy hadmission calls
    _ _ start _ _ hready (hready.filter _) hinitial hinitial hshadow
  exact ⟨answers, s, t, hserve, hserve', hend.evictions⟩

theorem live_priority_noninterference_small :
    ∃ answers s t, (Small.gateway .strict).serve Small.calls .initial = .ok answers s ∧
      (Small.gateway .strict).serve (Small.calls.filter (LiveCall.upTo 0)) .initial =
        .ok (answersUpTo 0 Small.calls answers) t ∧
      t.evictions = s.evictions.filter fun e => e.bundle.upTo 0 :=
  live_priority_noninterference rfl rfl Small.calls_admissible 0

end LinkController
end LunaBridge
