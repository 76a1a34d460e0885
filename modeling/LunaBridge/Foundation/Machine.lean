import LunaBridge.Foundation.Trace
import Mathlib.Data.List.Basic
import Mathlib.Tactic.Common

/-!
# Machine — running stateful programs that may raise

`EStateM ε σ` is the monad of programs over a state `σ` that keep every write made before an
exception of type `ε` is raised.  This module collects the rules a verification of such a
program uses:

* evaluation rules (`bind_ok`, `run_ite`, ...), one per construct;
* `Returns`, total correctness with respect to a postcondition, with its rules for sequencing and
  for the loop `for x in xs`;
* `Ensures`, partial correctness: what holds if the program returns;
* `forM_eq_ok_iff`, which reads the loop `for x in xs` as a run of its body;
* `Lockstep`, the relational rule set for two runs of programs of the same shape.
-/

namespace Foundation
namespace Machine

variable {ε σ α β : Type}

/-! ## Evaluation -/

@[simp] theorem run_ite (c : Prop) [Decidable c] (x y : EStateM ε σ α) (s : σ) :
    (if c then x else y) s = if c then x s else y s := by
  split <;> rfl

@[simp] theorem run_set (s t : σ) : (set t : EStateM ε σ PUnit) s = .ok ⟨⟩ t := rfl

@[simp] theorem run_get_bind (f : σ → EStateM ε σ α) (s : σ) : (get >>= f) s = f s s := rfl

@[simp] theorem run_ofExcept_bind (a : α) (f : α → EStateM ε σ β) (s : σ) :
    (MonadExcept.ofExcept (.ok a : Except ε α) >>= f) s = f a s := rfl

/-- A program that returns hands its result and its state to the rest. -/
theorem bind_ok {x : EStateM ε σ α} {f : α → EStateM ε σ β} {s s' : σ} {a : α}
    (h : x s = .ok a s') : (x >>= f) s = f a s' := by
  show EStateM.bind x f s = f a s'
  simp [EStateM.bind, h]

/-- A program that raises skips the rest and keeps the state it raised in. -/
theorem bind_error {x : EStateM ε σ α} {f : α → EStateM ε σ β} {s s' : σ} {e : ε}
    (h : x s = .error e s') : (x >>= f) s = .error e s' := by
  show EStateM.bind x f s = .error e s'
  simp [EStateM.bind, h]

/-- A computation without a state returns if each of its steps does. -/
theorem except_bind_eq_ok {x : Except ε α} {f : α → Except ε β} {b : β} :
    x >>= f = .ok b ↔ ∃ a, x = .ok a ∧ f a = .ok b := by
  constructor
  · intro h
    cases x with
    | ok a => exact ⟨a, rfl, h⟩
    | error e => cases h
  · rintro ⟨a, rfl, hf⟩
    exact hf

/-- A traversal each of whose steps returns. -/
theorem mapM_eq_ok {f : α → Except ε β} {g : α → β} {as : List α} (h : ∀ a ∈ as, f a = .ok (g a)) :
    as.mapM f = .ok (as.map g) := by
  induction as with
  | nil => rfl
  | cons a as ih =>
      obtain ⟨ha, has⟩ := List.forall_mem_cons.1 h
      rw [List.mapM_cons, ha, ih has]
      rfl

/-- A traversal that raises does so at one of its steps. -/
theorem exists_eq_error_of_mapM {f : α → Except ε β} {as : List α} {e : ε}
    (h : as.mapM f = .error e) : ∃ a ∈ as, f a = .error e := by
  induction as with
  | nil => cases h
  | cons a as ih =>
      rw [List.mapM_cons] at h
      cases ha : f a with
      | error e' =>
          rw [ha] at h
          cases h
          exact ⟨a, List.mem_cons_self .., ha⟩
      | ok b =>
          cases has : as.mapM f with
          | error e' =>
              rw [ha, has] at h
              cases h
              obtain ⟨a', ha', herror⟩ := ih has
              exact ⟨a', List.mem_cons_of_mem _ ha', herror⟩
          | ok bs =>
              rw [ha, has] at h
              cases h

/-- Each step of a traversal that returns has returned. -/
theorem eq_ok_of_mapM {f : α → Except ε β} {as : List α} {bs : List β} (h : as.mapM f = .ok bs) :
    ∀ a ∈ as, ∃ b, f a = .ok b := by
  induction as generalizing bs with
  | nil => exact nofun
  | cons a as ih =>
      rw [List.mapM_cons, except_bind_eq_ok] at h
      obtain ⟨b, hb, h⟩ := h
      obtain ⟨bs', hbs, -⟩ := except_bind_eq_ok.1 h
      exact List.forall_mem_cons.2 ⟨⟨b, hb⟩, ih hbs⟩

/-! ## Outcomes -/

/-- What a program that has not raised has returned and left behind. -/
def outcome : EStateM.Result ε σ α → Option (α × σ)
  | .ok a s => some (a, s)
  | .error _ _ => none

/-- What is observed of an outcome was observed of some result and state. -/
theorem eq_ok_of_outcome {r : EStateM.Result ε σ α} {f : α × σ → β} {b : β}
    (h : (outcome r).map f = some b) : ∃ a s, r = .ok a s ∧ f (a, s) = b := by
  cases r with
  | ok a s => exact ⟨a, s, rfl, Option.some.inj h⟩
  | error e s => cases h

/-! ## Postconditions -/

/-- Started in `s`, `x` raises nothing and what it returns and leaves behind satisfies `Q`. -/
def Returns (x : EStateM ε σ α) (s : σ) (Q : α → σ → Prop) : Prop :=
  ∃ a s', x s = .ok a s' ∧ Q a s'

namespace Returns

variable {x : EStateM ε σ α} {f : α → EStateM ε σ β} {s : σ} {P Q : α → σ → Prop}
  {R : β → σ → Prop}

protected theorem pure {a : α} (h : Q a s) : Returns (pure a : EStateM ε σ α) s Q :=
  ⟨a, s, rfl, h⟩

theorem mono (h : Returns x s P) (hPQ : ∀ a s', P a s' → Q a s') : Returns x s Q := by
  rcases h with ⟨a, s', hx, hP⟩
  exact ⟨a, s', hx, hPQ a s' hP⟩

/-- A program has one outcome, so what is known about it separately holds together. -/
protected theorem and (h : Returns x s P) (h' : Returns x s Q) :
    Returns x s fun a s' => P a s' ∧ Q a s' := by
  rcases h with ⟨a, s', hx, hP⟩
  rcases h' with ⟨a', s'', hx', hQ⟩
  rw [hx] at hx'
  cases hx'
  exact ⟨a, s', hx, hP, hQ⟩

/-- The same for what is known only under a condition. -/
protected theorem imp {c : Prop} (h : Returns x s P) (h' : c → Returns x s Q) :
    Returns x s fun a s' => P a s' ∧ (c → Q a s') := by
  by_cases hc : c
  · exact (h.and (h' hc)).mono fun _ _ hPQ => ⟨hPQ.1, fun _ => hPQ.2⟩
  · exact h.mono fun _ _ hP => ⟨hP, fun hc' => absurd hc' hc⟩

/-- Sequencing after a program whose outcome is known. -/
theorem ok_bind {s' : σ} {a : α} (hx : x s = .ok a s') (h : Returns (f a) s' R) :
    Returns (x >>= f) s R := by
  rcases h with ⟨b, s'', hfa, hR⟩
  exact ⟨b, s'', (bind_ok hx).trans hfa, hR⟩

protected theorem bind (h : Returns x s P) (hf : ∀ a s', P a s' → Returns (f a) s' R) :
    Returns (x >>= f) s R := by
  rcases h with ⟨a, s', hx, hP⟩
  exact ok_bind hx (hf a s' hP)

theorem get_bind {f : σ → EStateM ε σ β} (h : Returns (f s) s R) : Returns (get >>= f) s R := h

theorem modify_bind {g : σ → σ} {f : PUnit → EStateM ε σ β} (h : Returns (f ⟨⟩) (g s) R) :
    Returns (modify g >>= f) s R := h

protected theorem modify {g : σ → σ} {Q : PUnit → σ → Prop} (h : Q ⟨⟩ (g s)) :
    Returns (modify g : EStateM ε σ PUnit) s Q :=
  ⟨⟨⟩, g s, rfl, h⟩

/-- Loop rule: an invariant indexed by the elements still to be visited. -/
theorem forM {f : α → EStateM ε σ PUnit} {I : List α → σ → Prop}
    (step : ∀ a as s, I (a :: as) s → Returns (f a) s fun _ s' => I as s') :
    ∀ as s, I as s → Returns (as.forM f) s fun _ s' => I [] s'
  | [], _, h => Returns.pure h
  | a :: as, s, h => (step a as s h).bind fun _ s₁ hI => forM step as s₁ hI

end Returns

/-! ## Partial correctness -/

/-- Started in `s`, `x` raises, or what it returns and leaves behind satisfies `Q`. -/
def Ensures (x : EStateM ε σ α) (s : σ) (Q : α → σ → Prop) : Prop :=
  ∀ a s', x s = .ok a s' → Q a s'

/-- A program has one outcome, so a postcondition it reaches is one it ensures. -/
theorem Returns.ensures {x : EStateM ε σ α} {s : σ} {P : α → σ → Prop} (h : Returns x s P) :
    Ensures x s P := by
  rcases h with ⟨a, s', hx, hP⟩
  intro a' s'' hx'
  rw [hx] at hx'
  cases hx'
  exact hP

namespace Ensures

variable {x : EStateM ε σ α} {f : α → EStateM ε σ β} {s : σ} {P Q : α → σ → Prop}
  {R : β → σ → Prop}

protected theorem pure {a : α} (h : Q a s) : Ensures (pure a : EStateM ε σ α) s Q := by
  rintro _ _ ⟨⟩
  exact h

protected theorem throw (e : ε) : Ensures (throw e : EStateM ε σ α) s Q := nofun

theorem mono (h : Ensures x s P) (hPQ : ∀ a s', P a s' → Q a s') : Ensures x s Q :=
  fun a s' hx => hPQ a s' (h a s' hx)

protected theorem and (h : Ensures x s P) (h' : Ensures x s Q) :
    Ensures x s fun a s' => P a s' ∧ Q a s' :=
  fun a s' hx => ⟨h a s' hx, h' a s' hx⟩

protected theorem bind (h : Ensures x s P) (hf : ∀ a s', P a s' → Ensures (f a) s' R) :
    Ensures (x >>= f) s R := by
  intro b s'' hxf
  cases hx : x s with
  | ok a s' =>
      rw [bind_ok hx] at hxf
      exact hf a s' (h a s' hx) b s'' hxf
  | error e s' =>
      rw [bind_error hx] at hxf
      cases hxf

theorem get_bind {f : σ → EStateM ε σ β} (h : Ensures (f s) s R) : Ensures (get >>= f) s R := h

protected theorem modify {g : σ → σ} {Q : PUnit → σ → Prop} (h : Q ⟨⟩ (g s)) :
    Ensures (modify g : EStateM ε σ PUnit) s Q := by
  rintro _ _ ⟨⟩
  exact h

/-- Loop rule: an invariant indexed by the elements still to be visited. -/
theorem forM {f : α → EStateM ε σ PUnit} {I : List α → σ → Prop}
    (step : ∀ a as s, I (a :: as) s → Ensures (f a) s fun _ s' => I as s') :
    ∀ as s, I as s → Ensures (as.forM f) s fun _ s' => I [] s'
  | [], _, h => Ensures.pure h
  | a :: as, s, h => (step a as s h).bind fun _ s₁ hI => forM step as s₁ hI

end Ensures

/-! ## Loops as runs -/

/-- A loop that returns has run its body once for each element. -/
theorem forM_eq_ok_iff {f : α → EStateM ε σ PUnit} {as : List α} {s s' : σ} :
    as.forM f s = .ok ⟨⟩ s' ↔ Trace.Run (fun a t t' => f a t = .ok ⟨⟩ t') as s s' := by
  induction as generalizing s with
  | nil =>
      rw [Trace.Run.nil_iff]
      constructor
      · rintro ⟨⟩
        rfl
      · rintro rfl
        rfl
  | cons a as ih =>
      rw [Trace.Run.cons_iff]
      constructor
      · intro h
        cases ha : f a s with
        | ok u s₁ => exact ⟨s₁, rfl, ih.1 ((bind_ok ha).symm.trans h)⟩
        | error e s₁ => cases (bind_error ha).symm.trans h
      · rintro ⟨s₁, ha, hrest⟩
        exact (bind_ok ha).trans (ih.2 hrest)

/-! ## Two runs in lockstep -/

/-- Two results correspond: both return the same value, or both raise the same exception, and
the final states are related. -/
inductive Matches (R : σ → σ → Prop) : EStateM.Result ε σ α → EStateM.Result ε σ α → Prop
  | ok {a : α} {s t : σ} (h : R s t) : Matches R (.ok a s) (.ok a t)
  | error {e : ε} {s t : σ} (h : R s t) : Matches R (.error e s) (.error e t)

/-- What corresponds to a program that has returned has returned as well. -/
theorem Matches.ok_right {R : σ → σ → Prop} {r r' : EStateM.Result ε σ α} {a : α} {t : σ}
    (h : Matches R r r') (hr' : r' = .ok a t) : ∃ s, r = .ok a s ∧ R s t := by
  cases h with
  | ok hst =>
      cases hr'
      exact ⟨_, rfl, hst⟩
  | error hst => cases hr'

/-- `x` and `y` take related states to corresponding results. -/
def Lockstep (R : σ → σ → Prop) (x y : EStateM ε σ α) : Prop :=
  ∀ s t, R s t → Matches R (x s) (y t)

section Rules

variable {R : σ → σ → Prop}

theorem lockstep_pure (a : α) : Lockstep R (pure a : EStateM ε σ α) (pure a) :=
  fun _ _ h => .ok h

theorem lockstep_throw (e : ε) : Lockstep R (throw e : EStateM ε σ α) (throw e) :=
  fun _ _ h => .error h

theorem lockstep_modify {f : σ → σ} (hf : ∀ s t, R s t → R (f s) (f t)) :
    Lockstep R (modify f : EStateM ε σ PUnit) (modify f) :=
  fun s t h => .ok (hf s t h)

theorem lockstep_bind {x y : EStateM ε σ α} {f g : α → EStateM ε σ β} (hx : Lockstep R x y)
    (hf : ∀ a, Lockstep R (f a) (g a)) : Lockstep R (x >>= f) (y >>= g) := by
  intro s t h
  have hst := hx s t h
  generalize hrx : x s = rx at hst
  generalize hry : y t = ry at hst
  cases hst with
  | ok h' =>
      rw [bind_ok hrx, bind_ok hry]
      exact hf _ _ _ h'
  | error h' =>
      rw [bind_error hrx, bind_error hry]
      exact .error h'

theorem lockstep_ite {p : Prop} [Decidable p] {x y x' y' : EStateM ε σ α} (hx : Lockstep R x x')
    (hy : Lockstep R y y') : Lockstep R (if p then x else y) (if p then x' else y') := by
  split
  · exact hx
  · exact hy

/-- Reading the state: the continuations need to correspond at related states only. -/
theorem lockstep_get_bind {f g : σ → EStateM ε σ α}
    (h : ∀ s t, R s t → Matches R (f s s) (g t t)) : Lockstep R (get >>= f) (get >>= g) :=
  fun s t hst => h s t hst

theorem lockstep_forM {f g : α → EStateM ε σ PUnit} (h : ∀ a, Lockstep R (f a) (g a)) :
    ∀ as : List α, Lockstep R (as.forM f) (as.forM g)
  | [] => lockstep_pure PUnit.unit
  | a :: as => lockstep_bind (h a) fun _ => lockstep_forM h as

end Rules

end Machine
end Foundation
