import Mathlib.Data.List.Induction
import Mathlib.Data.List.Nodup
import Mathlib.Algebra.BigOperators.Group.List.Basic
import Mathlib.Data.Nat.Cast.Basic
import Mathlib.Data.List.Count
import Mathlib.Tactic.Common

/-!
# Dict — dictionaries that keep the order of insertion

A `Dict` is a list of items no two of which share a key.  Assigning to a key that is there changes
the item in its place, assigning to a new one appends.  `get?_set` says what an assignment does;
`tally` is the fold `d[k] = d.get(k, 0) + 1`, and `get?_tally` what it counts.
-/

namespace Foundation

structure Dict (κ α : Type) where
  items : List (κ × α)
  nodup : (items.map Prod.fst).Nodup

namespace Dict

variable {κ α β : Type}

/-- `{}`. -/
def empty : Dict κ α := ⟨[], List.nodup_nil⟩

/-- `{k: f(k, v) for k, v in d.items()}`. -/
def mapValues (d : Dict κ α) (f : κ → α → β) : Dict κ β where
  items := d.items.map fun e => (e.1, f e.1 e.2)
  nodup := by
    rw [List.map_map]
    exact d.nodup

theorem ext_items {d e : Dict κ α} (h : d.items = e.items) : d = e := by
  cases d
  cases e
  cases h
  rfl

variable [DecidableEq κ]

/-- The first item with this key. -/
def lookup (k : κ) : List (κ × α) → Option α
  | [] => none
  | e :: es => if e.1 = k then some e.2 else lookup k es

/-- `d.get(k)`. -/
def get? (d : Dict κ α) (k : κ) : Option α := lookup k d.items

/-- `d.get(k, default)`. -/
def getD (d : Dict κ α) (k : κ) (default : α) : α := (d.get? k).getD default

/-- The items after `d[k] = v`. -/
def assign (k : κ) (v : α) : List (κ × α) → List (κ × α)
  | [] => [(k, v)]
  | e :: es => if e.1 = k then (k, v) :: es else e :: assign k v es

theorem map_fst_assign (k : κ) (v : α) (es : List (κ × α)) :
    (assign k v es).map Prod.fst =
      if k ∈ es.map Prod.fst then es.map Prod.fst else es.map Prod.fst ++ [k] := by
  induction es with
  | nil => rfl
  | cons e es ih =>
      by_cases he : e.1 = k
      · simp [assign, he]
      · have hk : k ≠ e.1 := Ne.symm he
        by_cases hmem : k ∈ es.map Prod.fst
        · rw [if_pos hmem] at ih
          rw [assign, if_neg he, List.map_cons, ih, List.map_cons,
            if_pos (List.mem_cons_of_mem _ hmem)]
        · rw [if_neg hmem] at ih
          rw [assign, if_neg he, List.map_cons, ih, List.map_cons,
            if_neg (by simp only [List.mem_cons, not_or]; exact ⟨hk, hmem⟩), List.cons_append]

/-- `d[k] = v`. -/
def set (d : Dict κ α) (k : κ) (v : α) : Dict κ α where
  items := assign k v d.items
  nodup := by
    rw [map_fst_assign]
    split
    · exact d.nodup
    · next hk => exact List.Nodup.append d.nodup (List.nodup_singleton k) (by simpa using hk)

/-- `d.setdefault(k, default)`, for its effect on `d`. -/
def setdefault (d : Dict κ α) (k : κ) (default : α) : Dict κ α :=
  match d.get? k with
  | some _ => d
  | none => d.set k default

/-- `{k: v for k, v in es}`. -/
def ofList (es : List (κ × α)) : Dict κ α := es.foldl (fun d e => d.set e.1 e.2) empty

/-! ## Lookup -/

theorem lookup_eq_some_iff {k : κ} {v : α} {es : List (κ × α)}
    (hnodup : (es.map Prod.fst).Nodup) : lookup k es = some v ↔ (k, v) ∈ es := by
  induction es with
  | nil => simp [lookup]
  | cons e es ih =>
      rw [List.map_cons] at hnodup
      obtain ⟨hfresh, hrest⟩ := List.nodup_cons.1 hnodup
      by_cases he : e.1 = k
      · rw [lookup, if_pos he, Option.some.injEq, List.mem_cons]
        constructor
        · rintro rfl
          exact .inl (by rw [← he])
        · rintro (rfl | hmem)
          · rfl
          · -- the key would occur twice
            refine absurd ?_ hfresh
            rw [he]
            exact List.mem_map.2 ⟨(k, v), hmem, rfl⟩
      · rw [lookup, if_neg he, ih hrest, List.mem_cons, or_iff_right]
        rintro rfl
        exact he rfl

theorem lookup_assign (k k' : κ) (v : α) (es : List (κ × α)) :
    lookup k' (assign k v es) = if k' = k then some v else lookup k' es := by
  induction es with
  | nil =>
      by_cases hk : k' = k
      · simp [assign, lookup, hk]
      · simp [assign, lookup, hk, Ne.symm hk]
  | cons e es ih =>
      by_cases he : e.1 = k
      · rw [assign, if_pos he, lookup, lookup]
        by_cases hk : k' = k
        · rw [if_pos hk.symm, if_pos hk]
        · rw [if_neg (Ne.symm hk), if_neg hk, if_neg (by rw [he]; exact Ne.symm hk)]
      · rw [assign, if_neg he, lookup, ih, lookup]
        by_cases hk : k' = k
        · rw [if_pos hk, if_neg (by rw [hk]; exact he), if_pos hk]
        · rw [if_neg hk, if_neg hk]

@[simp] theorem get?_empty (k : κ) : (empty : Dict κ α).get? k = none := rfl

theorem get?_set (d : Dict κ α) (k k' : κ) (v : α) :
    (d.set k v).get? k' = if k' = k then some v else d.get? k' :=
  lookup_assign k k' v d.items

@[simp] theorem get?_set_self (d : Dict κ α) (k : κ) (v : α) : (d.set k v).get? k = some v := by
  rw [get?_set, if_pos rfl]

theorem get?_eq_some_iff {d : Dict κ α} {k : κ} {v : α} : d.get? k = some v ↔ (k, v) ∈ d.items :=
  lookup_eq_some_iff d.nodup

theorem get?_setdefault (d : Dict κ α) (k k' : κ) (v : α) :
    (d.setdefault k v).get? k' = if k' = k then some (d.getD k v) else d.get? k' := by
  rw [setdefault, getD]
  cases h : d.get? k with
  | none => exact get?_set d k k' v
  | some w =>
      by_cases hk : k' = k
      · rw [if_pos hk, hk]
        exact h
      · rw [if_neg hk]

theorem get?_mapValues (d : Dict κ α) (f : κ → α → β) (k : κ) :
    (d.mapValues f).get? k = (d.get? k).map (f k) := by
  rw [get?, get?, mapValues]
  dsimp only
  induction d.items with
  | nil => rfl
  | cons e es ih =>
      by_cases he : e.1 = k
      · simp [lookup, he]
      · simp only [List.map_cons, lookup, if_neg he, ih]

/-! ## Building a dictionary from its items -/

theorem assign_of_not_mem {k : κ} {es : List (κ × α)} (hk : k ∉ es.map Prod.fst) (v : α) :
    assign k v es = es ++ [(k, v)] := by
  induction es with
  | nil => rfl
  | cons e es ih =>
      rw [List.map_cons, List.mem_cons, not_or] at hk
      rw [assign, if_neg (Ne.symm hk.1), ih hk.2, List.cons_append]

theorem items_foldl_set (es : List (κ × α)) :
    ∀ d : Dict κ α, ((d.items ++ es).map Prod.fst).Nodup →
      (es.foldl (fun d e => d.set e.1 e.2) d).items = d.items ++ es := by
  induction es with
  | nil => simp
  | cons e es ih =>
      intro d hnodup
      have hfresh : e.1 ∉ d.items.map Prod.fst := by
        rw [List.map_append, List.map_cons] at hnodup
        exact fun hmem => (List.disjoint_of_nodup_append hnodup) hmem (List.mem_cons_self ..)
      have hset : (d.set e.1 e.2).items = d.items ++ [e] := assign_of_not_mem hfresh e.2
      rw [List.append_cons, ← hset] at hnodup
      rw [List.foldl_cons, ih _ hnodup, hset, List.append_assoc, List.singleton_append]

/-- With distinct keys, the items are what was put in. -/
theorem items_ofList {es : List (κ × α)} (hnodup : (es.map Prod.fst).Nodup) :
    (ofList es).items = es :=
  items_foldl_set es empty hnodup

/-- `{k: f(k, v) for k, v in d.items()}` where `f` may raise. -/
def mapValuesM {ε : Type} (d : Dict κ α) (f : κ → α → Except ε β) : Except ε (Dict κ β) := do
  let es ← d.items.mapM fun e => do
    let v ← f e.1 e.2
    .ok (e.1, v)
  .ok (ofList es)

/-- Where nothing is raised, the values are mapped. -/
theorem mapValuesM_eq_ok {ε : Type} {d : Dict κ α} {f : κ → α → Except ε β} {g : κ → α → β}
    (h : ∀ k v, (k, v) ∈ d.items → f k v = .ok (g k v)) : d.mapValuesM f = .ok (d.mapValues g) := by
  have hitems : ∀ es : List (κ × α), (∀ k v, (k, v) ∈ es → f k v = .ok (g k v)) →
      (es.mapM fun e => do
        let v ← f e.1 e.2
        Except.ok (e.1, v)) = .ok (es.map fun e => (e.1, g e.1 e.2)) := by
    intro es
    induction es with
    | nil => exact fun _ => rfl
    | cons e es ih =>
        intro hes
        rw [List.mapM_cons, hes e.1 e.2 (List.mem_cons_self ..),
          ih fun k v hmem => hes k v (List.mem_cons_of_mem _ hmem)]
        rfl
  rw [mapValuesM, hitems d.items h]
  exact congrArg Except.ok (ext_items (items_ofList (d.mapValues g).nodup))

/-! ## Counting -/

theorem assign_assign (k : κ) (v w : α) (es : List (κ × α)) :
    assign k v (assign k w es) = assign k v es := by
  induction es with
  | nil => simp [assign]
  | cons e es ih =>
      by_cases he : e.1 = k
      · simp [assign, he]
      · simp only [assign, if_neg he, ih]

theorem set_set (d : Dict κ α) (k : κ) (v w : α) : (d.set k w).set k v = d.set k v :=
  ext_items (assign_assign k v w d.items)

/-- A default is overwritten by the next assignment. -/
theorem set_setdefault (d : Dict κ α) (k : κ) (v w : α) :
    (d.setdefault k w).set k v = d.set k v := by
  rw [setdefault]
  split
  · rfl
  · exact set_set d k v w

@[simp] theorem get?_setdefault_self (d : Dict κ α) (k : κ) (v : α) :
    (d.setdefault k v).get? k = some (d.getD k v) := by
  rw [get?_setdefault, if_pos rfl]

/-- `d[k] = d.get(k, 0) + 1`. -/
def increment (d : Dict κ ℕ) (k : κ) : Dict κ ℕ := d.set k (d.getD k 0 + 1)

section Tally

variable {ρ : Type} (key : ρ → κ)

/-- `for r in rs: d[key(r)] = d.get(key(r), 0) + 1`. -/
def tally (rs : List ρ) : Dict κ ℕ :=
  rs.foldl (fun d r => d.increment (key r)) empty

theorem tally_concat (rs : List ρ) (r : ρ) :
    tally key (rs ++ [r]) = (tally key rs).increment (key r) := by
  rw [tally, List.foldl_append]
  rfl

/-- The count of a key, and nothing for a key that does not occur. -/
theorem get?_tally (rs : List ρ) (k : κ) :
    (tally key rs).get? k =
      if rs.countP (fun r => decide (key r = k)) = 0 then none
      else some (rs.countP fun r => decide (key r = k)) := by
  induction rs using List.reverseRecOn generalizing k with
  | nil => rfl
  | append_singleton rs r ih =>
      rw [tally_concat, increment, get?_set, List.countP_append]
      by_cases hk : k = key r
      · have hcount : (tally key rs).getD (key r) 0 =
            rs.countP fun r' => decide (key r' = key r) := by
          rw [getD, ih]
          split
          · next h => exact h.symm
          · rfl
        rw [if_pos hk, hk, hcount]
        simp
      · have hne : ¬ key r = k := fun h => hk h.symm
        rw [if_neg hk, ih]
        simp [hne]

/-- A count, zero for what does not occur. -/
theorem getD_tally (rs : List ρ) (k : κ) :
    (tally key rs).getD k 0 = rs.countP fun r => decide (key r = k) := by
  rw [getD, get?_tally]
  split
  · next h => exact h.symm
  · rfl

theorem get?_tally_eq_some_iff {rs : List ρ} {k : κ} {n : ℕ} :
    (tally key rs).get? k = some n ↔ n = rs.countP (fun r => decide (key r = k)) ∧ n ≠ 0 := by
  rw [get?_tally]
  split
  · next h => simp [h]
  · next h =>
      rw [Option.some.injEq]
      constructor
      · rintro rfl
        exact ⟨rfl, h⟩
      · rintro ⟨rfl, _⟩
        rfl

end Tally

section Gather

variable {ρ : Type} (key : ρ → κ) (start : α) (f : α → ρ → α)

/-- `for r in rs: d[key(r)] = f(d.get(key(r), start), r)`. -/
def gather (rs : List ρ) : Dict κ α :=
  rs.foldl (fun d r => d.set (key r) (f (d.getD (key r) start) r)) empty

theorem gather_concat (rs : List ρ) (r : ρ) :
    gather key start f (rs ++ [r]) = (gather key start f rs).set (key r)
      (f ((gather key start f rs).getD (key r) start) r) := by
  rw [gather, List.foldl_append]
  rfl

/-- Every key has the fold over its own elements. -/
theorem getD_gather (rs : List ρ) (k : κ) :
    (gather key start f rs).getD k start =
      (rs.filter fun r => decide (key r = k)).foldl f start := by
  induction rs using List.reverseRecOn with
  | nil => rfl
  | append_singleton rs r ih =>
      rw [gather_concat, getD, get?_set, List.filter_append]
      by_cases hk : k = key r
      · rw [if_pos hk, Option.getD_some, ← hk, ih]
        simp [hk]
      · -- the entry and the elements of another key are as before
        rw [if_neg hk, ← getD, ih]
        simp [Ne.symm hk]

end Gather

/-- `d[key(p)] = f(p)` where `f` may raise. -/
def assignM {π ε : Type} (key : π → κ) (f : π → Except ε α) (d : Dict κ α) (p : π) :
    Except ε (Dict κ α) := do
  let v ← f p
  .ok (d.set (key p) v)

/-- After assignments under distinct keys every key has its own value. -/
theorem foldlM_assignM {π ε : Type} (key : π → κ) (f : π → Except ε α) {ps : List π}
    {d : Dict κ α} (hnodup : (ps.map key).Nodup) (h : ps.foldlM (assignM key f) empty = .ok d) :
    ∀ p ∈ ps, ∃ v, f p = .ok v ∧ d.get? (key p) = some v := by
  induction ps using List.reverseRecOn generalizing d with
  | nil => simp
  | append_singleton ps q ih =>
      rw [List.map_append, List.nodup_append] at hnodup
      obtain ⟨hps, -, hfresh⟩ := hnodup
      rw [List.foldlM_append] at h
      cases hrest : ps.foldlM (assignM key f) empty with
      | error e =>
          rw [hrest] at h
          cases h
      | ok d' =>
          have hlast : assignM key f d' q = .ok d := by
            rw [hrest] at h
            exact (bind_pure (assignM key f d' q)).symm.trans h
          cases hq : f q with
          | error e =>
              rw [assignM, hq] at hlast
              cases hlast
          | ok v =>
              obtain rfl : d'.set (key q) v = d := by
                rw [assignM, hq] at hlast
                exact Except.ok.inj hlast
              intro p hp
              rcases List.mem_append.1 hp with hmem | hmem
              · obtain ⟨w, hw, hget⟩ := ih hps hrest p hmem
                have hne : key p ≠ key q :=
                  hfresh _ (List.mem_map_of_mem hmem) _ (List.mem_map_of_mem (by simp))
                exact ⟨w, hw, by rw [get?_set, if_neg hne, hget]⟩
              · obtain rfl : p = q := List.mem_singleton.1 hmem
                exact ⟨v, hq, get?_set_self ..⟩

/-- If no assignment raises, every key that occurs has its value. -/
theorem foldlM_assignM_eq_ok {π ε : Type} [DecidableEq π] {key : π → κ}
    (hkey : Function.Injective key) {f : π → Except ε α} {g : π → α} (ps : List π)
    (h : ∀ p ∈ ps, f p = .ok (g p)) :
    ∃ d, ps.foldlM (assignM key f) empty = .ok d ∧
      ∀ p, d.get? (key p) = if p ∈ ps then some (g p) else none := by
  induction ps using List.reverseRecOn with
  | nil => exact ⟨empty, rfl, fun p => rfl⟩
  | append_singleton ps q ih =>
      obtain ⟨d, hd, hget⟩ := ih fun p hp => h p (List.mem_append_left _ hp)
      refine ⟨d.set (key q) (g q), ?_, fun p => ?_⟩
      · have hlast : assignM key f d q = .ok (d.set (key q) (g q)) := by
          rw [assignM, h q (by simp)]
          rfl
        rw [List.foldlM_append, hd]
        exact (bind_pure (assignM key f d q)).trans hlast
      · rw [get?_set]
        by_cases hp : p = q
        · rw [if_pos (congrArg key hp), if_pos (by simp [hp]), hp]
        · rw [if_neg (mt (@hkey p q) hp), hget]
          simp [hp]

end Dict

/-! ## Sums over all values of a key -/

section Values

variable {κ ρ R : Type} [DecidableEq κ] [Semiring R] (key : ρ → κ)

theorem sum_map_single (weight : κ → R) {k : κ} {values : List κ} (hnodup : values.Nodup)
    (hk : k ∈ values) : (values.map fun v => if k = v then weight v else 0).sum = weight k := by
  induction values with
  | nil => cases hk
  | cons v values ih =>
      obtain ⟨hfresh, hrest⟩ := List.nodup_cons.1 hnodup
      rw [List.map_cons, List.sum_cons]
      by_cases hv : k = v
      · -- no later value is this one
        have hzero : ∀ x ∈ values.map (fun v => if k = v then weight v else 0), x = 0 := by
          intro x hx
          obtain ⟨v', hv', rfl⟩ := List.mem_map.1 hx
          refine if_neg ?_
          rintro rfl
          exact hfresh (hv ▸ hv')
        rw [if_pos hv, List.sum_eq_zero hzero, add_zero, hv]
      · rw [if_neg hv, zero_add]
        exact ih hrest ((List.mem_cons.1 hk).resolve_left hv)

/-- What is summed record by record can be summed value by value. -/
theorem sum_map_eq_sum_countP {values : List κ} (hnodup : values.Nodup) (weight : κ → R)
    {rs : List ρ} (hmem : ∀ r ∈ rs, key r ∈ values) :
    (rs.map fun r => weight (key r)).sum =
      (values.map fun v => weight v * (rs.countP fun r => decide (key r = v) : ℕ)).sum := by
  induction rs with
  | nil => simp
  | cons r rs ih =>
      obtain ⟨hr, hrest⟩ := List.forall_mem_cons.1 hmem
      have hsplit : ∀ v, weight v * ((r :: rs).countP fun r => decide (key r = v) : ℕ) =
          (if key r = v then weight v else 0) +
            weight v * (rs.countP fun r => decide (key r = v) : ℕ) := by
        intro v
        by_cases hv : key r = v
        · simp [hv, mul_add, add_comm]
        · simp [hv]
      simp only [hsplit]
      rw [List.sum_map_add, sum_map_single weight hnodup hr, ← ih hrest, List.map_cons,
        List.sum_cons]

/-- Every record is counted under one value. -/
theorem sum_countP_eq_length {values : List κ} (hnodup : values.Nodup) {rs : List ρ}
    (hmem : ∀ r ∈ rs, key r ∈ values) :
    (values.map fun v => rs.countP fun r => decide (key r = v)).sum = rs.length := by
  have h := sum_map_eq_sum_countP key hnodup (fun _ => (1 : ℕ)) hmem
  simpa using h.symm

end Values

end Foundation
