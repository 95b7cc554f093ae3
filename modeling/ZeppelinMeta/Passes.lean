import ZeppelinMeta.Reorganize
import Mathlib.Data.Nat.Find

/-!
# `Reorganize`, pass by pass

Pass `j` of `Reorganize`'s `while (true)` (counting from `0`) finds bucket `b` empty
exactly when `|b| ≤ j`; otherwise it moves the `j`-th entry of `b` from the end. So after
`k` passes every bucket has lost its last `k` entries, and `empty_count`, never reset, is
`∑_b (k - |b|)` (truncated at `0`). The loop stops at the first `k` at which that sum is
`msize`, and never stops if there is none.

This module proves that description of the loop for every input, and with it exactly
when `Reorganize` returns and what it returns.

## Main definitions

* `bucketsAfter m k`: the buckets after `k` passes.
* `emptyCountAfter m k`: `empty_count` after `k` passes.
* `passesOutput m k`: what the first `k` passes append to `alive_nodes`.
-/

namespace ZeppelinMeta

open List

/-- The buckets after `k` passes: each has lost its last `k` entries. -/
def bucketsAfter (m : Buckets) (k : ℕ) : Buckets :=
  m.map fun q => (q.1, q.2.take (q.2.length - k))

/-- `empty_count` after `k` passes from `0`: bucket `b` is met empty by the passes
`|b|, …, k - 1`. -/
def emptyCountAfter (m : Buckets) (k : ℕ) : ℕ :=
  (m.map fun q => k - q.2.length).foldr (· + ·) 0

/-- What the first `k` passes append: pass `j` takes from each bucket, in the map's order,
its `j`-th entry from the end, if it has one. -/
def passesOutput (m : Buckets) (k : ℕ) : List NodeStatus :=
  (range k).flatMap fun j => m.filterMap fun q => q.2.reverse[j]?

@[simp] theorem bucketsAfter_zero (m : Buckets) : bucketsAfter m 0 = m := by
  simp [bucketsAfter]

@[simp] theorem emptyCountAfter_nil (k : ℕ) : emptyCountAfter [] k = 0 := rfl

@[simp] theorem emptyCountAfter_cons (q : String × List NodeStatus) (m : Buckets) (k : ℕ) :
    emptyCountAfter (q :: m) k = (k - q.2.length) + emptyCountAfter m k := rfl

@[simp] theorem emptyCountAfter_zero (m : Buckets) : emptyCountAfter m 0 = 0 := by
  induction m <;> simp [*]

@[simp] theorem passesOutput_zero (m : Buckets) : passesOutput m 0 = [] := rfl

theorem passesOutput_succ (m : Buckets) (k : ℕ) :
    passesOutput m (k + 1) = passesOutput m k ++ m.filterMap fun q => q.2.reverse[k]? := by
  simp [passesOutput, range_succ]

/-! ## One pass -/

/-- The last entry left after `k` passes is the `k`-th from the end. -/
theorem getLast?_take_length_sub (l : List NodeStatus) (k : ℕ) :
    (l.take (l.length - k)).getLast? = l.reverse[k]? := by
  rw [getLast?_eq_getElem?, length_take, Nat.min_eq_left (Nat.sub_le _ _), getElem?_take]
  by_cases hk : k < l.length
  · rw [if_pos (by omega), getElem?_reverse hk]
    congr 1
    omega
  · rw [getElem?_eq_none (by simpa using not_lt.mp hk : l.reverse.length ≤ k),
      if_neg (by omega)]

theorem take_length_sub_eq_nil {l : List NodeStatus} {k : ℕ} :
    l.take (l.length - k) = [] ↔ l.length ≤ k := by
  rw [take_eq_nil_iff, ← length_eq_zero]
  omega

theorem emptyCountAfter_succ (m : Buckets) (k : ℕ) :
    emptyCountAfter m (k + 1) =
      emptyCountAfter m k + ((bucketsAfter m k).filter fun q => q.2 = []).length := by
  induction m with
  | nil => rfl
  | cons q rest ih =>
    simp only [emptyCountAfter_cons, bucketsAfter, map_cons, filter_cons] at ih ⊢
    rw [ih]
    by_cases hq : q.2.length ≤ k
    · simp [take_length_sub_eq_nil.mpr hq]
      omega
    · simp [mt take_length_sub_eq_nil.mp hq]
      omega

/-- **One pass in closed form**, from the state after `k` passes. -/
theorem reorganizePass_bucketsAfter (m : Buckets) (k : ℕ) :
    reorganizePass (bucketsAfter m k) (emptyCountAfter m k) (passesOutput m k) =
      (bucketsAfter m (k + 1), emptyCountAfter m (k + 1), passesOutput m (k + 1)) := by
  rw [reorganizePass_eq, emptyCountAfter_succ, passesOutput_succ]
  refine Prod.ext ?_ (Prod.ext rfl ?_)
  · simp only [bucketsAfter, map_map]
    refine map_congr_left fun q _ => ?_
    simp only [Function.comp, Prod.mk.injEq, true_and]
    rw [dropLast_eq_take, length_take, take_take]
    congr 1
    omega
  · simp only [bucketsAfter, filterMap_map]
    congr 1
    exact filterMap_congr fun q _ => getLast?_take_length_sub q.2 k

/-! ## The loop -/

section Loop

variable {msize : ℕ} {m : Buckets}

/-- A loop run from the state after `k` passes, before any stop, returns what the first
pass count `k' ≥ k` with `empty_count = msize` took. -/
theorem exists_first_of_reorganizeLoop {fuel k : ℕ} {out : List NodeStatus}
    (hk : ∀ j < k, emptyCountAfter m j ≠ msize)
    (h : reorganizeLoop msize fuel (bucketsAfter m k) (emptyCountAfter m k) (passesOutput m k) =
      some out) :
    ∃ k', k ≤ k' ∧ k' < k + fuel ∧ (∀ j < k', emptyCountAfter m j ≠ msize) ∧
      emptyCountAfter m k' = msize ∧ out = passesOutput m k' := by
  induction fuel generalizing k with
  | zero => simp [reorganizeLoop] at h
  | succ fuel ih =>
    by_cases he : emptyCountAfter m k = msize
    · simp only [reorganizeLoop, he, if_true, Option.some.injEq] at h
      exact ⟨k, le_refl _, by omega, hk, he, h.symm⟩
    · rw [reorganizeLoop_succ_of_ne he, reorganizePass_bucketsAfter] at h
      have hk' : ∀ j < k + 1, emptyCountAfter m j ≠ msize := fun j hj =>
        (Nat.lt_succ_iff_lt_or_eq.mp hj).elim (hk j) (· ▸ he)
      obtain ⟨k', hk1, hk2, hrest⟩ := ih hk' h
      exact ⟨k', by omega, by omega, hrest⟩

/-- Run from the state after `k` passes, the loop returns the output of the first pass
count `k' ≥ k` with `empty_count = msize`, given the tests to reach it. -/
theorem reorganizeLoop_of_first {fuel k k' : ℕ} (hkk : k ≤ k') (hfuel : k' < k + fuel)
    (hk : ∀ j < k', emptyCountAfter m j ≠ msize) (he : emptyCountAfter m k' = msize) :
    reorganizeLoop msize fuel (bucketsAfter m k) (emptyCountAfter m k) (passesOutput m k) =
      some (passesOutput m k') := by
  induction fuel generalizing k with
  | zero => omega
  | succ fuel ih =>
    rcases hkk.lt_or_eq with hlt | rfl
    · rw [reorganizeLoop_succ_of_ne (hk k hlt), reorganizePass_bucketsAfter]
      exact ih hlt (by omega)
    · simp [reorganizeLoop, he]

/-- **The loop in closed form.** From buckets `m` and `empty_count = 0`, the loop allowed
`fuel` tests returns `out` exactly when some `k < fuel` is the first pass count at which
`empty_count` is `msize`, and `out` is what the first `k` passes took. -/
theorem reorganizeLoop_eq_some_iff {fuel : ℕ} {out : List NodeStatus} :
    reorganizeLoop msize fuel m 0 [] = some out ↔
      ∃ k < fuel, (∀ j < k, emptyCountAfter m j ≠ msize) ∧ emptyCountAfter m k = msize ∧
        out = passesOutput m k := by
  have h0 : reorganizeLoop msize fuel m 0 [] =
      reorganizeLoop msize fuel (bucketsAfter m 0) (emptyCountAfter m 0) (passesOutput m 0) := by
    simp
  rw [h0]
  constructor
  · intro h
    obtain ⟨k, -, hk, hrest⟩ := exists_first_of_reorganizeLoop (fun j hj => absurd hj (by omega)) h
    exact ⟨k, by omega, hrest⟩
  · rintro ⟨k, hk, hfirst, he, rfl⟩
    exact reorganizeLoop_of_first (Nat.zero_le k) (by omega) hfirst he

end Loop

/-! ## `Reorganize` -/

theorem emptyCountAfter_mono (m : Buckets) {j k : ℕ} (h : j ≤ k) :
    emptyCountAfter m j ≤ emptyCountAfter m k := by
  induction m with
  | nil => exact le_refl _
  | cons q rest ih =>
    simp only [emptyCountAfter_cons]
    omega

/-- Once every bucket has been met empty, each adds at least one per pass. -/
theorem length_le_emptyCountAfter {m : Buckets} {j : ℕ} (h : ∀ q ∈ m, q.2.length < j) :
    m.length ≤ emptyCountAfter m j := by
  induction m with
  | nil => exact le_refl _
  | cons q rest ih =>
    rw [forall_mem_cons] at h
    have := ih h.2
    simp only [emptyCountAfter_cons, length_cons]
    omega

theorem length_le_of_mem {m : Buckets} {q : String × List NodeStatus} (hq : q ∈ m) :
    q.2.length ≤ (bucketEntries m).length := by
  induction m with
  | nil => simp at hq
  | cons r rest ih =>
    simp only [bucketEntries, flatMap_cons, length_append] at ih ⊢
    rcases mem_cons.mp hq with rfl | hq
    · omega
    · have := ih hq
      omega

/-- The first pass count at which `empty_count` reaches `msize` is at most `|t| + 1`:
after `|t| + 1` passes every bucket has been met empty, so the count is at least `msize`
and only grows. So the `|t| + 2` tests of `reorganize` reach it. -/
theorem lt_length_add_two_of_first {tAliveNodes : List NodeStatus} {k : ℕ}
    (hk : ∀ j < k, emptyCountAfter (buckets tAliveNodes) j ≠ (buckets tAliveNodes).length)
    (he : emptyCountAfter (buckets tAliveNodes) k = (buckets tAliveNodes).length) :
    k < tAliveNodes.length + 2 := by
  by_contra hlt
  have hall : ∀ q ∈ buckets tAliveNodes, q.2.length < tAliveNodes.length + 1 := fun q hq =>
    Nat.lt_succ_of_le ((length_le_of_mem hq).trans (entries_buckets tAliveNodes).length_eq.le)
  have h1 := length_le_emptyCountAfter hall
  have h2 := hk (tAliveNodes.length + 1) (by omega)
  have h3 := emptyCountAfter_mono (buckets tAliveNodes) (by omega : tAliveNodes.length + 1 ≤ k)
  omega

theorem reorganize_eq_some_iff {tAliveNodes out : List NodeStatus} :
    reorganize tAliveNodes = some out ↔
      ∃ k, (∀ j < k, emptyCountAfter (buckets tAliveNodes) j ≠ (buckets tAliveNodes).length) ∧
        emptyCountAfter (buckets tAliveNodes) k = (buckets tAliveNodes).length ∧
        out = passesOutput (buckets tAliveNodes) k := by
  show reorganizeLoop _ _ _ 0 [] = some out ↔ _
  rw [reorganizeLoop_eq_some_iff]
  constructor
  · rintro ⟨k, -, h⟩
    exact ⟨k, h⟩
  · rintro ⟨k, hk, he, rfl⟩
    exact ⟨k, lt_length_add_two_of_first hk he, hk, he, rfl⟩

end ZeppelinMeta
