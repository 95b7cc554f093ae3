import ZeppelinMeta.Reorganize
import Mathlib.Data.List.Lex
import Mathlib.Data.Char
import Mathlib.Data.List.Chain

/-!
# `Reorganize` spreads the replicas over hosts

`Distribute` gives partition `i` the replicas `A'[i]`, `A'[i+1]` and `A'[i+2]`, so what
keeps them on different hosts is the order `Reorganize` builds. Its buckets are a
`std::map`: sorted by ip, one per ip, each holding entries of its ip in input order. A pass
takes the last entry of every bucket that still has one, in the map's order. Two
neighbours of the output are on one host only where a pass ends and the next begins with
the same bucket; then no other bucket is left, and the rest of the output is on that
host. Each bucket is emptied from its end, so a host's entries come out in the reverse
of their input order.

Both facts hold of every run that returns, after any number of passes, including runs
that stop with entries still in their buckets.
-/

namespace ZeppelinMeta

open List

/-! ## The order of the map's keys -/

theorem ipLess_iff {a b : String} : ipLess a b = true ↔ Lex (· < ·) a.data b.data := by
  unfold ipLess
  rw [decide_eq_true_iff]
  exact List.lt_iff_lex_lt _ _

theorem ipLess_irrefl (a : String) : ipLess a a = false :=
  Bool.eq_false_iff.mpr fun h => irrefl (r := Lex (· < ·)) _ (ipLess_iff.mp h)

theorem ipLess_trans {a b c : String} (hab : ipLess a b = true) (hbc : ipLess b c = true) :
    ipLess a c = true :=
  ipLess_iff.mpr (IsTrans.trans _ _ _ (ipLess_iff.mp hab) (ipLess_iff.mp hbc))

theorem ipLess_of_not {a b : String} (hne : a ≠ b) (h : ipLess a b = false) :
    ipLess b a = true := by
  have : IsTrichotomous Char (· < ·) := inferInstance
  rcases trichotomous_of (Lex (· < ·)) a.data b.data with h' | h' | h'
  · simp [ipLess_iff.mpr h'] at h
  · exact absurd (String.ext h') hne
  · exact ipLess_iff.mpr h'

/-! ## Well-formed buckets -/

/-- The buckets as the `std::map` keeps them: sorted by ip, so one per ip, and each
holding entries of its own ip. -/
structure Buckets.WF (m : Buckets) : Prop where
  sorted : m.Pairwise fun q r => ipLess q.1 r.1 = true
  ip_eq : ∀ q ∈ m, ∀ x ∈ q.2, x.node.ip = q.1

namespace Buckets.WF

variable {m : Buckets}

theorem tail {q : String × List NodeStatus} (h : WF (q :: m)) : WF m :=
  ⟨h.sorted.of_cons, fun r hr => h.ip_eq r (mem_cons_of_mem _ hr)⟩

theorem nodup_keys (h : m.WF) : (m.map Prod.fst).Nodup :=
  pairwise_map.mpr (h.sorted.imp fun hqr he => by simp [he, ipLess_irrefl] at hqr)

/-- No entry in the buckets has an ip that is not a key. -/
theorem filter_entries_of_not_mem (h : m.WF) {c : String} (hc : c ∉ m.map Prod.fst) :
    (bucketEntries m).filter (fun x => x.node.ip = c) = [] := by
  simp only [filter_eq_nil_iff, bucketEntries, mem_flatMap, decide_eq_true_eq]
  rintro x ⟨q, hq, hx⟩ rfl
  exact hc (mem_map.mpr ⟨q, hq, (h.ip_eq q hq x hx).symm⟩)

end Buckets.WF

theorem keys_bucketInsert_subset (ns : NodeStatus) (m : Buckets) :
    (bucketInsert ns m).map Prod.fst ⊆ ns.node.ip :: m.map Prod.fst := by
  induction m with
  | nil => simp [bucketInsert]
  | cons q rest ih =>
    simp only [bucketInsert]
    split_ifs
    · exact subset_cons_self _ _
    · exact Subset.refl _
    · intro k hk
      rcases mem_cons.mp hk with rfl | hk
      · simp
      · rcases mem_cons.mp (ih hk) with rfl | hk <;> simp [hk]

theorem Buckets.WF.insert {m : Buckets} (h : m.WF) (ns : NodeStatus) :
    (bucketInsert ns m).WF := by
  induction m with
  | nil => exact ⟨by simp [bucketInsert], by simp [bucketInsert]⟩
  | cons q rest ih =>
    obtain ⟨ip, b⟩ := q
    have hs := (pairwise_cons.mp h.sorted).1
    simp only [bucketInsert]
    split_ifs with h1 h2
    · refine ⟨pairwise_cons.mpr ⟨hs, h.sorted.of_cons⟩, fun q hq x hx => ?_⟩
      rcases mem_cons.mp hq with rfl | hq
      · rcases mem_append.mp hx with hx | hx
        · exact h.ip_eq _ (mem_cons_self _ _) x hx
        · rw [mem_singleton.mp hx]; exact h1
      · exact h.tail.ip_eq q hq x hx
    · refine ⟨pairwise_cons.mpr ⟨?_, h.sorted⟩, fun q hq x hx => ?_⟩
      · simp only [mem_cons, forall_eq_or_imp]
        exact ⟨h2, fun r hr => ipLess_trans h2 (hs r hr)⟩
      · rcases mem_cons.mp hq with rfl | hq
        · rw [mem_singleton.mp hx]
        · exact h.ip_eq q hq x hx
    · have hlt : ipLess ip ns.node.ip = true := ipLess_of_not h1 (by simpa using h2)
      refine ⟨pairwise_cons.mpr ⟨fun r hr => ?_, (ih h.tail).sorted⟩, fun q hq x hx => ?_⟩
      · rcases mem_cons.mp (keys_bucketInsert_subset ns rest (mem_map_of_mem Prod.fst hr))
          with he | he
        · exact he ▸ hlt
        · obtain ⟨r', hr', he'⟩ := mem_map.mp he
          exact he' ▸ hs r' hr'
      · rcases mem_cons.mp hq with rfl | hq
        · exact h.ip_eq _ (mem_cons_self _ _) x hx
        · exact (ih h.tail).ip_eq q hq x hx

theorem wf_buckets (tAliveNodes : List NodeStatus) : (buckets tAliveNodes).WF := by
  suffices ∀ acc : Buckets, acc.WF →
      (tAliveNodes.foldl (fun m ns => bucketInsert ns m) acc).WF from this [] ⟨by simp, by simp⟩
  induction tAliveNodes with
  | nil => exact fun _ h => h
  | cons ns rest ih => exact fun acc h => ih _ (h.insert ns)

/-- The entries of one ip stay in input order as they go into their bucket. -/
theorem filter_entries_bucketInsert {m : Buckets} (h : m.WF) (ns : NodeStatus) (c : String) :
    (bucketEntries (bucketInsert ns m)).filter (fun x => x.node.ip = c) =
      (bucketEntries m).filter (fun x => x.node.ip = c) ++ [ns].filter fun x => x.node.ip = c := by
  induction m with
  | nil => simp [bucketInsert, bucketEntries]
  | cons q rest ih =>
    obtain ⟨ip, b⟩ := q
    have hnd := (h.insert ns).nodup_keys
    simp only [bucketInsert] at hnd ⊢
    split_ifs at hnd ⊢ with h1 h2
    · by_cases hc : ip = c
      · subst hc
        have := h.tail.filter_entries_of_not_mem (nodup_cons.mp h.nodup_keys).1
        simp only [bucketEntries, flatMap_cons, filter_append] at this ⊢
        simp [this, h1]
      · simp [bucketEntries, h1, hc]
    · by_cases hc : ns.node.ip = c
      · subst hc
        have := h.filter_entries_of_not_mem (nodup_cons.mp hnd).1
        simp only [bucketEntries, flatMap_cons, filter_append] at this ⊢
        simp [this]
      · simp [bucketEntries, hc]
    · simpa [bucketEntries] using ih h.tail

/-- **The bucket of an ip holds that ip's entries in input order.** -/
theorem filter_entries_buckets (tAliveNodes : List NodeStatus) (c : String) :
    (bucketEntries (buckets tAliveNodes)).filter (fun x => x.node.ip = c) =
      tAliveNodes.filter fun x => x.node.ip = c := by
  suffices ∀ acc : Buckets, acc.WF →
      (bucketEntries (tAliveNodes.foldl (fun m ns => bucketInsert ns m) acc)).filter
          (fun x => x.node.ip = c) =
        (bucketEntries acc).filter (fun x => x.node.ip = c) ++
          tAliveNodes.filter fun x => x.node.ip = c by
    simpa [bucketEntries] using this [] ⟨by simp, by simp⟩
  induction tAliveNodes with
  | nil => simp
  | cons ns rest ih =>
    intro acc h
    rw [foldl_cons, ih _ (h.insert ns), filter_entries_bucketInsert h, append_assoc,
      ← filter_append, singleton_append]

/-! ## One pass -/

/-- The ips of the buckets that still hold an entry, in the map's order. -/
def nonemptyKeys (m : Buckets) : List String :=
  (m.filter fun q => q.2 ≠ []).map Prod.fst

namespace Buckets.WF

variable {m : Buckets}

theorem dropLast (h : m.WF) : Buckets.WF (m.map fun q => (q.1, q.2.dropLast)) :=
  ⟨pairwise_map.mpr h.sorted, fun q hq x hx => by
    obtain ⟨r, hr, rfl⟩ := mem_map.mp hq
    exact h.ip_eq r hr x (dropLast_subset _ hx)⟩

/-- A pass takes one entry from each non-empty bucket, so its ips are those buckets'. -/
theorem ips_pass (h : m.WF) :
    (m.filterMap fun q => q.2.getLast?).map (·.node.ip) = nonemptyKeys m := by
  induction m with
  | nil => rfl
  | cons q rest ih =>
    obtain ⟨k, b⟩ := q
    have hb := h.ip_eq _ (mem_cons_self _ _)
    simp only [nonemptyKeys] at ih ⊢
    rcases b with _ | ⟨y, ys⟩
    · simp [ih h.tail]
    · simp [getLast?_eq_getLast, hb _ (getLast_mem (cons_ne_nil y ys)), ih h.tail]

theorem nodup_nonemptyKeys (h : m.WF) : (nonemptyKeys m).Nodup :=
  h.nodup_keys.sublist ((filter_sublist _).map _)

/-- What a pass takes from the bucket of `c`, followed by what it leaves there read
backwards, is what the bucket held read backwards. -/
theorem filter_pass (h : m.WF) (c : String) :
    (m.filterMap fun q => q.2.getLast?).filter (fun x => x.node.ip = c) ++
        ((bucketEntries (m.map fun q => (q.1, q.2.dropLast))).filter
          (fun x => x.node.ip = c)).reverse =
      ((bucketEntries m).filter fun x => x.node.ip = c).reverse := by
  induction m with
  | nil => rfl
  | cons q rest ih =>
    obtain ⟨k, b⟩ := q
    have hb : ∀ x ∈ b, x.node.ip = k := h.ip_eq _ (mem_cons_self _ _)
    by_cases hk : k = c
    · subst hk
      have hk' := (nodup_cons.mp h.nodup_keys).1
      have h1 := h.tail.filter_entries_of_not_mem hk'
      have h2 := h.tail.dropLast.filter_entries_of_not_mem (by simpa using hk')
      have h3 : (rest.filterMap fun q => q.2.getLast?).filter (fun x => x.node.ip = k) = [] :=
        filter_eq_nil_iff.mpr fun x hx => filter_eq_nil_iff.mp h1 x <| by
          obtain ⟨q, hq, hx⟩ := mem_filterMap.mp hx
          exact mem_flatMap.mpr ⟨q, hq, mem_of_getLast?_eq_some hx⟩
      have hbf : b.filter (fun x => x.node.ip = k) = b := filter_eq_self.mpr (by simpa using hb)
      have hbf' : b.dropLast.filter (fun x => x.node.ip = k) = b.dropLast :=
        filter_eq_self.mpr fun x hx => by simpa using hb x (dropLast_subset _ hx)
      simp only [bucketEntries, map_cons, flatMap_cons, filter_append, reverse_append] at h1 h2 ⊢
      rw [h1, h2, hbf, hbf', filterMap_cons]
      rcases eq_nil_or_concat b with rfl | ⟨l, z, rfl⟩
      · simpa using h3
      · have hz : z.node.ip = k := hb z (by simp)
        simp [h3, hz]
    · have hbf : ∀ l : List NodeStatus, (∀ x ∈ l, x.node.ip = k) →
          l.filter (fun x => x.node.ip = c) = [] := fun l hl =>
        filter_eq_nil_iff.mpr fun x hx => by simp [hl x hx, hk]
      have := ih h.tail
      simp only [bucketEntries, map_cons, flatMap_cons, filter_append, reverse_append,
        filterMap_cons] at this ⊢
      rw [hbf b hb, hbf b.dropLast fun x hx => hb x (dropLast_subset _ hx)]
      rcases hl : b.getLast? with _ | z
      · simpa using this
      · have hz : z.node.ip = k := hb z (mem_of_getLast?_eq_some hl)
        simpa [hz, hk] using this

end Buckets.WF

theorem nonemptyKeys_dropLast_sublist (m : Buckets) :
    nonemptyKeys (m.map fun q => (q.1, q.2.dropLast)) <+ nonemptyKeys m := by
  induction m with
  | nil => exact .slnil
  | cons q rest ih =>
    simp only [nonemptyKeys, map_cons, filter_cons] at ih ⊢
    by_cases h1 : q.2.dropLast = []
    · by_cases h2 : q.2 = []
      · simpa [h1, h2] using ih
      · simpa [h1, h2] using ih.cons _
    · have h2 : q.2 ≠ [] := fun h => h1 (by simp [h])
      simpa [h1, h2] using ih

/-- In a list without repeats, nothing comes after the last element. -/
theorem not_pair_sublist_of_getLast? {l : List String} (hl : l.Nodup) {z k : String}
    (hz : l.getLast? = some z) : ¬ [z, k] <+ l := by
  induction l with
  | nil => simp at hz
  | cons a l ih =>
    intro hs
    rcases l with _ | ⟨b, l⟩
    · simpa using hs.length_le
    · have hz' : (b :: l).getLast? = some z := by simpa [getLast?_cons_cons] using hz
      rcases sublist_cons_iff.mp hs with hs | ⟨r, hr, hs⟩
      · exact ih (nodup_cons.mp hl).2 hz' hs
      · obtain ⟨rfl, -⟩ := cons.inj hr
        exact (nodup_cons.mp hl).1 (mem_of_getLast?_eq_some hz')

/-! ## Runs -/

/-- What a run of `Reorganize` keeps: the output so far is a part in which neighbours are
on different hosts, followed by a part on one host `c`. Once that part has begun, only
`c` has entries left; before, no bucket after that of the last host served holds one. -/
structure Spread (m : Buckets) (out : List NodeStatus) : Prop where
  wf : m.WF
  split : ∃ u w c, out = u ++ w ∧ u.Chain' (fun x y => x.node.ip ≠ y.node.ip) ∧
    (∀ x ∈ w, x.node.ip = c) ∧
    ((w ≠ [] ∧ ∀ k ∈ nonemptyKeys m, k = c) ∨
      (w = [] ∧ ∀ x ∈ u.getLast?, ∀ k, ¬ [x.node.ip, k] <+ nonemptyKeys m))

theorem spread_buckets (tAliveNodes : List NodeStatus) : Spread (buckets tAliveNodes) [] :=
  ⟨wf_buckets tAliveNodes, [], [], "", rfl, chain'_nil, by simp, .inr ⟨rfl, by simp⟩⟩

/-- **A pass keeps the spread.** -/
theorem Spread.pass {m : Buckets} {out : List NodeStatus} (hs : Spread m out) :
    Spread (m.map fun q => (q.1, q.2.dropLast)) (out ++ m.filterMap fun q => q.2.getLast?) := by
  obtain ⟨u, w, c, rfl, hu, hw, hmode⟩ := hs.split
  have hK := hs.wf.ips_pass
  have hsub := nonemptyKeys_dropLast_sublist m
  have hnd := hs.wf.nodup_nonemptyKeys
  generalize m.filterMap (fun q => q.2.getLast?) = L at hK ⊢
  have hLK : ∀ x ∈ L, x.node.ip ∈ nonemptyKeys m := fun x hx => hK ▸ mem_map_of_mem _ hx
  refine ⟨hs.wf.dropLast, ?_⟩
  rcases hmode with ⟨hw0, hc⟩ | ⟨rfl, hfree⟩
  · -- one host is left: the pass serves it alone
    exact ⟨u, w ++ L, c, by simp, hu, fun x hx => (mem_append.mp hx).elim (hw x) (hc _ ∘ hLK x),
      .inl ⟨by simp [hw0], fun k hk => hc k (hsub.subset hk)⟩⟩
  · by_cases hj : ∃ x ∈ u.getLast?, ∃ y ∈ L.head?, x.node.ip = y.node.ip
    · -- the pass begins with the host the last one ended with: it is the only one left
      obtain ⟨x, hx, y, hy, hxy⟩ := hj
      obtain ⟨L', rfl⟩ : ∃ L', L = y :: L' := by
        rcases L with _ | ⟨y', L'⟩ <;> simp_all
      have hL' : L' = [] := by
        rcases L' with _ | ⟨y', L'⟩
        · rfl
        · exact absurd (hK ▸ by simp) (hfree x hx y'.node.ip ∘ (hxy ▸ ·))
      subst hL'
      exact ⟨u, [y], y.node.ip, by simp, hu, by simp,
        .inl ⟨by simp, fun k hk => by simpa [← hK] using hsub.subset hk⟩⟩
    · -- the pass starts on another host: the spread part grows
      refine ⟨u ++ L, [], c, by simp, hu.append ?_ ?_, by simp, .inr ⟨rfl, ?_⟩⟩
      · exact (chain'_map _).mp (hK ▸ hnd.chain')
      · exact fun x hx y hy he => hj ⟨x, hx, y, hy, he⟩
      · intro x hx k hk
        rw [getLast?_append] at hx
        rcases hL : L.getLast? with _ | z
        · simp only [hL, Option.none_or] at hx
          exact hfree x hx k (hk.trans hsub)
        · simp only [hL, Option.or_some, Option.mem_def, Option.some.injEq] at hx
          subst hx
          have hz : (nonemptyKeys m).getLast? = some z.node.ip := by
            rw [← hK, getLast?_map, hL]; rfl
          exact not_pair_sublist_of_getLast? hnd hz (hk.trans hsub)

/-- Read at positions: when two neighbours are on one host, so is everything after. -/
theorem Spread.getElem {m : Buckets} {out : List NodeStatus} (hs : Spread m out) (k : ℕ)
    (hk : k + 1 < out.length) (he : out[k].node.ip = out[k + 1].node.ip) (j : ℕ)
    (hj : j < out.length) (hkj : k ≤ j) : out[j].node.ip = out[k].node.ip := by
  obtain ⟨u, w, c, rfl, hu, hw, -⟩ := hs.split
  have hwc : ∀ i (hi : i < (u ++ w).length), u.length ≤ i → (u ++ w)[i].node.ip = c :=
    fun i hi hui => by
      rw [getElem_append_right (by omega)]
      exact hw _ (getElem_mem _)
  by_cases hku : k + 1 < u.length
  · rw [getElem_append_left (by omega), getElem_append_left hku] at he
    exact absurd he (chain'_iff_get.mp hu k (by omega))
  · have hkc : (u ++ w)[k].node.ip = c := by
      by_cases hk' : u.length ≤ k
      · exact hwc k (by omega) hk'
      · exact he.trans (hwc (k + 1) hk (by omega))
    by_cases hju : u.length ≤ j
    · exact (hwc j hj hju).trans hkc.symm
    · obtain rfl : j = k := by omega
      rfl

/-- **`Reorganize` spreads each host's entries.** On every input on which the loop
returns, after any number of tests: two neighbours of the output are on one host only
when everything after them is on that host too, and each host's entries come out in the
reverse of their input order (all of them, or the last ones when the loop stopped
early). -/
theorem reorganize_spreads_hosts {tAliveNodes out : List NodeStatus} {fuel : ℕ}
    (h : reorganizeLoop (buckets tAliveNodes).length fuel (buckets tAliveNodes) 0 [] = some out) :
    (∀ k (hk : k + 1 < out.length), out[k].node.ip = out[k + 1].node.ip →
      ∀ j (hj : j < out.length), k ≤ j → out[j].node.ip = out[k].node.ip) ∧
    ∀ ip, out.filter (fun x => x.node.ip = ip) <+:
      (tAliveNodes.filter fun x => x.node.ip = ip).reverse := by
  obtain ⟨m, hs, hord⟩ := reorganizeLoop_invariant
    (fun m out => Spread m out ∧ ∀ c, out.filter (fun x => x.node.ip = c) ++
      ((bucketEntries m).filter fun x => x.node.ip = c).reverse =
        (tAliveNodes.filter fun x => x.node.ip = c).reverse)
    (fun m out ⟨hs, ho⟩ => ⟨hs.pass, fun c => by
      rw [filter_append, append_assoc, hs.wf.filter_pass c, ho c]⟩)
    ⟨spread_buckets tAliveNodes, fun c => by simp [filter_entries_buckets]⟩ h
  exact ⟨hs.getElem, fun ip => ⟨_, hord ip⟩⟩

theorem reorganize_spreads_hosts_one_and_three :
    ∃ out, reorganizeLoop (buckets [⟨⟨"a", 1⟩, kNodeUp⟩, ⟨⟨"b", 1⟩, kNodeUp⟩,
        ⟨⟨"b", 2⟩, kNodeUp⟩, ⟨⟨"b", 3⟩, kNodeUp⟩]).length 6
      (buckets [⟨⟨"a", 1⟩, kNodeUp⟩, ⟨⟨"b", 1⟩, kNodeUp⟩, ⟨⟨"b", 2⟩, kNodeUp⟩,
        ⟨⟨"b", 3⟩, kNodeUp⟩]) 0 [] = some out ∧
    (∀ k (hk : k + 1 < out.length), out[k].node.ip = out[k + 1].node.ip →
      ∀ j (hj : j < out.length), k ≤ j → out[j].node.ip = out[k].node.ip) ∧
    ∀ ip, out.filter (fun x => x.node.ip = ip) <+:
      ([⟨⟨"a", 1⟩, kNodeUp⟩, ⟨⟨"b", 1⟩, kNodeUp⟩, ⟨⟨"b", 2⟩, kNodeUp⟩,
        ⟨⟨"b", 3⟩, kNodeUp⟩].filter fun x : NodeStatus => x.node.ip = ip).reverse := by
  refine ⟨_, rfl, ?_⟩
  exact @reorganize_spreads_hosts [⟨⟨"a", 1⟩, kNodeUp⟩, ⟨⟨"b", 1⟩, kNodeUp⟩,
    ⟨⟨"b", 2⟩, kNodeUp⟩, ⟨⟨"b", 3⟩, kNodeUp⟩] _ 6 rfl

/-- Hosts `a` with one entry and `b` with four: the loop stops after the third pass, when
`empty_count` has counted `a`'s empty bucket twice, and `b`'s first entry never comes out,
so `b`'s entries are not the reverse of its input entries. -/
theorem reorganize_drops_first_entry_of_host :
    reorganize [⟨⟨"a", 1⟩, kNodeUp⟩, ⟨⟨"b", 1⟩, kNodeUp⟩, ⟨⟨"b", 2⟩, kNodeUp⟩,
        ⟨⟨"b", 3⟩, kNodeUp⟩, ⟨⟨"b", 4⟩, kNodeUp⟩] =
      some [⟨⟨"a", 1⟩, kNodeUp⟩, ⟨⟨"b", 4⟩, kNodeUp⟩, ⟨⟨"b", 3⟩, kNodeUp⟩, ⟨⟨"b", 2⟩, kNodeUp⟩] ∧
    ([⟨⟨"a", 1⟩, kNodeUp⟩, ⟨⟨"b", 4⟩, kNodeUp⟩, ⟨⟨"b", 3⟩, kNodeUp⟩,
        ⟨⟨"b", 2⟩, kNodeUp⟩].filter fun x : NodeStatus => x.node.ip = "b") ≠
      ([⟨⟨"a", 1⟩, kNodeUp⟩, ⟨⟨"b", 1⟩, kNodeUp⟩, ⟨⟨"b", 2⟩, kNodeUp⟩, ⟨⟨"b", 3⟩, kNodeUp⟩,
        ⟨⟨"b", 4⟩, kNodeUp⟩].filter fun x : NodeStatus => x.node.ip = "b").reverse := by
  decide

end ZeppelinMeta
