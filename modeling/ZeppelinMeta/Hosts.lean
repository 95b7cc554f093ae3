import ZeppelinMeta.Passes
import ZeppelinMeta.Spreading
import ZeppelinMeta.Distribution

/-!
# Replicas on distinct hosts

What `Reorganize` is for: `Distribute` gives partition `i` the entries `i`, `i + 1` and
`i + 2` of its output, so three neighbours on three different hosts put a partition's
replicas on three machines. When every host runs the same number `s` of alive nodes, the
passes of `Reorganize` are full rounds: each takes one entry from every host, in ip order,
and the loop stops after the pass that finds them all empty. The output goes round the
hosts `s` times, and with three hosts or more every partition `Distribute` builds has its
replicas on three different hosts.
-/

namespace ZeppelinMeta

open List

/-! ## The buckets of a table -/

namespace Buckets.WF

variable {m : Buckets}

/-- The bucket of an ip holds every entry of that ip. -/
theorem filter_entries_of_mem (h : m.WF) {q : String × List NodeStatus} (hq : q ∈ m) :
    (bucketEntries m).filter (fun x => x.node.ip = q.1) = q.2 := by
  induction m with
  | nil => simp at hq
  | cons r rest ih =>
    have hr := h.ip_eq r (mem_cons_self _ _)
    have hnd := nodup_cons.mp h.nodup_keys
    have hcons : bucketEntries (r :: rest) = r.2 ++ bucketEntries rest := rfl
    rw [hcons, filter_append]
    rcases mem_cons.mp hq with rfl | hq
    · rw [filter_eq_self.mpr (by simpa using hr), h.tail.filter_entries_of_not_mem hnd.1, append_nil]
    · have hne : r.1 ≠ q.1 := fun he => hnd.1 (he ▸ mem_map_of_mem Prod.fst hq)
      rw [filter_eq_nil_iff.mpr fun x hx => by simpa [hr x hx] using hne, nil_append, ih h.tail hq]

end Buckets.WF

/-- The hosts of a table, in the map's order: one bucket per ip of an entry. -/
theorem mem_keys_buckets (tAliveNodes : List NodeStatus) (c : String) :
    c ∈ (buckets tAliveNodes).map Prod.fst ↔ ∃ x ∈ tAliveNodes, x.node.ip = c := by
  have hwf := wf_buckets tAliveNodes
  have hperm := entries_buckets tAliveNodes
  constructor
  · rintro hc
    obtain ⟨q, hq, rfl⟩ := mem_map.mp hc
    obtain ⟨x, hx⟩ := exists_mem_of_ne_nil _ (buckets_ne_nil tAliveNodes q hq)
    exact ⟨x, hperm.subset (mem_flatMap.mpr ⟨q, hq, hx⟩), hwf.ip_eq q hq x hx⟩
  · rintro ⟨x, hx, rfl⟩
    obtain ⟨q, hq, hxq⟩ := mem_flatMap.mp (hperm.symm.subset hx)
    exact hwf.ip_eq q hq x hxq ▸ mem_map_of_mem Prod.fst hq

theorem length_buckets_eq_hosts (tAliveNodes : List NodeStatus) :
    (buckets tAliveNodes).length = ((tAliveNodes.map fun x => x.node.ip).dedup).length := by
  have hperm : (buckets tAliveNodes).map Prod.fst ~ (tAliveNodes.map fun x => x.node.ip).dedup :=
    (perm_ext_iff_of_nodup (wf_buckets tAliveNodes).nodup_keys (nodup_dedup _)).mpr fun c => by
      rw [mem_keys_buckets, mem_dedup, mem_map]
  simpa using hperm.length_eq

/-- With every host running `s` alive nodes, every bucket holds `s` entries. -/
theorem length_of_mem_buckets {tAliveNodes : List NodeStatus} {s : ℕ}
    (hbal : ∀ x ∈ tAliveNodes, (tAliveNodes.filter fun y => y.node.ip = x.node.ip).length = s)
    {q : String × List NodeStatus} (hq : q ∈ buckets tAliveNodes) : q.2.length = s := by
  have hwf := wf_buckets tAliveNodes
  obtain ⟨x, hx⟩ := exists_mem_of_ne_nil _ (buckets_ne_nil tAliveNodes q hq)
  have hxt := (entries_buckets tAliveNodes).subset (mem_flatMap.mpr ⟨q, hq, hx⟩)
  rw [← hwf.filter_entries_of_mem hq, filter_entries_buckets, ← hwf.ip_eq q hq x hx]
  exact hbal x hxt

/-! ## Balanced hosts -/

section Balanced

variable {m : Buckets} {s : ℕ}

theorem emptyCountAfter_of_length (hs : ∀ q ∈ m, q.2.length = s) (j : ℕ) :
    emptyCountAfter m j = m.length * (j - s) := by
  induction m with
  | nil => simp
  | cons q rest ih =>
    rw [forall_mem_cons] at hs
    rw [emptyCountAfter_cons, ih hs.2, hs.1, length_cons, Nat.succ_mul]
    omega

/-- A pass before the buckets run out takes one entry from each, of its bucket's ip. -/
theorem ips_pass_of_length (h : m.WF) (hs : ∀ q ∈ m, q.2.length = s) {j : ℕ} (hj : j < s) :
    (m.filterMap fun q => q.2.reverse[j]?).map (fun x => x.node.ip) = m.map Prod.fst := by
  induction m with
  | nil => rfl
  | cons q rest ih =>
    rw [forall_mem_cons] at hs
    have hjq : j < q.2.reverse.length := by simp [hs.1, hj]
    have hx := h.ip_eq q (mem_cons_self _ _) _ (mem_reverse.mp (getElem_mem hjq))
    rw [filterMap_cons_some (f := fun q : String × List NodeStatus => q.2.reverse[j]?)
      (getElem?_eq_getElem hjq), map_cons, hx, ih h.tail hs.2, map_cons]

theorem ips_passesOutput_of_length (h : m.WF) (hs : ∀ q ∈ m, q.2.length = s) {k : ℕ}
    (hk : k ≤ s) :
    (passesOutput m k).map (fun x => x.node.ip) = (replicate k (m.map Prod.fst)).flatten := by
  induction k with
  | zero => rfl
  | succ k ih =>
    rw [passesOutput_succ, map_append, ih (by omega), ips_pass_of_length h hs (by omega),
      replicate_succ', flatten_append, flatten_singleton]

/-- The pass after `s` full rounds takes nothing. -/
theorem passesOutput_succ_of_length (hs : ∀ q ∈ m, q.2.length = s) :
    passesOutput m (s + 1) = passesOutput m s := by
  rw [passesOutput_succ, filterMap_eq_nil_iff.mpr fun q hq => ?_, append_nil]
  exact getElem?_eq_none (by simp [hs q hq])

theorem length_entries_of_length (hs : ∀ q ∈ m, q.2.length = s) :
    (bucketEntries m).length = m.length * s := by
  induction m with
  | nil => simp [bucketEntries]
  | cons q rest ih =>
    rw [forall_mem_cons] at hs
    have hcons : bucketEntries (q :: rest) = q.2 ++ bucketEntries rest := rfl
    rw [hcons, length_append, hs.1, ih hs.2, length_cons, Nat.succ_mul, Nat.add_comm]

end Balanced

/-- With every host running `s` alive nodes, `Reorganize` stops at the pass after `s` full
rounds. -/
theorem reorganize_eq_passesOutput {tAliveNodes : List NodeStatus} {s : ℕ}
    (ht : tAliveNodes ≠ [])
    (hbal : ∀ x ∈ tAliveNodes, (tAliveNodes.filter fun y => y.node.ip = x.node.ip).length = s) :
    reorganize tAliveNodes = some (passesOutput (buckets tAliveNodes) s) := by
  have hs := fun q (hq : q ∈ buckets tAliveNodes) => length_of_mem_buckets hbal hq
  have hpos := length_buckets_pos ht
  refine reorganize_eq_some_iff.mpr ⟨s + 1, fun j hj => ?_, ?_, (passesOutput_succ_of_length hs).symm⟩
  · rw [emptyCountAfter_of_length hs, Nat.sub_eq_zero_of_le (by omega)]
    omega
  · rw [emptyCountAfter_of_length hs, Nat.add_sub_cancel_left, Nat.mul_one]

/-- **Balanced hosts are spread in full rounds.** When every host runs the same number `s`
of alive nodes, `Reorganize` returns a list holding every one of them, in which the hosts
come round `s` times in the same order: ascending ip order, each host once a round. -/
theorem reorganize_rounds_of_balanced {tAliveNodes : List NodeStatus} {s : ℕ}
    (hbal : ∀ x ∈ tAliveNodes, (tAliveNodes.filter fun y => y.node.ip = x.node.ip).length = s) :
    ∃ out hosts, reorganize tAliveNodes = some out ∧ out ~ tAliveNodes ∧
      hosts.Pairwise (fun a b => ipLess a b = true) ∧
      (∀ c, c ∈ hosts ↔ ∃ x ∈ tAliveNodes, x.node.ip = c) ∧
      out.map (fun x => x.node.ip) = (replicate s hosts).flatten := by
  rcases eq_or_ne tAliveNodes [] with rfl | ht
  · exact ⟨[], [], rfl, Perm.refl _, Pairwise.nil, by simp, by simp⟩
  have hwf := wf_buckets tAliveNodes
  have hs := fun q (hq : q ∈ buckets tAliveNodes) => length_of_mem_buckets hbal hq
  have hre := reorganize_eq_passesOutput ht hbal
  have hips := ips_passesOutput_of_length hwf hs le_rfl
  refine ⟨_, _, hre, ?_, pairwise_map.mpr hwf.sorted, mem_keys_buckets tAliveNodes, hips⟩
  have hlen : tAliveNodes.length ≤ (passesOutput (buckets tAliveNodes) s).length := by
    have hl := congrArg length hips
    rw [length_map, length_flatten, map_replicate, sum_replicate, length_map, smul_eq_mul] at hl
    rw [hl, ← (entries_buckets tAliveNodes).length_eq, length_entries_of_length hs, Nat.mul_comm]
  exact (subperm_of_reorganize hre).perm_of_length_le hlen

/-- Two hosts with two nodes each, listed host by host. -/
theorem reorganize_rounds_of_balanced_two_hosts :
    ∃ out hosts, reorganize [⟨⟨"b", 1⟩, kNodeUp⟩, ⟨⟨"b", 2⟩, kNodeUp⟩, ⟨⟨"a", 1⟩, kNodeUp⟩,
        ⟨⟨"a", 2⟩, kNodeUp⟩] = some out ∧
      out ~ [⟨⟨"b", 1⟩, kNodeUp⟩, ⟨⟨"b", 2⟩, kNodeUp⟩, ⟨⟨"a", 1⟩, kNodeUp⟩, ⟨⟨"a", 2⟩, kNodeUp⟩] ∧
      hosts.Pairwise (fun a b => ipLess a b = true) ∧
      (∀ c, c ∈ hosts ↔ ∃ x ∈ [(⟨⟨"b", 1⟩, kNodeUp⟩ : NodeStatus), ⟨⟨"b", 2⟩, kNodeUp⟩,
        ⟨⟨"a", 1⟩, kNodeUp⟩, ⟨⟨"a", 2⟩, kNodeUp⟩], x.node.ip = c) ∧
      out.map (fun x => x.node.ip) = (replicate 2 hosts).flatten :=
  @reorganize_rounds_of_balanced [⟨⟨"b", 1⟩, kNodeUp⟩, ⟨⟨"b", 2⟩, kNodeUp⟩, ⟨⟨"a", 1⟩, kNodeUp⟩,
    ⟨⟨"a", 2⟩, kNodeUp⟩] 2 (by decide)

/-! ## The hosts of a partition -/

theorem getElem?_flatten_replicate {α : Type} (l : List α) {s i : ℕ} (hi : i < s * l.length) :
    (replicate s l).flatten[i]? = l[i % l.length]? := by
  induction s generalizing i with
  | zero => simp at hi
  | succ s ih =>
    rw [replicate_succ, flatten_cons]
    by_cases hl : i < l.length
    · rw [getElem?_append_left hl, Nat.mod_eq_of_lt hl]
    · rw [Nat.succ_mul] at hi
      rw [getElem?_append_right (by omega), ih (by omega), ← Nat.mod_eq_sub_mod (by omega)]

section Rounds

variable {aliveNodes : List NodeStatus} {hosts : List String} {s : ℕ}

theorem length_of_rounds (hips : aliveNodes.map (fun x => x.node.ip) = (replicate s hosts).flatten) :
    aliveNodes.length = s * hosts.length := by
  simpa using congrArg length hips

/-- Along a list that goes round the hosts `s` times, `alive_nodes[k % an_num]` sits on
host `k` modulo the number of hosts. -/
theorem ip_nodeAt_of_rounds
    (hips : aliveNodes.map (fun x => x.node.ip) = (replicate s hosts).flatten)
    (hne : aliveNodes ≠ []) (k : ℕ) :
    some (nodeAt aliveNodes k).ip = hosts[k % hosts.length]? := by
  have hlen := length_of_rounds hips
  have hk := Nat.mod_lt k (length_pos.mpr hne)
  obtain ⟨hk', he⟩ := nodeAt_eq_getElem hne k
  have hip : some (endpoints aliveNodes)[k % aliveNodes.length].ip =
      (aliveNodes.map fun x => x.node.ip)[k % aliveNodes.length]? := by
    simp [endpoints, getElem?_eq_getElem hk]
  rw [he, hip, hips, getElem?_flatten_replicate hosts (hlen ▸ hk), hlen,
    Nat.mod_mod_of_dvd _ (Nat.dvd_mul_left _ _)]

theorem ip_nodeAt_ne (hips : aliveNodes.map (fun x => x.node.ip) = (replicate s hosts).flatten)
    (hne : aliveNodes ≠ []) (hnd : hosts.Nodup) {k l : ℕ}
    (hkl : k % hosts.length ≠ l % hosts.length) :
    (nodeAt aliveNodes k).ip ≠ (nodeAt aliveNodes l).ip := by
  have hpos : 0 < hosts.length := Nat.pos_of_ne_zero fun h0 =>
    hne (length_eq_zero.mp (by rw [length_of_rounds hips, h0, Nat.mul_zero]))
  have hk := Nat.mod_lt k hpos
  have hl := Nat.mod_lt l hpos
  intro he
  have := ip_nodeAt_of_rounds hips hne k
  rw [he, ip_nodeAt_of_rounds hips hne l, getElem?_eq_getElem hk, getElem?_eq_getElem hl,
    Option.some_inj] at this
  exact hkl (hnd.getElem_inj_iff.mp this).symm

/-- With three hosts or more, the nodes `i`, `i + 1` and `i + 2` of such a list are on
three different hosts. -/
theorem ips_nodeAt_nodup (hips : aliveNodes.map (fun x => x.node.ip) = (replicate s hosts).flatten)
    (hne : aliveNodes ≠ []) (hnd : hosts.Nodup) (h3 : 3 ≤ hosts.length) (i : ℕ) :
    [(nodeAt aliveNodes i).ip, (nodeAt aliveNodes (i + 1)).ip, (nodeAt aliveNodes (i + 2)).ip].Nodup := by
  have h01 := ip_nodeAt_ne hips hne hnd (add_mod_ne (i := i) (d := 1) (by omega) (by omega)).symm
  have h02 := ip_nodeAt_ne hips hne hnd (add_mod_ne (i := i) (d := 2) (by omega) (by omega)).symm
  have h12 := ip_nodeAt_ne hips hne hnd (add_mod_ne (i := i + 1) (d := 1) (by omega) (by omega)).symm
  simp [h01, h02, h12]

end Rounds

/-- **Replicas on distinct hosts.** When every host runs the same number of `UP` nodes and
there are three hosts or more, `Distribute` on its success path gives every partition three
replicas on three different hosts, both in the table it stores at `MT` and in every
`PART:<i>` key. -/
theorem distribute_replicas_on_distinct_hosts {num : ℤ} {m : Meta} {nodes : List NodeStatus}
    {s : ℕ} (hf : m.faults = []) (hpn : m.floyd.pn.getD 0 = 0) (hnd : m.floyd.nd = some nodes)
    (hbal : ∀ x ∈ getAllAliveNode nodes,
      ((getAllAliveNode nodes).filter fun y => y.node.ip = x.node.ip).length = s)
    (h3 : 3 ≤ ((getAllAliveNode nodes).map fun x => x.node.ip).dedup.length) :
    ∃ m' t, distribute num m = some (.ok, m') ∧ m'.floyd.mt = some t ∧
      t.info.length = num.toNat ∧
      (∀ p ∈ t.info, (p.master :: p.slaves).length = 3 ∧ ((p.master :: p.slaves).map Node.ip).Nodup) ∧
      ∀ i < num.toNat, ∃ rs, m'.floyd.part i = some rs ∧ rs.node.length = 3 ∧
        (rs.node.map Node.ip).Nodup := by
  set T := getAllAliveNode nodes
  have hT : T ≠ [] := by
    rintro hT
    simp [hT] at h3
  have hwf := wf_buckets T
  have hs := fun q (hq : q ∈ buckets T) => length_of_mem_buckets hbal hq
  have hre := reorganize_eq_passesOutput hT hbal
  have hips := ips_passesOutput_of_length hwf hs le_rfl
  have hne := reorganize_ne_nil hT hre
  have hH : 3 ≤ ((buckets T).map Prod.fst).length := by
    rwa [length_map, length_buckets_eq_hosts]
  have hrs := ips_nodeAt_nodup hips hne hwf.nodup_keys hH
  refine ⟨_, _, distribute_init hf hpn hnd hT hre, rfl, by simp, fun p hp => ?_,
    fun i hi => ⟨distributeReplicaset _ i, by simp [writeParts, hi], rfl, hrs i⟩⟩
  obtain ⟨i, -, rfl⟩ := mem_map.mp hp
  exact ⟨rfl, hrs i⟩

/-- Six nodes, two on each of three hosts. -/
theorem distribute_replicas_on_distinct_hosts_two_per_host :
    ∃ m' t, distribute 4 ⟨⟨some [⟨⟨"a", 1⟩, kNodeUp⟩, ⟨⟨"a", 2⟩, kNodeUp⟩, ⟨⟨"b", 1⟩, kNodeUp⟩,
        ⟨⟨"b", 2⟩, kNodeUp⟩, ⟨⟨"c", 1⟩, kNodeUp⟩, ⟨⟨"c", 2⟩, kNodeUp⟩], none, none,
        fun _ => none⟩, 0, []⟩ = some (.ok, m') ∧ m'.floyd.mt = some t ∧
      t.info.length = 4 ∧
      (∀ p ∈ t.info, (p.master :: p.slaves).length = 3 ∧ ((p.master :: p.slaves).map Node.ip).Nodup) ∧
      ∀ i < 4, ∃ rs, m'.floyd.part i = some rs ∧ rs.node.length = 3 ∧ (rs.node.map Node.ip).Nodup :=
  @distribute_replicas_on_distinct_hosts 4 ⟨⟨some [⟨⟨"a", 1⟩, kNodeUp⟩, ⟨⟨"a", 2⟩, kNodeUp⟩,
    ⟨⟨"b", 1⟩, kNodeUp⟩, ⟨⟨"b", 2⟩, kNodeUp⟩, ⟨⟨"c", 1⟩, kNodeUp⟩, ⟨⟨"c", 2⟩, kNodeUp⟩], none,
    none, fun _ => none⟩, 0, []⟩ _ 2 rfl rfl rfl (by decide) (by decide)

end ZeppelinMeta
