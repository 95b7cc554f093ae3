import ZeppelinMeta.Placement
import Mathlib.Data.Int.CardIntervalMod

/-!
# What `Distribute` persists

`Distribute(num)` gives partition `i` the master `A'[i mod n]` and the slaves
`A'[(i+1) mod n]`, `A'[(i+2) mod n]`, where `A'` is the list `Reorganize` returns and
`n = |A'|`. With every consensus operation succeeding it writes `PART:<i>` for each
`i < num`, then `MT` at `version_ + 1`, then `PN`. Going round `A'` in order, entry `j` is
master of the partitions `i ≡ j (mod n)`: `⌊num / n⌋` of them, one more for the first
`num mod n` entries.
-/

namespace ZeppelinMeta

open List

/-- **The success path of `Distribute`**: with `PN` unset or `0`, an `UP` entry in `ND`,
a list `A'` from `Reorganize` and no failure, `Distribute` returns `OK` having written every
key. -/
theorem distribute_init {num : ℤ} {m : Meta} {nodes aliveNodes : List NodeStatus}
    (hf : m.faults = []) (hpn : m.floyd.pn.getD 0 = 0) (hnd : m.floyd.nd = some nodes)
    (hal : getAllAliveNode nodes ≠ []) (hre : reorganize (getAllAliveNode nodes) = some aliveNodes) :
    distribute num m = some (.ok, ⟨{ m.floyd with
      part := writeParts aliveNodes (range num.toNat) m.floyd.part,
      mt := some ⟨m.version + 1, (range num.toNat).map (distributePartition aliveNodes)⟩,
      pn := some num }, m.version + 1, []⟩) := by
  have hfails : ∀ m' : Meta, m'.faults = [] → m'.fails = false := fun m' h => by simp [Meta.fails, h]
  have hf1 : m.next.faults = [] := by simp [Meta.next, hf]
  have hf2 : m.next.next.faults = [] := by simp [Meta.next, hf]
  unfold distribute
  rw [partitionNums_eq]
  simp only [hfails m hf, Bool.false_eq_true, if_false, hpn, ne_eq, not_true_eq_false]
  rw [getAllNode_eq]
  simp only [hfails m.next hf1, Bool.false_eq_true, if_false, Meta.next_floyd,
    hnd, Option.elim_some, Option.getD_some, not_true_eq_false, hal, hre, Option.map_some']
  obtain ⟨k, -, hfl, hv, hs⟩ := setReplicasets_cases aliveNodes (range num.toNat) m.next.next
  generalize setReplicasets aliveNodes (range num.toNat) m.next.next = R at hfl hv hs ⊢
  obtain ⟨s, m2⟩ := R
  rcases hs with ⟨rfl, rfl, hff⟩ | ⟨-, -, hne⟩
  · have hm2 : m2.faults = [] := hff hf2
    simp only [take_length] at hfl hv
    simp [setMSInfo, set_eq, Meta.write, Meta.fails, Meta.next, hm2, hfl, hv, hnd]
  · exact absurd hf2 hne

/-! ## How many partitions each node leads -/

/-- Entry `j` of `A'` is master of partition `i` exactly when `i ≡ j` modulo `|A'|`, so of
`num / |A'|` partitions, one more when `j < num % |A'|`. -/
theorem countP_master_distributePartition {aliveNodes : List NodeStatus}
    (hnd : (endpoints aliveNodes).Nodup) {j : ℕ} (hj : j < aliveNodes.length) (N : ℕ) :
    ((range N).map (distributePartition aliveNodes)).countP (fun p => p.master = aliveNodes[j].node) =
      N / aliveNodes.length + if j < N % aliveNodes.length then 1 else 0 := by
  have hne : aliveNodes ≠ [] := ne_nil_of_length_pos (by omega)
  have hmaster (i : ℕ) :
      nodeAt aliveNodes i = aliveNodes[j].node ↔ i ≡ j [MOD aliveNodes.length] := by
    obtain ⟨hk, he⟩ := nodeAt_eq_getElem hne i
    have hj' : j < (endpoints aliveNodes).length := by simpa [endpoints] using hj
    rw [he, Nat.ModEq, Nat.mod_eq_of_lt hj, show aliveNodes[j].node = (endpoints aliveNodes)[j] by
      simp [endpoints], hnd.getElem_inj_iff]
  have := Nat.count_modEq_card (b := N) (length_pos.mpr hne) j
  rw [Nat.mod_eq_of_lt hj] at this
  rw [← this, Nat.count, countP_map]
  exact countP_congr fun i _ => by simp [distributePartition, hmaster]

/-- **Initial placement.** On a nodes table without a repeated endpoint whose `UP` entries
`Reorganize` turns into a non-empty `A'`, with `PN` unset or `0` and no failure, `Distribute(num)`
returns `OK` having written `MT` at `version_ + 1` with `num` partitions built from `A'`,
`PART:<i>` for each `i < num` with the master and slaves of partition `i` of `MT`, and
`PN = num`, and advanced `version_`. Every replica placed is an
`UP` entry of `ND`; with three or more entries in `A'` each partition's replicas are
distinct; and each entry of `A'` is master of `⌊num / |A'|⌋` or `⌈num / |A'|⌉` partitions. -/
theorem distribute_initial_placement {num : ℤ} {m : Meta} {nodes aliveNodes : List NodeStatus}
    (hf : m.faults = []) (hpn : m.floyd.pn.getD 0 = 0) (hnd : m.floyd.nd = some nodes)
    (huniq : (endpoints nodes).Nodup) (hre : reorganize (getAllAliveNode nodes) = some aliveNodes)
    (hn : aliveNodes ≠ []) :
    ∃ m', distribute num m = some (.ok, m') ∧
      m'.floyd = { m.floyd with
        part := writeParts aliveNodes (range num.toNat) m.floyd.part,
        mt := some ⟨m.version + 1, (range num.toNat).map (distributePartition aliveNodes)⟩,
        pn := some num } ∧
      m'.version = m.version + 1 ∧
      (∀ i < num.toNat, ∃ p, ((range num.toNat).map (distributePartition aliveNodes))[i]? = some p ∧
        p.id = i ∧ m'.floyd.part i = some ⟨i, p.master :: p.slaves⟩) ∧
      (∀ p ∈ (range num.toNat).map (distributePartition aliveNodes),
        (∀ e ∈ p.master :: p.slaves, ⟨e, kNodeUp⟩ ∈ nodes) ∧
        (3 ≤ aliveNodes.length → (p.master :: p.slaves).Nodup)) ∧
      ∀ ns ∈ aliveNodes,
        let c := ((range num.toNat).map (distributePartition aliveNodes)).countP
          fun p => p.master = ns.node
        c = num.toNat / aliveNodes.length ∨
          c = (num.toNat + aliveNodes.length - 1) / aliveNodes.length := by
  have hal : getAllAliveNode nodes ≠ [] := by
    rintro h
    simp [h, reorganize, reorganizeLoop, buckets] at hre
    exact hn hre
  refine ⟨_, distribute_init hf hpn hnd hal hre, rfl, rfl,
    fun i hi => ⟨distributePartition aliveNodes i, by simp [hi], rfl, by simp [writeParts, hi]; rfl⟩,
    fun p hp => ?_, fun ns hns => ?_⟩
  · obtain ⟨i, -, rfl⟩ := mem_map.mp hp
    refine ⟨fun e he => ?_, fun h3 => nodup_distributeReplicaset ((reorganize_alive hre).2 huniq) h3 i⟩
    simp only [distributePartition, mem_cons, mem_singleton, not_mem_nil, or_false] at he
    rcases he with rfl | rfl | rfl <;> exact nodeAt_reorganize hal hre _
  · obtain ⟨j, hj, rfl⟩ := getElem_of_mem hns
    have hpos : 1 ≤ aliveNodes.length := length_pos.mpr hn
    have hceil := Nat.add_div (a := num.toNat) (b := aliveNodes.length - 1) hpos
    rw [Nat.div_eq_of_lt (Nat.sub_lt hpos one_pos), Nat.mod_eq_of_lt (Nat.sub_lt hpos one_pos),
      ← Nat.add_sub_assoc hpos] at hceil
    have hmod := Nat.mod_lt num.toNat hpos
    simp only [countP_master_distributePartition ((reorganize_alive hre).2 huniq) hj]
    split_ifs at hceil ⊢ <;> omega

theorem distribute_initial_placement_three_hosts :
    ∃ m', distribute 4 ⟨⟨some [⟨⟨"a", 1⟩, kNodeUp⟩, ⟨⟨"b", 1⟩, kNodeUp⟩, ⟨⟨"c", 1⟩, kNodeUp⟩],
        none, none, fun _ => none⟩, 0, []⟩ = some (.ok, m') ∧
      m'.version = 1 ∧ m'.floyd.pn = some 4 := by
  obtain ⟨m', h, hfl, hv, -⟩ := @distribute_initial_placement 4
    ⟨⟨some [⟨⟨"a", 1⟩, kNodeUp⟩, ⟨⟨"b", 1⟩, kNodeUp⟩, ⟨⟨"c", 1⟩, kNodeUp⟩], none, none,
      fun _ => none⟩, 0, []⟩ _ _ rfl rfl rfl (by decide) rfl (by decide)
  exact ⟨m', h, hv, by rw [hfl]⟩

end ZeppelinMeta
