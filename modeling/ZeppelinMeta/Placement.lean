import ZeppelinMeta.Nodes

/-!
# Replicas over failover

`Distribute` gives partition `i` the replicas `A'[i], A'[i+1], A'[i+2]` and stores them
twice: as the partition of `MT` and as the replica set `PART:<i>`. Failover (`OffNode`)
and recovery (`OnNode`) only move replicas between the master slot and the slave slots of
`MT`'s partitions, so the two stay the same multiset, and every replica stays a node of
`ND`. Both need the endpoint `("", 0)`, which `MT` uses for "no master", never to be a
node: `Distribute` can place a node of that name, and `OffNode` of it appends it to the
slaves of an orphaned partition.
-/

namespace ZeppelinMeta

open List

/-- A request of the failover path: `OffNode` of any endpoint, or `AddNode` of one other
than `("", 0)`. -/
def Call.Failover : Call → Prop
  | .addNode ip port => (⟨ip, port⟩ : Node) ≠ Node.empty
  | .offNode _ _ => True
  | .distribute _ => False

instance (c : Call) : Decidable c.Failover :=
  match c with
  | .addNode ip port => inferInstanceAs (Decidable ((⟨ip, port⟩ : Node) ≠ Node.empty))
  | .offNode _ _ => isTrue trivial
  | .distribute _ => isFalse id

/-- Partition `p`, the `i`-th of `MT`, against the store `f`: it is partition `i`, its
replicas are the nodes of the replica set `PART:<i>`, and each of them is in `ND`. -/
def PartitionPlaced (f : Floyd) (i : ℕ) (p : Partitions) : Prop :=
  p.id = i ∧ (∃ rs, f.part i = some rs ∧ rs.node ~ p.replicas) ∧
    ∀ n ∈ p.replicas, n ∈ endpoints f.nodes

/-- The store as `Distribute(num)` leaves it and failover keeps it. -/
structure Placed (num : ℤ) (f : Floyd) : Prop where
  nodup : (endpoints f.nodes).Nodup
  empty_not_mem : Node.empty ∉ endpoints f.nodes
  pn : f.pn = some num
  table : ∃ t, f.mt = some t ∧ t.info.length = num.toNat ∧
    ∀ i p, t.info[i]? = some p → PartitionPlaced f i p

/-- Each partition of `MT` names each replica once. -/
def DistinctReplicas (f : Floyd) : Prop :=
  ∀ t, f.mt = some t → ∀ p ∈ t.info, p.replicas.Nodup

/-- Within each partition of `MT`, the master and the slaves are distinct. -/
def Distinct (f : Floyd) : Prop :=
  ∀ t, f.mt = some t → ∀ p ∈ t.info, (p.master :: p.slaves).Nodup

/-! ## The list `Distribute` places on -/

/-- The entries `Reorganize` returns are `UP` entries of the table, without a repeated
endpoint when the table has none. -/
theorem reorganize_alive {nodes aliveNodes : List NodeStatus}
    (hre : reorganize (getAllAliveNode nodes) = some aliveNodes) :
    (∀ ns ∈ aliveNodes, ns ∈ nodes ∧ ns.status = kNodeUp) ∧
      ((endpoints nodes).Nodup → (endpoints aliveNodes).Nodup) := by
  obtain ⟨l, hp, hs⟩ := subperm_of_reorganize hre
  refine ⟨fun ns h => ?_, fun hnd => ?_⟩
  · have := mem_filter.mp (hs.subset (hp.symm.subset h))
    exact ⟨this.1, by simpa using this.2⟩
  · exact (hp.map NodeStatus.node).nodup_iff.mp
      (hnd.sublist ((hs.trans (filter_sublist _)).map _))

/-- Every replica `Distribute` places is an `UP` entry of the table. -/
theorem nodeAt_reorganize {nodes aliveNodes : List NodeStatus} (hal : getAllAliveNode nodes ≠ [])
    (hre : reorganize (getAllAliveNode nodes) = some aliveNodes) (k : ℕ) :
    ⟨nodeAt aliveNodes k, kNodeUp⟩ ∈ nodes := by
  obtain ⟨ns, hns, he⟩ := mem_map.mp (nodeAt_mem (reorganize_ne_nil hal hre) k)
  obtain ⟨hmem, hup⟩ := (reorganize_alive hre).1 ns hns
  rw [← he, ← hup]
  exact hmem

theorem nodeAt_reorganize_mem {nodes aliveNodes : List NodeStatus}
    (hal : getAllAliveNode nodes ≠ []) (hre : reorganize (getAllAliveNode nodes) = some aliveNodes)
    (k : ℕ) : nodeAt aliveNodes k ∈ endpoints nodes :=
  mem_map_of_mem NodeStatus.node (nodeAt_reorganize hal hre k)

/-! ## After `Distribute` -/

theorem placed_distribute {num : ℤ} {m : Meta} {r : Status × Meta}
    (hnd : (endpoints m.floyd.nodes).Nodup) (hne : Node.empty ∉ endpoints m.floyd.nodes)
    (hf : m.faults = []) (hd : distribute num m = some r) (hok : r.1 = .ok) :
    Placed num r.2.floyd ∧
      (3 ≤ (getAllAliveNode m.floyd.nodes).length → DistinctReplicas r.2.floyd) := by
  obtain ⟨nodes, aliveNodes, hnodes, hal, hre, hfl, -⟩ := distribute_of_faults_nil hf hd hok
  have hn : r.2.floyd.nodes = nodes := by simp [Floyd.nodes, hfl, hnodes]
  have hm : m.floyd.nodes = nodes := by simp [Floyd.nodes, hnodes]
  rw [hm] at hnd hne
  have hmem := nodeAt_reorganize_mem hal hre
  have hrep (i : ℕ) : (distributePartition aliveNodes i).replicas =
      (distributeReplicaset aliveNodes i).node :=
    replicas_distributePartition fun h => hne (h ▸ hmem i)
  refine ⟨⟨by rwa [hn], by rwa [hn], by simp [hfl], ?_⟩, fun h3 => ?_⟩
  · refine ⟨⟨m.version + 1, (range num.toNat).map (distributePartition aliveNodes)⟩,
      by simp [hfl], by simp, fun i p hp => ?_⟩
    rw [getElem?_map, Option.map_eq_some'] at hp
    obtain ⟨i', hi', rfl⟩ := hp
    simp only [getElem?_eq_some_iff, length_range, getElem_range] at hi'
    obtain ⟨hi, rfl⟩ := hi'
    refine ⟨rfl, ⟨distributeReplicaset aliveNodes i, by simp [hfl, writeParts, hi], by rw [hrep]⟩,
      fun n hn' => ?_⟩
    rw [hrep] at hn'
    simp only [distributeReplicaset, mem_cons, mem_singleton, not_mem_nil, or_false] at hn'
    rw [hn]
    rcases hn' with rfl | rfl | rfl <;> exact hmem _
  · intro t ht p hp
    simp only [hfl, Option.some.injEq] at ht
    subst ht
    obtain ⟨i, -, rfl⟩ := mem_map.mp hp
    rw [hrep]
    exact nodup_distributeReplicaset ((reorganize_alive hre).2 hnd)
      (three_le_length_reorganize (by simpa [hm] using h3) hre) i

/-! ## One failover request -/

/-- **What a failover request can do beyond `ND`** when `("", 0)` is not a node: keep `PN`
and `PART`, and keep `MT` or map every partition of its table by a `g` that keeps the
partition's id and permutes its replicas. -/
theorem failover_floyd {c : Call} {faults : List Bool} {m : Meta} {r : Status × Meta}
    (hc : c.Failover) (hne : Node.empty ∉ endpoints m.floyd.nodes) (h : c.run faults m = some r) :
    r.2.floyd.pn = m.floyd.pn ∧ r.2.floyd.part = m.floyd.part ∧
    (r.2.floyd.mt = m.floyd.mt ∨ ∃ t v g, m.floyd.mt = some t ∧ r.2.floyd.mt = some ⟨v, t.info.map g⟩ ∧
      ∀ p, (g p).id = p.id ∧ (g p).replicas ~ p.replicas) := by
  cases c with
  | addNode ip port =>
    obtain rfl := Option.some.inj h
    obtain ⟨hpn, hpart, hmt | ⟨-, t, v, ht, hmt⟩⟩ := addNode_floyd ip port { m with faults }
    · exact ⟨hpn, hpart, .inl hmt⟩
    · exact ⟨hpn, hpart, .inr ⟨t, v, _, ht, hmt, fun p =>
        ⟨id_onNodePartition ip port p, replicas_onNodePartition p hc⟩⟩⟩
  | offNode ip port =>
    obtain rfl := Option.some.inj h
    obtain ⟨hpn, hpart, hmt | ⟨nodes, hnd, he, t, v, ht, hmt⟩⟩ := offNode_floyd ip port { m with faults }
    · exact ⟨hpn, hpart, .inl hmt⟩
    · have hne' : Node.empty ∉ endpoints nodes := by
        simpa [Floyd.nodes, show m.floyd.nd = some nodes from hnd] using hne
      refine ⟨hpn, hpart, .inr ⟨t, v, _, ht, hmt, fun p =>
        ⟨id_offNodePartition _ ip port p, replicas_offNodePartition p ?_ ?_⟩⟩⟩
      · exact fun h => hne' (h ▸ he)
      · intro n hn h
        exact hne' (h ▸ mem_map_of_mem NodeStatus.node ((isAlive_iff nodes n.ip n.port).mp hn))
  | distribute num => exact hc.elim

theorem NodesStep.empty_not_mem {c : Call} {nodes nodes' : List NodeStatus} {s : Status}
    (h : NodesStep c nodes s nodes') (hc : c.Failover) (hne : Node.empty ∉ endpoints nodes) :
    Node.empty ∉ endpoints nodes' := by
  rcases h with ⟨rfl, -⟩ | ⟨ip, port, rfl, -, rfl⟩ | ⟨ip, port, status, -, -, rfl⟩
  · exact hne
  · simpa [hne] using Ne.symm hc
  · simpa using hne

theorem PartitionPlaced.mono {f f' : Floyd} {i : ℕ} {p : Partitions} (h : PartitionPlaced f i p)
    (hpart : f'.part = f.part) (hsub : endpoints f.nodes ⊆ endpoints f'.nodes) {q : Partitions}
    (hid : q.id = p.id) (hperm : q.replicas ~ p.replicas) : PartitionPlaced f' i q := by
  obtain ⟨hi, ⟨rs, hrs, hp⟩, hmem⟩ := h
  exact ⟨hid.trans hi, ⟨rs, hpart ▸ hrs, hp.trans hperm.symm⟩,
    fun n hn => hsub (hmem n (hperm.subset hn))⟩

/-- Failover keeps the placement. -/
theorem Placed.failover {num : ℤ} {c : Call} {faults : List Bool} {m : Meta} {r : Status × Meta}
    (hp : Placed num m.floyd) (hc : c.Failover) (h : c.run faults m = some r) :
    Placed num r.2.floyd := by
  obtain ⟨hpn, hpart, hmt⟩ := failover_floyd hc hp.empty_not_mem h
  have hstep := nodesStep_run h
  have hsub := hstep.grows.subset
  obtain ⟨t, ht, hlen, hplaced⟩ := hp.table
  refine ⟨hstep.nodup hp.nodup, hstep.empty_not_mem hc hp.empty_not_mem, hpn.trans hp.pn, ?_⟩
  rcases hmt with hmt | ⟨t', v, g, ht', hmt, hg⟩
  · exact ⟨t, hmt.trans ht, hlen, fun i p hi => (hplaced i p hi).mono hpart hsub rfl (.refl _)⟩
  · rw [ht, Option.some.injEq] at ht'
    subst ht'
    refine ⟨_, hmt, by simpa using hlen, fun i q hi => ?_⟩
    rw [getElem?_map, Option.map_eq_some'] at hi
    obtain ⟨p, hi, rfl⟩ := hi
    exact (hplaced i p hi).mono hpart hsub (hg p).1 (hg p).2

/-- Failover keeps each partition's replicas distinct. -/
theorem DistinctReplicas.failover {c : Call} {faults : List Bool} {m : Meta} {r : Status × Meta}
    (hd : DistinctReplicas m.floyd) (hc : c.Failover) (hne : Node.empty ∉ endpoints m.floyd.nodes)
    (h : c.run faults m = some r) : DistinctReplicas r.2.floyd := by
  obtain ⟨-, -, hmt | ⟨t, v, g, ht, hmt, hg⟩⟩ := failover_floyd hc hne h
  · exact fun t ht => hd t (hmt ▸ ht)
  · intro t' ht' q hq
    rw [hmt, Option.some.injEq] at ht'
    subst ht'
    obtain ⟨p, hp, rfl⟩ := mem_map.mp hq
    exact (hg p).2.nodup_iff.mpr (hd t ht p hp)

/-- Without `("", 0)` among the slaves, the master and slaves are distinct exactly when
the replicas are. -/
theorem nodup_master_slaves {p : Partitions} (h : Node.empty ∉ p.slaves) :
    (p.master :: p.slaves).Nodup ↔ p.replicas.Nodup := by
  by_cases hm : p.master = Node.empty
  · simp [Partitions.replicas, hm, h]
  · simp [Partitions.replicas, hm]

/-- In a placed store no slave is `("", 0)`. -/
theorem Placed.empty_not_mem_slaves {num : ℤ} {f : Floyd} (hp : Placed num f)
    {t : MetaCmdResponsePull} (ht : f.mt = some t) {p : Partitions} (hmem : p ∈ t.info) :
    Node.empty ∉ p.slaves := by
  obtain ⟨t', ht', -, hplaced⟩ := hp.table
  rw [ht, Option.some.injEq] at ht'
  subst ht'
  obtain ⟨i, hi⟩ := mem_iff_getElem?.mp hmem
  exact fun h => hp.empty_not_mem ((hplaced i p hi).2.2 _ (by simp [Partitions.replicas, h]))

/-- **Replica conservation.** From a nodes table with no repeated endpoint and no entry
`("", 0)`, after a `Distribute(num)` that returned `OK` with no failure and any run of
failover requests (`OffNode`, and `AddNode` of an endpoint other than `("", 0)`), in any
order and with any failures: `PN` is `num`; `MT` holds `num` partitions, the `i`-th being
partition `i`, whose master (unless `("", 0)`) and slaves are the nodes of `PART:<i>`,
each in `ND`; and when `Distribute` saw three or more `UP` nodes, each partition's master
and slaves are distinct. -/
theorem replicas_conserved {m0 m1 m : Meta} {num : ℤ} {cs : List (Call × List Bool)}
    {ss : List Status} (hnd : (endpoints m0.floyd.nodes).Nodup)
    (hne : Node.empty ∉ endpoints m0.floyd.nodes) (hf : m0.faults = [])
    (hd : distribute num m0 = some (.ok, m1)) (hcs : ∀ x ∈ cs, x.1.Failover)
    (h : serve m1 cs = some (ss, m)) :
    Placed num m.floyd ∧ (3 ≤ (getAllAliveNode m0.floyd.nodes).length → Distinct m.floyd) := by
  have hrun := serve_invariant
    (fun m => Placed num m.floyd ∧ (3 ≤ (getAllAliveNode m0.floyd.nodes).length →
      DistinctReplicas m.floyd))
    (fun c _ hx _ _ ⟨hp, hdr⟩ hr => ⟨hp.failover (hcs _ hx) hr,
      fun h3 => (hdr h3).failover (hcs _ hx) hp.empty_not_mem hr⟩)
    (placed_distribute hnd hne hf hd rfl) h
  refine ⟨hrun.1, fun h3 t ht p hp => ?_⟩
  exact (nodup_master_slaves (hrun.1.empty_not_mem_slaves ht hp)).mpr (hrun.2 h3 t ht p hp)

theorem replicas_conserved_three_nodes :
    ∃ m1 ss m, distribute 1 ⟨⟨some [⟨⟨"a", 1⟩, kNodeUp⟩, ⟨⟨"b", 1⟩, kNodeUp⟩, ⟨⟨"c", 1⟩, kNodeUp⟩],
        none, none, fun _ => none⟩, 0, []⟩ = some (.ok, m1) ∧
      serve m1 [(.offNode "a" 1, []), (.addNode "d" 1, []), (.offNode "b" 1, [true])] =
        some (ss, m) ∧
      Placed 1 m.floyd ∧ Distinct m.floyd := by
  refine ⟨_, _, _, rfl, rfl, ?_⟩
  have h := @replicas_conserved ⟨⟨some [⟨⟨"a", 1⟩, kNodeUp⟩, ⟨⟨"b", 1⟩, kNodeUp⟩,
    ⟨⟨"c", 1⟩, kNodeUp⟩], none, none, fun _ => none⟩, 0, []⟩ _ _ 1
    [(.offNode "a" 1, []), (.addNode "d" 1, []), (.offNode "b" 1, [true])] _ (by decide) (by decide)
    rfl rfl (by decide) rfl
  exact ⟨h.1, h.2 (by decide)⟩

/-- Once `("", 0)` has joined, `OffNode` of it appends it to an orphaned partition's
slaves: a replica `PART:0` never had. -/
theorem replicas_conserved_fails_for_empty_endpoint :
    ∃ m1 ss m, distribute 1 ⟨⟨some [⟨⟨"a", 1⟩, kNodeUp⟩, ⟨⟨"b", 1⟩, kNodeUp⟩], none, none,
        fun _ => none⟩, 0, []⟩ = some (.ok, m1) ∧
      serve m1 [(.offNode "a" 1, []), (.offNode "b" 1, []), (.addNode "" 0, []),
        (.offNode "" 0, [])] = some (ss, m) ∧ ss = [.ok, .ok, .ok, .ok] ∧
      ∃ t p rs, m.floyd.mt = some t ∧ t.info[0]? = some p ∧ m.floyd.part 0 = some rs ∧
        ¬ rs.node ~ p.replicas :=
  ⟨_, _, _, rfl, rfl, by decide, _, _, _, rfl, rfl, rfl, by decide⟩

end ZeppelinMeta
