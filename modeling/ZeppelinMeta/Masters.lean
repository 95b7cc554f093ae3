import ZeppelinMeta.Placement

/-!
# Masters over failover

`OffNode` hands a partition of the failed master to its first slave that `IsAlive`, and
`OnNode` gives an orphaned partition to the slave that returns, which is `UP` by then.
The alive list `OffNode` uses is read before the failed node is marked `DOWN`, so the
failed node itself passes `IsAlive`: a partition that lists it as a slave too (which
`Distribute` does on fewer than three nodes) is handed back to it. With three or more
nodes at `Distribute` no partition names a data server twice, failover only permutes a
partition's servers (`servers_offNodePartition`, `servers_onNodePartition`), and every
master stays `UP` as long as each `OffNode` writes the table it computed. The endpoint
`("", 0)` may be a node like any other: `MT` reads it as "no master", and nothing here
needs it kept out of `ND`.
-/

namespace ZeppelinMeta

open List

/-- Every partition of `MT` has no master, or an `UP` one. -/
def MastersLive (f : Floyd) : Prop :=
  ∀ t, f.mt = some t → ∀ p ∈ t.info,
    p.master = Node.empty ∨ statusOf f.nodes p.master = some kNodeUp

/-- Every partition of `MT` names each data server once: its master and slaves, less
`("", 0)`, are distinct. -/
def ServersDistinct (f : Floyd) : Prop :=
  ∀ t, f.mt = some t → ∀ p ∈ t.info, p.servers.Nodup

/-- Whether a request is `Distribute`; the failover path is every other request. -/
def Call.isDistribute : Call → Bool
  | .distribute _ => true
  | _ => false

/-- A master that names a data server is not among its own partition's slaves. -/
theorem master_not_mem_slaves {p : Partitions} (h : p.servers.Nodup)
    (hm : p.master ≠ Node.empty) : p.master ∉ p.slaves := fun hs => by
  simp only [Partitions.servers, filter_cons, ne_eq, hm, not_false_eq_true, decide_True,
    if_true, nodup_cons, mem_filter] at h
  exact h.1 ⟨hs, by simp [hm]⟩

/-! ## One partition -/

/-- Setting an endpoint `UP` keeps a live master live. -/
theorem masterLive_setStatus_up {nodes : List NodeStatus} {ip : String} {port : ℤ} {n : Node}
    (he : (⟨ip, port⟩ : Node) ∈ endpoints nodes)
    (h : n = Node.empty ∨ statusOf nodes n = some kNodeUp) :
    n = Node.empty ∨ statusOf (setStatus ip port kNodeUp nodes) n = some kNodeUp := by
  by_cases hn : n = ⟨ip, port⟩
  · exact .inr (hn ▸ statusOf_setStatus_self he)
  · rwa [statusOf_setStatus_of_ne _ hn]

/-- `OnNode` of an endpoint just set `UP` leaves every master live. -/
theorem onNodePartition_master_live {nodes : List NodeStatus} {ip : String} {port : ℤ}
    {p : Partitions} (he : (⟨ip, port⟩ : Node) ∈ endpoints nodes)
    (h : p.master = Node.empty ∨ statusOf nodes p.master = some kNodeUp) :
    (onNodePartition ip port p).1.master = Node.empty ∨
      statusOf (setStatus ip port kNodeUp nodes) (onNodePartition ip port p).1.master =
        some kNodeUp := by
  by_cases hm : p.master = Node.empty
  · by_cases hs : (⟨ip, port⟩ : Node) ∈ p.slaves
    · obtain ⟨_, _, -, -, hp⟩ := onNodePartition_of_mem hm hs
      rw [hp]
      exact .inr (statusOf_setStatus_self he)
    · rw [onNodePartition_of_not_mem hs]
      exact masterLive_setStatus_up he h
  · rw [onNodePartition_of_ne hm]
    exact masterLive_setStatus_up he h

/-- `OffNode` with the alive list of a table without repeated endpoints leaves every
master live once the failed node is `DOWN`, in a partition that names each server once. -/
theorem offNodePartition_master_live {nodes : List NodeStatus} {ip : String} {port : ℤ}
    {p : Partitions} (hnd : (endpoints nodes).Nodup) (hs : p.servers.Nodup)
    (h : p.master = Node.empty ∨ statusOf nodes p.master = some kNodeUp) :
    (offNodePartition (getAllAliveNode nodes) ip port p).1.master = Node.empty ∨
      statusOf (setStatus ip port kNodeDown nodes)
        (offNodePartition (getAllAliveNode nodes) ip port p).1.master = some kNodeUp := by
  by_cases hm : p.master = ⟨ip, port⟩
  · rcases offNodePartition_cases (getAllAliveNode nodes) hm with
      ⟨pre, x, post, hsl, hx, -, hp⟩ | ⟨-, hp⟩
    · rw [hp]
      by_cases hxe : x = ⟨ip, port⟩
      · -- the promoted slave is the failed master again, which only `("", 0)` can be
        refine .inl (hxe.trans (by_contra fun hne => master_not_mem_slaves hs (hm ▸ hne) ?_))
        rw [hm, hsl, hxe]
        exact mem_append_right _ (mem_cons_self _ _)
      · exact .inr ((statusOf_setStatus_of_ne nodes hxe).trans (statusOf_of_isAlive hnd hx))
    · rw [hp]
      exact .inl rfl
  · rw [offNodePartition_of_ne hm]
    rcases h with h | h
    · exact .inl h
    · exact .inr ((statusOf_setStatus_of_ne nodes hm).trans h)

/-! ## One request -/

/-- `AddNode`, with any failures, keeps every master live. -/
theorem MastersLive.addNode {ip : String} {port : ℤ} {m : Meta} (h : MastersLive m.floyd) :
    MastersLive (addNode ip port m).2.floyd := by
  rcases addNode_cases ip port m with
    ⟨hf, -⟩ | ⟨-, -, -, hf, -⟩ | ⟨nodes, hnd, he, -, m1, hm1, -, -, heq⟩
  · rwa [hf]
  · intro t ht p hp
    rw [hf] at ht ⊢
    rcases h t ht p hp with h | h
    · exact .inl h
    · exact .inr (by simpa [Floyd.nodes] using statusOf_append_of_eq_some h _)
  · have hn : m.floyd.nodes = nodes := by simp [Floyd.nodes, hnd]
    have hn1 : m1.floyd.nodes = setStatus ip port kNodeUp nodes := by simp [Floyd.nodes, hm1]
    rw [heq, onNode]
    rcases rewriteMSInfo_floyd (onNodeInfo ip port) m1 with hr | ⟨t, ht, hr⟩
    · intro t ht p hp
      rw [hr, hn1]
      rw [hr, hm1] at ht
      exact masterLive_setStatus_up he (hn ▸ h t ht p hp)
    · intro t' ht' p' hp'
      rw [hr, Option.some.injEq] at ht'
      subst ht'
      obtain ⟨p, hp, rfl⟩ := mem_map.mp hp'
      rw [hr]
      simp only [Floyd.nodes] at hn1 ⊢
      rw [hn1]
      exact onNodePartition_master_live he (hn ▸ h t (by simpa [hm1] using ht) p hp)

/-- `OffNode` with no failure keeps every master live, when the table has no repeated
endpoint and every partition names each server once. -/
theorem MastersLive.offNode {ip : String} {port : ℤ} {m : Meta} (h : MastersLive m.floyd)
    (hf : m.faults = []) (hnd : (endpoints m.floyd.nodes).Nodup) (hs : ServersDistinct m.floyd) :
    MastersLive (offNode ip port m).2.floyd := by
  rcases offNode_cases ip port m with ⟨-, hfl, -⟩ | ⟨nodes, hnodes, he, -⟩
  · rwa [hfl]
  · have hn : m.floyd.nodes = nodes := by simp [Floyd.nodes, hnodes]
    rw [hn] at hnd
    cases ht : m.floyd.mt with
    | none =>
      obtain ⟨-, -, hmt | ⟨_, _, -, t, -, ht', -⟩⟩ := offNode_floyd ip port m
      · intro t ht'
        rw [hmt, ht] at ht'
        cases ht'
      · rw [ht] at ht'
        cases ht'
    | some t =>
      obtain ⟨v, hfl⟩ := offNode_floyd_of_faults_nil ip port hf hnodes he ht
      intro t' ht' p' hp'
      rw [hfl, Option.some.injEq] at ht'
      subst ht'
      obtain ⟨p, hp, rfl⟩ := mem_map.mp hp'
      rw [hfl]
      simp only [Floyd.nodes, Option.getD_some]
      exact offNodePartition_master_live hnd (hs t ht p hp) (hn ▸ h t ht p hp)

/-- A failover request with no failure keeps every master live. -/
theorem MastersLive.run {c : Call} {m : Meta} {r : Status × Meta} (h : MastersLive m.floyd)
    (hnd : (endpoints m.floyd.nodes).Nodup) (hs : ServersDistinct m.floyd)
    (hc : c.isDistribute = false) (hr : c.run [] m = some r) : MastersLive r.2.floyd := by
  cases c with
  | addNode ip port =>
    obtain rfl := Option.some.inj hr
    exact MastersLive.addNode h
  | offNode ip port =>
    obtain rfl := Option.some.inj hr
    exact MastersLive.offNode h rfl hnd hs
  | distribute num => simp [Call.isDistribute] at hc

/-- Rewriting `MT` partition by partition, each partition's servers permuted, keeps them
distinct. -/
theorem ServersDistinct.map {f f' : Floyd} {g : Partitions → Partitions}
    (hg : ∀ p, (g p).servers ~ p.servers) (hd : ServersDistinct f) {t : MetaCmdResponsePull}
    {v : ℤ} (ht : f.mt = some t) (ht' : f'.mt = some ⟨v, t.info.map g⟩) : ServersDistinct f' := by
  intro t' h q hq
  rw [ht', Option.some.injEq] at h
  subst h
  obtain ⟨p, hp, rfl⟩ := mem_map.mp hq
  exact (hg p).nodup_iff.mpr (hd t ht p hp)

/-- `AddNode` and `OffNode`, with any failures, permute the servers of every partition. -/
theorem ServersDistinct.run {c : Call} {faults : List Bool} {m : Meta} {r : Status × Meta}
    (hd : ServersDistinct m.floyd) (hc : c.isDistribute = false) (h : c.run faults m = some r) :
    ServersDistinct r.2.floyd := by
  cases c with
  | addNode ip port =>
    obtain rfl := Option.some.inj h
    obtain ⟨-, -, hmt | ⟨-, t, v, ht, hmt⟩⟩ := addNode_floyd ip port { m with faults }
    · exact fun t ht' => hd t (hmt ▸ ht')
    · exact hd.map (servers_onNodePartition ip port) ht hmt
  | offNode ip port =>
    obtain rfl := Option.some.inj h
    obtain ⟨-, -, hmt | ⟨nodes, -, -, t, v, ht, hmt⟩⟩ := offNode_floyd ip port { m with faults }
    · exact fun t ht' => hd t (hmt ▸ ht')
    · exact hd.map (servers_offNodePartition _ ip port) ht hmt
  | distribute num => simp [Call.isDistribute] at hc

/-- The masters `Distribute` places are `UP`. -/
theorem mastersLive_distribute {num : ℤ} {m : Meta} {r : Status × Meta}
    (hnd : (endpoints m.floyd.nodes).Nodup) (hf : m.faults = [])
    (hd : distribute num m = some r) (hok : r.1 = .ok) : MastersLive r.2.floyd := by
  obtain ⟨nodes, aliveNodes, hnodes, hal, hre, hfl, -⟩ := distribute_of_faults_nil hf hd hok
  have hn : m.floyd.nodes = nodes := by simp [Floyd.nodes, hnodes]
  intro t ht p hp
  rw [hfl, Option.some.injEq] at ht
  subst ht
  obtain ⟨i, -, rfl⟩ := mem_map.mp hp
  rw [hfl]
  simp only [Floyd.nodes, hnodes, Option.getD_some]
  rw [hn] at hnd
  exact .inr (statusOf_of_mem hnd (nodeAt_reorganize hal hre i))

/-- With three or more `UP` nodes, `Distribute` names each server once in every
partition. -/
theorem serversDistinct_distribute {num : ℤ} {m : Meta} {r : Status × Meta}
    (hnd : (endpoints m.floyd.nodes).Nodup) (hf : m.faults = [])
    (h3 : 3 ≤ (getAllAliveNode m.floyd.nodes).length) (hd : distribute num m = some r)
    (hok : r.1 = .ok) : ServersDistinct r.2.floyd := by
  obtain ⟨nodes, aliveNodes, hnodes, -, hre, hfl, -⟩ := distribute_of_faults_nil hf hd hok
  have hm : m.floyd.nodes = nodes := by simp [Floyd.nodes, hnodes]
  rw [hm] at hnd h3
  intro t ht p hp
  rw [hfl, Option.some.injEq] at ht
  subst ht
  obtain ⟨i, -, rfl⟩ := mem_map.mp hp
  rw [servers_distributePartition]
  exact (nodup_distributeReplicaset ((reorganize_alive hre).2 hnd)
    (three_le_length_reorganize h3 hre) i).filter _

/-- **Masters are live.** From a nodes table with no repeated endpoint, after a
`Distribute(num)` that saw three or more `UP` nodes and returned `OK` with no failure, and
any run of `OffNode` and `AddNode` requests with no failure, of any endpoints, `("", 0)`
included: the master of every partition of `MT` is `("", 0)` or `UP` in `ND`. -/
theorem masters_live {m0 m1 m : Meta} {num : ℤ} {cs : List (Call × List Bool)}
    {ss : List Status} (hnd : (endpoints m0.floyd.nodes).Nodup) (hf : m0.faults = [])
    (h3 : 3 ≤ (getAllAliveNode m0.floyd.nodes).length) (hd : distribute num m0 = some (.ok, m1))
    (hcs : ∀ x ∈ cs, x.1.isDistribute = false ∧ x.2 = []) (h : serve m1 cs = some (ss, m)) :
    MastersLive m.floyd := by
  have hnd1 : (endpoints m1.floyd.nodes).Nodup := by
    rwa [Floyd.nodes, show m1.floyd.nd = m0.floyd.nd from distribute_floyd_nd hd]
  refine (serve_invariant
    (fun m => (endpoints m.floyd.nodes).Nodup ∧ ServersDistinct m.floyd ∧ MastersLive m.floyd)
    (fun c faults hx _ _ ⟨hn, hs, hl⟩ hr => ?_)
    ⟨hnd1, serversDistinct_distribute hnd hf h3 hd rfl, mastersLive_distribute hnd hf hd rfl⟩ h).2.2
  obtain ⟨hc, rfl⟩ := hcs _ hx
  exact ⟨(nodesStep_run hr).nodup hn, hs.run hc hr, hl.run hn hs hc hr⟩

/-- Three nodes, one of them `("", 0)`: it fails and comes back, and then `a` fails. -/
theorem masters_live_with_empty_endpoint :
    ∃ m1 ss m, distribute 1 ⟨⟨some [⟨⟨"a", 1⟩, kNodeUp⟩, ⟨⟨"b", 1⟩, kNodeUp⟩, ⟨⟨"", 0⟩, kNodeUp⟩],
        none, none, fun _ => none⟩, 0, []⟩ = some (.ok, m1) ∧
      serve m1 [(.offNode "" 0, []), (.addNode "" 0, []), (.offNode "a" 1, [])] =
        some (ss, m) ∧ MastersLive m.floyd :=
  ⟨_, _, _, rfl, rfl, @masters_live ⟨⟨some [⟨⟨"a", 1⟩, kNodeUp⟩, ⟨⟨"b", 1⟩, kNodeUp⟩,
    ⟨⟨"", 0⟩, kNodeUp⟩], none, none, fun _ => none⟩, 0, []⟩ _ _ 1
    [(.offNode "" 0, []), (.addNode "" 0, []), (.offNode "a" 1, [])] _ (by decide) rfl
    (by decide) rfl (by decide) rfl⟩

/-- On a single node, `Distribute(1)` makes it master and both slaves of partition `0`;
`OffNode` of it, with no failure, marks it `DOWN` and hands the partition back to it. -/
theorem masters_live_fails_for_one_node :
    ∃ m1 ss m, distribute 1 ⟨⟨some [⟨⟨"a", 1⟩, kNodeUp⟩], none, none, fun _ => none⟩, 0, []⟩ =
        some (.ok, m1) ∧
      serve m1 [(.offNode "a" 1, [])] = some (ss, m) ∧ ss = [.ok] ∧
      ∃ t, m.floyd.mt = some t ∧ ∃ p ∈ t.info,
        p.master ≠ Node.empty ∧ statusOf m.floyd.nodes p.master ≠ some kNodeUp :=
  ⟨_, _, _, rfl, rfl, by decide, _, rfl, by decide⟩

end ZeppelinMeta
