import ZeppelinMeta.Placement

/-!
# Recovery of orphaned partitions

A partition whose master failed with no live slave is orphaned: its master is
`("", 0)`. `OnNode`, run by `SetNodeStatus` when a node comes back `UP`, gives every
orphaned partition that lists the node among its slaves back to it. `SetNodeStatus`
runs `OnNode` only on a change of status: when an earlier `AddNode` wrote the node `UP`
and its `OnNode` failed, a later `AddNode` finds the node `UP` and reports `OK` without
trying again.
-/

namespace ZeppelinMeta

open List

/-- Every replica `MT` names (its `servers`, the empty endpoint left out) is a node of
`ND`. -/
def Known (f : Floyd) : Prop :=
  ∀ t, f.mt = some t → ∀ p ∈ t.info, ∀ n ∈ p.servers, n ∈ endpoints f.nodes

/-- No orphaned partition of `MT` lists `e` among its slaves. -/
def NotOrphaned (e : Node) (f : Floyd) : Prop :=
  ∀ t, f.mt = some t → ∀ p ∈ t.info, p.master = Node.empty → e ∉ p.slaves

/-! ## Every replica is a node -/

theorem known_empty (v : ℤ) (faults : List Bool) : Known (Meta.mk Floyd.empty v faults).floyd :=
  fun t ht => by simp [Floyd.empty] at ht

/-- A table whose partitions are mapped by a `g` that permutes their servers keeps its
replicas among the nodes, when no node is lost. -/
theorem Known.map {f f' : Floyd} (hk : Known f) (hsub : endpoints f.nodes ⊆ endpoints f'.nodes)
    {g : Partitions → Partitions} (hg : ∀ p, (g p).servers ~ p.servers)
    (hmt : f'.mt = f.mt ∨ ∃ t v, f.mt = some t ∧ f'.mt = some ⟨v, t.info.map g⟩) : Known f' := by
  rcases hmt with hmt | ⟨t, v, ht, hmt⟩
  · exact fun t ht' p hp n hn => hsub (hk t (hmt ▸ ht') p hp n hn)
  · intro t' ht' q hq n hn
    rw [hmt, Option.some.injEq] at ht'
    subst ht'
    obtain ⟨p, hp, rfl⟩ := mem_map.mp hq
    exact hsub (hk t ht p hp n ((hg p).subset hn))

/-- **Every request, with any failures, keeps every replica of `MT` a node of `ND`.** -/
theorem Known.run {c : Call} {faults : List Bool} {m : Meta} {r : Status × Meta}
    (hk : Known m.floyd) (h : c.run faults m = some r) : Known r.2.floyd := by
  have hsub := (nodesStep_run h).grows.subset
  cases c with
  | addNode ip port =>
    obtain rfl := Option.some.inj h
    obtain ⟨-, -, hmt | ⟨-, t, v, ht, hmt⟩⟩ := addNode_floyd ip port { m with faults }
    · exact hk.map hsub (g := id) (fun _ => .refl _) (.inl hmt)
    · exact hk.map hsub (servers_onNodePartition ip port) (.inr ⟨t, v, ht, hmt⟩)
  | offNode ip port =>
    obtain rfl := Option.some.inj h
    obtain ⟨-, -, hmt | ⟨nodes, -, -, t, v, ht, hmt⟩⟩ := offNode_floyd ip port { m with faults }
    · exact hk.map hsub (g := id) (fun _ => .refl _) (.inl hmt)
    · exact hk.map hsub (servers_offNodePartition (getAllAliveNode nodes) ip port)
        (.inr ⟨t, v, ht, hmt⟩)
  | distribute num =>
    obtain ⟨hnd, hmt | ⟨nodes, aliveNodes, hnodes, hal, hre, hmt⟩⟩ := distribute_mt h
    · exact hk.map hsub (g := id) (fun _ => .refl _) (.inl hmt)
    · intro t ht q hq n hn
      rw [hmt, Option.some.injEq] at ht
      subst ht
      obtain ⟨i, -, rfl⟩ := mem_map.mp hq
      have hn' : r.2.floyd.nodes = nodes := by
        simp [Floyd.nodes, hnd, show m.floyd.nd = some nodes from hnodes]
      rw [servers_distributePartition, mem_filter] at hn
      simp only [distributeReplicaset, mem_cons, mem_singleton, not_mem_nil, or_false] at hn
      rw [hn']
      rcases hn.1 with rfl | rfl | rfl <;> exact nodeAt_reorganize_mem hal hre _

/-! ## `OnNode` -/

/-- `OnNode`'s loop reports no change only when no orphaned partition lists the node. -/
theorem not_orphaned_of_onNodeInfo_snd {ip : String} {port : ℤ} {info : List Partitions}
    (h : (onNodeInfo ip port info).2 = false) :
    ∀ p ∈ info, p.master = Node.empty → (⟨ip, port⟩ : Node) ∉ p.slaves := by
  intro p hp hm hs
  obtain ⟨_, _, -, -, he⟩ := onNodePartition_of_mem hm hs
  simp only [onNodeInfo, any_eq_false] at h
  exact h p hp (by simp [he])

/-- After `OnNode`'s loop no orphaned partition lists the node. -/
theorem not_orphaned_onNodeInfo {ip : String} {port : ℤ} (he : (⟨ip, port⟩ : Node) ≠ Node.empty)
    (info : List Partitions) :
    ∀ q ∈ (onNodeInfo ip port info).1, q.master = Node.empty → (⟨ip, port⟩ : Node) ∉ q.slaves := by
  intro q hq
  obtain ⟨p, -, rfl⟩ := mem_map.mp hq
  by_cases hm : p.master = Node.empty
  · by_cases hs : (⟨ip, port⟩ : Node) ∈ p.slaves
    · obtain ⟨_, _, -, -, hp⟩ := onNodePartition_of_mem hm hs
      rw [hp]
      exact fun h => absurd h he
    · rw [onNodePartition_of_not_mem hs]
      exact fun _ => hs
  · rw [onNodePartition_of_ne hm]
    exact fun h => absurd h hm

/-- An `AddNode` of a node other than `("", 0)` that was not `UP`, and that reports `OK`,
leaves the node in no orphaned partition, when every replica of `MT` is a node. -/
theorem notOrphaned_addNode {ip : String} {port : ℤ} {m : Meta} (hk : Known m.floyd)
    (he : (⟨ip, port⟩ : Node) ≠ Node.empty)
    (hup : statusOf m.floyd.nodes ⟨ip, port⟩ ≠ some kNodeUp) (hok : (addNode ip port m).1 = .ok) :
    NotOrphaned ⟨ip, port⟩ (addNode ip port m).2.floyd := by
  rcases addNode_cases ip port m with
    ⟨-, -, hup'⟩ | ⟨hnew, -, -, hfl, -⟩ | ⟨nodes, -, -, -, m1, hm1, -, -, heq⟩
  · exact absurd (hup' hok) hup
  · intro t ht p hp hm hs
    rw [hfl] at ht
    refine hnew (hk t ht p hp _ ?_)
    simp [Partitions.servers, hm, hs, he]
  · rw [heq] at hok ⊢
    have hon : (onNode ip port m1).1 = .ok := by
      by_contra hne
      simp [hne] at hok
    simp only [onNode] at hon ⊢
    rcases rewriteMSInfo_cases (onNodeInfo ip port) m1 with
      ⟨hs, -⟩ | ⟨t, ht, -, ⟨hb, -, hfl, -⟩ | ⟨-, -, hfl, -⟩ | ⟨-, hs, -⟩⟩
    · rw [hon] at hs
      cases hs
    · intro t' ht'
      rw [hfl, ht, Option.some.injEq] at ht'
      subst ht'
      exact not_orphaned_of_onNodeInfo_snd hb
    · intro t' ht'
      rw [hfl, Option.some.injEq] at ht'
      subst ht'
      exact not_orphaned_onNodeInfo he t.info
    · rw [hon] at hs
      cases hs

/-- **Recovery is not skipped for a node that was not `UP`.** In every state reached
from the empty store by any run of requests with any failures, an `AddNode` of an
endpoint other than `("", 0)` that is not `UP` in `ND`, and that reports `OK` (with any
failures of its own), leaves `MT` with no orphaned partition listing the endpoint. -/
theorem addNode_ok_recovers {v : ℤ} {cs : List (Call × List Bool)} {ss : List Status} {m : Meta}
    (h : serve ⟨Floyd.empty, v, []⟩ cs = some (ss, m)) {ip : String} {port : ℤ}
    (faults : List Bool) (he : (⟨ip, port⟩ : Node) ≠ Node.empty)
    (hup : statusOf m.floyd.nodes ⟨ip, port⟩ ≠ some kNodeUp)
    (hok : (addNode ip port { m with faults }).1 = .ok) :
    NotOrphaned ⟨ip, port⟩ (addNode ip port { m with faults }).2.floyd := by
  have hk : Known m.floyd := serve_invariant (fun m => Known m.floyd)
    (fun _ _ _ _ _ hk hr => hk.run hr) (known_empty v []) h
  exact notOrphaned_addNode hk he hup hok

theorem addNode_ok_recovers_after_orphaning :
    ∃ ss m, serve ⟨Floyd.empty, 0, []⟩ [(.addNode "a" 1, []), (.addNode "b" 1, []),
        (.distribute 1, []), (.offNode "a" 1, []), (.offNode "b" 1, [])] = some (ss, m) ∧
      (addNode "b" 1 { m with faults := [] }).1 = .ok ∧
      NotOrphaned ⟨"b", 1⟩ (addNode "b" 1 { m with faults := [] }).2.floyd := by
  refine ⟨_, _, rfl, rfl, ?_⟩
  exact @addNode_ok_recovers 0 [(.addNode "a" 1, []), (.addNode "b" 1, []), (.distribute 1, []),
    (.offNode "a" 1, []), (.offNode "b" 1, [])] _ _ rfl "b" 1 [] (by decide) (by decide) rfl

/-- Two nodes: `Distribute(1)`, then `OffNode` of both orphans partition `0`. `AddNode(b)`
writes `b` back `UP` but fails to read `MT`; the next `AddNode(b)` finds `b` `UP` and
reports `OK`, and partition `0` stays orphaned with `b` among its slaves. -/
theorem addNode_ok_leaves_orphan :
    ∃ ss m, serve ⟨Floyd.empty, 0, []⟩ [(.addNode "a" 1, []), (.addNode "b" 1, []),
        (.distribute 1, []), (.offNode "a" 1, []), (.offNode "b" 1, []),
        (.addNode "b" 1, [false, false, true]), (.addNode "b" 1, [])] = some (ss, m) ∧
      ss = [.ok, .ok, .ok, .ok, .ok, .corruption "OnNode error!", .ok] ∧
      ∃ t, m.floyd.mt = some t ∧ ∃ p ∈ t.info, p.master = Node.empty ∧ (⟨"b", 1⟩ : Node) ∈ p.slaves :=
  ⟨_, _, rfl, by decide, _, rfl, by decide⟩

/-! ## `AddNode` twice -/

/-- An `AddNode` that reports `OK` leaves its endpoint `UP`. -/
theorem statusOf_addNode_of_ok {ip : String} {port : ℤ} {m : Meta}
    (hok : (addNode ip port m).1 = .ok) :
    statusOf (addNode ip port m).2.floyd.nodes ⟨ip, port⟩ = some kNodeUp := by
  rcases addNode_cases ip port m with
    ⟨hfl, -, hup⟩ | ⟨hnew, -, -, hfl, -⟩ | ⟨nodes, -, hmem, -, m1, hm1, -, -, heq⟩
  · rw [hfl]
    exact hup hok
  · simpa [hfl, Floyd.nodes] using statusOf_append_of_not_mem hnew kNodeUp
  · rw [heq, onNode, rewriteMSInfo_nodes]
    simpa [Floyd.nodes, hm1] using statusOf_setStatus_self hmem

/-- An `AddNode` of an endpoint already `UP` stops after its read of `ND`, and reports
`OK`. -/
theorem addNode_of_up {ip : String} {port : ℤ} {m : Meta}
    (hup : statusOf m.floyd.nodes ⟨ip, port⟩ = some kNodeUp) (hf : m.fails = false) :
    addNode ip port m = (.ok, m.next) := by
  have hmem : (⟨ip, port⟩ : Node) ∈ endpoints m.floyd.nodes :=
    (statusOf_isSome_iff _ _).mp (by simp [hup])
  obtain ⟨nodes, hnd⟩ : ∃ nodes, m.floyd.nd = some nodes := by
    cases h : m.floyd.nd with
    | none => simp [Floyd.nodes, h, endpoints] at hmem
    | some nodes => exact ⟨nodes, rfl⟩
  have hn : m.floyd.nodes = nodes := by simp [Floyd.nodes, hnd]
  rw [hn] at hup hmem
  have hset := (setNodeStatus_cases kNodeUp m.next hmem).resolve_right
    (by rintro (⟨hne, -⟩ | ⟨hne, -⟩) <;> exact hne hup)
  unfold addNode
  rw [getAllNode_eq]
  simp [hf, hnd, (findNode_iff nodes ip port).mpr hmem, hset.2]

/-- **`AddNode` is idempotent.** After an `AddNode(ip, port)` that reports `OK`, with
any failures of its own, a second `AddNode(ip, port)` whose read of `ND` succeeds
reports `OK` having made that one call to the engine and no write: `ND`, `MT`, `PN`,
`PART` and `version_` are as the first left them. -/
theorem addNode_idempotent {ip : String} {port : ℤ} {m : Meta}
    (hok : (addNode ip port m).1 = .ok) (faults : List Bool) (hread : faults.headD false = false) :
    addNode ip port { (addNode ip port m).2 with faults } =
      (.ok, { (addNode ip port m).2 with faults := faults.tail }) :=
  addNode_of_up (statusOf_addNode_of_ok hok) hread

theorem addNode_idempotent_join :
    ∃ m1, addNode "b" 1 ⟨⟨some [⟨⟨"a", 1⟩, kNodeUp⟩], none, none, fun _ => none⟩, 0, []⟩ =
        (.ok, m1) ∧
      addNode "b" 1 { m1 with faults := [false, true] } = (.ok, { m1 with faults := [true] }) :=
  ⟨_, rfl, @addNode_idempotent "b" 1 ⟨⟨some [⟨⟨"a", 1⟩, kNodeUp⟩], none, none, fun _ => none⟩, 0, []⟩
    rfl [false, true] rfl⟩

end ZeppelinMeta
