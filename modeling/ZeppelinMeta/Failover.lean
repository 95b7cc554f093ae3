import ZeppelinMeta.Outcomes

/-!
# One failover, one recovery

`OffNode(e)` and `OnNode(e)` rewrite `MT` partition by partition and write it back only
when their loop changed one. This module states what one call does to every partition
when every consensus operation succeeds, and what a failure of a node followed by its
return does to the whole store.

## Main definitions

* `FailedOver nodes e p q`: `OffNode(e)` turns partition `p` into `q`, `nodes` being the
  table it read before marking `e` `DOWN`. The first slave `UP` in `nodes` is promoted;
  `e` itself counts when it was `UP`, since the alive list is taken before the mark.
* `Recovered e p q`: `OnNode(e)` turns partition `p` into `q`.
* `Rejoined nodes e p q`: `OffNode(e)` and then `AddNode(e)`, which goes on with `OnNode(e)`,
  turn `p` into `q`.
-/

namespace ZeppelinMeta

open List

/-! ## The rewrite of `MT` with no failure

`OffNode` and `OnNode` end with the same tail: read `MT`, run the loop, and write the
table at `version_ + 1` only if the loop set `should_rewrite`. -/

/-- With no failure the tail reports `OK`: it writes the loop's table at `version_ + 1`
and advances `version_` when the loop changed a partition, and leaves the state as it
was otherwise. -/
theorem rewriteMSInfo_of_faults_nil_eq (loop : List Partitions → List Partitions × Bool)
    {m : Meta} {t : MetaCmdResponsePull} (hf : m.faults = []) (ht : m.floyd.mt = some t) :
    rewriteMSInfo loop m =
      if (loop t.info).2 then
        (.ok, ⟨{ m.floyd with mt := some ⟨m.version + 1, (loop t.info).1⟩ }, m.version + 1, []⟩)
      else (.ok, m) := by
  obtain ⟨f, v, faults⟩ := m
  subst hf
  unfold rewriteMSInfo
  rw [getMSInfo_eq]
  cases hb : (loop t.info).2 <;>
    simp_all [Meta.fails, Meta.next, setMSInfo, set_eq, Meta.write]

/-! ## `OffNode`, partition by partition -/

/-- `OffNode(e)` turns `p` into `q`: a partition of another master is kept; a partition of
`e` gets its first slave `UP` in `nodes` as master, with `e` in that slave's slot, or, with
no slave `UP`, the master `("", 0)` and `e` appended to the slaves. -/
def FailedOver (nodes : List NodeStatus) (e : Node) (p q : Partitions) : Prop :=
  (p.master ≠ e ∧ q = p) ∨
  (p.master = e ∧ ∃ pre x post, p.slaves = pre ++ x :: post ∧
    statusOf nodes x = some kNodeUp ∧ (∀ y ∈ pre, statusOf nodes y ≠ some kNodeUp) ∧
    q = { p with master := x, slaves := pre ++ e :: post }) ∨
  (p.master = e ∧ (∀ y ∈ p.slaves, statusOf nodes y ≠ some kNodeUp) ∧
    q = { p with master := Node.empty, slaves := p.slaves ++ [e] })

/-- In a table without repeated endpoints, `IsAlive` over the alive list is "`UP`". -/
theorem isAlive_iff_statusOf {nodes : List NodeStatus} (hnd : (endpoints nodes).Nodup)
    (n : Node) : isAlive (getAllAliveNode nodes) n.ip n.port = true ↔
      statusOf nodes n = some kNodeUp := by
  refine ⟨statusOf_of_isAlive hnd, fun h => (isAlive_iff nodes n.ip n.port).mpr ?_⟩
  obtain ⟨ns, hns, hs⟩ := Option.map_eq_some'.mp h
  have hn : ns.node = n := by simpa using find?_some hns
  have hns' : ns = ⟨n, kNodeUp⟩ := by rw [← hn, ← hs]
  show (⟨n, kNodeUp⟩ : NodeStatus) ∈ nodes
  exact hns' ▸ mem_of_find?_eq_some hns

theorem offNodePartition_snd (aliveNodes : List NodeStatus) (ip : String) (port : ℤ)
    (p : Partitions) : (offNodePartition aliveNodes ip port p).2 = decide (p.master = ⟨ip, port⟩) := by
  unfold offNodePartition
  split_ifs with h
  · simp [h]
  · simp only [ne_eq, not_not] at h
    split <;> simp [h]

theorem failedOver_offNodePartition {nodes : List NodeStatus} (hnd : (endpoints nodes).Nodup)
    (ip : String) (port : ℤ) (p : Partitions) :
    FailedOver nodes ⟨ip, port⟩ p (offNodePartition (getAllAliveNode nodes) ip port p).1 := by
  by_cases hm : p.master = ⟨ip, port⟩
  · rcases offNodePartition_cases (getAllAliveNode nodes) hm with
      ⟨pre, x, post, hs, hx, hpre, he⟩ | ⟨hno, he⟩
    · refine .inr (.inl ⟨hm, pre, x, post, hs, (isAlive_iff_statusOf hnd x).mp hx,
        fun y hy h => ?_, by rw [he, hm]⟩)
      simpa [(isAlive_iff_statusOf hnd y).mpr h] using hpre y hy
    · refine .inr (.inr ⟨hm, fun y hy h => ?_, by rw [he, hm]⟩)
      simpa [(isAlive_iff_statusOf hnd y).mpr h] using hno y hy
  · exact .inl ⟨hm, by rw [offNodePartition_of_ne hm]⟩

/-- `OffNode`'s loop sets `should_rewrite` exactly when `(ip, port)` masters a partition. -/
theorem offNodeInfo_snd (aliveNodes : List NodeStatus) (ip : String) (port : ℤ)
    (info : List Partitions) :
    (offNodeInfo aliveNodes ip port info).2 = decide (∃ p ∈ info, p.master = ⟨ip, port⟩) := by
  simp [offNodeInfo, offNodePartition_snd, any_eq]

/-- **A failover step.** With `ND` holding `nodes`, without a repeated endpoint and with an
entry for `e = (ip, port)`, `MT` holding `t` and no failure, `OffNode(ip, port)` reports
`OK`. `ND` is written with only `e`'s status changed, to `DOWN`. Each partition of `t` fails
over as `FailedOver nodes e` says, against the table read before the mark. The new table is
written at `version_ + 1`, with `version_` advanced, exactly when `e` mastered a partition;
otherwise `MT` and `version_` are left alone. -/
theorem offNode_fails_over (ip : String) (port : ℤ) {m : Meta} {nodes : List NodeStatus}
    {t : MetaCmdResponsePull} (hf : m.faults = []) (hnd : m.floyd.nd = some nodes)
    (huniq : (endpoints nodes).Nodup) (he : (⟨ip, port⟩ : Node) ∈ endpoints nodes)
    (ht : m.floyd.mt = some t) :
    OnlyStatusOf ⟨ip, port⟩ nodes (setStatus ip port kNodeDown nodes) ∧
      statusOf (setStatus ip port kNodeDown nodes) ⟨ip, port⟩ = some kNodeDown ∧
      ∃ info, Forall₂ (FailedOver nodes ⟨ip, port⟩) t.info info ∧
        offNode ip port m =
          if ∃ p ∈ t.info, p.master = ⟨ip, port⟩ then
            (.ok, ⟨{ m.floyd with
                nd := some (setStatus ip port kNodeDown nodes),
                mt := some ⟨m.version + 1, info⟩ }, m.version + 1, []⟩)
          else
            (.ok, ⟨{ m.floyd with nd := some (setStatus ip port kNodeDown nodes) }, m.version, []⟩) := by
  refine ⟨setStatus_onlyStatusOf _ _ _ _, statusOf_setStatus_self he,
    (offNodeInfo (getAllAliveNode nodes) ip port t.info).1, ?_, ?_⟩
  · rw [offNodeInfo, forall₂_map_right_iff]
    exact forall₂_same.mpr fun p _ => failedOver_offNodePartition huniq ip port p
  · rcases offNode_cases ip port m with
      ⟨-, -, -, h | h⟩ | ⟨nodes', hnd', -, m1, hm1, hv1, hff, heq⟩
    · exact absurd hf h
    · exact absurd (by simpa [Floyd.nodes, hnd] using he) h
    · rw [hnd, Option.some.injEq] at hnd'
      subst hnd'
      have hm1' : m1 = ⟨{ m.floyd with nd := some (setStatus ip port kNodeDown nodes) }, m.version, []⟩ := by
        obtain ⟨f1, v1, fs1⟩ := m1
        simp_all
      rw [heq, rewriteMSInfo_of_faults_nil_eq _ (hff hf) (by simpa [hm1] using ht), offNodeInfo_snd, hm1']
      simp only [decide_eq_true_eq]

theorem offNode_fails_over_three_nodes :
    ∃ info, offNode "a" 1 ⟨⟨some [⟨⟨"a", 1⟩, kNodeUp⟩, ⟨⟨"b", 1⟩, kNodeUp⟩, ⟨⟨"c", 1⟩, kNodeUp⟩],
        some ⟨0, [⟨0, ⟨"a", 1⟩, [⟨"b", 1⟩, ⟨"c", 1⟩]⟩]⟩, none, fun _ => none⟩, 0, []⟩ =
        (.ok, ⟨⟨some (setStatus "a" 1 kNodeDown [⟨⟨"a", 1⟩, kNodeUp⟩, ⟨⟨"b", 1⟩, kNodeUp⟩, ⟨⟨"c", 1⟩, kNodeUp⟩]),
          some ⟨1, info⟩, none, fun _ => none⟩, 1, []⟩) ∧
      Forall₂ (FailedOver [⟨⟨"a", 1⟩, kNodeUp⟩, ⟨⟨"b", 1⟩, kNodeUp⟩, ⟨⟨"c", 1⟩, kNodeUp⟩] ⟨"a", 1⟩)
        [⟨0, ⟨"a", 1⟩, [⟨"b", 1⟩, ⟨"c", 1⟩]⟩] info := by
  obtain ⟨-, -, info, hinfo, h⟩ := @offNode_fails_over "a" 1
    ⟨⟨some [⟨⟨"a", 1⟩, kNodeUp⟩, ⟨⟨"b", 1⟩, kNodeUp⟩, ⟨⟨"c", 1⟩, kNodeUp⟩], some ⟨0, [⟨0, ⟨"a", 1⟩, [⟨"b", 1⟩, ⟨"c", 1⟩]⟩]⟩, none,
      fun _ => none⟩, 0, []⟩ [⟨⟨"a", 1⟩, kNodeUp⟩, ⟨⟨"b", 1⟩, kNodeUp⟩, ⟨⟨"c", 1⟩, kNodeUp⟩] ⟨0, [⟨0, ⟨"a", 1⟩, [⟨"b", 1⟩, ⟨"c", 1⟩]⟩]⟩ rfl rfl (by decide) (by decide) rfl
  exact ⟨info, by rw [h, if_pos (by decide)]; rfl, hinfo⟩

/-- Two nodes `UP`, and a partition of `a` whose slaves are `a` and `b`: `OffNode(a)` finds
`a` itself alive, as it reads the alive list before marking `a` `DOWN`, and hands the
partition back to `a`, now `DOWN`, though `b` is `UP`. -/
theorem offNode_keeps_failed_master :
    ∃ m', offNode "a" 1 ⟨⟨some [⟨⟨"a", 1⟩, kNodeUp⟩, ⟨⟨"b", 1⟩, kNodeUp⟩],
        some ⟨0, [⟨0, ⟨"a", 1⟩, [⟨"a", 1⟩, ⟨"b", 1⟩]⟩]⟩, none, fun _ => none⟩, 0, []⟩ = (.ok, m') ∧
      statusOf m'.floyd.nodes ⟨"a", 1⟩ = some kNodeDown ∧
      statusOf m'.floyd.nodes ⟨"b", 1⟩ = some kNodeUp ∧
      m'.floyd.mt = some ⟨1, [⟨0, ⟨"a", 1⟩, [⟨"a", 1⟩, ⟨"b", 1⟩]⟩]⟩ :=
  ⟨_, rfl, rfl, rfl, rfl⟩

/-! ## `OnNode`, partition by partition -/

/-- `OnNode(e)` turns `p` into `q`: an orphaned partition (master `("", 0)`) whose slaves
hold `e`, first at index `j`, gets `e` as master, the old last slave in slot `j` and the
last slot removed; any other partition is kept. -/
def Recovered (e : Node) (p q : Partitions) : Prop :=
  (p.master = Node.empty ∧ ∃ pre post last, p.slaves = pre ++ e :: post ∧ e ∉ pre ∧
    p.slaves.getLast? = some last ∧
    q = { p with master := e, slaves := (p.slaves.set pre.length last).dropLast }) ∨
  (¬ (p.master = Node.empty ∧ e ∈ p.slaves) ∧ q = p)

/-- Recovery keeps every slave but the first entry for `e`: the slaves shrink by one. -/
theorem Recovered.perm_slaves {e : Node} {p q : Partitions} (h : Recovered e p q)
    (hm : p.master = Node.empty) (he : e ∈ p.slaves) : e :: q.slaves ~ p.slaves := by
  rcases h with ⟨-, pre, post, last, hs, -, hlast, rfl⟩ | ⟨hn, -⟩
  · have hd : p.slaves.getD (p.slaves.length - 1) Node.empty = last := by
      rw [getD_eq_getElem?_getD, ← getLast?_eq_getElem?, hlast, Option.getD_some]
    have := perm_promote pre post e Node.empty
    rwa [← hs, hd] at this
  · exact absurd ⟨hm, he⟩ hn

theorem onNodePartition_snd (ip : String) (port : ℤ) (p : Partitions) :
    (onNodePartition ip port p).2 =
      decide (p.master = Node.empty ∧ (⟨ip, port⟩ : Node) ∈ p.slaves) := by
  by_cases hm : p.master = Node.empty
  · by_cases hs : (⟨ip, port⟩ : Node) ∈ p.slaves
    · obtain ⟨_, _, -, -, he⟩ := onNodePartition_of_mem hm hs
      simp [he, hm, hs]
    · simp [onNodePartition_of_not_mem hs, hs]
  · simp [onNodePartition_of_ne hm, hm]

theorem recovered_onNodePartition (ip : String) (port : ℤ) (p : Partitions) :
    Recovered ⟨ip, port⟩ p (onNodePartition ip port p).1 := by
  by_cases h : p.master = Node.empty ∧ (⟨ip, port⟩ : Node) ∈ p.slaves
  · obtain ⟨pre, post, hs, hpre, he⟩ := onNodePartition_of_mem h.1 h.2
    refine .inl ⟨h.1, pre, post, _, hs, hpre, ?_, by rw [he]⟩
    rw [getLast?_eq_getElem?, getD_eq_getElem?_getD, getElem?_eq_getElem (by simp [hs]),
      Option.getD_some]
  · refine .inr ⟨h, ?_⟩
    by_cases hm : p.master = Node.empty
    · rw [onNodePartition_of_not_mem fun hs => h ⟨hm, hs⟩]
    · rw [onNodePartition_of_ne hm]

/-- `OnNode`'s loop sets `should_rewrite` exactly when a partition is orphaned with
`(ip, port)` among its slaves. -/
theorem onNodeInfo_snd (ip : String) (port : ℤ) (info : List Partitions) :
    (onNodeInfo ip port info).2 =
      decide (∃ p ∈ info, p.master = Node.empty ∧ (⟨ip, port⟩ : Node) ∈ p.slaves) := by
  simp [onNodeInfo, onNodePartition_snd, any_eq]

/-- **A recovery step.** With `MT` holding `t` and no failure, `OnNode(ip, port)` reports
`OK`. Each partition of `t` is recovered as `Recovered (ip, port)` says, so a recovered
partition keeps every slave but `(ip, port)` and has one slave fewer. The new table is
written at `version_ + 1`, with `version_` advanced, exactly when some partition was
orphaned with `(ip, port)` among its slaves; otherwise the state is left as it was. -/
theorem onNode_recovers (ip : String) (port : ℤ) {m : Meta} {t : MetaCmdResponsePull}
    (hf : m.faults = []) (ht : m.floyd.mt = some t) :
    ∃ info, Forall₂ (Recovered ⟨ip, port⟩) t.info info ∧
      Forall₂ (fun p q => p.master = Node.empty → (⟨ip, port⟩ : Node) ∈ p.slaves →
        (⟨ip, port⟩ : Node) :: q.slaves ~ p.slaves) t.info info ∧
      onNode ip port m =
        if ∃ p ∈ t.info, p.master = Node.empty ∧ (⟨ip, port⟩ : Node) ∈ p.slaves then
          (.ok, ⟨{ m.floyd with mt := some ⟨m.version + 1, info⟩ }, m.version + 1, []⟩)
        else (.ok, m) := by
  have hrec : Forall₂ (Recovered ⟨ip, port⟩) t.info (onNodeInfo ip port t.info).1 := by
    rw [onNodeInfo, forall₂_map_right_iff]
    exact forall₂_same.mpr fun p _ => recovered_onNodePartition ip port p
  refine ⟨_, hrec, hrec.imp fun _ _ h => h.perm_slaves, ?_⟩
  rw [onNode, rewriteMSInfo_of_faults_nil_eq _ hf ht, onNodeInfo_snd]
  simp only [decide_eq_true_eq]

theorem onNode_recovers_orphan :
    ∃ info, onNode "b" 1 ⟨⟨none, some ⟨0, [⟨0, Node.empty, [⟨"b", 1⟩, ⟨"a", 1⟩, ⟨"c", 1⟩]⟩]⟩, none,
        fun _ => none⟩, 0, []⟩ = (.ok, ⟨⟨none, some ⟨1, info⟩, none, fun _ => none⟩, 1, []⟩) ∧
      Forall₂ (Recovered ⟨"b", 1⟩) [⟨0, Node.empty, [⟨"b", 1⟩, ⟨"a", 1⟩, ⟨"c", 1⟩]⟩] info ∧
      Forall₂ (fun p q : Partitions => ⟨"b", 1⟩ :: q.slaves ~ p.slaves)
        [⟨0, Node.empty, [⟨"b", 1⟩, ⟨"a", 1⟩, ⟨"c", 1⟩]⟩] info := by
  obtain ⟨info, hinfo, hperm, h⟩ := @onNode_recovers "b" 1
    ⟨⟨none, some ⟨0, [⟨0, Node.empty, [⟨"b", 1⟩, ⟨"a", 1⟩, ⟨"c", 1⟩]⟩]⟩, none, fun _ => none⟩, 0, []⟩
    ⟨0, [⟨0, Node.empty, [⟨"b", 1⟩, ⟨"a", 1⟩, ⟨"c", 1⟩]⟩]⟩ rfl rfl
  obtain _ | ⟨hp, _ | _⟩ := hperm
  exact ⟨_, by rw [h, if_pos (by decide)]; rfl, hinfo, .cons (hp rfl (by decide)) .nil⟩

/-! ## A failure and a return

A data server that stops sending heartbeats is taken out by `OffNode`; when it comes back,
`AddNode` finds it `DOWN` and sets it `UP`, and `SetNodeStatus` goes on with `OnNode`.
`OnNode` gives the returning node back exactly the partitions `OffNode` orphaned. -/

/-- `OnNode(e)` undoes the orphaning of a partition whose slaves did not hold `e`. -/
theorem onNodePartition_orphan {ip : String} {port : ℤ} {p : Partitions}
    (h : (⟨ip, port⟩ : Node) ∉ p.slaves) :
    (onNodePartition ip port
        { p with master := Node.empty, slaves := p.slaves ++ [⟨ip, port⟩] }).1 =
      { p with master := ⟨ip, port⟩ } := by
  have hnone : p.slaves.findIdx? (fun n => n = ⟨ip, port⟩) = none :=
    findIdx?_eq_none_iff.mpr fun n hn => by
      simp only [decide_eq_false_iff_not]
      exact fun he => h (he ▸ hn)
  simp [onNodePartition, hnone]

/-- `OffNode(e)` then `OnNode(e)` on one partition, with `e` alive when `OffNode` read the
alive list and the empty endpoint not alive: a partition orphaned by `OffNode` is back as it
was, and any other is as `OffNode` left it. -/
theorem onNodePartition_offNodePartition {aliveNodes : List NodeStatus} {ip : String}
    {port : ℤ} {p : Partitions} (hp : p.master ≠ Node.empty)
    (hup : isAlive aliveNodes ip port = true) (hempty : isAlive aliveNodes "" 0 = false) :
    (onNodePartition ip port (offNodePartition aliveNodes ip port p).1).1 =
      if p.master = ⟨ip, port⟩ ∧ ∀ y ∈ p.slaves, isAlive aliveNodes y.ip y.port = false then p
      else (offNodePartition aliveNodes ip port p).1 := by
  by_cases hm : p.master = ⟨ip, port⟩
  · rcases offNodePartition_cases aliveNodes hm with ⟨pre, x, post, hs, hx, -, he⟩ | ⟨hno, he⟩
    · have hxe : x ≠ Node.empty := by
        rintro rfl
        exact absurd hx (by simpa [Node.empty] using hempty)
      have hc : ¬ ∀ y ∈ p.slaves, isAlive aliveNodes y.ip y.port = false := fun h => by
        simp [h x (by simp [hs])] at hx
      rw [if_neg fun h => hc h.2, he, onNodePartition_of_ne hxe]
    · have hnot : (⟨ip, port⟩ : Node) ∉ p.slaves := fun h => by simp [hno _ h] at hup
      rw [if_pos ⟨hm, hno⟩, he, hm, onNodePartition_orphan hnot, ← hm]
  · rw [if_neg fun h => hm h.1, offNodePartition_of_ne hm, onNodePartition_of_ne hp]

/-- `OffNode(e)` then `AddNode(e)` turn `p` into `q`: a partition that `OffNode` orphaned
(master `e`, no slave `UP` in `nodes`) is back as it was; any other is as `OffNode` left
it. -/
def Rejoined (nodes : List NodeStatus) (e : Node) (p q : Partitions) : Prop :=
  (p.master = e ∧ (∀ y ∈ p.slaves, statusOf nodes y ≠ some kNodeUp) ∧ q = p) ∨
  (¬ (p.master = e ∧ ∀ y ∈ p.slaves, statusOf nodes y ≠ some kNodeUp) ∧ FailedOver nodes e p q)

theorem rejoined_onNodePartition {nodes : List NodeStatus} (hnd : (endpoints nodes).Nodup)
    {ip : String} {port : ℤ} (hup : statusOf nodes ⟨ip, port⟩ = some kNodeUp)
    (hempty : Node.empty ∉ endpoints nodes) {p : Partitions} (hp : p.master ≠ Node.empty) :
    Rejoined nodes ⟨ip, port⟩ p
      (onNodePartition ip port (offNodePartition (getAllAliveNode nodes) ip port p).1).1 := by
  have hdown (y : Node) : isAlive (getAllAliveNode nodes) y.ip y.port = false ↔
      statusOf nodes y ≠ some kNodeUp := by
    rw [ne_eq, ← isAlive_iff_statusOf hnd y, Bool.not_eq_true]
  have hempty' : isAlive (getAllAliveNode nodes) "" 0 = false :=
    (hdown Node.empty).mpr fun h => hempty ((statusOf_isSome_iff _ _).mp (by simp [h]))
  rw [onNodePartition_offNodePartition hp ((isAlive_iff_statusOf hnd _).mpr hup) hempty']
  simp only [hdown]
  split_ifs with hc
  · exact .inl ⟨hc.1, hc.2, rfl⟩
  · exact .inr ⟨hc, failedOver_offNodePartition hnd ip port p⟩

/-- With no failure, `OffNode` of a known endpoint reports `OK` and leaves the engine's
answers used up. -/
theorem offNode_ok_of_faults_nil (ip : String) (port : ℤ) {m : Meta} {nodes : List NodeStatus}
    {t : MetaCmdResponsePull} (hf : m.faults = []) (hnd : m.floyd.nd = some nodes)
    (he : (⟨ip, port⟩ : Node) ∈ endpoints nodes) (ht : m.floyd.mt = some t) :
    (offNode ip port m).1 = .ok ∧ (offNode ip port m).2.faults = [] := by
  rcases offNode_cases ip port m with
    ⟨-, -, -, h | h⟩ | ⟨nodes', -, -, m1, hm1, -, hff, heq⟩
  · exact absurd hf h
  · exact absurd (by simpa [Floyd.nodes, hnd] using he) h
  · rw [heq]
    exact rewriteMSInfo_of_faults_nil _ (hff hf) (by simpa [hm1] using ht)

theorem addNode_of_mem {ip : String} {port : ℤ} {m : Meta} {nodes : List NodeStatus}
    (hf : m.fails = false) (hnd : m.floyd.nd = some nodes)
    (he : (⟨ip, port⟩ : Node) ∈ endpoints nodes) :
    addNode ip port m = setNodeStatus nodes ip port kNodeUp m.next := by
  unfold addNode
  rw [getAllNode_eq]
  simp [hf, hnd, (findNode_iff nodes ip port).mpr he]

/-- With no failure, `AddNode` of an endpoint `ND` holds but not `UP` reports `OK`, having
set it `UP` and given it back its orphaned partitions through `OnNode`. -/
theorem addNode_of_down (ip : String) (port : ℤ) {m : Meta} {nodes : List NodeStatus}
    {t : MetaCmdResponsePull} (hf : m.faults = []) (hnd : m.floyd.nd = some nodes)
    (he : (⟨ip, port⟩ : Node) ∈ endpoints nodes)
    (hdown : statusOf nodes ⟨ip, port⟩ ≠ some kNodeUp) (ht : m.floyd.mt = some t) :
    (addNode ip port m).1 = .ok ∧ ∃ v, (addNode ip port m).2.floyd = { m.floyd with
      nd := some (setStatus ip port kNodeUp nodes),
      mt := some ⟨v, (onNodeInfo ip port t.info).1⟩ } := by
  rw [addNode_of_mem (by simp [Meta.fails, hf]) hnd he]
  rcases setNodeStatus_cases kNodeUp m.next he with ⟨hs, -⟩ | ⟨-, hw, -⟩ | ⟨-, -, -, heq⟩
  · exact absurd hs hdown
  · simp [Meta.fails, Meta.next, hf] at hw
  · rw [heq rfl]
    have hf1 : ({ m.next.next with floyd := { m.next.floyd with
        nd := some (setStatus ip port kNodeUp nodes) } } : Meta).faults = [] := by
      simp [Meta.next, hf]
    have hok := (rewriteMSInfo_of_faults_nil (onNodeInfo ip port) hf1 (by simpa using ht)).1
    obtain ⟨v, hv⟩ := rewriteMSInfo_floyd_of_faults_nil (onNodeInfo ip port) hf1
      (by simpa using ht) onNodeInfo_fst_of_snd
    refine ⟨by rw [onNode, hok, if_pos rfl], v, ?_⟩
    rw [onNode, hv]
    rfl

/-- **A node fails and comes back.** From a table where every partition has a master, a
node `e = (ip, port)` that is `UP` is taken out by `OffNode(e)` and comes back with
`AddNode(e)`, every consensus operation succeeding. Both report `OK`. `ND`, `PN` and every
`PART` key are back as they were. In `MT`, every partition that `OffNode` orphaned (master
`e`, no slave `UP`) is back as it was, with `e` its master; every other partition stays as
`OffNode` left it: a partition whose master became a live slave does not go back to `e`. -/
theorem offNode_then_addNode (ip : String) (port : ℤ) {m : Meta} {nodes : List NodeStatus}
    {t : MetaCmdResponsePull} (hf : m.faults = []) (hnd : m.floyd.nd = some nodes)
    (huniq : (endpoints nodes).Nodup) (hup : statusOf nodes ⟨ip, port⟩ = some kNodeUp)
    (hempty : Node.empty ∉ endpoints nodes) (ht : m.floyd.mt = some t)
    (hmaster : ∀ p ∈ t.info, p.master ≠ Node.empty) :
    (offNode ip port m).1 = .ok ∧ (addNode ip port (offNode ip port m).2).1 = .ok ∧
      ∃ t', (addNode ip port (offNode ip port m).2).2.floyd = { m.floyd with mt := some t' } ∧
        Forall₂ (Rejoined nodes ⟨ip, port⟩) t.info t'.info := by
  have he : (⟨ip, port⟩ : Node) ∈ endpoints nodes :=
    (statusOf_isSome_iff _ _).mp (by simp [hup])
  obtain ⟨hok1, hf1⟩ := offNode_ok_of_faults_nil ip port hf hnd he ht
  obtain ⟨v1, hfl1⟩ := offNode_floyd_of_faults_nil ip port hf hnd he ht
  have hdown : statusOf (setStatus ip port kNodeDown nodes) ⟨ip, port⟩ ≠ some kNodeUp := by
    rw [statusOf_setStatus_self he]
    decide
  have he1 : (⟨ip, port⟩ : Node) ∈ endpoints (setStatus ip port kNodeDown nodes) := by
    rwa [(setStatus_onlyStatusOf ip port kNodeDown nodes).endpoints_eq]
  obtain ⟨hok2, v2, hfl2⟩ := addNode_of_down ip port hf1 (by rw [hfl1]) he1 hdown (by rw [hfl1])
  refine ⟨hok1, hok2,
    ⟨v2, (onNodeInfo ip port (offNodeInfo (getAllAliveNode nodes) ip port t.info).1).1⟩, ?_, ?_⟩
  · rw [hfl2, hfl1, setStatus_setStatus, setStatus_of_statusOf hup, ← hnd]
  · simp only [onNodeInfo, offNodeInfo, map_map, forall₂_map_right_iff]
    exact forall₂_same.mpr fun p hp =>
      rejoined_onNodePartition huniq hup hempty (hmaster p hp)

/-- `a` masters two partitions: one whose only slave `b` is `DOWN`, one whose slave `c` is
`UP`. -/
theorem offNode_then_addNode_two_partitions :
    (offNode "a" 1 ⟨⟨some [⟨⟨"a", 1⟩, kNodeUp⟩, ⟨⟨"b", 1⟩, kNodeDown⟩, ⟨⟨"c", 1⟩, kNodeUp⟩],
        some ⟨0, [⟨0, ⟨"a", 1⟩, [⟨"b", 1⟩]⟩, ⟨1, ⟨"a", 1⟩, [⟨"c", 1⟩]⟩]⟩, none,
        fun _ => none⟩, 0, []⟩).1 = .ok ∧
    (addNode "a" 1 (offNode "a" 1 ⟨⟨some [⟨⟨"a", 1⟩, kNodeUp⟩, ⟨⟨"b", 1⟩, kNodeDown⟩,
        ⟨⟨"c", 1⟩, kNodeUp⟩], some ⟨0, [⟨0, ⟨"a", 1⟩, [⟨"b", 1⟩]⟩, ⟨1, ⟨"a", 1⟩, [⟨"c", 1⟩]⟩]⟩,
        none, fun _ => none⟩, 0, []⟩).2).1 = .ok ∧
    ∃ t', (addNode "a" 1 (offNode "a" 1 ⟨⟨some [⟨⟨"a", 1⟩, kNodeUp⟩, ⟨⟨"b", 1⟩, kNodeDown⟩,
        ⟨⟨"c", 1⟩, kNodeUp⟩], some ⟨0, [⟨0, ⟨"a", 1⟩, [⟨"b", 1⟩]⟩, ⟨1, ⟨"a", 1⟩, [⟨"c", 1⟩]⟩]⟩,
        none, fun _ => none⟩, 0, []⟩).2).2.floyd =
        ⟨some [⟨⟨"a", 1⟩, kNodeUp⟩, ⟨⟨"b", 1⟩, kNodeDown⟩, ⟨⟨"c", 1⟩, kNodeUp⟩], some t', none,
          fun _ => none⟩ ∧
      Forall₂ (Rejoined [⟨⟨"a", 1⟩, kNodeUp⟩, ⟨⟨"b", 1⟩, kNodeDown⟩, ⟨⟨"c", 1⟩, kNodeUp⟩] ⟨"a", 1⟩)
        [⟨0, ⟨"a", 1⟩, [⟨"b", 1⟩]⟩, ⟨1, ⟨"a", 1⟩, [⟨"c", 1⟩]⟩] t'.info :=
  @offNode_then_addNode "a" 1 ⟨⟨some [⟨⟨"a", 1⟩, kNodeUp⟩, ⟨⟨"b", 1⟩, kNodeDown⟩,
    ⟨⟨"c", 1⟩, kNodeUp⟩], some ⟨0, [⟨0, ⟨"a", 1⟩, [⟨"b", 1⟩]⟩, ⟨1, ⟨"a", 1⟩, [⟨"c", 1⟩]⟩]⟩,
    none, fun _ => none⟩, 0, []⟩ _ _ rfl rfl (by decide) (by decide) (by decide) rfl (by decide)

end ZeppelinMeta
