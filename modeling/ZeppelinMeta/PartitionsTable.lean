import ZeppelinMeta.NodesTable
import Mathlib.Data.List.Perm.Basic

/-!
# The partitions table

The pure parts of the three operations that rewrite `MT`: the body of `OffNode`'s loop
(hand a partition of the failed master to its first live slave, or orphan it), the
body of `OnNode`'s loop (give an orphaned partition to a returning slave), and the
placement `Distribute` computes. Each loop body returns the new partition together
with whether it changed it, the `should_rewrite` flag of the source.

A partition's replicas are conserved by both loop bodies: `servers` (its master and
slaves, without the empty endpoint) is permuted, never grown or shrunk.
-/

namespace ZeppelinMeta

open List

/-- A `findIdx?` hit splits the list at the first element satisfying the test. -/
private theorem findIdx?_eq_some_split {α : Type} {l : List α} {q : α → Bool} {j : ℕ}
    (h : l.findIdx? q = some j) :
    ∃ pre x post, l = pre ++ x :: post ∧ pre.length = j ∧ q x = true ∧
      ∀ y ∈ pre, q y = false := by
  induction l generalizing j with
  | nil => simp at h
  | cons a l ih =>
    rw [findIdx?_cons] at h
    split at h
    · cases h
      exact ⟨[], a, l, rfl, rfl, ‹_›, by simp⟩
    · rw [findIdx?_start_succ] at h
      obtain ⟨k, hk, rfl⟩ := Option.map_eq_some'.mp h
      obtain ⟨pre, x, post, rfl, rfl, hx, hpre⟩ := ih hk
      exact ⟨a :: pre, x, post, rfl, rfl, hx, by simp_all⟩

/-! ## One partition -/

/-- The body of `OffNode`'s loop: a partition whose master is `(ip, port)` gets its
first slave that `IsAlive` as master, with the failed master in that slave's slot;
if no slave is alive the failed master is appended to the slaves and the master is
set to `("", 0)`. -/
def offNodePartition (aliveNodes : List NodeStatus) (ip : String) (port : ℤ)
    (p : Partitions) : Partitions × Bool :=
  if p.master ≠ ⟨ip, port⟩ then (p, false) else
  let tmp := p.master
  match p.slaves.findIdx? fun n => isAlive aliveNodes n.ip n.port with
  | some j => ({ p with master := p.slaves.getD j tmp, slaves := p.slaves.set j tmp }, true)
  | none => ({ p with slaves := p.slaves ++ [tmp], master := Node.empty }, true)

/-- The body of `OnNode`'s loop: an orphaned partition (master `("", 0)`) whose slaves
hold `(ip, port)` gets it as master; the last slave is copied into its slot and the
last slot is removed. -/
def onNodePartition (ip : String) (port : ℤ) (p : Partitions) : Partitions × Bool :=
  if p.master = Node.empty then
    let slavesSize := p.slaves.length
    match p.slaves.findIdx? fun n => n = ⟨ip, port⟩ with
    | some j =>
      ({ p with master := p.slaves.getD j p.master,
                slaves := (p.slaves.set j (p.slaves.getD (slavesSize - 1) p.master)).dropLast },
        true)
    | none => (p, false)
  else (p, false)

/-- `OffNode`'s loop over `ms_info.info`. -/
def offNodeInfo (aliveNodes : List NodeStatus) (ip : String) (port : ℤ)
    (info : List Partitions) : List Partitions × Bool :=
  (info.map fun p => (offNodePartition aliveNodes ip port p).1,
    info.any fun p => (offNodePartition aliveNodes ip port p).2)

/-- `OnNode`'s loop over `ms_info.info`. -/
def onNodeInfo (ip : String) (port : ℤ) (info : List Partitions) : List Partitions × Bool :=
  (info.map fun p => (onNodePartition ip port p).1,
    info.any fun p => (onNodePartition ip port p).2)

/-- The replicas of a partition that name a data server: its master and slaves, less
the empty endpoint. -/
def Partitions.servers (p : Partitions) : List Node :=
  (p.master :: p.slaves).filter fun n => n ≠ Node.empty

/-- The replicas a partition of `MT` holds: the master unless it is `("", 0)`, which `MT`
writes for "no master", and every slave. `Distribute` stores the same endpoints in
`PART:<id>`. -/
def Partitions.replicas (p : Partitions) : List Node :=
  (if p.master = Node.empty then [] else [p.master]) ++ p.slaves

theorem offNodePartition_of_ne {aliveNodes : List NodeStatus} {ip : String} {port : ℤ}
    {p : Partitions} (h : p.master ≠ ⟨ip, port⟩) :
    offNodePartition aliveNodes ip port p = (p, false) := by
  simp [offNodePartition, h]

/-- **What `OffNode` does to a partition of the failed master**: promote the first live
slave, or orphan the partition. -/
theorem offNodePartition_cases (aliveNodes : List NodeStatus) {ip : String} {port : ℤ}
    {p : Partitions} (h : p.master = ⟨ip, port⟩) :
    (∃ pre x post, p.slaves = pre ++ x :: post ∧
        isAlive aliveNodes x.ip x.port = true ∧
        (∀ y ∈ pre, isAlive aliveNodes y.ip y.port = false) ∧
        offNodePartition aliveNodes ip port p =
          ({ p with master := x, slaves := pre ++ p.master :: post }, true)) ∨
    ((∀ y ∈ p.slaves, isAlive aliveNodes y.ip y.port = false) ∧
        offNodePartition aliveNodes ip port p =
          ({ p with master := Node.empty, slaves := p.slaves ++ [p.master] }, true)) := by
  unfold offNodePartition
  simp only [h, ne_eq, not_true_eq_false, if_false]
  split
  · rename_i j hj
    obtain ⟨pre, x, post, hs, rfl, hx, hpre⟩ := findIdx?_eq_some_split hj
    refine .inl ⟨pre, x, post, hs, hx, hpre, ?_⟩
    simp [hs, getElem_append_right]
  · rename_i hj
    exact .inr ⟨findIdx?_eq_none_iff.mp hj, rfl⟩

theorem onNodePartition_of_ne {ip : String} {port : ℤ} {p : Partitions}
    (h : p.master ≠ Node.empty) : onNodePartition ip port p = (p, false) := by
  simp [onNodePartition, h]

theorem onNodePartition_of_not_mem {ip : String} {port : ℤ} {p : Partitions}
    (h : (⟨ip, port⟩ : Node) ∉ p.slaves) : onNodePartition ip port p = (p, false) := by
  unfold onNodePartition
  split
  · split
    · rename_i j hj
      obtain ⟨pre, x, post, hs, -, hx, -⟩ := findIdx?_eq_some_split hj
      simp only [decide_eq_true_eq] at hx
      exact absurd (by simp [hs, hx]) h
    · rfl
  · rfl

/-- **What `OnNode` does to an orphaned partition holding the returning slave**: the
slave becomes master, and the last slave moves into its first slot. -/
theorem onNodePartition_of_mem {ip : String} {port : ℤ} {p : Partitions}
    (hm : p.master = Node.empty) (h : (⟨ip, port⟩ : Node) ∈ p.slaves) :
    ∃ pre post, p.slaves = pre ++ ⟨ip, port⟩ :: post ∧ (⟨ip, port⟩ : Node) ∉ pre ∧
      onNodePartition ip port p =
        ({ p with master := ⟨ip, port⟩,
                  slaves := (p.slaves.set pre.length
                    (p.slaves.getD (p.slaves.length - 1) p.master)).dropLast }, true) := by
  unfold onNodePartition
  simp only [hm, if_true]
  split
  · rename_i j hj
    obtain ⟨pre, x, post, hs, rfl, hx, hpre⟩ := findIdx?_eq_some_split hj
    simp only [decide_eq_true_eq] at hx
    subst hx
    refine ⟨pre, post, hs, fun hin => by simpa using hpre _ hin, ?_⟩
    simp [hs, getElem_append_right]
  · rename_i hj
    have := findIdx?_eq_none_iff.mp hj _ h
    simp at this

/-- A partition `OffNode`'s loop reports unchanged is unchanged. -/
theorem offNodePartition_fst_of_snd {aliveNodes : List NodeStatus} {ip : String} {port : ℤ}
    {p : Partitions} (h : (offNodePartition aliveNodes ip port p).2 = false) :
    (offNodePartition aliveNodes ip port p).1 = p := by
  by_cases hm : p.master = ⟨ip, port⟩
  · rcases offNodePartition_cases aliveNodes hm with
      ⟨_, _, _, -, -, -, he⟩ | ⟨-, he⟩ <;> simp [he] at h
  · simp [offNodePartition_of_ne hm]

/-- A partition `OnNode`'s loop reports unchanged is unchanged. -/
theorem onNodePartition_fst_of_snd {ip : String} {port : ℤ} {p : Partitions}
    (h : (onNodePartition ip port p).2 = false) : (onNodePartition ip port p).1 = p := by
  by_cases hm : p.master = Node.empty
  · by_cases hs : (⟨ip, port⟩ : Node) ∈ p.slaves
    · obtain ⟨_, _, -, -, he⟩ := onNodePartition_of_mem hm hs
      simp [he] at h
    · simp [onNodePartition_of_not_mem hs]
  · simp [onNodePartition_of_ne hm]

/-- When `OffNode`'s loop sets no `should_rewrite`, the table is unchanged. -/
theorem offNodeInfo_fst_of_snd {aliveNodes : List NodeStatus} {ip : String} {port : ℤ}
    {info : List Partitions} (h : (offNodeInfo aliveNodes ip port info).2 = false) :
    (offNodeInfo aliveNodes ip port info).1 = info := by
  simp only [offNodeInfo, any_eq_false, Bool.not_eq_true] at h ⊢
  exact (map_congr_left fun p hp => offNodePartition_fst_of_snd (h p hp)).trans (map_id _)

/-- When `OnNode`'s loop sets no `should_rewrite`, the table is unchanged. -/
theorem onNodeInfo_fst_of_snd {ip : String} {port : ℤ} {info : List Partitions}
    (h : (onNodeInfo ip port info).2 = false) : (onNodeInfo ip port info).1 = info := by
  simp only [onNodeInfo, any_eq_false, Bool.not_eq_true] at h ⊢
  exact (map_congr_left fun p hp => onNodePartition_fst_of_snd (h p hp)).trans (map_id _)

/-! ## Conservation of replicas -/

/-- Swapping two endpoints between the master slot and a slave slot permutes them. -/
theorem perm_swap (pre post : List Node) (x y : Node) :
    x :: (pre ++ y :: post) ~ y :: (pre ++ x :: post) :=
  calc x :: (pre ++ y :: post) ~ x :: y :: (pre ++ post) := .cons _ perm_middle
    _ ~ y :: x :: (pre ++ post) := .swap _ _ _
    _ ~ y :: (pre ++ x :: post) := .cons _ perm_middle.symm

/-- Moving the last slave into slot `pre.length` and dropping the last slot loses
exactly the slave that was in that slot. -/
theorem perm_promote (pre post : List Node) (e d : Node) :
    e :: ((pre ++ e :: post).set pre.length
      ((pre ++ e :: post).getD ((pre ++ e :: post).length - 1) d)).dropLast ~
      pre ++ e :: post := by
  rcases eq_nil_or_concat post with rfl | ⟨mid, z, rfl⟩
  · have : (pre ++ [e]).getD ((pre ++ [e]).length - 1) d = e := by simp
    rw [this]
    simpa using (perm_append_singleton e pre).symm
  · have hl : pre ++ e :: mid.concat z = (pre ++ e :: mid) ++ [z] := by simp
    have hlast : ((pre ++ e :: mid) ++ [z]).getD (((pre ++ e :: mid) ++ [z]).length - 1) d = z := by
      rw [length_append, length_singleton, Nat.add_sub_cancel, getD_eq_getElem?_getD,
        getElem?_concat_length, Option.getD_some]
    rw [hl, hlast, set_append_left _ _ (by simp), dropLast_concat,
      set_append_right _ _ (le_refl _), Nat.sub_self, set_cons_zero, perm_iff_count]
    intro a
    simp only [count_append, count_cons, count_nil]
    split_ifs <;> omega

theorem servers_perm_of_perm {p q : Partitions}
    (h : p.master :: p.slaves ~ q.master :: q.slaves) : p.servers ~ q.servers :=
  h.filter _

/-- `OffNode` permutes the servers of every partition. -/
theorem servers_offNodePartition (aliveNodes : List NodeStatus) (ip : String) (port : ℤ)
    (p : Partitions) : (offNodePartition aliveNodes ip port p).1.servers ~ p.servers := by
  by_cases h : p.master = ⟨ip, port⟩
  · rcases offNodePartition_cases aliveNodes h with
      ⟨pre, x, post, hs, -, -, he⟩ | ⟨-, he⟩
    · rw [he]
      refine servers_perm_of_perm ?_
      simpa [hs] using perm_swap pre post x p.master
    · rw [he]
      have hf : (Node.empty :: (p.slaves ++ [p.master])).filter (fun n => n ≠ Node.empty) =
          (p.slaves ++ [p.master]).filter (fun n => n ≠ Node.empty) := by simp
      simp only [Partitions.servers]
      rw [hf]
      exact (perm_append_singleton _ _).filter _
  · rw [offNodePartition_of_ne h]

/-- `OnNode` permutes the servers of every partition. -/
theorem servers_onNodePartition (ip : String) (port : ℤ) (p : Partitions) :
    (onNodePartition ip port p).1.servers ~ p.servers := by
  by_cases hm : p.master = Node.empty
  · by_cases h : (⟨ip, port⟩ : Node) ∈ p.slaves
    · obtain ⟨pre, post, hs, -, he⟩ := onNodePartition_of_mem hm h
      rw [he]
      have hf : (Node.empty :: p.slaves).filter (fun n => n ≠ Node.empty) =
          p.slaves.filter (fun n => n ≠ Node.empty) := by simp
      unfold Partitions.servers
      rw [hm, hf, hs]
      exact (perm_promote pre post ⟨ip, port⟩ Node.empty).filter _
    · rw [onNodePartition_of_not_mem h]
  · rw [onNodePartition_of_ne hm]

/-- Without the empty endpoint among the slaves and as the failed or promoted master,
`OffNode` permutes `replicas`. -/
theorem replicas_offNodePartition {aliveNodes : List NodeStatus} {ip : String} {port : ℤ}
    (p : Partitions) (he : (⟨ip, port⟩ : Node) ≠ Node.empty)
    (halive : ∀ n, isAlive aliveNodes n.ip n.port = true → n ≠ Node.empty) :
    (offNodePartition aliveNodes ip port p).1.replicas ~ p.replicas := by
  by_cases h : p.master = ⟨ip, port⟩
  · rcases offNodePartition_cases aliveNodes h with
      ⟨pre, x, post, hs, hx, -, hr⟩ | ⟨-, hr⟩
    · rw [hr]
      simpa [Partitions.replicas, halive x hx, h, he, hs] using perm_swap pre post x ⟨ip, port⟩
    · rw [hr]
      simp [Partitions.replicas, h, he]
  · rw [offNodePartition_of_ne h]

/-- `OnNode` of an endpoint other than the empty one permutes `replicas`. -/
theorem replicas_onNodePartition {ip : String} {port : ℤ} (p : Partitions)
    (he : (⟨ip, port⟩ : Node) ≠ Node.empty) :
    (onNodePartition ip port p).1.replicas ~ p.replicas := by
  by_cases hm : p.master = Node.empty
  · by_cases h : (⟨ip, port⟩ : Node) ∈ p.slaves
    · obtain ⟨pre, post, hs, -, hr⟩ := onNodePartition_of_mem hm h
      rw [hr]
      simpa [Partitions.replicas, hm, he, hs] using perm_promote pre post ⟨ip, port⟩ p.master
    · rw [onNodePartition_of_not_mem h]
  · rw [onNodePartition_of_ne hm]

@[simp] theorem id_offNodePartition (aliveNodes : List NodeStatus) (ip : String) (port : ℤ)
    (p : Partitions) : (offNodePartition aliveNodes ip port p).1.id = p.id := by
  unfold offNodePartition; split <;> [rfl; split <;> rfl]

@[simp] theorem id_onNodePartition (ip : String) (port : ℤ) (p : Partitions) :
    (onNodePartition ip port p).1.id = p.id := by
  unfold onNodePartition; split <;> [split <;> rfl; rfl]

/-! ## Initial placement -/

/-- `alive_nodes[k % an_num].node()`. -/
def nodeAt (aliveNodes : List NodeStatus) (k : ℕ) : Node :=
  (endpoints aliveNodes).getD (k % aliveNodes.length) Node.empty

/-- Partition `i` of the table `Distribute` builds: master `A'[i]` and slaves `A'[i+1]`,
`A'[i+2]`, indices modulo `|A'|`. -/
def distributePartition (aliveNodes : List NodeStatus) (i : ℕ) : Partitions :=
  ⟨i, nodeAt aliveNodes i, [nodeAt aliveNodes (i + 1), nodeAt aliveNodes (i + 2)]⟩

/-- The replica set `Distribute` stores at `PART:<i>`. -/
def distributeReplicaset (aliveNodes : List NodeStatus) (i : ℕ) : Replicaset :=
  ⟨i, [nodeAt aliveNodes i, nodeAt aliveNodes (i + 1), nodeAt aliveNodes (i + 2)]⟩

theorem nodeAt_eq_getElem {aliveNodes : List NodeStatus} (h : aliveNodes ≠ []) (k : ℕ) :
    ∃ hk : k % aliveNodes.length < (endpoints aliveNodes).length,
      nodeAt aliveNodes k = (endpoints aliveNodes)[k % aliveNodes.length] := by
  have hk : k % aliveNodes.length < (endpoints aliveNodes).length := by
    simpa [endpoints] using Nat.mod_lt k (length_pos.mpr h)
  exact ⟨hk, by simp [nodeAt, getElem?_eq_getElem hk]⟩

theorem nodeAt_mem {aliveNodes : List NodeStatus} (h : aliveNodes ≠ []) (k : ℕ) :
    nodeAt aliveNodes k ∈ endpoints aliveNodes := by
  obtain ⟨hk, he⟩ := nodeAt_eq_getElem h k
  exact he ▸ getElem_mem hk

theorem add_mod_ne {i d n : ℕ} (hd : 0 < d) (hdn : d < n) : (i + d) % n ≠ i % n := by
  intro h
  have := Nat.sub_mod_eq_zero_of_mod_eq h
  rw [Nat.add_sub_cancel_left, Nat.mod_eq_of_lt hdn] at this
  omega

/-- Entries at different positions of a list without repeated endpoints differ. -/
theorem nodeAt_ne {aliveNodes : List NodeStatus} (hnd : (endpoints aliveNodes).Nodup)
    (h : aliveNodes ≠ []) {k l : ℕ} (hkl : k % aliveNodes.length ≠ l % aliveNodes.length) :
    nodeAt aliveNodes k ≠ nodeAt aliveNodes l := by
  obtain ⟨hk, hek⟩ := nodeAt_eq_getElem h k
  obtain ⟨hl, hel⟩ := nodeAt_eq_getElem h l
  rw [hek, hel]
  exact fun he => hkl (hnd.getElem_inj_iff.mp he)

/-- **With three or more distinct nodes, `Distribute` gives each partition three
distinct replicas.** -/
theorem nodup_distributeReplicaset {aliveNodes : List NodeStatus}
    (hnd : (endpoints aliveNodes).Nodup) (h3 : 3 ≤ aliveNodes.length) (i : ℕ) :
    (distributeReplicaset aliveNodes i).node.Nodup := by
  have h : aliveNodes ≠ [] := by rintro rfl; simp at h3
  have h01 := nodeAt_ne hnd h (add_mod_ne (i := i) (d := 1) (by omega) (by omega)).symm
  have h02 := nodeAt_ne hnd h (add_mod_ne (i := i) (d := 2) (by omega) (by omega)).symm
  have h12 := nodeAt_ne hnd h (add_mod_ne (i := i + 1) (d := 1) (by omega) (by omega)).symm
  simp only [distributeReplicaset, nodup_cons, mem_cons, mem_singleton, not_mem_nil,
    or_false, not_or, nodup_nil, and_true, not_false_eq_true]
  exact ⟨⟨h01, h02⟩, h12⟩

theorem replicas_distributePartition {aliveNodes : List NodeStatus} {i : ℕ}
    (h : nodeAt aliveNodes i ≠ Node.empty) :
    (distributePartition aliveNodes i).replicas = (distributeReplicaset aliveNodes i).node := by
  simp [Partitions.replicas, distributePartition, distributeReplicaset, h]

theorem servers_distributePartition (aliveNodes : List NodeStatus) (i : ℕ) :
    (distributePartition aliveNodes i).servers =
      (distributeReplicaset aliveNodes i).node.filter fun n => n ≠ Node.empty := rfl

end ZeppelinMeta
