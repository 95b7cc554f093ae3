import ZeppelinMeta.Server

/-!
# What each topology operation can do

One lemma per operation lists every way it can end: which keys of the store it has
rewritten and with what, what happened to `version_`, and what it reported. The
invariants of the later modules are derived from these lemmas alone; none of them
unfolds an operation again.
-/

namespace ZeppelinMeta

/-- The nodes table as the operations see it: an absent `ND` reads as empty. -/
def Floyd.nodes (f : Floyd) : List NodeStatus := f.nd.getD []

/-- How the write of `MT` after a loop with result `loop` can end, from store `f` and
epoch `v`: no write, a committed write of the table at `v + 1`, or a failed write. -/
def Rewrites (loop : List Partitions × Bool) (f : Floyd) (v : ℤ) (r : Status × Meta) : Prop :=
  (loop.2 = false ∧ r.1 = .ok ∧ r.2.floyd = f ∧ r.2.version = v) ∨
  (loop.2 = true ∧ r.1 = .ok ∧ r.2.floyd = { f with mt := some ⟨v + 1, loop.1⟩ } ∧
    r.2.version = v + 1) ∨
  (loop.2 = true ∧ r.1 = .corruption "floyd set error!" ∧ r.2.floyd = f ∧ r.2.version = v)

/-- **What the shared tail of `OffNode` and `OnNode` can do**: fail to read `MT` and
change nothing, or read the table `t` and end as the rewrite of the loop's result. -/
theorem rewriteMSInfo_cases (loop : List Partitions → List Partitions × Bool) (m : Meta) :
    ((rewriteMSInfo loop m).1 = .corruption "Read full_meta failed!" ∧
        (m.fails = true ∨ m.floyd.mt = none) ∧
        (rewriteMSInfo loop m).2.floyd = m.floyd ∧ (rewriteMSInfo loop m).2.version = m.version) ∨
    ∃ t, m.floyd.mt = some t ∧ m.fails = false ∧
      Rewrites (loop t.info) m.floyd m.version (rewriteMSInfo loop m) := by
  unfold rewriteMSInfo
  rw [getMSInfo_eq]
  cases hf : m.fails
  · cases hmt : m.floyd.mt with
    | none => exact .inl ⟨rfl, .inr rfl, rfl, rfl⟩
    | some t =>
      refine .inr ⟨t, rfl, rfl, ?_⟩
      simp only [Option.elim_some, if_false, Bool.false_eq_true]
      cases hb : (loop t.info).2
      · exact .inl ⟨hb, by simp [hb], by simp [hb], by simp [hb]⟩
      · simp only [Bool.not_true, Bool.false_eq_true, if_false, setMSInfo, set_eq, Meta.write]
        cases hw : m.next.fails
        · exact .inr (.inl ⟨hb, by simp [hw], by simp [hw], by simp [hw]⟩)
        · exact .inr (.inr ⟨hb, by simp [hw], by simp [hw], by simp [hw]⟩)
  · exact .inl ⟨rfl, .inl rfl, rfl, rfl⟩

/-- With `MT` present and no failure to report, the tail reports `OK`. -/
theorem rewriteMSInfo_of_faults_nil (loop : List Partitions → List Partitions × Bool)
    {m : Meta} {t : MetaCmdResponsePull} (h : m.faults = []) (hmt : m.floyd.mt = some t) :
    (rewriteMSInfo loop m).1 = .ok ∧ (rewriteMSInfo loop m).2.faults = [] := by
  unfold rewriteMSInfo
  rw [getMSInfo_eq]
  cases hb : (loop t.info).2 <;>
    simp [hb, hmt, h, Meta.fails, Meta.next, setMSInfo, set_eq, Meta.write]

@[simp] theorem rewriteMSInfo_nd (loop : List Partitions → List Partitions × Bool) (m : Meta) :
    (rewriteMSInfo loop m).2.floyd.nd = m.floyd.nd := by
  rcases rewriteMSInfo_cases loop m with ⟨-, -, h, -⟩ | ⟨t, -, -, ⟨-, -, h, -⟩ | ⟨-, -, h, -⟩ | ⟨-, -, h, -⟩⟩ <;>
    simp [h]

/-! ## `SetNodeStatus` -/

theorem setNodeStatus_of_not_mem {nodes : List NodeStatus} {ip : String} {port status : ℤ}
    (m : Meta) (h : (⟨ip, port⟩ : Node) ∉ endpoints nodes) :
    setNodeStatus nodes ip port status m = (.notFound "not found this node", m) := by
  have : nodes.find? (fun ns => ns.node = ⟨ip, port⟩) = none := by
    simpa [endpoints] using h
  simp [setNodeStatus, this]

/-- Setting a status an endpoint already has changes nothing. -/
theorem setStatus_of_statusOf {nodes : List NodeStatus} {ip : String} {port status : ℤ}
    (h : statusOf nodes ⟨ip, port⟩ = some status) : setStatus ip port status nodes = nodes := by
  induction nodes with
  | nil => simp [statusOf] at h
  | cons a rest ih =>
    unfold setStatus
    split
    · rename_i ha
      simp only [statusOf, List.find?_cons, ha, decide_True, Option.map_some',
        Option.some.injEq] at h
      simp [← h]
    · rename_i ha
      simp only [statusOf, List.find?_cons, ha, decide_False] at h
      rw [ih h]

/-- **What `SetNodeStatus` of a known endpoint can do**: nothing when the status is
already `status`; otherwise write `ND`, and for `UP` go on with `OnNode`. -/
theorem setNodeStatus_cases {nodes : List NodeStatus} {ip : String} {port : ℤ} (status : ℤ)
    (m : Meta) (h : (⟨ip, port⟩ : Node) ∈ endpoints nodes) :
    (statusOf nodes ⟨ip, port⟩ = some status ∧ setNodeStatus nodes ip port status m = (.ok, m)) ∨
    (statusOf nodes ⟨ip, port⟩ ≠ some status ∧ m.fails = true ∧
      setNodeStatus nodes ip port status m = (.corruption "floyd set error!", m.next)) ∨
    (statusOf nodes ⟨ip, port⟩ ≠ some status ∧ m.fails = false ∧
      let m1 : Meta := { m.next with floyd := { m.floyd with nd := some (setStatus ip port status nodes) } }
      (status ≠ kNodeUp → setNodeStatus nodes ip port status m = (.ok, m1)) ∧
      (status = kNodeUp → setNodeStatus nodes ip port status m =
        (if (onNode ip port m1).1 = .ok then .ok else .corruption "OnNode error!",
          (onNode ip port m1).2))) := by
  have hsome : (nodes.find? fun ns => ns.node = ⟨ip, port⟩).isSome := by
    rw [List.find?_isSome]; simpa [endpoints] using h
  obtain ⟨ns, hns⟩ := Option.isSome_iff_exists.mp hsome
  have hst : statusOf nodes ⟨ip, port⟩ = some ns.status := by simp [statusOf, hns]
  unfold setNodeStatus
  rw [hns, hst]
  by_cases hs : ns.status = status
  · exact .inl ⟨by rw [hs], by simp [hs]⟩
  · have hne : some ns.status ≠ some status := by simpa using hs
    simp only [hs, if_false, Meta.write]
    cases hf : m.fails
    · refine .inr (.inr ⟨hne, rfl, fun hup => by simp [hup], fun hup => ?_⟩)
      simp only [hup, if_true, if_false, Bool.false_eq_true]
      split <;> simp_all
    · exact .inr (.inl ⟨hne, rfl, by simp⟩)

/-! ## `AddNode` -/

/-- **What `AddNode` can do**: change nothing (an error, or the node is already `UP`),
append a new node `UP`, or set a known node `UP` and go on with `OnNode`. -/
theorem addNode_cases (ip : String) (port : ℤ) (m : Meta) :
    ((addNode ip port m).2.floyd = m.floyd ∧ (addNode ip port m).2.version = m.version ∧
      ((addNode ip port m).1 = .ok → statusOf m.floyd.nodes ⟨ip, port⟩ = some kNodeUp)) ∨
    ((⟨ip, port⟩ : Node) ∉ endpoints m.floyd.nodes ∧ m.fails = false ∧
      (addNode ip port m).1 = .ok ∧
      (addNode ip port m).2.floyd =
        { m.floyd with nd := some (m.floyd.nodes ++ [⟨⟨ip, port⟩, kNodeUp⟩]) } ∧
      (addNode ip port m).2.version = m.version) ∨
    (∃ nodes, m.floyd.nd = some nodes ∧ (⟨ip, port⟩ : Node) ∈ endpoints nodes ∧
      statusOf nodes ⟨ip, port⟩ ≠ some kNodeUp ∧
      ∃ m1 : Meta, m1.floyd = { m.floyd with nd := some (setStatus ip port kNodeUp nodes) } ∧
        m1.version = m.version ∧ (m.faults = [] → m1.faults = []) ∧
        addNode ip port m =
          (if (onNode ip port m1).1 = .ok then .ok else .corruption "OnNode error!",
            (onNode ip port m1).2)) := by
  unfold addNode
  rw [getAllNode_eq]
  cases hf : m.fails
  · cases hnd : m.floyd.nd with
    | none =>
      simp only [Bool.false_eq_true, if_false, Option.elim_none, Option.getD_none,
        reduceCtorEq, false_and, Status.isNotFound, true_or, Meta.write]
      cases hw : m.next.fails
      · refine .inr (.inl ⟨?_, ?_, ?_, ?_, ?_⟩) <;> simp [Floyd.nodes, hnd, hw]
      · refine .inl ⟨?_, ?_, ?_⟩ <;> simp [hw]
    | some nodes =>
      by_cases hfind : findNode nodes ip port = true
      · have he := (findNode_iff nodes ip port).mp hfind
        simp only [Bool.false_eq_true, if_false, Option.elim_some, Option.getD_some, hfind,
          and_self, if_true]
        rcases setNodeStatus_cases kNodeUp m.next he with ⟨hs, heq⟩ | ⟨-, -, heq⟩ | ⟨hs, -, -, heq⟩
        · exact .inl ⟨by simp [heq], by simp [heq], fun _ => by simpa [Floyd.nodes, hnd] using hs⟩
        · exact .inl ⟨by simp [heq], by simp [heq], by simp [heq]⟩
        · exact .inr (.inr ⟨nodes, rfl, he, hs,
            { m.next.next with floyd := { m.floyd with nd := some (setStatus ip port kNodeUp nodes) } },
            rfl, rfl, fun h => by simp [Meta.next, h], heq rfl⟩)
      · have he : (⟨ip, port⟩ : Node) ∉ endpoints nodes := by rwa [← findNode_iff]
        have hfind' : findNode nodes ip port = false := by simpa using hfind
        simp only [Bool.false_eq_true, if_false, Option.elim_some, Option.getD_some, hfind',
          and_false, Status.isNotFound, or_true, if_true, Meta.write]
        cases hw : m.next.fails
        · refine .inr (.inl ⟨?_, ?_, ?_, ?_, ?_⟩) <;> simp [Floyd.nodes, hnd, hw, he]
        · refine .inl ⟨?_, ?_, ?_⟩ <;> simp [hw]
  · exact .inl ⟨rfl, rfl, by simp [Status.isNotFound]⟩

/-! ## `OffNode` -/

/-- **What `OffNode` can do**: change nothing (an error, or an unknown node), or mark the
node `DOWN` and go on with the rewrite of `MT`, whose loop uses the alive list read before
the node was marked. -/
theorem offNode_cases (ip : String) (port : ℤ) (m : Meta) :
    ((offNode ip port m).1 ≠ .ok ∧ (offNode ip port m).2.floyd = m.floyd ∧
      (offNode ip port m).2.version = m.version ∧
      (m.faults ≠ [] ∨ (⟨ip, port⟩ : Node) ∉ endpoints m.floyd.nodes)) ∨
    ∃ nodes, m.floyd.nd = some nodes ∧ (⟨ip, port⟩ : Node) ∈ endpoints nodes ∧
      ∃ m1 : Meta, m1.floyd = { m.floyd with nd := some (setStatus ip port kNodeDown nodes) } ∧
        m1.version = m.version ∧ (m.faults = [] → m1.faults = []) ∧
        offNode ip port m = rewriteMSInfo (offNodeInfo (getAllAliveNode nodes) ip port) m1 := by
  unfold offNode
  rw [getAllNode_eq]
  cases hf : m.fails
  · cases hnd : m.floyd.nd with
    | none => exact .inl ⟨by simp, rfl, rfl, .inr (by simp [Floyd.nodes, hnd])⟩
    | some nodes =>
      simp only [Bool.false_eq_true, if_false, Option.elim_some, Option.getD_some, ne_eq,
        not_true_eq_false]
      by_cases he : (⟨ip, port⟩ : Node) ∈ endpoints nodes
      · rcases setNodeStatus_cases kNodeDown m.next he with
          ⟨hs, heq⟩ | ⟨-, hw, heq⟩ | ⟨-, -, heq, -⟩
        · refine .inr ⟨nodes, rfl, he, m.next, ?_, rfl, fun h => by simp [Meta.next, h], ?_⟩
          · rw [setStatus_of_statusOf hs, Meta.next_floyd, ← hnd]
          · simp [heq]
        · exact .inl ⟨by simp [heq], by simp [heq], by simp [heq],
            .inl (Meta.faults_ne_nil_of_next (Meta.faults_ne_nil_of_fails hw))⟩
        · refine .inr ⟨nodes, rfl, he,
            { m.next.next with floyd := { m.floyd with nd := some (setStatus ip port kNodeDown nodes) } },
            rfl, rfl, fun h => by simp [Meta.next, h], ?_⟩
          simp [heq (by decide)]
      · rw [setNodeStatus_of_not_mem _ he]
        exact .inl ⟨by simp, rfl, rfl, .inr (by simpa [Floyd.nodes, hnd] using he)⟩
  · exact .inl ⟨by simp, rfl, rfl, .inl (Meta.faults_ne_nil_of_fails hf)⟩

/-! ## The partitions table -/

/-- **What a rewrite of `MT` leaves in the store**: the same store, or the table `t` that
`MT` held with the loop's partitions. -/
theorem rewriteMSInfo_floyd (loop : List Partitions → List Partitions × Bool) (m : Meta) :
    (rewriteMSInfo loop m).2.floyd = m.floyd ∨
    ∃ t, m.floyd.mt = some t ∧
      (rewriteMSInfo loop m).2.floyd = { m.floyd with mt := some ⟨m.version + 1, (loop t.info).1⟩ } := by
  rcases rewriteMSInfo_cases loop m with
    ⟨-, -, h, -⟩ | ⟨t, ht, -, ⟨-, -, h, -⟩ | ⟨-, -, h, -⟩ | ⟨-, -, h, -⟩⟩
  · exact .inl h
  · exact .inl h
  · exact .inr ⟨t, ht, h⟩
  · exact .inl h

/-- With no failure, the rewrite of a present table leaves the loop's partitions in it
(a loop that reports no change returns the table it was given). -/
theorem rewriteMSInfo_floyd_of_faults_nil (loop : List Partitions → List Partitions × Bool)
    {m : Meta} {t : MetaCmdResponsePull} (hf : m.faults = []) (ht : m.floyd.mt = some t)
    (hid : (loop t.info).2 = false → (loop t.info).1 = t.info) :
    ∃ v, (rewriteMSInfo loop m).2.floyd = { m.floyd with mt := some ⟨v, (loop t.info).1⟩ } := by
  have hok := (rewriteMSInfo_of_faults_nil loop hf ht).1
  rcases rewriteMSInfo_cases loop m with
    ⟨h, -⟩ | ⟨t', ht', -, ⟨hb, -, h, -⟩ | ⟨-, -, h, -⟩ | ⟨-, h, -⟩⟩
  · rw [hok] at h
    cases h
  · rw [ht, Option.some.injEq] at ht'
    subst ht'
    refine ⟨t.version, ?_⟩
    rw [h, hid hb]
    show m.floyd = { m.floyd with mt := some t }
    rw [← ht]
  · rw [ht, Option.some.injEq] at ht'
    exact ⟨_, ht' ▸ h⟩
  · rw [hok] at h
    cases h

/-- **What `AddNode` does to the rest of the store**: `PN` and `PART` stay, and `MT`
stays or, once a known endpoint is set `UP`, its table gets `OnNode`'s partitions. -/
theorem addNode_floyd (ip : String) (port : ℤ) (m : Meta) :
    (addNode ip port m).2.floyd.pn = m.floyd.pn ∧ (addNode ip port m).2.floyd.part = m.floyd.part ∧
    ((addNode ip port m).2.floyd.mt = m.floyd.mt ∨
      (⟨ip, port⟩ : Node) ∈ endpoints m.floyd.nodes ∧ ∃ t v, m.floyd.mt = some t ∧
        (addNode ip port m).2.floyd.mt = some ⟨v, (onNodeInfo ip port t.info).1⟩) := by
  rcases addNode_cases ip port m with
    ⟨hf, -⟩ | ⟨-, -, -, hf, -⟩ | ⟨nodes, hnd, he, -, m1, hm1, -, -, heq⟩
  · simp [hf]
  · simp [hf]
  · rw [heq]
    rcases rewriteMSInfo_floyd (onNodeInfo ip port) m1 with h | ⟨t, ht, h⟩
    · simp [onNode, h, hm1]
    · refine ⟨by simp [onNode, h, hm1], by simp [onNode, h, hm1],
        .inr ⟨by simpa [Floyd.nodes, hnd] using he, t, m1.version + 1, by simpa [hm1] using ht,
          by simp [onNode, h]⟩⟩

/-- **What `OffNode` does to the rest of the store**: `PN` and `PART` stay, and `MT`
stays or its table gets the partitions of `OffNode`'s loop, run with the alive list of
the nodes table read before the node was marked `DOWN`. -/
theorem offNode_floyd (ip : String) (port : ℤ) (m : Meta) :
    (offNode ip port m).2.floyd.pn = m.floyd.pn ∧ (offNode ip port m).2.floyd.part = m.floyd.part ∧
    ((offNode ip port m).2.floyd.mt = m.floyd.mt ∨
      ∃ nodes, m.floyd.nd = some nodes ∧ (⟨ip, port⟩ : Node) ∈ endpoints nodes ∧
        ∃ t v, m.floyd.mt = some t ∧ (offNode ip port m).2.floyd.mt =
          some ⟨v, (offNodeInfo (getAllAliveNode nodes) ip port t.info).1⟩) := by
  rcases offNode_cases ip port m with ⟨-, hf, -⟩ | ⟨nodes, hnd, he, m1, hm1, -, -, heq⟩
  · simp [hf]
  · rw [heq]
    rcases rewriteMSInfo_floyd (offNodeInfo (getAllAliveNode nodes) ip port) m1 with h | ⟨t, ht, h⟩
    · simp [h, hm1]
    · exact ⟨by simp [h, hm1], by simp [h, hm1], .inr ⟨nodes, hnd, he, t, m1.version + 1,
        by simpa [hm1] using ht, by simp [h]⟩⟩

/-- With no failure, `OffNode` of a known endpoint marks it `DOWN` and leaves the loop's
partitions in a present table. -/
theorem offNode_floyd_of_faults_nil (ip : String) (port : ℤ) {m : Meta} (hf : m.faults = [])
    {nodes : List NodeStatus} (hnd : m.floyd.nd = some nodes)
    (he : (⟨ip, port⟩ : Node) ∈ endpoints nodes) {t : MetaCmdResponsePull}
    (ht : m.floyd.mt = some t) :
    ∃ v, (offNode ip port m).2.floyd = { m.floyd with
      nd := some (setStatus ip port kNodeDown nodes),
      mt := some ⟨v, (offNodeInfo (getAllAliveNode nodes) ip port t.info).1⟩ } := by
  rcases offNode_cases ip port m with
    ⟨-, -, -, h | h⟩ | ⟨nodes', hnd', -, m1, hm1, -, hff, heq⟩
  · exact absurd hf h
  · exact absurd (by simpa [Floyd.nodes, hnd] using he) h
  · rw [hnd, Option.some.injEq] at hnd'
    subst hnd'
    obtain ⟨v, hv⟩ := rewriteMSInfo_floyd_of_faults_nil (offNodeInfo (getAllAliveNode nodes) ip port)
      (hff hf) (by simpa [hm1] using ht) offNodeInfo_fst_of_snd
    exact ⟨v, by rw [heq, hv, hm1]⟩

/-! ## `Distribute` -/

/-- The replica sets `Distribute` has written for the partitions in `is`, over `part`. -/
def writeParts (aliveNodes : List NodeStatus) (is : List ℕ) (part : ℕ → Option Replicaset) :
    ℕ → Option Replicaset :=
  fun i => if i ∈ is then some (distributeReplicaset aliveNodes i) else part i

@[simp] theorem writeParts_nil (aliveNodes : List NodeStatus) (part : ℕ → Option Replicaset) :
    writeParts aliveNodes [] part = part := rfl

theorem writeParts_cons (aliveNodes : List NodeStatus) (i : ℕ) (is : List ℕ)
    (part : ℕ → Option Replicaset) :
    writeParts aliveNodes is (Function.update part i (some (distributeReplicaset aliveNodes i))) =
      writeParts aliveNodes (i :: is) part := by
  funext j
  by_cases hj : j = i
  · subst hj; simp [writeParts]
  · simp [writeParts, hj, Function.update_noteq]

/-- **What `Distribute`'s loop of `SetReplicaset` can do**: write the replica sets of a
prefix of the partitions, all of them exactly when it reports `OK`. -/
theorem setReplicasets_cases (aliveNodes : List NodeStatus) (is : List ℕ) (m : Meta) :
    ∃ k ≤ is.length,
      (setReplicasets aliveNodes is m).2.floyd =
        { m.floyd with part := writeParts aliveNodes (is.take k) m.floyd.part } ∧
      (setReplicasets aliveNodes is m).2.version = m.version ∧
      ((setReplicasets aliveNodes is m).1 = .ok ∧ k = is.length ∧
          (m.faults = [] → (setReplicasets aliveNodes is m).2.faults = []) ∨
        (setReplicasets aliveNodes is m).1 = .corruption "floyd set error!" ∧ k < is.length ∧
          m.faults ≠ []) := by
  induction is generalizing m with
  | nil => exact ⟨0, le_refl _, by simp [setReplicasets], rfl, .inl ⟨rfl, rfl, id⟩⟩
  | cons i is ih =>
    simp only [setReplicasets, setReplicaset, set_eq, Meta.write]
    cases hf : m.fails
    · obtain ⟨k, hk, hfl, hv, hs⟩ := ih { m.next with floyd := { m.floyd with
        part := Function.update m.floyd.part i (some (distributeReplicaset aliveNodes i)) } }
      refine ⟨k + 1, by simpa using hk, ?_, by simpa using hv, ?_⟩
      · simpa [writeParts_cons] using hfl
      · rcases hs with ⟨h1, h2, h3⟩ | ⟨h1, h2, h3⟩
        · exact .inl ⟨by simpa using h1, by simp [h2],
            fun h => by simpa using h3 (by simp [Meta.next, h])⟩
        · exact .inr ⟨by simpa using h1, by simpa using h2,
            fun h => h3 (by simp [Meta.next, h])⟩
    · refine ⟨0, by simp, by simp, by simp, .inr ⟨by simp, by simp, fun h => ?_⟩⟩
      simp [Meta.fails, h] at hf

theorem distribute_cases (num : ℤ) (m : Meta) {r : Status × Meta}
    (h : distribute num m = some r) :
    (r.1 ≠ .ok ∧ r.2.floyd = m.floyd ∧ r.2.version = m.version) ∨
    ∃ nodes aliveNodes, m.floyd.nd = some nodes ∧ getAllAliveNode nodes ≠ [] ∧
      reorganize (getAllAliveNode nodes) = some aliveNodes ∧
      (if m.fails then none else m.floyd.pn).getD 0 = 0 ∧
      ∃ k ≤ num.toNat,
        (k < num.toNat ∧ r.1 = .corruption "floyd set error!" ∧ m.faults ≠ [] ∧
          r.2.floyd = { m.floyd with part := writeParts aliveNodes (List.range k) m.floyd.part } ∧
          r.2.version = m.version) ∨
        (k = num.toNat ∧ ∃ mtOk pnOk : Bool,
          (m.faults = [] → mtOk = true ∧ pnOk = true) ∧
          r.1 = (if pnOk then .ok else .corruption "floyd set error!") ∧
          r.2.floyd = { m.floyd with
            part := writeParts aliveNodes (List.range k) m.floyd.part,
            mt := if mtOk then
                some ⟨m.version + 1, (List.range num.toNat).map (distributePartition aliveNodes)⟩
              else m.floyd.mt,
            pn := if pnOk then some num else m.floyd.pn } ∧
          r.2.version = if mtOk then m.version + 1 else m.version) := by
  unfold distribute at h
  rw [partitionNums_eq] at h
  simp only at h
  by_cases hpn : (if m.fails then none else m.floyd.pn).getD 0 = 0
  swap
  · simp only [hpn, ne_eq, not_false_eq_true, if_true, Option.some.injEq] at h
    subst h
    exact .inl ⟨by simp, rfl, rfl⟩
  rw [if_neg (not_not.mpr hpn), getAllNode_eq] at h
  cases hf : m.next.fails
  swap
  · simp only [hf, if_true, ne_eq, reduceCtorEq, not_false_eq_true, Option.some.injEq] at h
    subst h
    exact .inl ⟨by simp, rfl, rfl⟩
  cases hnd : m.floyd.nd with
  | none =>
    simp only [hf, hnd, Meta.next_floyd, Bool.false_eq_true, if_false, Option.elim_none] at h
    simp at h
    subst h
    exact .inl ⟨by simp, rfl, rfl⟩
  | some nodes =>
    simp [hf, hnd] at h
    split_ifs at h with hal
    · simp only [Option.some.injEq] at h
      subst h
      exact .inl ⟨by simp, rfl, rfl⟩
    obtain ⟨aliveNodes, hre, rfl⟩ := Option.map_eq_some'.mp h
    clear h
    refine .inr ⟨nodes, aliveNodes, rfl, hal, hre, hpn, ?_⟩
    obtain ⟨k, hk, hfl, hv, hs⟩ :=
      setReplicasets_cases aliveNodes (List.range num.toNat) m.next.next
    generalize setReplicasets aliveNodes (List.range num.toNat) m.next.next = R at hfl hv hs ⊢
    obtain ⟨s, m2⟩ := R
    simp only [List.length_range, List.take_range] at hk hs hfl
    rw [Nat.min_eq_left hk] at hfl
    have hff : m.faults = [] → m.next.next.faults = [] := fun h => by simp [Meta.next, h]
    rcases hs with ⟨rfl, rfl, hff2⟩ | ⟨rfl, hlt, hff2⟩
    · refine ⟨num.toNat, le_refl _, .inr ⟨rfl, !m2.fails, !m2.next.fails, fun h => ?_, ?_⟩⟩
      · simp [Meta.fails, Meta.next, hff2 (hff h)]
      · simp only at hv
        cases hw : m2.fails <;> cases hw2 : m2.next.fails <;>
          simp [setMSInfo, set_eq, Meta.write, hw, hw2, hfl, hv]
    · exact ⟨k, hk, .inl ⟨hlt, rfl, fun h => hff2 (hff h), hfl, hv⟩⟩

/-- With no failure, a `Distribute` that returned `OK` wrote `PART:<i>` for every `i < num`,
the new table at `version_ + 1`, and `PN`. -/
theorem distribute_of_faults_nil {num : ℤ} {m : Meta} {r : Status × Meta} (hf : m.faults = [])
    (hd : distribute num m = some r) (hok : r.1 = .ok) :
    ∃ nodes aliveNodes, m.floyd.nd = some nodes ∧ getAllAliveNode nodes ≠ [] ∧
      reorganize (getAllAliveNode nodes) = some aliveNodes ∧
      r.2.floyd = { m.floyd with
        part := writeParts aliveNodes (List.range num.toNat) m.floyd.part,
        mt := some ⟨m.version + 1, (List.range num.toNat).map (distributePartition aliveNodes)⟩,
        pn := some num } ∧
      r.2.version = m.version + 1 := by
  rcases distribute_cases num m hd with ⟨hne, -⟩ |
    ⟨nodes, aliveNodes, hnd, hal, hre, -, k, -, ⟨-, -, hff, -⟩ | ⟨rfl, mtOk, pnOk, hb, -, hfl, hv⟩⟩
  · exact absurd hok hne
  · exact absurd hf hff
  · obtain ⟨rfl, rfl⟩ := hb hf
    exact ⟨nodes, aliveNodes, hnd, hal, hre, by simpa using hfl, by simpa using hv⟩

/-- What `Distribute` leaves in `MT`: the table there, or the one it built from the alive
entries of `ND`. -/
theorem distribute_mt {num : ℤ} {m : Meta} {r : Status × Meta} (hd : distribute num m = some r) :
    r.2.floyd.nd = m.floyd.nd ∧
    (r.2.floyd.mt = m.floyd.mt ∨
      ∃ nodes aliveNodes, m.floyd.nd = some nodes ∧ getAllAliveNode nodes ≠ [] ∧
        reorganize (getAllAliveNode nodes) = some aliveNodes ∧
        r.2.floyd.mt =
          some ⟨m.version + 1, (List.range num.toNat).map (distributePartition aliveNodes)⟩) := by
  rcases distribute_cases num m hd with ⟨-, hfl, -⟩ |
    ⟨nodes, aliveNodes, hnd, hal, hre, -, k, -, ⟨-, -, -, hfl, -⟩ | ⟨rfl, mtOk, _, -, -, hfl, -⟩⟩
  · exact ⟨by rw [hfl], .inl (by rw [hfl])⟩
  · exact ⟨by rw [hfl], .inl (by rw [hfl])⟩
  · refine ⟨by rw [hfl], ?_⟩
    cases mtOk
    · exact .inl (by simp [hfl])
    · exact .inr ⟨nodes, aliveNodes, hnd, hal, hre, by simp [hfl]⟩

end ZeppelinMeta
