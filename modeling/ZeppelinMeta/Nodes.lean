import ZeppelinMeta.Run

/-!
# The nodes table over a run

Every request leaves `ND` alone, appends one new endpoint `UP`, or rewrites the status of
the first entry of the endpoint it names (`SetNodeStatus`). `FindNode` guards the append,
so an endpoint is never entered twice, and the entries already there keep their order.
-/

namespace ZeppelinMeta

/-- How one request, which returned `s`, can change the nodes table: not at all (and an
`AddNode` that returned `OK` then named a known endpoint), by appending the unknown
endpoint an `AddNode` names as `UP`, or by setting the status of the entry of the known
endpoint the request names. -/
def NodesStep (c : Call) (nodes : List NodeStatus) (s : Status) (nodes' : List NodeStatus) :
    Prop :=
  (nodes' = nodes ∧ ∀ ip port, c = .addNode ip port → s = .ok → (⟨ip, port⟩ : Node) ∈ endpoints nodes) ∨
  (∃ ip port, c = .addNode ip port ∧ (⟨ip, port⟩ : Node) ∉ endpoints nodes ∧
    nodes' = nodes ++ [⟨⟨ip, port⟩, kNodeUp⟩]) ∨
  (∃ ip port status, (c = .addNode ip port ∨ c = .offNode ip port) ∧
    (⟨ip, port⟩ : Node) ∈ endpoints nodes ∧ nodes' = setStatus ip port status nodes)

@[simp] theorem rewriteMSInfo_nodes (loop : List Partitions → List Partitions × Bool) (m : Meta) :
    (rewriteMSInfo loop m).2.floyd.nodes = m.floyd.nodes := by
  simp [Floyd.nodes]

theorem distribute_floyd_nd {num : ℤ} {m : Meta} {r : Status × Meta}
    (h : distribute num m = some r) : r.2.floyd.nd = m.floyd.nd := by
  rcases distribute_cases num m h with ⟨-, hf, -⟩ |
    ⟨_, _, -, -, -, -, _, -, ⟨-, -, -, hf, -⟩ | ⟨-, _, _, -, -, hf, -⟩⟩ <;> simp [hf]

theorem addNode_nodesStep (ip : String) (port : ℤ) (m : Meta) :
    NodesStep (.addNode ip port) m.floyd.nodes (addNode ip port m).1
      (addNode ip port m).2.floyd.nodes := by
  rcases addNode_cases ip port m with ⟨hf, -, hok⟩ | ⟨he, -, -, hf, -⟩ | ⟨nodes, hnd, he, -, m1, hm1, -, -, heq⟩
  · refine .inl ⟨by rw [hf], ?_⟩
    rintro ip port ⟨⟩ hs
    exact (statusOf_isSome_iff _ _).mp (by simp [hok hs])
  · exact .inr (.inl ⟨ip, port, rfl, he, by simp [hf, Floyd.nodes]⟩)
  · refine .inr (.inr ⟨ip, port, kNodeUp, .inl rfl, by simpa [Floyd.nodes, hnd] using he, ?_⟩)
    rw [heq, onNode, rewriteMSInfo_nodes]
    simp [Floyd.nodes, hm1, hnd]

theorem offNode_nodesStep (ip : String) (port : ℤ) (m : Meta) :
    NodesStep (.offNode ip port) m.floyd.nodes (offNode ip port m).1
      (offNode ip port m).2.floyd.nodes := by
  rcases offNode_cases ip port m with ⟨-, hf, -⟩ | ⟨nodes, hnd, he, m1, hm1, -, -, heq⟩
  · exact .inl ⟨by rw [hf], by rintro _ _ ⟨⟩⟩
  · refine .inr (.inr ⟨ip, port, kNodeDown, .inr rfl, by simpa [Floyd.nodes, hnd] using he, ?_⟩)
    rw [heq, rewriteMSInfo_nodes]
    simp [Floyd.nodes, hm1, hnd]

/-- With no failure, `AddNode` of an endpoint not in `ND` reports `OK` and appends it `UP`. -/
theorem addNode_of_not_mem {ip : String} {port : ℤ} {m : Meta} (hf : m.faults = [])
    (he : (⟨ip, port⟩ : Node) ∉ endpoints m.floyd.nodes) :
    (addNode ip port m).1 = .ok ∧
      (addNode ip port m).2.floyd.nodes = m.floyd.nodes ++ [⟨⟨ip, port⟩, kNodeUp⟩] := by
  have hfind : findNode m.floyd.nodes ip port = false :=
    Bool.eq_false_iff.mpr fun h => he ((findNode_iff _ _ _).mp h)
  unfold addNode
  rw [getAllNode_eq]
  cases hnd : m.floyd.nd <;>
    simp_all [Meta.fails, Meta.next, Meta.write, Floyd.nodes, Status.isNotFound]

/-- **What one request does to the nodes table.** -/
theorem nodesStep_run {c : Call} {faults : List Bool} {m : Meta} {r : Status × Meta}
    (h : c.run faults m = some r) : NodesStep c m.floyd.nodes r.1 r.2.floyd.nodes := by
  cases c with
  | addNode ip port =>
    obtain rfl := Option.some.inj h
    exact addNode_nodesStep ip port _
  | offNode ip port =>
    obtain rfl := Option.some.inj h
    exact offNode_nodesStep ip port _
  | distribute num =>
    exact .inl ⟨by simp [Floyd.nodes, distribute_floyd_nd h], by rintro _ _ ⟨⟩⟩

theorem NodesStep.nodup {c : Call} {nodes nodes' : List NodeStatus} {s : Status}
    (h : NodesStep c nodes s nodes') (hnd : (endpoints nodes).Nodup) : (endpoints nodes').Nodup := by
  rcases h with ⟨rfl, -⟩ | ⟨ip, port, -, he, rfl⟩ | ⟨ip, port, status, -, -, rfl⟩
  · exact hnd
  · simpa [List.nodup_append, he] using hnd
  · simpa using hnd

theorem NodesStep.grows {c : Call} {nodes nodes' : List NodeStatus} {s : Status}
    (h : NodesStep c nodes s nodes') : endpoints nodes <+: endpoints nodes' := by
  rcases h with ⟨rfl, -⟩ | ⟨ip, port, -, -, rfl⟩ | ⟨ip, port, status, -, -, rfl⟩
  · exact List.prefix_refl _
  · simp
  · simp

/-- **Nodes table integrity.** Over any run from a table without repeated endpoints, with
any failures of the engine: the table never gets a repeated endpoint, the endpoints
already there stay, in their order, and each request changes the table only as
`NodesStep` allows. An `AddNode` with no failure of an endpoint not in the table reports
`OK` and appends exactly that endpoint, `UP`. -/
theorem nodesTable_integrity {m m' : Meta} {cs : List (Call × List Bool)} {ss : List Status}
    (hnd : (endpoints m.floyd.nodes).Nodup) (h : serve m cs = some (ss, m')) :
    (endpoints m'.floyd.nodes).Nodup ∧ endpoints m.floyd.nodes <+: endpoints m'.floyd.nodes ∧
    (∀ c faults, (c, faults) ∈ cs → ∀ m₁ r, c.run faults m₁ = some r →
      NodesStep c m₁.floyd.nodes r.1 r.2.floyd.nodes) ∧
    ∀ ip port m₁ r, (Call.addNode ip port).run [] m₁ = some r →
      (⟨ip, port⟩ : Node) ∉ endpoints m₁.floyd.nodes →
      r.1 = .ok ∧ r.2.floyd.nodes = m₁.floyd.nodes ++ [⟨⟨ip, port⟩, kNodeUp⟩] :=
  ⟨serve_invariant (fun m => (endpoints m.floyd.nodes).Nodup)
      (fun _ _ _ _ _ hi hr => (nodesStep_run hr).nodup hi) hnd h,
    serve_relation (fun m m' => endpoints m.floyd.nodes <+: endpoints m'.floyd.nodes)
      (fun _ => List.prefix_refl _) (fun _ _ _ h₁ h₂ => h₁.trans h₂)
      (fun _ _ _ _ _ hr => (nodesStep_run hr).grows) h,
    fun _ _ _ _ _ hr => nodesStep_run hr,
    fun _ _ _ _ hr he => Option.some.inj hr ▸ addNode_of_not_mem rfl he⟩

theorem nodesTable_integrity_rejoin :
    ∃ ss m, serve ⟨Floyd.empty, 0, []⟩
        [(.addNode "a" 1, []), (.addNode "b" 1, []), (.offNode "a" 1, [false, false, true]),
          (.addNode "a" 1, [])] = some (ss, m) ∧
      (endpoints m.floyd.nodes).Nodup ∧ endpoints Floyd.empty.nodes <+: endpoints m.floyd.nodes := by
  refine ⟨_, _, rfl, ?_⟩
  have h := @nodesTable_integrity ⟨Floyd.empty, 0, []⟩ _
    [(.addNode "a" 1, []), (.addNode "b" 1, []), (.offNode "a" 1, [false, false, true]),
      (.addNode "a" 1, [])] _ (by decide) rfl
  exact ⟨h.1, h.2.1⟩

end ZeppelinMeta
