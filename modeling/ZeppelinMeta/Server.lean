import ZeppelinMeta.PartitionsTable
import ZeppelinMeta.Reorganize

/-!
# The topology operations of `ZPMetaServer`

`AddNode`, `OffNode`, `OnNode` (through `SetNodeStatus`) and `Distribute`, with the
helpers they call, as functions of the server state `Meta`. Each consensus call takes
the engine's next answer from `Meta.faults`. The log lines and the
`Version not match` warning change nothing and are left out; `SerializeToString`
cannot fail on these messages, so its error branches are left out too.

`Distribute` returns `none` when `Reorganize` never returns: the call then holds
`node_mutex_` for ever.
-/

namespace ZeppelinMeta

/-- `ZPMetaServer::GetAllNode`: `nodes` is cleared first, so it is empty unless the
read succeeded. -/
def getAllNode (m : Meta) : Status × List NodeStatus × Meta :=
  match m.dirtyRead Floyd.nd with
  | (.ok nodes, m) => (.ok, nodes, m)
  | (.notFound, m) => (.notFound "not found from floyd", [], m)
  | (.error, m) => (.corruption "floyd get error!", [], m)

/-- `ZPMetaServer::GetMSInfo`: every failed read, `NotFound` included, is `Corruption`. -/
def getMSInfo (m : Meta) : Except Status MetaCmdResponsePull × Meta :=
  match m.dirtyRead Floyd.mt with
  | (.ok msInfo, m) => (.ok msInfo, m)
  | (_, m) => (.error (.corruption "Read full_meta failed!"), m)

/-- `ZPMetaServer::PartitionNums`: `0` when the read fails for any reason. -/
def partitionNums (m : Meta) : ℤ × Meta :=
  match m.dirtyRead Floyd.pn with
  | (.ok pn, m) => (pn, m)
  | (_, m) => (0, m)

theorem getAllNode_eq (m : Meta) :
    getAllNode m =
      if m.fails then (.corruption "floyd get error!", [], m.next)
      else (m.floyd.nd.elim (.notFound "not found from floyd") fun _ => .ok,
        m.floyd.nd.getD [], m.next) := by
  unfold getAllNode Meta.dirtyRead
  split_ifs <;> cases m.floyd.nd <;> rfl

theorem getMSInfo_eq (m : Meta) :
    getMSInfo m =
      ((if m.fails then none else m.floyd.mt).elim (.error (.corruption "Read full_meta failed!"))
        .ok, m.next) := by
  unfold getMSInfo Meta.dirtyRead
  split_ifs <;> cases m.floyd.mt <;> rfl

theorem partitionNums_eq (m : Meta) :
    partitionNums m = ((if m.fails then none else m.floyd.pn).getD 0, m.next) := by
  unfold partitionNums Meta.dirtyRead
  split_ifs <;> cases m.floyd.pn <;> rfl

/-- `ZPMetaServer::SetMSInfo`. -/
def setMSInfo (msInfo : MetaCmdResponsePull) : Meta → Status × Meta :=
  set fun f => { f with mt := some msInfo }

/-- `ZPMetaServer::SetReplicaset`. -/
def setReplicaset (partitionId : ℕ) (replicaset : Replicaset) : Meta → Status × Meta :=
  set fun f => { f with part := Function.update f.part partitionId (some replicaset) }

/-- The part `OffNode` and `OnNode` share once the nodes table is done: read `MT`, run
the loop over its partitions and, if the loop changed one, write the table back at
`version_ + 1`, advancing `version_` when the write committed. -/
def rewriteMSInfo (loop : List Partitions → List Partitions × Bool) (m : Meta) :
    Status × Meta :=
  match getMSInfo m with
  | (.error s, m) => (s, m)
  | (.ok msInfo, m) =>
    let (info, shouldRewrite) := loop msInfo.info
    if !shouldRewrite then (.ok, m) else
    let (s, m) := setMSInfo ⟨m.version + 1, info⟩ m
    if s = .ok then (s, { m with version := m.version + 1 }) else (s, m)

/-- `ZPMetaServer::OnNode`. -/
def onNode (ip : String) (port : ℤ) : Meta → Status × Meta :=
  rewriteMSInfo (onNodeInfo ip port)

/-- `ZPMetaServer::SetNodeStatus`: the first entry for `(ip, port)` decides; a node put
back `UP` triggers `OnNode`. -/
def setNodeStatus (nodes : List NodeStatus) (ip : String) (port : ℤ) (status : ℤ)
    (m : Meta) : Status × Meta :=
  match nodes.find? fun ns => ns.node = ⟨ip, port⟩ with
  | none => (.notFound "not found this node", m)
  | some ns =>
    if ns.status = status then (.ok, m) else
    match m.write fun f => { f with nd := some (setStatus ip port status nodes) } with
    | (false, m) => (.corruption "floyd set error!", m)
    | (true, m) =>
      if status = kNodeUp then
        match onNode ip port m with
        | (.ok, m) => (.ok, m)
        | (_, m) => (.corruption "OnNode error!", m)
      else (.ok, m)

/-- `ZPMetaServer::AddNode`. -/
def addNode (ip : String) (port : ℤ) (m : Meta) : Status × Meta :=
  let (s, nodes, m) := getAllNode m
  if s = .ok ∧ findNode nodes ip port then setNodeStatus nodes ip port kNodeUp m else
  let shouldAdd := s = .ok
  if s.isNotFound ∨ shouldAdd then
    match m.write fun f => { f with nd := some (nodes ++ [⟨⟨ip, port⟩, kNodeUp⟩]) } with
    | (true, m) => (.ok, m)
    | (false, m) => (.corruption "floyd set error!", m)
  else (s, m)

/-- `ZPMetaServer::OffNode`. The alive list is taken before the node is marked `DOWN`. -/
def offNode (ip : String) (port : ℤ) (m : Meta) : Status × Meta :=
  let (s, nodes, m) := getAllNode m
  if s ≠ .ok then (s, m) else
  let aliveNodes := getAllAliveNode nodes
  let (s, m) := setNodeStatus nodes ip port kNodeDown m
  if s ≠ .ok then (s, m) else
  rewriteMSInfo (offNodeInfo aliveNodes ip port) m

/-- The `for` loop of `Distribute`: write the replica set of each partition in turn,
stopping at the first write that fails. -/
def setReplicasets (aliveNodes : List NodeStatus) : List ℕ → Meta → Status × Meta
  | [], m => (.ok, m)
  | i :: is, m =>
    match setReplicaset i (distributeReplicaset aliveNodes i) m with
    | (.ok, m) => setReplicasets aliveNodes is m
    | (s, m) => (s, m)

/-- `ZPMetaServer::Distribute`. A failed `SetMSInfo` is only logged: `PN` is written
next and its outcome is the result. -/
def distribute (num : ℤ) (m : Meta) : Option (Status × Meta) :=
  let (pn, m) := partitionNums m
  if pn ≠ 0 then some (.corruption "Already Distribute", m) else
  let (s, nodes, m) := getAllNode m
  if s ≠ .ok then some (s, m) else
  let tAliveNodes := getAllAliveNode nodes
  if tAliveNodes = [] then some (.corruption "no nodes", m) else
  (reorganize tAliveNodes).map fun aliveNodes =>
    match setReplicasets aliveNodes (List.range num.toNat) m with
    | (.ok, m) =>
      let msInfo : MetaCmdResponsePull :=
        ⟨m.version + 1, (List.range num.toNat).map (distributePartition aliveNodes)⟩
      let (s, m) := setMSInfo msInfo m
      let m := if s = .ok then { m with version := m.version + 1 } else m
      match m.write fun f => { f with pn := some num } with
      | (true, m) => (.ok, m)
      | (false, m) => (.corruption "floyd set error!", m)
    | (s, m) => (s, m)

end ZeppelinMeta
