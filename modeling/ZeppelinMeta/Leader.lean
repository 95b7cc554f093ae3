import ZeppelinMeta.Server
import Mathlib.Data.List.AList

/-!
# Leadership of one meta server

Every meta server asks its consensus engine who leads (`IsLeader`). The one that finds
itself leader for the first time rebuilds its liveness map from the `UP` entries of `ND`
and reloads its cached epoch from `MT` (`BecomeLeader`); every other one keeps a command
channel to the leader (`leader_cli_`), over which it forwards the writes it is sent
(`RedirectToLeader`).

What a server keeps for this besides the store and `version_` is a `Peer`: the fields
guarded by `leader_mutex_`, the liveness map `node_alive_` and the queue of the update
thread. The server keys the liveness map by `IpPortString(ip, port)`; here it is keyed
by the endpoint itself. `InitVersion` reads `MT` with `floyd_->Read`, which answers the
empty value for a key never written: the case the loop's `value == ""` branch handles
(its `IsNotFound` branch is commented out).
-/

namespace ZeppelinMeta

/-- `ZPMetaUpdateOP`: what the update thread is asked to do for an endpoint. -/
inductive UpdateOp where
  | kOpAdd
  | kOpRemove
deriving DecidableEq, Repr

/-- The state of a meta server besides the store and `version_`. -/
structure Peer where
  /-- `leader_first_time_`: `false` while this server holds a leadership it took. -/
  leaderFirstTime : Bool
  /-- `leader_ip_`. -/
  leaderIp : String
  /-- `leader_cmd_port_`. -/
  leaderCmdPort : ℤ
  /-- Whether `leader_cli_` is not `NULL`. -/
  leaderCli : Bool
  /-- `node_alive_`: when each endpoint was last heard of, in seconds. -/
  nodeAlive : AList fun _ : Node => ℤ
  /-- The tasks waiting in `update_thread_`, oldest first. -/
  updates : List (Node × UpdateOp)

/-- What the constructor of `ZPMetaServer` sets. -/
def Peer.init : Peer := ⟨true, "", 0, false, ∅, []⟩

/-- The two port shifts of `zp_const.h`. That header is not part of the source, so
every result here holds whatever their values. -/
structure PortShift where
  kMetaPortShiftCmd : ℤ
  kMetaPortShiftFY : ℤ

/-- The fields of `ZPOptions` that `IsLeader` reads: this server's own endpoint. -/
structure ZPOptions where
  localIp : String
  localPort : ℤ

/-- `ZPMetaServer::CleanLeader`: close the channel and forget the leader. -/
def cleanLeader (p : Peer) : Peer :=
  { p with leaderCli := false, leaderIp := "", leaderCmdPort := 0 }

@[simp] theorem cleanLeader_leaderFirstTime (p : Peer) :
    (cleanLeader p).leaderFirstTime = p.leaderFirstTime := rfl
@[simp] theorem cleanLeader_leaderCli (p : Peer) : (cleanLeader p).leaderCli = false := rfl
@[simp] theorem cleanLeader_nodeAlive (p : Peer) : (cleanLeader p).nodeAlive = p.nodeAlive := rfl
@[simp] theorem cleanLeader_updates (p : Peer) : (cleanLeader p).updates = p.updates := rfl

/-! ## Reloading the epoch -/

/-- The epoch a successful read of `MT` gives `InitVersion`: `-1` for the empty value. -/
def mtVersion (f : Floyd) : ℤ :=
  match f.mt with
  | none => -1
  | some msInfo => msInfo.version

/-- The loop of `ZPMetaServer::InitVersion`: a failed read of `MT` is tried again. -/
def initVersionLoop (f : Floyd) : List Bool → Meta
  | [] => ⟨f, mtVersion f, []⟩
  | failed :: faults => if failed then initVersionLoop f faults else ⟨f, mtVersion f, faults⟩

/-- `ZPMetaServer::InitVersion`. It only reads, and ends as soon as a read succeeds. -/
def initVersion (m : Meta) : Meta := initVersionLoop m.floyd m.faults

@[simp] theorem initVersion_floyd (m : Meta) : (initVersion m).floyd = m.floyd := by
  obtain ⟨f, v, faults⟩ := m
  induction faults with
  | nil => rfl
  | cons failed faults ih => cases failed <;> simp_all [initVersion, initVersionLoop]

@[simp] theorem initVersion_version (m : Meta) : (initVersion m).version = mtVersion m.floyd := by
  obtain ⟨f, v, faults⟩ := m
  induction faults with
  | nil => rfl
  | cons failed faults ih => cases failed <;> simp_all [initVersion, initVersionLoop]

/-! ## Promotion -/

/-- `ZPMetaServer::RestoreNodeAlive`: the liveness map becomes the given endpoints, each
heard of `now`. -/
def restoreNodeAlive (now : ℤ) (aliveNodes : List NodeStatus) (p : Peer) : Peer :=
  { p with nodeAlive := aliveNodes.foldl (fun a ns => a.insert ns.node now) ∅ }

@[simp] theorem restoreNodeAlive_leaderFirstTime (now : ℤ) (l : List NodeStatus) (p : Peer) :
    (restoreNodeAlive now l p).leaderFirstTime = p.leaderFirstTime := rfl
@[simp] theorem restoreNodeAlive_leaderCli (now : ℤ) (l : List NodeStatus) (p : Peer) :
    (restoreNodeAlive now l p).leaderCli = p.leaderCli := rfl
@[simp] theorem restoreNodeAlive_leaderIp (now : ℤ) (l : List NodeStatus) (p : Peer) :
    (restoreNodeAlive now l p).leaderIp = p.leaderIp := rfl
@[simp] theorem restoreNodeAlive_leaderCmdPort (now : ℤ) (l : List NodeStatus) (p : Peer) :
    (restoreNodeAlive now l p).leaderCmdPort = p.leaderCmdPort := rfl
@[simp] theorem restoreNodeAlive_updates (now : ℤ) (l : List NodeStatus) (p : Peer) :
    (restoreNodeAlive now l p).updates = p.updates := rfl

/-- `ZPMetaServer::BecomeLeader`: the liveness map and the epoch are only reloaded when
`GetAllNode` succeeds. -/
def becomeLeader (now : ℤ) (p : Peer) (m : Meta) : Status × Peer × Meta :=
  let (s, nodes, m) := getAllNode m
  if s ≠ .ok then (s, p, m) else
  (s, restoreNodeAlive now (getAllAliveNode nodes) p, initVersion m)

theorem mem_foldl_insert (now : ℤ) (e : Node) (l : List NodeStatus) (a : AList fun _ : Node => ℤ) :
    e ∈ l.foldl (fun a ns => a.insert ns.node now) a ↔ e ∈ a ∨ e ∈ endpoints l := by
  induction l generalizing a with
  | nil => simp
  | cons ns l ih => simp [ih, or_assoc, or_left_comm]

/-- A successful promotion hears of exactly the `UP` endpoints of `ND`, all `now`. -/
theorem mem_restoreNodeAlive (now : ℤ) (aliveNodes : List NodeStatus) (p : Peer) (e : Node) :
    e ∈ (restoreNodeAlive now aliveNodes p).nodeAlive ↔ e ∈ endpoints aliveNodes := by
  simp [restoreNodeAlive, mem_foldl_insert]

/-- What `BecomeLeader` does: nothing but reads, and, when `GetAllNode` succeeds, the
liveness map rebuilt and the epoch reloaded. -/
theorem becomeLeader_cases (now : ℤ) (p : Peer) (m : Meta) :
    (becomeLeader now p m).2.2.floyd = m.floyd ∧
    (if m.fails then none else m.floyd.nd).elim
      ((becomeLeader now p m).2.1 = p ∧ (becomeLeader now p m).2.2.version = m.version)
      fun nodes => (becomeLeader now p m).1 = .ok ∧
        (becomeLeader now p m).2.1 = restoreNodeAlive now (getAllAliveNode nodes) p ∧
        (becomeLeader now p m).2.2.version = mtVersion m.floyd := by
  unfold becomeLeader
  rw [getAllNode_eq]
  cases hf : m.fails <;> cases hnd : m.floyd.nd <;> simp [hf, hnd]

/-- `BecomeLeader` changes nothing of a server but its liveness map. -/
theorem becomeLeader_peer (now : ℤ) (p : Peer) (m : Meta) :
    (becomeLeader now p m).2.1 = { p with nodeAlive := (becomeLeader now p m).2.1.nodeAlive } := by
  unfold becomeLeader
  rw [getAllNode_eq]
  cases m.fails <;> cases m.floyd.nd <;> simp [restoreNodeAlive]

/-! ## Polling the engine -/

/-- How the wait at the top of `IsLeader` ended: `should_exit_` was set, or
`floyd_->GetLeader` named the leader's consensus endpoint. -/
inductive Observation where
  | exit
  | leader (ip : String) (fyPort : ℤ)
deriving DecidableEq, Repr

/-- `ZPMetaServer::IsLeader`, given how its wait ended, whether the connect to a new
leader succeeds, and the time. `GetLeader` turns the consensus port into the base port. -/
def isLeader (o : ZPOptions) (k : PortShift) (obs : Observation) (connected : Bool) (now : ℤ)
    (p : Peer) (m : Meta) : Bool × Peer × Meta :=
  match obs with
  | .exit => (false, { p with leaderCli := false }, m)
  | .leader leaderIp fyPort =>
    let leaderPort := fyPort - k.kMetaPortShiftFY
    let leaderCmdPort := leaderPort + k.kMetaPortShiftCmd
    if leaderIp = p.leaderIp ∧ leaderCmdPort = p.leaderCmdPort then (false, p, m)
    else if leaderIp = o.localIp ∧ leaderPort = o.localPort then
      if p.leaderFirstTime then
        let (_, p, m) := becomeLeader now (cleanLeader { p with leaderFirstTime := false }) m
        (true, p, m)
      else (true, p, m)
    else
      let p := { cleanLeader p with
        leaderFirstTime := true, leaderCli := true, leaderIp, leaderCmdPort }
      (false, if connected then p else cleanLeader p, m)

/-- **What `IsLeader` can do**: only read the store and leave the update queue alone; and
either keep the liveness map and the epoch, not taking a leadership, or take one and run
`BecomeLeader` on a server that kept its map and queue. -/
theorem isLeader_cases (o : ZPOptions) (k : PortShift) (obs : Observation) (connected : Bool)
    (now : ℤ) (p : Peer) (m : Meta) :
    (isLeader o k obs connected now p m).2.2.floyd = m.floyd ∧
    (isLeader o k obs connected now p m).2.1.updates = p.updates ∧
    (((isLeader o k obs connected now p m).2.1.nodeAlive = p.nodeAlive ∧
        (isLeader o k obs connected now p m).2.2.version = m.version ∧
        ((isLeader o k obs connected now p m).2.1.leaderFirstTime = false →
          p.leaderFirstTime = false)) ∨
      (p.leaderFirstTime = true ∧ (isLeader o k obs connected now p m).1 = true ∧
        ∃ q : Peer, q.leaderFirstTime = false ∧ q.nodeAlive = p.nodeAlive ∧ q.updates = p.updates ∧
          (isLeader o k obs connected now p m).2 = (becomeLeader now q m).2)) := by
  have hb := becomeLeader_cases now (cleanLeader { p with leaderFirstTime := false }) m
  cases obs with
  | exit => exact ⟨rfl, rfl, .inl ⟨rfl, rfl, id⟩⟩
  | leader ip fyPort =>
    simp only [isLeader]
    split_ifs with hcache hself hfirst hconn
    · exact ⟨rfl, rfl, .inl ⟨rfl, rfl, id⟩⟩
    · refine ⟨hb.1, ?_, .inr ⟨hfirst, rfl, cleanLeader { p with leaderFirstTime := false }, rfl, rfl,
        rfl, rfl⟩⟩
      rw [becomeLeader_peer]
      rfl
    · exact ⟨rfl, rfl, .inl ⟨rfl, rfl, id⟩⟩
    · exact ⟨rfl, rfl, .inl ⟨rfl, rfl, nofun⟩⟩
    · exact ⟨rfl, rfl, .inl ⟨rfl, rfl, nofun⟩⟩

/-- `ZPMetaServer::RedirectToLeader`, given the errors of `Send` and of `Recv` (`none`
when it succeeds). The leader's response is passed on and is not modelled. -/
def redirectToLeader (send recv : Option String) (p : Peer) : Status × Peer :=
  if !p.leaderCli then (.corruption "no leader connection", p) else
  match send, recv with
  | some e, _ => (.corruption e, cleanLeader p)
  | none, some e => (.corruption e, cleanLeader p)
  | none, none => (.ok, p)

end ZeppelinMeta
