import ZeppelinMeta.Nodes
import ZeppelinMeta.Leader

/-!
# Liveness and the update queue

The leader hears of data servers through `JOIN` (`AddNodeAlive`) and `PING`
(`UpdateNodeAlive`), and forgets those it has not heard of for `kNodeMetaTimeoutM`
seconds (`CheckNodeAlive`). Joins and timeouts reach the topology through the update
thread, which takes the queued `ADD` and `REMOVE` tasks in order. That thread is not part
of the source and is modelled from the spec: `ADD` runs `AddNode`, `REMOVE` runs
`OffNode`, and the status is dropped.

A meta server is a `Peer` with the store. `Event.run` serves one thing that happens to
it (a poll of the engine, a command, a tick of the cron, a step of the update thread)
and `serveEvents` a sequence of them. Commands and the cron act only on a server that
holds a leadership it took; a follower forwards commands with `RedirectToLeader`.

The liveness map is backed by the topology (`Backed`) when every endpoint heard of is
`UP` in `ND` or has an `ADD` as its last queued task. Runs without engine failures, after
`MT` was written, in which every promotion finds no `REMOVE` queued, keep it
(`liveness_backed`). A `REMOVE` queued before a server lost the leadership and applied
after it took it back marks `DOWN` an endpoint the promotion has just heard of.

`node_alive_` is keyed here by the endpoint, not by its `IpPortString`. This assumes that
every endpoint a `JOIN` brings round-trips through that string: `ParseIpPortString` gives
back the `ip` and `port` it was built from. `liveness_backed` rests on it: an `AddNodeAlive`
that answered `parse ip_port error` would leave an endpoint heard of with no `ADD` queued.
-/

namespace ZeppelinMeta

/-- `ZPMetaServer::AddNodeAlive` for the endpoint `(ip, port)`, heard of at `now`: it is
heard of first, and an `ADD` task is queued only when `AddNode` succeeded. The endpoint is
assumed to round-trip through `IpPortString`, so the branch that answers
`parse ip_port error` is never taken and is left out. -/
def addNodeAlive (now : ℤ) (ip : String) (port : ℤ) (p : Peer) (m : Meta) :
    Status × Peer × Meta :=
  let p := { p with nodeAlive := p.nodeAlive.insert ⟨ip, port⟩ now }
  let (s, m) := addNode ip port m
  if s ≠ .ok then (s, p, m) else
  (.ok, { p with updates := p.updates ++ [(⟨ip, port⟩, .kOpAdd)] }, m)

/-- `ZPMetaServer::UpdateNodeAlive`: only an endpoint already heard of is refreshed. -/
def updateNodeAlive (now : ℤ) (e : Node) (p : Peer) : Bool × Peer :=
  if e ∈ p.nodeAlive then (true, { p with nodeAlive := p.nodeAlive.insert e now })
  else (false, p)

/-- `ZPMetaServer::CheckNodeAlive`: the endpoints not heard of for more than
`kNodeMetaTimeoutM` seconds are forgotten, and a `REMOVE` task is queued for each. -/
def checkNodeAlive (kNodeMetaTimeoutM now : ℤ) (p : Peer) : Peer :=
  let needRemove :=
    (p.nodeAlive.entries.filter fun it => now - it.2 > kNodeMetaTimeoutM).map Sigma.fst
  { p with
    nodeAlive := needRemove.foldl (fun a e => a.erase e) p.nodeAlive
    updates := p.updates ++ needRemove.map fun e => (e, .kOpRemove) }

/-- Modelled from the spec: one step of the update thread, which applies its oldest task,
`ADD` by `AddNode` and `REMOVE` by `OffNode`, and drops the status. -/
def updateStep (p : Peer) (m : Meta) : Peer × Meta :=
  match p.updates with
  | [] => (p, m)
  | (e, op) :: rest =>
    ({ p with updates := rest },
      match op with
      | .kOpAdd => (addNode e.ip e.port m).2
      | .kOpRemove => (offNode e.ip e.port m).2)

/-- What a meta server is configured with: its own endpoint and the constants of
`zp_const.h`. -/
structure Config where
  options : ZPOptions
  shift : PortShift
  kNodeMetaTimeoutM : ℤ

/-- What happens to a meta server. -/
inductive Event where
  /-- `IsLeader`, from the leader poll or a command's dispatch. -/
  | poll (obs : Observation) (connected : Bool)
  /-- A follower forwards a command to the leader. -/
  | redirect (send recv : Option String)
  /-- A `JOIN` command. -/
  | join (ip : String) (port : ℤ)
  /-- A `PING` command. -/
  | ping (e : Node)
  /-- A tick of the cron. -/
  | sweep
  /-- A step of the update thread. -/
  | update
  /-- An `INIT` command. -/
  | init (num : ℤ)

/-- Modelled from the spec: the command dispatcher and the cron, which serve `ev` at time
`now` with the engine answering as `faults` says (`none` when it never returns). `JOIN`,
`PING`, `INIT` and the sweep change nothing on a server that does not hold a leadership;
the handlers they call are the source's. -/
def Event.run (c : Config) (ev : Event) (now : ℤ) (faults : List Bool) (p : Peer) (m : Meta) :
    Option (Peer × Meta) :=
  let m := { m with faults }
  match ev with
  | .poll obs connected => some (isLeader c.options c.shift obs connected now p m).2
  | .redirect send recv => some ((redirectToLeader send recv p).2, m)
  | .update => some (updateStep p m)
  | .join ip port => if p.leaderFirstTime then some (p, m) else some (addNodeAlive now ip port p m).2
  | .ping e => if p.leaderFirstTime then some (p, m) else some ((updateNodeAlive now e p).2, m)
  | .sweep =>
    if p.leaderFirstTime then some (p, m) else some (checkNodeAlive c.kNodeMetaTimeoutM now p, m)
  | .init num => if p.leaderFirstTime then some (p, m) else (distribute num m).map fun r => (p, r.2)

/-- Serve the events in turn. -/
def serveEvents (c : Config) : Peer → Meta → List (Event × ℤ × List Bool) → Option (Peer × Meta)
  | p, m, [] => some (p, m)
  | p, m, (ev, now, faults) :: rest =>
    (ev.run c now faults p m).bind fun r => serveEvents c r.1 r.2 rest

/-- The runs `liveness_backed` is about: no call to the engine fails, and every poll that
makes the server leader finds no `REMOVE` task queued. -/
def cleanRun (c : Config) : Peer → Meta → List (Event × ℤ × List Bool) → Bool
  | _, _, [] => true
  | p, m, (ev, now, faults) :: rest =>
    faults.isEmpty &&
      match ev.run c now faults p m with
      | none => true
      | some r =>
        (!(p.leaderFirstTime && !r.1.leaderFirstTime) || p.updates.all fun t => t.2 != .kOpRemove) &&
          cleanRun c r.1 r.2 rest

/-! ## The last task queued for an endpoint -/

/-- The last task queued for `e`, if any. -/
def lastTask (e : Node) : List (Node × UpdateOp) → Option UpdateOp
  | [] => none
  | t :: rest => (lastTask e rest).or (if t.1 = e then some t.2 else none)

theorem lastTask_append (e : Node) (q l : List (Node × UpdateOp)) :
    lastTask e (q ++ l) = (lastTask e l).or (lastTask e q) := by
  induction q with
  | nil => simp [lastTask, Option.or_none]
  | cons t q ih => simp [lastTask, ih, Option.or_assoc]

theorem lastTask_of_forall_ne {e : Node} {l : List (Node × UpdateOp)} (h : ∀ t ∈ l, t.1 ≠ e) :
    lastTask e l = none := by
  induction l with
  | nil => rfl
  | cons t l ih => simp [lastTask, ih fun t' ht' => h t' (.tail _ ht'), h t (.head _)]

theorem lastTask_cons_of_ne {e e' : Node} (op : UpdateOp) (rest : List (Node × UpdateOp))
    (h : e' ≠ e) : lastTask e ((e', op) :: rest) = lastTask e rest := by
  simp [lastTask, h, Option.or_none]

theorem mem_of_lastTask {e : Node} {l : List (Node × UpdateOp)} {op : UpdateOp}
    (h : lastTask e l = some op) : (e, op) ∈ l := by
  induction l with
  | nil => cases h
  | cons t l ih =>
    obtain ⟨e', op'⟩ := t
    cases hl : lastTask e l with
    | some op'' =>
      simp only [lastTask, hl, Option.or_some, Option.some.injEq] at h
      exact .tail _ (ih (h ▸ hl))
    | none =>
      simp only [lastTask, hl, Option.none_or] at h
      split at h
      · cases h
        subst e'
        exact .head _
      · cases h

/-! ## The liveness tracker of the spec

The spec describes the liveness map as a tracker with four operations: `touch` refreshes
an endpoint and never adds one, `add` sets it unconditionally, `sweep` forgets the
endpoints heard of more than the timeout before `now` and queues a `REMOVE` for each,
and `restore` replaces the map wholesale. The server's map, read as the function
`Peer.heard`, follows each of them. -/

/-- When each endpoint was last heard of, as the spec's tracker sees the map. -/
def Peer.heard (p : Peer) : Node → Option ℤ := fun e => p.nodeAlive.lookup e

/-- The spec's `touch(endpoint)`: refresh an endpoint already heard of. -/
def Tracker.touch (tr : Node → Option ℤ) (e : Node) (now : ℤ) : Node → Option ℤ :=
  fun x => if x = e ∧ (tr e).isSome then some now else tr x

/-- The spec's `add(endpoint)`: hear of an endpoint now. -/
def Tracker.add (tr : Node → Option ℤ) (e : Node) (now : ℤ) : Node → Option ℤ :=
  Function.update tr e (some now)

/-- The spec's `sweep(now, timeout)`: forget the endpoints last heard of more than
`timeout` before `now`. -/
def Tracker.sweep (tr : Node → Option ℤ) (now timeout : ℤ) : Node → Option ℤ :=
  fun x => (tr x).filter fun t => now - t ≤ timeout

/-- The spec's `restore(endpoints)`: exactly these endpoints, all heard of now. -/
def Tracker.restore (es : List Node) (now : ℤ) : Node → Option ℤ :=
  fun x => if x ∈ es then some now else none

theorem lookup_foldl_insert (now : ℤ) (x : Node) (l : List NodeStatus)
    (a : AList fun _ : Node => ℤ) :
    (l.foldl (fun a ns => a.insert ns.node now) a).lookup x =
      if x ∈ endpoints l then some now else a.lookup x := by
  induction l generalizing a with
  | nil => simp
  | cons ns l ih =>
    rw [List.foldl_cons, ih]
    by_cases hx : x = ns.node
    · subst hx
      simp [AList.lookup_insert]
    · simp [AList.lookup_insert_ne hx, hx]

theorem lookup_foldl_erase (x : Node) (l : List Node) (a : AList fun _ : Node => ℤ) :
    (l.foldl (fun a e => a.erase e) a).lookup x = if x ∈ l then none else a.lookup x := by
  induction l generalizing a with
  | nil => simp
  | cons y l ih =>
    rw [List.foldl_cons, ih]
    by_cases hx : x = y
    · subst hx
      simp [AList.lookup_erase]
    · simp [AList.lookup_erase_ne hx, hx]

@[simp] theorem addNodeAlive_nodeAlive (now : ℤ) (ip : String) (port : ℤ) (p : Peer) (m : Meta) :
    (addNodeAlive now ip port p m).2.1.nodeAlive = p.nodeAlive.insert ⟨ip, port⟩ now := by
  simp only [addNodeAlive]; split <;> rfl

/-- The endpoints a sweep forgets are those heard of more than `timeout` before `now`. -/
theorem mem_needRemove {timeout now : ℤ} {p : Peer} {x : Node} :
    x ∈ (p.nodeAlive.entries.filter fun it => now - it.2 > timeout).map Sigma.fst ↔
      ∃ t, p.heard x = some t ∧ now - t > timeout := by
  simp only [List.mem_map, List.mem_filter, decide_eq_true_eq, Peer.heard]
  constructor
  · rintro ⟨⟨y, t⟩, ⟨hmem, ht⟩, rfl⟩
    exact ⟨t, AList.mem_lookup_iff.mpr hmem, ht⟩
  · rintro ⟨t, hl, ht⟩
    exact ⟨⟨x, t⟩, ⟨AList.mem_lookup_iff.mp hl, ht⟩, rfl⟩

/-- **The liveness map follows the spec's tracker.** `PING`, `JOIN`, a sweep and a
promotion act on the map as `touch`, `add`, `sweep` and `restore`, and a sweep queues one
`REMOVE` for each endpoint it forgets, and no other task. -/
theorem tracker_refines (kNodeMetaTimeoutM now : ℤ) (p : Peer) (m : Meta) (e : Node)
    (ip : String) (port : ℤ) (l : List NodeStatus) :
    (updateNodeAlive now e p).2.heard = Tracker.touch p.heard e now ∧
    (addNodeAlive now ip port p m).2.1.heard = Tracker.add p.heard ⟨ip, port⟩ now ∧
    (checkNodeAlive kNodeMetaTimeoutM now p).heard = Tracker.sweep p.heard now kNodeMetaTimeoutM ∧
    (restoreNodeAlive now l p).heard = Tracker.restore (endpoints l) now ∧
    ∃ removed : List Node,
      (checkNodeAlive kNodeMetaTimeoutM now p).updates =
        p.updates ++ removed.map (fun x => (x, UpdateOp.kOpRemove)) ∧
      removed.Nodup ∧ ∀ x, x ∈ removed ↔ ∃ t, p.heard x = some t ∧ now - t > kNodeMetaTimeoutM := by
  refine ⟨funext fun x => ?_, funext fun x => ?_, funext fun x => ?_, funext fun x => ?_,
    _, rfl, ?_, fun x => mem_needRemove⟩
  · -- touch
    unfold updateNodeAlive Tracker.touch Peer.heard
    by_cases he : e ∈ p.nodeAlive
    · by_cases hx : x = e
      · subst hx
        simp [he, AList.lookup_insert, AList.lookup_isSome.mpr he]
      · simp [he, hx, AList.lookup_insert_ne hx]
    · have : (p.nodeAlive.lookup e).isSome = false := by simpa using AList.lookup_eq_none.mpr he
      simp [he, this]
  · -- add
    by_cases hx : x = ⟨ip, port⟩
    · subst hx
      simp [Peer.heard, Tracker.add, AList.lookup_insert]
    · simp [Peer.heard, Tracker.add, AList.lookup_insert_ne hx, hx]
  · -- sweep
    simp only [Peer.heard, checkNodeAlive, lookup_foldl_erase, Tracker.sweep]
    split_ifs with hx
    · obtain ⟨t, ht, hgt⟩ := mem_needRemove.mp hx
      simp only [Peer.heard] at ht
      simp only [ht, Option.filter_some, decide_eq_true_eq, not_le.mpr hgt, if_false]
    · cases ht : p.nodeAlive.lookup x with
      | none => rfl
      | some t =>
        have : now - t ≤ kNodeMetaTimeoutM := not_lt.mp fun hgt => hx (mem_needRemove.mpr ⟨t, ht, hgt⟩)
        simp only [Option.filter_some, decide_eq_true_eq, this, if_true]
  · -- restore
    simp [Peer.heard, restoreNodeAlive, lookup_foldl_insert, Tracker.restore]
  · -- the removed endpoints are the keys of some entries, so no one twice
    exact (List.Sublist.map Sigma.fst (List.filter_sublist _)).nodup p.nodeAlive.nodupKeys

/-! ## How the topology moves -/

/-- Every endpoint heard of is `UP` in `ND` with no task of its own queued, or the last
task queued for it is an `ADD`. -/
def Backed (p : Peer) (f : Floyd) : Prop :=
  ∀ e ∈ p.nodeAlive, lastTask e p.updates = some .kOpAdd ∨
    (lastTask e p.updates = none ∧ statusOf f.nodes e = some kNodeUp)

/-- What the store keeps over the runs of `liveness_backed`: `ND` is written, without a
repeated endpoint, and so is `MT`. -/
structure StoreOk (f : Floyd) : Prop where
  nodup : (endpoints f.nodes).Nodup
  nd : f.nd ≠ none
  mt : f.mt ≠ none

/-- What a server keeps over the runs of `liveness_backed`: the store is as `StoreOk` says,
and the map of a server holding a leadership is backed. -/
structure Healthy (p : Peer) (f : Floyd) : Prop where
  store : StoreOk f
  backed : p.leaderFirstTime = false → Backed p f

/-- A request for one endpoint leaves the status of every other one alone. -/
theorem NodesStep.statusOf_of_ne {c : Call} {nodes nodes' : List NodeStatus} {s : Status}
    {e : Node} (h : NodesStep c nodes s nodes')
    (hc : ∀ ip port, c = .addNode ip port ∨ c = .offNode ip port → e ≠ ⟨ip, port⟩) :
    statusOf nodes' e = statusOf nodes e := by
  rcases h with ⟨rfl, -⟩ | ⟨ip, port, rfl, -, rfl⟩ | ⟨ip, port, status, hcall, -, rfl⟩
  · rfl
  · have hne := hc ip port (.inl rfl)
    simp only [statusOf, List.find?_append]
    cases nodes.find? fun ns => ns.node = e <;> simp [Ne.symm hne]
  · exact statusOf_setStatus_of_ne nodes (hc ip port hcall)

theorem addNode_nd_ne_none {ip : String} {port : ℤ} {m : Meta} (h : m.floyd.nd ≠ none) :
    (addNode ip port m).2.floyd.nd ≠ none := by
  rcases addNode_cases ip port m with ⟨hf, -⟩ | ⟨-, -, -, hf, -⟩ | ⟨nodes, -, -, -, m1, hm1, -, -, heq⟩
  · rwa [hf]
  · simp [hf]
  · simp [heq, onNode, hm1]

theorem offNode_nd_ne_none {ip : String} {port : ℤ} {m : Meta} (h : m.floyd.nd ≠ none) :
    (offNode ip port m).2.floyd.nd ≠ none := by
  rcases offNode_cases ip port m with ⟨-, hf, -⟩ | ⟨nodes, -, -, m1, hm1, -, -, heq⟩
  · rwa [hf]
  · simp [heq, hm1]

theorem addNode_mt_ne_none {ip : String} {port : ℤ} {m : Meta} (h : m.floyd.mt ≠ none) :
    (addNode ip port m).2.floyd.mt ≠ none := by
  rcases (addNode_floyd ip port m).2.2 with hmt | ⟨-, t, v, -, hmt⟩ <;> simp [hmt, h]

theorem offNode_mt_ne_none {ip : String} {port : ℤ} {m : Meta} (h : m.floyd.mt ≠ none) :
    (offNode ip port m).2.floyd.mt ≠ none := by
  rcases (offNode_floyd ip port m).2.2 with hmt | ⟨_, -, -, t, v, -, hmt⟩ <;> simp [hmt, h]

/-- **A fault-free `AddNode`** leaves its endpoint `UP`, and succeeds once `MT` is
written: a known endpoint set back `UP` runs `OnNode`, which reads `MT`. -/
theorem addNode_of_faults_nil (ip : String) (port : ℤ) {m : Meta} (hf : m.faults = []) :
    statusOf (addNode ip port m).2.floyd.nodes ⟨ip, port⟩ = some kNodeUp ∧
      (m.floyd.mt ≠ none → (addNode ip port m).1 = .ok) := by
  have hfl : m.fails = false := by simp [Meta.fails, hf]
  have hnf : m.next.faults = [] := by simp [Meta.next, hf]
  unfold addNode
  rw [getAllNode_eq]
  simp only [hfl, Bool.false_eq_true, if_false]
  cases hnd : m.floyd.nd with
  | none => simp [Meta.write, Meta.fails, hnf, Floyd.nodes, statusOf, Status.isNotFound]
  | some nodes =>
    by_cases hfind : findNode nodes ip port = true
    · have he := (findNode_iff nodes ip port).mp hfind
      simp only [Option.elim_some, Option.getD_some, hfind, and_self, if_true]
      rcases setNodeStatus_cases kNodeUp m.next he with ⟨hs, heq⟩ | ⟨-, hw, -⟩ | ⟨-, -, -, heq⟩
      · simp [heq, Floyd.nodes, hnd, hs]
      · simp [Meta.fails, hnf] at hw
      · rw [heq rfl]
        refine ⟨by simp [onNode, Floyd.nodes, statusOf_setStatus_self he], fun hmt => ?_⟩
        obtain ⟨t, ht⟩ := Option.ne_none_iff_exists'.mp hmt
        refine if_pos (@rewriteMSInfo_of_faults_nil (onNodeInfo ip port) _ t ?_ ?_).1
        · simp [Meta.next, hf]
        · simpa using ht
    · have he : (⟨ip, port⟩ : Node) ∉ endpoints nodes := by rwa [← findNode_iff]
      have hfind' : findNode nodes ip port = false := by simpa using hfind
      simp [Meta.write, Meta.fails, hnf, Floyd.nodes, hfind', statusOf_append_of_not_mem he]

/-! ## One event keeps the map backed -/

theorem mem_foldl_erase (e : Node) (l : List Node) (a : AList fun _ : Node => ℤ) :
    e ∈ l.foldl (fun a e => a.erase e) a ↔ e ∈ a ∧ e ∉ l := by
  induction l generalizing a with
  | nil => simp
  | cons x l ih => simp [ih, and_assoc, and_left_comm, and_comm]

/-- An event that only forgets endpoints, queues no task for those it keeps and leaves the
status of the untasked ones alone keeps the map backed. -/
theorem Backed.mono {p p' : Peer} {f f' : Floyd} (hb : Backed p f)
    (hmem : ∀ e ∈ p'.nodeAlive, e ∈ p.nodeAlive)
    (hq : ∀ e ∈ p'.nodeAlive, lastTask e p'.updates = lastTask e p.updates)
    (hs : ∀ e ∈ p'.nodeAlive, lastTask e p.updates = none → statusOf f'.nodes e = statusOf f.nodes e) :
    Backed p' f' := by
  intro e he
  rw [hq e he]
  rcases hb e (hmem e he) with h | ⟨h, hup⟩
  · exact .inl h
  · exact .inr ⟨h, (hs e he h).trans hup⟩

/-- A promotion with no `REMOVE` queued hears of endpoints that are all `UP`, each with
no task or an `ADD` last. -/
theorem backed_restoreNodeAlive {f : Floyd} (hnd : (endpoints f.nodes).Nodup) (now : ℤ) {p : Peer}
    (hq : ∀ t ∈ p.updates, t.2 ≠ .kOpRemove) :
    Backed (restoreNodeAlive now (getAllAliveNode f.nodes) p) f := by
  intro e he
  rw [restoreNodeAlive_updates]
  cases hl : lastTask e p.updates with
  | none =>
    obtain ⟨ns, hns, rfl⟩ := List.mem_map.mp ((mem_restoreNodeAlive now _ p e).mp he)
    obtain ⟨hmem, hup⟩ := List.mem_filter.mp hns
    exact .inr ⟨rfl, by simpa using (statusOf_of_mem hnd hmem).trans (by simpa using hup)⟩
  | some op =>
    cases op with
    | kOpAdd => exact .inl rfl
    | kOpRemove => exact absurd rfl (hq _ (mem_of_lastTask hl))

/-- Another endpoint's request leaves an endpoint's status alone. -/
theorem statusOf_addNode_of_ne {ip : String} {port : ℤ} {e : Node} (m : Meta)
    (hne : e ≠ ⟨ip, port⟩) :
    statusOf (addNode ip port m).2.floyd.nodes e = statusOf m.floyd.nodes e :=
  (addNode_nodesStep ip port m).statusOf_of_ne fun _ _ h => by
    rcases h with h | h <;> cases h
    exact hne

theorem statusOf_offNode_of_ne {ip : String} {port : ℤ} {e : Node} (m : Meta)
    (hne : e ≠ ⟨ip, port⟩) :
    statusOf (offNode ip port m).2.floyd.nodes e = statusOf m.floyd.nodes e :=
  (offNode_nodesStep ip port m).statusOf_of_ne fun _ _ h => by
    rcases h with h | h <;> cases h
    exact hne

/-- **A fault-free `JOIN`** once `MT` is written keeps the map backed: the endpoint is
`UP` and gets an `ADD`. -/
theorem backed_addNodeAlive {now : ℤ} {ip : String} {port : ℤ} {p : Peer} {m : Meta}
    (hb : Backed p m.floyd) (hf : m.faults = []) (hmt : m.floyd.mt ≠ none) :
    Backed (addNodeAlive now ip port p m).2.1 (addNodeAlive now ip port p m).2.2.floyd := by
  have hok := (addNode_of_faults_nil ip port hf).2 hmt
  simp only [addNodeAlive, hok, ne_eq, not_true_eq_false, if_false]
  intro e he
  rw [lastTask_append]
  by_cases hee : e = ⟨ip, port⟩
  · subst hee
    exact .inl (by simp [lastTask])
  · have hne : lastTask e [((⟨ip, port⟩ : Node), UpdateOp.kOpAdd)] = none :=
      lastTask_of_forall_ne (by simpa using Ne.symm hee)
    rw [hne, Option.none_or, statusOf_addNode_of_ne m hee]
    exact hb e (by simpa [hee] using he)

/-- **A fault-free step of the update thread** keeps the map backed: an `ADD` leaves its
endpoint `UP`, and a `REMOVE` is never the last task of an endpoint heard of. -/
theorem backed_updateStep {p : Peer} {m : Meta} (hb : Backed p m.floyd) (hf : m.faults = []) :
    Backed (updateStep p m).1 (updateStep p m).2.floyd := by
  unfold updateStep
  cases hq : p.updates with
  | nil => simpa [hq] using hb
  | cons t rest =>
    obtain ⟨e, op⟩ := t
    dsimp only
    intro e' he'
    have hb' := hb e' he'
    rw [hq] at hb'
    by_cases hee : e' = e
    · subst hee
      simp only [lastTask, if_true] at hb'
      cases hl : lastTask e' rest with
      | some op' =>
        simp only [hl, Option.or_some] at hb'
        exact .inl (by simpa using hb')
      | none =>
        simp only [hl, Option.none_or, Option.some.injEq, reduceCtorEq, false_and, or_false] at hb'
        subst hb'
        exact .inr ⟨rfl, (addNode_of_faults_nil e'.ip e'.port hf).1⟩
    · rw [lastTask_cons_of_ne _ _ (Ne.symm hee)] at hb'
      cases op
      · simpa only [statusOf_addNode_of_ne m hee] using hb'
      · simpa only [statusOf_offNode_of_ne m hee] using hb'

theorem StoreOk.addNode {m : Meta} (hs : StoreOk m.floyd) (ip : String) (port : ℤ) :
    StoreOk (addNode ip port m).2.floyd :=
  ⟨(addNode_nodesStep ip port m).nodup hs.nodup, addNode_nd_ne_none hs.nd, addNode_mt_ne_none hs.mt⟩

theorem StoreOk.offNode {m : Meta} (hs : StoreOk m.floyd) (ip : String) (port : ℤ) :
    StoreOk (offNode ip port m).2.floyd :=
  ⟨(offNode_nodesStep ip port m).nodup hs.nodup, offNode_nd_ne_none hs.nd, offNode_mt_ne_none hs.mt⟩

theorem StoreOk.distribute {m : Meta} (hs : StoreOk m.floyd) {num : ℤ} {r : Status × Meta}
    (hd : distribute num m = some r) : StoreOk r.2.floyd := by
  have hnd := distribute_floyd_nd hd
  refine ⟨by simpa [Floyd.nodes, hnd] using hs.nodup, by rw [hnd]; exact hs.nd, ?_⟩
  rcases (distribute_mt hd).2 with h | ⟨_, _, -, -, -, h⟩ <;> simp [h, hs.mt]

@[simp] theorem updateStep_leaderFirstTime (p : Peer) (m : Meta) :
    (updateStep p m).1.leaderFirstTime = p.leaderFirstTime := by
  unfold updateStep; split <;> rfl

theorem StoreOk.update {m : Meta} (hs : StoreOk m.floyd) (p : Peer) :
    StoreOk (updateStep p m).2.floyd := by
  unfold updateStep
  split
  · exact hs
  · split
    · exact hs.addNode _ _
    · exact hs.offNode _ _

@[simp] theorem addNodeAlive_leaderFirstTime (now : ℤ) (ip : String) (port : ℤ) (p : Peer)
    (m : Meta) : (addNodeAlive now ip port p m).2.1.leaderFirstTime = p.leaderFirstTime := by
  simp only [addNodeAlive]; split <;> rfl

@[simp] theorem addNodeAlive_meta (now : ℤ) (ip : String) (port : ℤ) (p : Peer) (m : Meta) :
    (addNodeAlive now ip port p m).2.2 = (addNode ip port m).2 := by
  simp only [addNodeAlive]; split <;> rfl

@[simp] theorem updateNodeAlive_leaderFirstTime (now : ℤ) (e : Node) (p : Peer) :
    (updateNodeAlive now e p).2.leaderFirstTime = p.leaderFirstTime := by
  unfold updateNodeAlive; split <;> rfl

@[simp] theorem updateNodeAlive_updates (now : ℤ) (e : Node) (p : Peer) :
    (updateNodeAlive now e p).2.updates = p.updates := by
  unfold updateNodeAlive; split <;> rfl

/-- A `PING` only refreshes an endpoint already heard of. -/
@[simp] theorem mem_updateNodeAlive (now : ℤ) (e e' : Node) (p : Peer) :
    e' ∈ (updateNodeAlive now e p).2.nodeAlive ↔ e' ∈ p.nodeAlive := by
  unfold updateNodeAlive
  split
  · simp only [AList.mem_insert, or_iff_right_iff_imp]
    rintro rfl
    assumption
  · rfl

@[simp] theorem checkNodeAlive_leaderFirstTime (k now : ℤ) (p : Peer) :
    (checkNodeAlive k now p).leaderFirstTime = p.leaderFirstTime := rfl

/-- An endpoint a sweep keeps was heard of before, and got no task from the sweep. -/
theorem checkNodeAlive_kept {k now : ℤ} {p : Peer} {e : Node}
    (he : e ∈ (checkNodeAlive k now p).nodeAlive) :
    e ∈ p.nodeAlive ∧ lastTask e (checkNodeAlive k now p).updates = lastTask e p.updates := by
  simp only [checkNodeAlive] at he ⊢
  obtain ⟨hmem, hnot⟩ := (mem_foldl_erase e _ _).mp he
  refine ⟨hmem, ?_⟩
  rw [lastTask_append, lastTask_of_forall_ne, Option.none_or]
  intro t ht
  obtain ⟨e', he', rfl⟩ := List.mem_map.mp ht
  exact fun h => hnot (h ▸ he')

theorem redirectToLeader_peer (send recv : Option String) (p : Peer) :
    (redirectToLeader send recv p).2 = p ∨ (redirectToLeader send recv p).2 = cleanLeader p := by
  unfold redirectToLeader
  split
  · exact .inl rfl
  · split <;> simp

/-- **One event keeps a server healthy**, when the engine fails no call and a promotion
finds no `REMOVE` queued. -/
theorem Healthy.run {c : Config} {ev : Event} {now : ℤ} {p : Peer} {m : Meta} {r : Peer × Meta}
    (hh : Healthy p m.floyd)
    (hprom : p.leaderFirstTime = true → r.1.leaderFirstTime = false →
      ∀ t ∈ p.updates, t.2 ≠ .kOpRemove)
    (h : ev.run c now [] p m = some r) : Healthy r.1 r.2.floyd := by
  cases ev with
  | poll obs connected =>
    obtain rfl := Option.some.inj h
    obtain ⟨hfl, hup, hkeep | ⟨hpt, -, q, hq0, -, hqup, heq⟩⟩ :=
      isLeader_cases c.options c.shift obs connected now p { m with faults := [] }
    · refine ⟨by rw [hfl]; exact hh.store, fun hl => ?_⟩
      exact (hh.backed (hkeep.2.2 hl)).mono (by simp [hkeep.1]) (by simp [hup]) (by simp [hfl])
    · rw [heq] at hprom hfl ⊢
      obtain ⟨nodes, hnd⟩ := Option.ne_none_iff_exists'.mp hh.store.nd
      obtain ⟨hbf, hb⟩ := becomeLeader_cases now q { m with faults := [] }
      simp only [Meta.fails, List.headD_nil, if_false, Bool.false_eq_true, hnd, Option.elim_some] at hb
      refine ⟨by rw [hbf]; exact hh.store, fun _ => ?_⟩
      rw [hb.2.1, hbf, show nodes = m.floyd.nodes by simp [Floyd.nodes, hnd]]
      refine backed_restoreNodeAlive hh.store.nodup now fun t ht => hprom hpt ?_ t (hqup ▸ ht)
      rw [hb.2.1]
      exact hq0
  | redirect send recv =>
    obtain rfl := Option.some.inj h
    refine ⟨hh.store, fun hl => ?_⟩
    rcases redirectToLeader_peer send recv p with hp | hp <;> rw [hp] at hl ⊢ <;> exact hh.backed hl
  | update =>
    obtain rfl := Option.some.inj h
    exact ⟨@StoreOk.update { m with faults := [] } hh.store p,
      fun hl => backed_updateStep (hh.backed (by simpa using hl)) rfl⟩
  | join ip port =>
    simp only [Event.run] at h
    split at h <;> simp only [Option.some.injEq] at h <;> subst h
    · exact hh
    · rename_i hl
      refine ⟨by simpa using @StoreOk.addNode { m with faults := [] } hh.store ip port, fun _ => ?_⟩
      exact backed_addNodeAlive (hh.backed (by simpa using hl)) rfl hh.store.mt
  | ping e =>
    simp only [Event.run] at h
    split at h <;> simp only [Option.some.injEq] at h <;> subst h
    · exact hh
    · exact ⟨hh.store, fun hl => (hh.backed (by simpa using hl)).mono (by simp) (by simp)
        (fun _ _ _ => rfl)⟩
  | sweep =>
    simp only [Event.run] at h
    split at h <;> simp only [Option.some.injEq] at h <;> subst h
    · exact hh
    · exact ⟨hh.store, fun hl => (hh.backed (by simpa using hl)).mono
        (fun _ he => (checkNodeAlive_kept he).1) (fun _ he => (checkNodeAlive_kept he).2)
        (fun _ _ _ => rfl)⟩
  | init num =>
    simp only [Event.run] at h
    split at h
    · simp only [Option.some.injEq] at h
      subst h
      exact hh
    · obtain ⟨r', hd, rfl⟩ := Option.map_eq_some'.mp h
      refine ⟨@StoreOk.distribute { m with faults := [] } hh.store num r' hd,
        fun hl => (hh.backed hl).mono (fun _ h => h) (fun _ _ => rfl) (fun _ _ _ => ?_)⟩
      simp [Floyd.nodes, distribute_floyd_nd hd]

/-! ## Runs -/

theorem serveEvents_healthy {c : Config} {p p' : Peer} {m m' : Meta}
    {evs : List (Event × ℤ × List Bool)} (hh : Healthy p m.floyd)
    (hclean : cleanRun c p m evs = true) (h : serveEvents c p m evs = some (p', m')) :
    Healthy p' m'.floyd := by
  induction evs generalizing p m with
  | nil =>
    simp only [serveEvents, Option.some.injEq, Prod.mk.injEq] at h
    obtain ⟨rfl, rfl⟩ := h
    exact hh
  | cons x rest ih =>
    obtain ⟨ev, now, faults⟩ := x
    simp only [serveEvents, Option.bind_eq_some] at h
    obtain ⟨r, hr, hs⟩ := h
    simp only [cleanRun, hr, Bool.and_eq_true, List.isEmpty_iff] at hclean
    obtain ⟨rfl, hprom, hrest⟩ := hclean
    refine ih (hh.run (fun h1 h2 t ht => ?_) hr) hrest hs
    simp only [h1, h2, Bool.not_false, Bool.and_true, Bool.not_true, Bool.false_or,
      List.all_eq_true, bne_iff_ne, ne_eq] at hprom
    exact hprom t ht

/-- **A heartbeating endpoint is backed by the topology.** Over a run without engine
failures, from a healthy server (in particular any server that holds no leadership, once
`ND` and `MT` are written), in which every promotion finds no `REMOVE` queued: while the
server holds a leadership, every endpoint it has heard of is `UP` in `ND` or has an
`ADD` queued. Joined endpoints are assumed to round-trip through `IpPortString`, as
`addNodeAlive` says. -/
theorem liveness_backed {c : Config} {p p' : Peer} {m m' : Meta}
    {evs : List (Event × ℤ × List Bool)} (hh : Healthy p m.floyd)
    (hclean : cleanRun c p m evs = true) (h : serveEvents c p m evs = some (p', m'))
    (hl : p'.leaderFirstTime = false) :
    ∀ e ∈ p'.nodeAlive, statusOf m'.floyd.nodes e = some kNodeUp ∨ (e, .kOpAdd) ∈ p'.updates := by
  intro e he
  rcases (serveEvents_healthy hh hclean h).backed hl e he with h' | ⟨-, h'⟩
  · exact .inr (mem_of_lastTask h')
  · exact .inl h'

theorem liveness_backed_rejoin :
    ∃ p' m', serveEvents ⟨⟨"10.0.0.1", 9221⟩, ⟨1000, 100⟩, 30⟩ Peer.init
        ⟨⟨some [⟨⟨"10.0.0.5", 9221⟩, kNodeUp⟩], some ⟨0, [⟨0, ⟨"10.0.0.5", 9221⟩, []⟩]⟩, some 1,
          fun _ => none⟩, 0, []⟩
        [(.poll (.leader "10.0.0.1" 9321) true, 0, []), (.join "10.0.0.6" 9221, 1, []),
          (.update, 2, []), (.sweep, 40, []), (.join "10.0.0.6" 9221, 41, []), (.update, 42, []),
          (.update, 43, [])] = some (p', m') ∧
      ∀ e ∈ p'.nodeAlive, statusOf m'.floyd.nodes e = some kNodeUp ∨ (e, .kOpAdd) ∈ p'.updates := by
  refine ⟨_, _, rfl, ?_⟩
  exact @liveness_backed ⟨⟨"10.0.0.1", 9221⟩, ⟨1000, 100⟩, 30⟩ Peer.init _
    ⟨⟨some [⟨⟨"10.0.0.5", 9221⟩, kNodeUp⟩], some ⟨0, [⟨0, ⟨"10.0.0.5", 9221⟩, []⟩]⟩, some 1,
      fun _ => none⟩, 0, []⟩ _
    [(.poll (.leader "10.0.0.1" 9321) true, 0, []), (.join "10.0.0.6" 9221, 1, []),
      (.update, 2, []), (.sweep, 40, []), (.join "10.0.0.6" 9221, 41, []), (.update, 42, []),
      (.update, 43, [])]
    ⟨⟨by decide, by decide, by decide⟩, nofun⟩ (by decide) rfl rfl

/-- A `REMOVE` queued before the leader lost its leadership is applied after it took it
back: the endpoint the promotion heard of is `DOWN`, no `ADD` is queued, and its
heartbeats keep it in the map. -/
theorem readmitted_endpoint_stranded_down :
    ∃ p' m', serveEvents ⟨⟨"10.0.0.1", 9221⟩, ⟨1000, 100⟩, 30⟩ Peer.init
        ⟨⟨some [⟨⟨"10.0.0.5", 9221⟩, kNodeUp⟩], some ⟨0, [⟨0, ⟨"10.0.0.5", 9221⟩, []⟩]⟩, some 1,
          fun _ => none⟩, 0, []⟩
        [(.poll (.leader "10.0.0.1" 9321) true, 0, []), (.sweep, 100, []),
          (.poll (.leader "10.0.0.2" 9321) true, 101, []),
          (.poll (.leader "10.0.0.1" 9321) true, 102, []), (.update, 103, []),
          (.ping ⟨"10.0.0.5", 9221⟩, 104, [])] = some (p', m') ∧
      p'.leaderFirstTime = false ∧ (⟨"10.0.0.5", 9221⟩ : Node) ∈ p'.nodeAlive ∧
      statusOf m'.floyd.nodes ⟨"10.0.0.5", 9221⟩ = some kNodeDown ∧
      ((⟨"10.0.0.5", 9221⟩ : Node), UpdateOp.kOpAdd) ∉ p'.updates :=
  ⟨_, _, rfl, by decide, by decide, by decide, by decide⟩

end ZeppelinMeta
