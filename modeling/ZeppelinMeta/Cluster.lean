import ZeppelinMeta.Liveness

/-!
# Epochs across leader changes

Several meta servers share one consensus store; each keeps its own `Peer` state and its
own `version_`. The engine elects a leader; each server polls it (`IsLeader`), and the
leader serves the topology requests. A server reloads `version_` from `MT` only when a
poll finds it leader while `leader_first_time_` is set, which only a poll that found
another leader sets again. A server that lost the leadership and got it back without
polling in between keeps the epoch of its first term, and its next write of `MT` reuses
an epoch already persisted.

`cluster_epochs` shows that on the schedules that avoid this, and on which
`BecomeLeader`'s read of `ND` does not fail, every write of `MT` is at the persisted epoch
plus one, because the leader's `version_` is the persisted one whenever it writes.
-/

namespace ZeppelinMeta

/-! ## How a request moves the epoch -/

/-- How a request moves `MT` and `version_` together: both stay, or `MT` gets a table at
`version_ + 1` and `version_` advances to it. -/
def EpochStep (m m' : Meta) : Prop :=
  (m'.floyd.mt = m.floyd.mt ∧ m'.version = m.version) ∨
    ∃ t, m'.floyd.mt = some t ∧ t.version = m.version + 1 ∧ m'.version = m.version + 1

theorem EpochStep.congr {m m₁ m' : Meta} (h : EpochStep m₁ m') (hmt : m₁.floyd.mt = m.floyd.mt)
    (hv : m₁.version = m.version) : EpochStep m m' := by
  rw [EpochStep, ← hmt, ← hv]
  exact h

theorem epochStep_rewriteMSInfo (loop : List Partitions → List Partitions × Bool) (m : Meta) :
    EpochStep m (rewriteMSInfo loop m).2 := by
  rcases rewriteMSInfo_cases loop m with
    ⟨-, -, hf, hv⟩ | ⟨t, -, -, ⟨-, -, hf, hv⟩ | ⟨-, -, hf, hv⟩ | ⟨-, -, hf, hv⟩⟩
  · exact .inl ⟨by rw [hf], hv⟩
  · exact .inl ⟨by rw [hf], hv⟩
  · exact .inr ⟨_, by rw [hf], rfl, hv⟩
  · exact .inl ⟨by rw [hf], hv⟩

theorem epochStep_addNode (ip : String) (port : ℤ) (m : Meta) : EpochStep m (addNode ip port m).2 := by
  rcases addNode_cases ip port m with
    ⟨hf, hv, -⟩ | ⟨-, -, -, hf, hv⟩ | ⟨nodes, -, -, -, m1, hm1, hv1, -, heq⟩
  · exact .inl ⟨by rw [hf], hv⟩
  · exact .inl ⟨by simp [hf], hv⟩
  · rw [heq]
    exact (epochStep_rewriteMSInfo _ m1).congr (by simp [hm1]) hv1

theorem epochStep_offNode (ip : String) (port : ℤ) (m : Meta) : EpochStep m (offNode ip port m).2 := by
  rcases offNode_cases ip port m with ⟨-, hf, hv, -⟩ | ⟨nodes, -, -, m1, hm1, hv1, -, heq⟩
  · exact .inl ⟨by rw [hf], hv⟩
  · rw [heq]
    exact (epochStep_rewriteMSInfo _ m1).congr (by simp [hm1]) hv1

theorem epochStep_distribute {num : ℤ} {m : Meta} {r : Status × Meta}
    (hd : distribute num m = some r) : EpochStep m r.2 := by
  rcases distribute_cases num m hd with ⟨-, hf, hv⟩ |
    ⟨_, aliveNodes, -, -, -, -, k, -, ⟨-, -, -, hf, hv⟩ | ⟨rfl, mtOk, _, -, -, hf, hv⟩⟩
  · exact .inl ⟨by rw [hf], hv⟩
  · exact .inl ⟨by simp [hf], hv⟩
  · cases mtOk
    · exact .inl ⟨by simp [hf], by simp [hv]⟩
    · exact .inr ⟨⟨m.version + 1, (List.range num.toNat).map (distributePartition aliveNodes)⟩,
        by simp [hf], rfl, by simp [hv]⟩

/-- **Every topology request moves `MT` and `version_` together.** -/
theorem epochStep_run {c : Call} {faults : List Bool} {m : Meta} {r : Status × Meta}
    (h : c.run faults m = some r) : EpochStep m r.2 := by
  cases c with
  | addNode ip port => exact Option.some.inj h ▸ epochStep_addNode ip port _
  | offNode ip port => exact Option.some.inj h ▸ epochStep_offNode ip port _
  | distribute num => exact (epochStep_distribute h).congr rfl rfl

/-- A request never clears `ND`. -/
theorem run_nd_ne_none {c : Call} {faults : List Bool} {m : Meta} {r : Status × Meta}
    (h : c.run faults m = some r) (hnd : m.floyd.nd ≠ none) : r.2.floyd.nd ≠ none := by
  cases c with
  | addNode ip port => exact Option.some.inj h ▸ addNode_nd_ne_none hnd
  | offNode ip port => exact Option.some.inj h ▸ offNode_nd_ne_none hnd
  | distribute num => exact (distribute_floyd_nd h).symm ▸ hnd

/-- No request writes the first `MT` while `ND` is absent. -/
theorem run_mt_eq_none {c : Call} {faults : List Bool} {m : Meta} {r : Status × Meta}
    (h : c.run faults m = some r) (hnd : m.floyd.nd = none) (hmt : m.floyd.mt = none) :
    r.2.floyd.mt = none := by
  cases c with
  | addNode ip port =>
    rcases (addNode_floyd ip port { m with faults }).2.2 with h' | ⟨-, t, v, ht, -⟩
    · exact Option.some.inj h ▸ h'.trans hmt
    · simp [hmt] at ht
  | offNode ip port =>
    rcases (offNode_floyd ip port { m with faults }).2.2 with h' | ⟨_, hn, -⟩
    · exact Option.some.inj h ▸ h'.trans hmt
    · simp [hnd] at hn
  | distribute num =>
    rcases (distribute_mt h).2 with h' | ⟨_, _, hn, -⟩
    · exact h'.trans hmt
    · simp [hnd] at hn

/-- `IsLeader` leaves `version_` alone or reloads it from `MT`. -/
theorem isLeader_version (o : ZPOptions) (k : PortShift) (obs : Observation) (connected : Bool)
    (now : ℤ) (p : Peer) (m : Meta) :
    (isLeader o k obs connected now p m).2.2.version = m.version ∨
      (isLeader o k obs connected now p m).2.2.version = mtVersion m.floyd := by
  rcases (isLeader_cases o k obs connected now p m).2.2 with ⟨-, hv, -⟩ | ⟨-, -, q, -, -, -, heq⟩
  · exact .inl hv
  · rw [heq]
    have hb := (becomeLeader_cases now q m).2
    cases hf : m.fails <;> cases hnd : m.floyd.nd <;> simp [hf, hnd] at hb <;> simp [hb]

theorem mtVersion_of_mt_eq {f f' : Floyd} (h : f'.mt = f.mt) : mtVersion f' = mtVersion f := by
  simp [mtVersion, h]

theorem mtVersion_of_mt_none {f : Floyd} (h : f.mt = none) : mtVersion f = -1 := by
  simp [mtVersion, h]

/-- From a `version_` that is the persisted epoch, a request keeps it so, and a write of
`MT` is at the persisted epoch plus one. -/
theorem EpochStep.persisted {m m' : Meta} (h : EpochStep m m') (hv : m.version = mtVersion m.floyd) :
    m'.version = mtVersion m'.floyd ∧
      (m'.floyd.mt = m.floyd.mt ∨ mtVersion m'.floyd = mtVersion m.floyd + 1) := by
  rcases h with ⟨hmt, hv'⟩ | ⟨t, ht, htv, hv'⟩
  · exact ⟨by rw [hv', hv, mtVersion_of_mt_eq hmt], .inl hmt⟩
  · have hmv : mtVersion m'.floyd = m.version + 1 := by simp [mtVersion, ht, htv]
    exact ⟨by rw [hv', hmv], .inr (by rw [hmv, hv])⟩

/-- **One leader's run never reuses an epoch.** Serving any requests, with any failures of
the engine, from a `version_` that is the persisted epoch, leaves `version_` the persisted
epoch, and `MT` as it was or at an epoch above the one it had. -/
theorem serve_epochs {m m' : Meta} {cs : List (Call × List Bool)} {ss : List Status}
    (hv : m.version = mtVersion m.floyd) (h : serve m cs = some (ss, m')) :
    m'.version = mtVersion m'.floyd ∧
      (m'.floyd.mt = m.floyd.mt ∨ mtVersion m.floyd < mtVersion m'.floyd) := by
  refine serve_relation (fun m m' => m.version = mtVersion m.floyd →
      m'.version = mtVersion m'.floyd ∧
        (m'.floyd.mt = m.floyd.mt ∨ mtVersion m.floyd < mtVersion m'.floyd))
    (fun _ hv => ⟨hv, .inl rfl⟩) ?trans ?step h hv
  case trans =>
    intro m₁ m₂ m₃ h₁₂ h₂₃ hv₁
    obtain ⟨hv₂, h₁₂⟩ := h₁₂ hv₁
    obtain ⟨hv₃, h₂₃⟩ := h₂₃ hv₂
    refine ⟨hv₃, ?_⟩
    rcases h₁₂ with h₁₂ | h₁₂ <;> rcases h₂₃ with h₂₃ | h₂₃
    · exact .inl (h₂₃.trans h₁₂)
    · exact .inr (mtVersion_of_mt_eq h₁₂ ▸ h₂₃)
    · exact .inr (mtVersion_of_mt_eq h₂₃ ▸ h₁₂)
    · exact .inr (h₁₂.trans h₂₃)
  case step =>
    intro c faults _ m r hr hv
    obtain ⟨hv', h'⟩ := (epochStep_run hr).persisted hv
    exact ⟨hv', h'.imp id fun h => by omega⟩

theorem serve_epochs_init_then_fail :
    ∃ ss m', serve ⟨⟨some [⟨⟨"a", 1⟩, kNodeUp⟩], none, none, fun _ => none⟩, -1, []⟩
        [(.distribute 1, []), (.offNode "a" 1, []), (.addNode "a" 1, [false, false, true])] =
        some (ss, m') ∧
      m'.version = mtVersion m'.floyd ∧
      (m'.floyd.mt = none ∨ mtVersion ⟨some [⟨⟨"a", 1⟩, kNodeUp⟩], none, none, fun _ => none⟩ <
        mtVersion m'.floyd) := by
  refine ⟨_, _, rfl, ?_⟩
  exact @serve_epochs ⟨⟨some [⟨⟨"a", 1⟩, kNodeUp⟩], none, none, fun _ => none⟩, -1, []⟩ _
    [(.distribute 1, []), (.offNode "a" 1, []), (.addNode "a" 1, [false, false, true])] _ rfl rfl

/-! ## The cluster -/

/-- Meta servers sharing one store: the store, the server the engine elected (if any),
and each server's state with its `version_`. -/
structure Cluster where
  floyd : Floyd
  leader : Option ℕ
  peers : ℕ → Peer × ℤ

/-- The cluster before the engine elected anybody, once every server ran `Start`, whose
`InitVersion` set its `version_` from `MT`. -/
def Cluster.start (f : Floyd) : Cluster := ⟨f, none, fun _ => (Peer.init, mtVersion f)⟩

/-- What happens in a cluster. -/
inductive ClusterEvent where
  /-- The engine elects server `l`. -/
  | elect (l : ℕ)
  /-- Server `i` runs `IsLeader`, and a connect to a new leader succeeds or not. -/
  | poll (i : ℕ) (connected : Bool)
  /-- Server `i` serves a topology request. -/
  | call (i : ℕ) (c : Call)

/-- Serve `ev` at `now`, the engine answering as `faults` says. `GetLeader` reports the
elected server's consensus endpoint, its base port shifted by `kMetaPortShiftFY`; a poll
while nobody is elected waits and changes nothing yet. Only the elected server's
requests are runs of the model (`none` otherwise), and `none` is also a `Distribute`
that never returns. -/
def Cluster.step (k : PortShift) (options : ℕ → ZPOptions) (ev : ClusterEvent) (now : ℤ)
    (faults : List Bool) (s : Cluster) : Option Cluster :=
  match ev with
  | .elect l => some { s with leader := some l }
  | .poll i connected =>
    match s.leader with
    | none => some s
    | some l =>
      let r := isLeader (options i) k
        (.leader (options l).localIp ((options l).localPort + k.kMetaPortShiftFY)) connected now
        (s.peers i).1 ⟨s.floyd, (s.peers i).2, faults⟩
      some { s with
        floyd := r.2.2.floyd
        peers := Function.update s.peers i (r.2.1, r.2.2.version) }
  | .call i c =>
    if s.leader = some i then
      (c.run faults ⟨s.floyd, (s.peers i).2, []⟩).map fun r =>
        { s with floyd := r.2.floyd, peers := Function.update s.peers i ((s.peers i).1, r.2.version) }
    else none

/-- Serve the events in turn. -/
def runCluster (k : PortShift) (options : ℕ → ZPOptions) :
    Cluster → List (ClusterEvent × ℤ × List Bool) → Option Cluster
  | s, [] => some s
  | s, (ev, now, faults) :: rest =>
    (s.step k options ev now faults).bind fun s' => runCluster k options s' rest

/-- The events `cluster_epochs` allows: the engine elects a server only if that server
has polled another leader since it last took a leadership (or already leads), the first
read of a poll (`BecomeLeader`'s of `ND`) does not fail, and a server serves requests only
after a poll found it leader. -/
def ClusterEvent.allowed (s : Cluster) (faults : List Bool) : ClusterEvent → Bool
  | .elect l => (s.peers l).1.leaderFirstTime || s.leader == some l
  | .poll _ _ => !faults.headD false
  | .call i _ => !(s.peers i).1.leaderFirstTime

/-- Every event of the run is allowed where it happens. -/
def orderly (k : PortShift) (options : ℕ → ZPOptions) :
    Cluster → List (ClusterEvent × ℤ × List Bool) → Bool
  | _, [] => true
  | s, (ev, now, faults) :: rest =>
    ev.allowed s faults &&
      match s.step k options ev now faults with
      | none => true
      | some s' => orderly k options s' rest

/-- `P` holds of every step of the run. -/
def EveryStep (k : PortShift) (options : ℕ → ZPOptions) (P : Cluster → Cluster → Prop) :
    Cluster → List (ClusterEvent × ℤ × List Bool) → Prop
  | _, [] => True
  | s, (ev, now, faults) :: rest =>
    ∀ s', s.step k options ev now faults = some s' → P s s' ∧ EveryStep k options P s' rest

/-- The elected server's `version_` is the epoch of `MT` once a poll found it leader; no
`MT` is written while `ND` is absent; and until `MT` is written every server is at `-1`. -/
structure Synced (s : Cluster) : Prop where
  leader_version : ∀ i, s.leader = some i → (s.peers i).1.leaderFirstTime = false →
    (s.peers i).2 = mtVersion s.floyd
  nd_mt : s.floyd.nd = none → s.floyd.mt = none
  mt_versions : s.floyd.mt = none → ∀ i, (s.peers i).2 = -1

/-- `MT` stays, or gets a table at the epoch persisted before plus one. -/
def MtAdvances (f f' : Floyd) : Prop :=
  f'.mt = f.mt ∨ ∃ t, f'.mt = some t ∧ t.version = mtVersion f + 1

theorem synced_start (f : Floyd) (h : f.nd = none → f.mt = none) : Synced (Cluster.start f) :=
  ⟨fun _ => nofun, h, fun hmt _ => mtVersion_of_mt_none hmt⟩

theorem Synced.elect {s : Cluster} (hs : Synced s) {l : ℕ}
    (ha : (s.peers l).1.leaderFirstTime = true ∨ s.leader = some l) :
    Synced { s with leader := some l } := by
  refine ⟨fun i hi hl => ?_, hs.nd_mt, hs.mt_versions⟩
  obtain rfl : l = i := Option.some.inj hi
  rcases ha with h | h
  · simp [h] at hl
  · exact hs.leader_version l h hl

theorem Synced.poll {s : Cluster} (hs : Synced s) {k : PortShift} {options : ℕ → ZPOptions}
    {i : ℕ} {connected : Bool} {now : ℤ} {faults : List Bool} {s' : Cluster}
    (ha : faults.headD false = false) (h : s.step k options (.poll i connected) now faults = some s') :
    Synced s' ∧ MtAdvances s.floyd s'.floyd := by
  simp only [Cluster.step] at h
  split at h
  · cases h
    exact ⟨hs, .inl rfl⟩
  rename_i l hl
  simp only [Option.some.injEq] at h
  subst h
  have hm : Meta.fails ⟨s.floyd, (s.peers i).2, faults⟩ = false := ha
  obtain ⟨hfl, -, hcase⟩ := isLeader_cases (options i) k
    (.leader (options l).localIp ((options l).localPort + k.kMetaPortShiftFY)) connected now
    (s.peers i).1 ⟨s.floyd, (s.peers i).2, faults⟩
  have hv := isLeader_version (options i) k
    (.leader (options l).localIp ((options l).localPort + k.kMetaPortShiftFY)) connected now
    (s.peers i).1 ⟨s.floyd, (s.peers i).2, faults⟩
  generalize isLeader (options i) k _ connected now (s.peers i).1 ⟨s.floyd, (s.peers i).2, faults⟩ = r
    at hfl hcase hv ⊢
  simp only at hfl hv
  refine ⟨⟨fun j hj hlj => ?_, by simpa [hfl] using hs.nd_mt, fun hmt j => ?_⟩,
    .inl (congrArg Floyd.mt hfl)⟩
  · simp only [mtVersion_of_mt_eq (congrArg Floyd.mt hfl)] at hlj ⊢
    by_cases hji : j = i
    · subst hji
      simp only [Function.update_same] at hlj ⊢
      rcases hcase with ⟨-, hvs, hft⟩ | ⟨-, -, q, -, -, -, heq⟩
      · rw [hvs]
        exact hs.leader_version j hj (hft hlj)
      · have hb := (becomeLeader_cases now q ⟨s.floyd, (s.peers j).2, faults⟩).2
        rw [heq]
        cases hnd : s.floyd.nd with
        | none =>
          simp only [hm, hnd, Bool.false_eq_true, if_false, Option.elim_none] at hb
          rw [hb.2, hs.mt_versions (hs.nd_mt hnd) j, mtVersion_of_mt_none (hs.nd_mt hnd)]
        | some nodes =>
          simp only [hm, hnd, Bool.false_eq_true, if_false, Option.elim_some] at hb
          exact hb.2.2
    · simp only [Function.update_noteq hji] at hlj ⊢
      exact hs.leader_version j hj hlj
  · replace hmt : s.floyd.mt = none := by simpa [hfl] using hmt
    by_cases hji : j = i
    · subst hji
      simp only [Function.update_same]
      rcases hv with hv | hv <;> rw [hv]
      · exact hs.mt_versions hmt j
      · exact mtVersion_of_mt_none hmt
    · simpa only [Function.update_noteq hji] using hs.mt_versions hmt j

theorem Synced.call {s : Cluster} (hs : Synced s) {k : PortShift} {options : ℕ → ZPOptions}
    {i : ℕ} {c : Call} {now : ℤ} {faults : List Bool} {s' : Cluster}
    (ha : (s.peers i).1.leaderFirstTime = false)
    (h : s.step k options (.call i c) now faults = some s') :
    Synced s' ∧ MtAdvances s.floyd s'.floyd := by
  simp only [Cluster.step] at h
  split at h
  swap
  · cases h
  rename_i hi
  obtain ⟨r, hr, rfl⟩ := Option.map_eq_some'.mp h
  have hvi := hs.leader_version i hi ha
  have hep := epochStep_run hr
  refine ⟨⟨fun j hj _ => ?_, fun hnd' => ?_, fun hmt' j => ?_⟩, ?_⟩
  · -- the elected server is the one that served, and it wrote at the persisted epoch
    obtain rfl : i = j := Option.some.inj (hi.symm.trans hj)
    simpa only [Function.update_same] using (hep.persisted hvi).1
  · by_contra hne
    exact run_nd_ne_none hr (fun hnd => hne (run_mt_eq_none hr hnd (hs.nd_mt hnd))) hnd'
  · rcases hep with ⟨hmt, hv⟩ | ⟨t, ht, -⟩
    · replace hmt' : s.floyd.mt = none := hmt ▸ hmt'
      by_cases hji : j = i
      · subst hji
        simpa only [Function.update_same, hv] using hs.mt_versions hmt' j
      · simpa only [Function.update_noteq hji] using hs.mt_versions hmt' j
    · simp [ht] at hmt'
  · rcases hep with ⟨hmt, -⟩ | ⟨t, ht, htv, -⟩
    · exact .inl hmt
    · exact .inr ⟨t, ht, by rw [htv, hvi]⟩

/-- **One allowed event keeps the cluster synced**, and moves the epoch of `MT` by one or
not at all. -/
theorem Synced.step {s : Cluster} (hs : Synced s) {k : PortShift} {options : ℕ → ZPOptions}
    {ev : ClusterEvent} {now : ℤ} {faults : List Bool} {s' : Cluster}
    (ha : ev.allowed s faults = true) (h : s.step k options ev now faults = some s') :
    Synced s' ∧ MtAdvances s.floyd s'.floyd := by
  cases ev with
  | elect l =>
    simp only [Cluster.step, Option.some.injEq] at h
    subst h
    exact ⟨hs.elect (by simpa [ClusterEvent.allowed] using ha), .inl rfl⟩
  | poll i connected => exact hs.poll (by simpa [ClusterEvent.allowed] using ha) h
  | call i c => exact hs.call (by simpa [ClusterEvent.allowed] using ha) h

/-- **Epochs advance by one across leader changes.** From a synced cluster (in particular
one that just started), over any run of elections, polls and requests in which the
engine never hands the leadership back to a server that has not polled another leader
since its last term, `BecomeLeader`'s read of `ND` does not fail, and servers serve
requests only after a poll found them leader: at every step the cluster stays synced,
so the writer's `version_` is the epoch of `MT`, and `MT` keeps its table or gets one at
the epoch persisted before plus one. -/
theorem cluster_epochs {k : PortShift} {options : ℕ → ZPOptions} {s : Cluster}
    {evs : List (ClusterEvent × ℤ × List Bool)} (hs : Synced s)
    (hord : orderly k options s evs = true) :
    EveryStep k options (fun s s' => Synced s' ∧ MtAdvances s.floyd s'.floyd) s evs := by
  induction evs generalizing s with
  | nil => trivial
  | cons x rest ih =>
    obtain ⟨ev, now, faults⟩ := x
    intro s' h
    simp only [orderly, h, Bool.and_eq_true] at hord
    have hstep := hs.step hord.1 h
    exact ⟨hstep, ih hstep.1 hord.2⟩

theorem cluster_epochs_failover :
    EveryStep ⟨1000, 100⟩ (fun i => if i = 0 then ⟨"10.0.0.1", 9221⟩ else ⟨"10.0.0.2", 9221⟩)
      (fun s s' => Synced s' ∧ MtAdvances s.floyd s'.floyd)
      (Cluster.start ⟨some [⟨⟨"10.0.1.5", 8001⟩, kNodeUp⟩, ⟨⟨"10.0.1.6", 8001⟩, kNodeUp⟩],
        some ⟨0, [⟨0, ⟨"10.0.1.5", 8001⟩, [⟨"10.0.1.6", 8001⟩]⟩]⟩, some 1, fun _ => none⟩)
      [(.elect 0, 0, []), (.poll 0 true, 1, []), (.elect 1, 2, []), (.poll 0 true, 3, []),
        (.poll 1 true, 4, [false, true]), (.call 1 (.offNode "10.0.1.5" 8001), 5, []),
        (.poll 0 false, 6, []), (.elect 0, 7, []), (.poll 0 true, 8, []),
        (.call 0 (.offNode "10.0.1.6" 8001), 9, [])] :=
  cluster_epochs (synced_start _ nofun) (by decide)

/-- A server elected again without having polled the other leader keeps the epoch of its
first term, and writes `MT` at an epoch already persisted. -/
theorem stale_leader_reuses_epoch :
    ∃ s₁ s₂, runCluster ⟨1000, 100⟩
        (fun i => if i = 0 then ⟨"10.0.0.1", 9221⟩ else ⟨"10.0.0.2", 9221⟩)
        (Cluster.start ⟨some [⟨⟨"10.0.1.5", 8001⟩, kNodeUp⟩, ⟨⟨"10.0.1.6", 8001⟩, kNodeUp⟩],
          some ⟨0, [⟨0, ⟨"10.0.1.5", 8001⟩, [⟨"10.0.1.6", 8001⟩]⟩]⟩, some 1, fun _ => none⟩)
        [(.elect 0, 0, []), (.poll 0 true, 1, []), (.elect 1, 2, []), (.poll 1 true, 3, []),
          (.call 1 (.offNode "10.0.1.5" 8001), 4, []), (.elect 0, 5, []), (.poll 0 true, 6, [])] =
        some s₁ ∧
      s₁.step ⟨1000, 100⟩ (fun i => if i = 0 then ⟨"10.0.0.1", 9221⟩ else ⟨"10.0.0.2", 9221⟩)
        (.call 0 (.offNode "10.0.1.6" 8001)) 7 [] = some s₂ ∧
      s₂.floyd.mt ≠ s₁.floyd.mt ∧ mtVersion s₂.floyd = mtVersion s₁.floyd :=
  ⟨_, _, rfl, rfl, by decide, by decide⟩

end ZeppelinMeta
