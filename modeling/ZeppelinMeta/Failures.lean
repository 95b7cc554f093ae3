import ZeppelinMeta.Run

/-!
# Failed requests

A request writes several keys one after the other and undoes none of them when a later
step fails. `SetNodeStatus` writes `ND` before `OnNode` reads `MT`, so `AddNode` and
`OffNode` can fail with the node's new status written (before `INIT` the read of `MT`
always fails); `Distribute` can fail after writing some `PART:<i>`, or after writing
`MT` and advancing `version_`, when the write of `PN` fails. What a failed request leaves
is still narrow, and is stated here per request.

Two slips of the source are shown on concrete runs: `Distribute` only logs a failed
`SetMSInfo` and reports `OK` when `PN` is then written, and `PartitionNums` reads a failed
read of `PN` as `0`, so a later `Distribute` whose read fails runs again.
-/

namespace ZeppelinMeta

open List

/-! ## What a failed request leaves -/

/-- A failed `AddNode` leaves `version_` and every key but `ND` alone, and `ND` as it was
or with the node set `UP`. -/
theorem addNode_failed {ip : String} {port : ℤ} {m : Meta} (h : (addNode ip port m).1 ≠ .ok) :
    (addNode ip port m).2.version = m.version ∧
    (addNode ip port m).2.floyd = { m.floyd with nd := (addNode ip port m).2.floyd.nd } ∧
    ((addNode ip port m).2.floyd.nd = m.floyd.nd ∨ ∃ nodes, m.floyd.nd = some nodes ∧
      (addNode ip port m).2.floyd.nd = some (setStatus ip port kNodeUp nodes)) := by
  rcases addNode_cases ip port m with
    ⟨hf, hv, -⟩ | ⟨-, -, hok, -⟩ | ⟨nodes, hnd, -, -, m1, hm1, hv1, -, heq⟩
  · exact ⟨hv, by rw [hf], .inl (by rw [hf])⟩
  · exact absurd hok h
  · rw [heq] at h ⊢
    have hon : (onNode ip port m1).1 ≠ .ok := fun hon => h (by simp [hon])
    rcases rewriteMSInfo_cases (onNodeInfo ip port) m1 with
      ⟨-, -, hfl, hv⟩ | ⟨t, -, -, ⟨-, hok, -⟩ | ⟨-, hok, -⟩ | ⟨-, -, hfl, hv⟩⟩
    · exact ⟨by simp [onNode, hv, hv1], by simp [onNode, hfl, hm1],
        .inr ⟨nodes, hnd, by simp [onNode, hfl, hm1]⟩⟩
    · exact absurd hok hon
    · exact absurd hok hon
    · exact ⟨by simp [onNode, hv, hv1], by simp [onNode, hfl, hm1],
        .inr ⟨nodes, hnd, by simp [onNode, hfl, hm1]⟩⟩

/-- A failed `OffNode` leaves `version_` and every key but `ND` alone, and `ND` as it was
or with the node set `DOWN`. -/
theorem offNode_failed {ip : String} {port : ℤ} {m : Meta} (h : (offNode ip port m).1 ≠ .ok) :
    (offNode ip port m).2.version = m.version ∧
    (offNode ip port m).2.floyd = { m.floyd with nd := (offNode ip port m).2.floyd.nd } ∧
    ((offNode ip port m).2.floyd.nd = m.floyd.nd ∨ ∃ nodes, m.floyd.nd = some nodes ∧
      (offNode ip port m).2.floyd.nd = some (setStatus ip port kNodeDown nodes)) := by
  rcases offNode_cases ip port m with
    ⟨-, hf, hv, -⟩ | ⟨nodes, hnd, -, m1, hm1, hv1, -, heq⟩
  · exact ⟨hv, by rw [hf], .inl (by rw [hf])⟩
  · rw [heq] at h ⊢
    rcases rewriteMSInfo_cases (offNodeInfo (getAllAliveNode nodes) ip port) m1 with
      ⟨-, -, hfl, hv⟩ | ⟨t, -, -, ⟨-, hok, -⟩ | ⟨-, hok, -⟩ | ⟨-, -, hfl, hv⟩⟩
    · exact ⟨by rw [hv, hv1], by simp [hfl, hm1], .inr ⟨nodes, hnd, by simp [hfl, hm1]⟩⟩
    · exact absurd hok h
    · exact absurd hok h
    · exact ⟨by rw [hv, hv1], by simp [hfl, hm1], .inr ⟨nodes, hnd, by simp [hfl, hm1]⟩⟩

/-- A failed `Distribute` leaves `ND` and `PN` alone. It either changed nothing, or it
read `ND`, placed its `UP` nodes with `Reorganize`, wrote the replica sets of the first `k`
partitions, and has either left `MT` and `version_` alone or written all replica sets and
the new table at `version_ + 1`. -/
theorem distribute_failed {num : ℤ} {m : Meta} {r : Status × Meta}
    (hd : distribute num m = some r) (h : r.1 ≠ .ok) :
    r.2.floyd.nd = m.floyd.nd ∧ r.2.floyd.pn = m.floyd.pn ∧
    ((r.2.floyd = m.floyd ∧ r.2.version = m.version) ∨
      ∃ nodes aliveNodes, m.floyd.nd = some nodes ∧
        reorganize (getAllAliveNode nodes) = some aliveNodes ∧ ∃ k ≤ num.toNat,
        r.2.floyd.part = writeParts aliveNodes (range k) m.floyd.part ∧
        ((r.2.floyd.mt = m.floyd.mt ∧ r.2.version = m.version) ∨
          (k = num.toNat ∧ r.2.floyd.mt =
              some ⟨m.version + 1, (range num.toNat).map (distributePartition aliveNodes)⟩ ∧
            r.2.version = m.version + 1))) := by
  rcases distribute_cases num m hd with ⟨-, hfl, hv⟩ |
    ⟨nodes, aliveNodes, hnd, -, hre, -, k, hk, ⟨-, -, -, hfl, hv⟩ | ⟨rfl, mtOk, pnOk, -, hs, hfl, hv⟩⟩
  · exact ⟨by rw [hfl], by rw [hfl], .inl ⟨hfl, hv⟩⟩
  · exact ⟨by rw [hfl], by rw [hfl],
      .inr ⟨nodes, aliveNodes, hnd, hre, k, hk, by rw [hfl], .inl ⟨by rw [hfl], hv⟩⟩⟩
  · have hpn : pnOk = false := by
      cases pnOk
      · rfl
      · exact absurd (by simpa using hs) h
    refine ⟨by rw [hfl], by simp [hfl, hpn],
      .inr ⟨nodes, aliveNodes, hnd, hre, num.toNat, le_refl _, by rw [hfl], ?_⟩⟩
    cases mtOk
    · exact .inl ⟨by simp [hfl], by simpa using hv⟩
    · exact .inr ⟨rfl, by simp [hfl], by simpa using hv⟩

/-- **What a failed request leaves**, in any state and with any failures: a failed
`AddNode` or `OffNode` leaves `version_`, `MT`, `PN` and every `PART:<i>` as they were,
and `ND` as it was or with the operated node's entry set `UP` (`AddNode`) or `DOWN`
(`OffNode`); a failed `Distribute` leaves `ND` and `PN` as they were, and either changed
nothing else or, from the `Reorganize`d `UP` nodes of `ND`, has written the replica sets of
a prefix of the partitions and has left `MT` and `version_` alone or written the new table
at `version_ + 1` after all the replica sets. -/
theorem failed_request_effects (ip : String) (port num : ℤ) (m : Meta) :
    ((addNode ip port m).1 ≠ .ok →
      (addNode ip port m).2.version = m.version ∧
      (addNode ip port m).2.floyd = { m.floyd with nd := (addNode ip port m).2.floyd.nd } ∧
      ((addNode ip port m).2.floyd.nd = m.floyd.nd ∨ ∃ nodes, m.floyd.nd = some nodes ∧
        (addNode ip port m).2.floyd.nd = some (setStatus ip port kNodeUp nodes))) ∧
    ((offNode ip port m).1 ≠ .ok →
      (offNode ip port m).2.version = m.version ∧
      (offNode ip port m).2.floyd = { m.floyd with nd := (offNode ip port m).2.floyd.nd } ∧
      ((offNode ip port m).2.floyd.nd = m.floyd.nd ∨ ∃ nodes, m.floyd.nd = some nodes ∧
        (offNode ip port m).2.floyd.nd = some (setStatus ip port kNodeDown nodes))) ∧
    (∀ r, distribute num m = some r → r.1 ≠ .ok →
      r.2.floyd.nd = m.floyd.nd ∧ r.2.floyd.pn = m.floyd.pn ∧
      ((r.2.floyd = m.floyd ∧ r.2.version = m.version) ∨
        ∃ nodes aliveNodes, m.floyd.nd = some nodes ∧
          reorganize (getAllAliveNode nodes) = some aliveNodes ∧ ∃ k ≤ num.toNat,
          r.2.floyd.part = writeParts aliveNodes (range k) m.floyd.part ∧
          ((r.2.floyd.mt = m.floyd.mt ∧ r.2.version = m.version) ∨
            (k = num.toNat ∧ r.2.floyd.mt =
                some ⟨m.version + 1, (range num.toNat).map (distributePartition aliveNodes)⟩ ∧
              r.2.version = m.version + 1)))) :=
  ⟨addNode_failed, offNode_failed, fun _ hd h => distribute_failed hd h⟩

/-- `Distribute(2)` on three nodes, the write of `PART:1` failing: it answers
`floyd set error!` with `PART:0` written from the placement of the three nodes, and no
table in `MT`. -/
theorem failed_request_effects_second_part :
    let m : Meta := ⟨⟨some [⟨⟨"a", 1⟩, kNodeUp⟩, ⟨⟨"b", 1⟩, kNodeUp⟩, ⟨⟨"c", 1⟩, kNodeUp⟩], none,
      none, fun _ => none⟩, 0, [false, false, false, true]⟩
    ∃ r, distribute 2 m = some r ∧ r.1 = .corruption "floyd set error!" ∧
      r.2.floyd.part 0 ≠ none ∧ r.2.floyd.part 1 = none ∧ r.2.floyd.mt = none ∧
      r.2.floyd.nd = m.floyd.nd ∧ r.2.floyd.pn = m.floyd.pn ∧
      ((r.2.floyd = m.floyd ∧ r.2.version = m.version) ∨
        ∃ nodes aliveNodes, m.floyd.nd = some nodes ∧
          reorganize (getAllAliveNode nodes) = some aliveNodes ∧ ∃ k ≤ (2 : ℤ).toNat,
          r.2.floyd.part = writeParts aliveNodes (range k) m.floyd.part ∧
          ((r.2.floyd.mt = m.floyd.mt ∧ r.2.version = m.version) ∨
            (k = (2 : ℤ).toNat ∧ r.2.floyd.mt =
                some ⟨m.version + 1, (range (2 : ℤ).toNat).map (distributePartition aliveNodes)⟩ ∧
              r.2.version = m.version + 1))) :=
  ⟨_, rfl, rfl, by decide, rfl, rfl, (failed_request_effects "a" 1 2 _).2.2 _ rfl (by decide)⟩

/-- Before `INIT`, with no failure, `OffNode` marks the node `DOWN` and then fails to
read `MT`. -/
theorem offNode_fails_after_writing_nodes :
    offNode "a" 1 ⟨⟨some [⟨⟨"a", 1⟩, kNodeUp⟩], none, none, fun _ => none⟩, 0, []⟩ =
      (.corruption "Read full_meta failed!",
        ⟨⟨some [⟨⟨"a", 1⟩, kNodeDown⟩], none, none, fun _ => none⟩, 0, []⟩) :=
  rfl

/-! ## Two slips -/

/-- `Distribute` on one node, the write of `MT` failing and every other call succeeding:
it reports `OK` with `PN` written, but no table in `MT` and `version_` not advanced. -/
theorem distribute_ok_without_table :
    ∃ m', distribute 1 ⟨⟨some [⟨⟨"a", 1⟩, kNodeUp⟩], none, none, fun _ => none⟩, 0,
        [false, false, false, true]⟩ = some (.ok, m') ∧
      m'.floyd.mt = none ∧ m'.floyd.pn = some 1 ∧ m'.version = 0 :=
  ⟨_, rfl, rfl, rfl, rfl⟩

/-- After a `Distribute(1)` that returned `OK`, a second `Distribute(1)` whose read of `PN`
fails takes it for `0` and runs again: it reports `OK`, rewrites `MT` and advances
`version_`. -/
theorem distribute_runs_again_when_pn_read_fails :
    ∃ m1 m2, distribute 1 ⟨⟨some [⟨⟨"a", 1⟩, kNodeUp⟩], none, none, fun _ => none⟩, 0, []⟩ =
        some (.ok, m1) ∧
      distribute 1 { m1 with faults := [true] } = some (.ok, m2) ∧
      m2.version = m1.version + 1 ∧ m2.floyd.mt ≠ m1.floyd.mt :=
  ⟨_, _, rfl, rfl, rfl, by decide⟩

/-! ## `INIT` is accepted once -/

/-- Once `PN` holds a count, a `Distribute` whose read of it succeeds is refused and calls
the engine no further. -/
theorem distribute_of_pn {num n : ℤ} {m : Meta} (hf : m.fails = false) (hn : m.floyd.pn = some n)
    (h0 : n ≠ 0) : distribute num m = some (.corruption "Already Distribute", m.next) := by
  simp [distribute, partitionNums_eq, hf, hn, h0]

/-- The step of `init_written_once`: a request keeps `PN` and every `PART:<i>`, and a
`Distribute` that reads `PN` is refused. -/
theorem run_of_pn {c : Call} {faults : List Bool} {m : Meta} {r : Status × Meta} {n : ℤ}
    (hn : m.floyd.pn = some n) (h0 : n ≠ 0)
    (hread : ∀ num, c = .distribute num → faults.headD false = false)
    (h : c.run faults m = some r) :
    r.2.floyd.pn = m.floyd.pn ∧ r.2.floyd.part = m.floyd.part ∧
      ∀ num, c = .distribute num → r.1 = .corruption "Already Distribute" := by
  cases c with
  | addNode ip port =>
    obtain rfl := Option.some.inj h
    exact ⟨(addNode_floyd ip port _).1, (addNode_floyd ip port _).2.1, nofun⟩
  | offNode ip port =>
    obtain rfl := Option.some.inj h
    exact ⟨(offNode_floyd ip port _).1, (offNode_floyd ip port _).2.1, nofun⟩
  | distribute num =>
    obtain rfl := Option.some.inj
      ((@distribute_of_pn num n { m with faults } (hread num rfl) hn h0).symm.trans h)
    exact ⟨rfl, rfl, fun _ _ => rfl⟩

/-- **`INIT` is accepted once.** Once `PN` holds a count, over any run of requests whose
`Distribute`s read `PN` without failure, `PN` and every `PART:<i>` keep their values and
every `Distribute` is answered `Already Distribute`. -/
theorem init_written_once {m m' : Meta} {cs : List (Call × List Bool)} {ss : List Status} {n : ℤ}
    (hn : m.floyd.pn = some n) (h0 : n ≠ 0)
    (hread : ∀ num faults, (.distribute num, faults) ∈ cs → faults.headD false = false)
    (h : serve m cs = some (ss, m')) :
    m'.floyd.pn = m.floyd.pn ∧ m'.floyd.part = m.floyd.part ∧
      Forall₂ (fun x s => ∀ num, x.1 = .distribute num → s = .corruption "Already Distribute")
        cs ss := by
  induction cs generalizing m ss with
  | nil =>
    simp only [serve, Option.some.injEq, Prod.mk.injEq] at h
    obtain ⟨rfl, rfl⟩ := h
    exact ⟨rfl, rfl, .nil⟩
  | cons x rest ih =>
    obtain ⟨r, hr, ss', rfl, hs⟩ := serve_cons h
    obtain ⟨hpn, hpart, hst⟩ :=
      run_of_pn hn h0 (fun num hc => hread num x.2 (hc ▸ .head _)) hr
    obtain ⟨hpn', hpart', hall⟩ :=
      ih (hpn.trans hn) (fun num f hm => hread num f (.tail _ hm)) hs
    exact ⟨hpn'.trans hpn, hpart'.trans hpart, .cons hst hall⟩

theorem init_written_once_after_init :
    ∃ ss m', serve ⟨⟨some [⟨⟨"a", 1⟩, kNodeUp⟩], none, some 1, fun _ => none⟩, 0, []⟩
        [(.distribute 2, []), (.offNode "a" 1, []), (.distribute 3, [false, true])] =
        some (ss, m') ∧
      m'.floyd.pn = some 1 ∧ m'.floyd.part = (fun _ => none) ∧
      Forall₂ (fun x s => ∀ num, x.1 = Call.distribute num → s = .corruption "Already Distribute")
        [(.distribute 2, []), (.offNode "a" 1, []), (.distribute 3, [false, true])] ss := by
  refine ⟨_, _, rfl, ?_⟩
  exact @init_written_once ⟨⟨some [⟨⟨"a", 1⟩, kNodeUp⟩], none, some 1, fun _ => none⟩, 0, []⟩ _
    [(.distribute 2, []), (.offNode "a" 1, []), (.distribute 3, [false, true])] _ 1 rfl
    (by decide) (fun _ _ hm => by simp at hm; rcases hm with ⟨-, rfl⟩ | ⟨-, rfl⟩ <;> rfl) rfl

end ZeppelinMeta
