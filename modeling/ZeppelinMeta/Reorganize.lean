import ZeppelinMeta.NodesTable
import Mathlib.Data.List.Perm.Subperm

/-!
# `Reorganize`: spreading the alive nodes over hosts

`Distribute` places partitions on the list `Reorganize` builds from the `UP` entries of
the nodes table. `Reorganize` puts the entries in buckets by ip (a `std::map`, so the
buckets are ordered by ip), then loops over the map again and again, moving the last
entry of each non-empty bucket to the output and adding one to `empty_count` for each
empty bucket it meets. It stops at the first test that finds `empty_count == msize`.

`empty_count` is never reset between passes, so the loop can stop early (leaving entries
in their buckets) or, once `empty_count` has passed `msize`, never stop. The model
counts the tests with a fuel argument and answers `none` when the fuel runs out.

What `Distribute` needs from the output is proved here: it is a sub-multiset of the
input, it is empty only for an empty input, and it has at least three entries when the
input does.
-/

namespace ZeppelinMeta

open List

/-- The buckets of `Reorganize`, ip to entries in input order, ordered by ip. -/
abbrev Buckets := List (String × List NodeStatus)

/-- `std::less<std::string>`, the order of the map's keys: lexicographic on characters,
which on UTF-8 text is the order of the bytes. -/
def ipLess (a b : String) : Bool := @decide _ (String.decLt a b)

/-- `m.find(ip)` then `push_back` or `insert`: add `ns` to the bucket of its ip. -/
def bucketInsert (ns : NodeStatus) : Buckets → Buckets
  | [] => [(ns.node.ip, [ns])]
  | (ip, b) :: rest =>
    if ns.node.ip = ip then (ip, b ++ [ns]) :: rest
    else if ipLess ns.node.ip ip then (ns.node.ip, [ns]) :: (ip, b) :: rest
    else (ip, b) :: bucketInsert ns rest

/-- The first loop of `Reorganize`: every entry of `t_alive_nodes` into its bucket. -/
def buckets (tAliveNodes : List NodeStatus) : Buckets :=
  tAliveNodes.foldl (fun m ns => bucketInsert ns m) []

/-- One pass of the `for` over the map: an empty bucket adds one to `empty_count`; a
non-empty one moves its last entry to `alive_nodes`. -/
def reorganizePass : Buckets → ℕ → List NodeStatus → Buckets × ℕ × List NodeStatus
  | [], emptyCount, aliveNodes => ([], emptyCount, aliveNodes)
  | (ip, b) :: rest, emptyCount, aliveNodes =>
    match b.getLast? with
    | none =>
      let r := reorganizePass rest (emptyCount + 1) aliveNodes
      ((ip, b) :: r.1, r.2)
    | some x =>
      let r := reorganizePass rest emptyCount (aliveNodes ++ [x])
      ((ip, b.dropLast) :: r.1, r.2)

/-- The `while (true)` of `Reorganize`, allowed `fuel` tests of `empty_count == msize`. -/
def reorganizeLoop (msize : ℕ) : ℕ → Buckets → ℕ → List NodeStatus → Option (List NodeStatus)
  | 0, _, _, _ => none
  | fuel + 1, m, emptyCount, aliveNodes =>
    if emptyCount = msize then some aliveNodes
    else
      let r := reorganizePass m emptyCount aliveNodes
      reorganizeLoop msize fuel r.1 r.2.1 r.2.2

/-- `ZPMetaServer::Reorganize` into an empty `alive_nodes`, with `|t_alive_nodes| + 2`
tests: by then every bucket is empty, so a loop that has not stopped never will. -/
def reorganize (tAliveNodes : List NodeStatus) : Option (List NodeStatus) :=
  let m := buckets tAliveNodes
  reorganizeLoop m.length (tAliveNodes.length + 2) m 0 []

/-- The entries still in the buckets. -/
def bucketEntries (m : Buckets) : List NodeStatus := m.flatMap Prod.snd

/-! ## The buckets -/

theorem entries_bucketInsert (ns : NodeStatus) (m : Buckets) :
    bucketEntries (bucketInsert ns m) ~ ns :: bucketEntries m := by
  induction m with
  | nil => simp [bucketInsert, bucketEntries]
  | cons hd rest ih =>
    obtain ⟨ip, b⟩ := hd
    simp only [bucketInsert]
    split_ifs
    · simp [bucketEntries]
    · simp [bucketEntries]
    · simpa [bucketEntries] using (ih.append_left b).trans perm_middle

theorem entries_buckets (tAliveNodes : List NodeStatus) :
    bucketEntries (buckets tAliveNodes) ~ tAliveNodes := by
  suffices ∀ acc : Buckets, bucketEntries (tAliveNodes.foldl (fun m ns => bucketInsert ns m) acc) ~
      bucketEntries acc ++ tAliveNodes by simpa [bucketEntries] using this []
  induction tAliveNodes with
  | nil => simp
  | cons ns rest ih =>
    intro acc
    refine (ih _).trans ?_
    simpa using ((entries_bucketInsert ns acc).append_right rest).trans perm_middle.symm

/-- No bucket is empty before the second loop starts. -/
theorem bucketInsert_ne_nil (ns : NodeStatus) (m : Buckets) (h : ∀ q ∈ m, q.2 ≠ []) :
    ∀ q ∈ bucketInsert ns m, q.2 ≠ [] := by
  induction m with
  | nil => simp [bucketInsert]
  | cons hd rest ih =>
    obtain ⟨ip, b⟩ := hd
    rw [forall_mem_cons] at h
    simp only [bucketInsert]
    split_ifs
    · exact forall_mem_cons.2 ⟨by simp, h.2⟩
    · exact forall_mem_cons.2 ⟨by simp, forall_mem_cons.2 h⟩
    · exact forall_mem_cons.2 ⟨h.1, ih h.2⟩

theorem buckets_ne_nil (tAliveNodes : List NodeStatus) :
    ∀ q ∈ buckets tAliveNodes, q.2 ≠ [] := by
  suffices ∀ acc : Buckets, (∀ q ∈ acc, q.2 ≠ []) →
      ∀ q ∈ tAliveNodes.foldl (fun m ns => bucketInsert ns m) acc, q.2 ≠ [] from
    this [] (by simp)
  induction tAliveNodes with
  | nil => simp
  | cons ns rest ih => exact fun acc h => ih _ (bucketInsert_ne_nil ns acc h)

/-! ## One pass -/

private theorem eq_dropLast_append_of_getLast? {b : List NodeStatus} {x : NodeStatus}
    (h : b.getLast? = some x) : b = b.dropLast ++ [x] := by
  induction b using reverseRecOn <;> simp_all

/-- A pass moves entries from the buckets to the output and loses none. -/
theorem reorganizePass_perm (m : Buckets) (emptyCount : ℕ) (aliveNodes : List NodeStatus) :
    (reorganizePass m emptyCount aliveNodes).2.2 ++
      bucketEntries (reorganizePass m emptyCount aliveNodes).1 ~
      aliveNodes ++ bucketEntries m := by
  induction m generalizing emptyCount aliveNodes with
  | nil => simp [reorganizePass]
  | cons hd rest ih =>
    obtain ⟨ip, b⟩ := hd
    simp only [reorganizePass]
    split
    · rename_i hb
      have hb' : b = [] := by simpa using hb
      simpa [bucketEntries, hb'] using ih (emptyCount + 1) aliveNodes
    · rename_i x hb
      have ih := perm_iff_count.mp (ih emptyCount (aliveNodes ++ [x]))
      rw [perm_iff_count]
      intro a
      have := congrArg (count a) (eq_dropLast_append_of_getLast? hb)
      have := ih a
      simp only [bucketEntries, flatMap_cons, count_append] at *
      omega

/-- **A pass in closed form**: every bucket loses its last entry, every empty bucket adds
one to `empty_count`, and the last entries are appended in bucket order. -/
theorem reorganizePass_eq (m : Buckets) (emptyCount : ℕ) (aliveNodes : List NodeStatus) :
    reorganizePass m emptyCount aliveNodes =
      (m.map fun q => (q.1, q.2.dropLast),
        emptyCount + (m.filter fun q => q.2 = []).length,
        aliveNodes ++ m.filterMap fun q => q.2.getLast?) := by
  induction m generalizing emptyCount aliveNodes with
  | nil => simp [reorganizePass]
  | cons hd rest ih =>
    obtain ⟨ip, b⟩ := hd
    simp only [reorganizePass]
    split
    · rename_i hb
      have hb' : b = [] := by simpa using hb
      subst hb'
      simp [ih]
      omega
    · rename_i x hb
      have hb' : b ≠ [] := by rintro rfl; simp at hb
      simp [ih, hb, hb']

/-! ## The loop -/

theorem reorganizeLoop_succ_of_ne {msize fuel emptyCount : ℕ} {m : Buckets}
    {aliveNodes : List NodeStatus} (h : emptyCount ≠ msize) :
    reorganizeLoop msize (fuel + 1) m emptyCount aliveNodes =
      reorganizeLoop msize fuel (reorganizePass m emptyCount aliveNodes).1
        (reorganizePass m emptyCount aliveNodes).2.1 (reorganizePass m emptyCount aliveNodes).2.2 := by
  simp [reorganizeLoop, h]

/-- The loop only appends to `alive_nodes`. -/
theorem prefix_of_reorganizeLoop {msize fuel emptyCount : ℕ} {m : Buckets}
    {aliveNodes out : List NodeStatus}
    (h : reorganizeLoop msize fuel m emptyCount aliveNodes = some out) : aliveNodes <+: out := by
  induction fuel generalizing m emptyCount aliveNodes with
  | zero => simp [reorganizeLoop] at h
  | succ fuel ih =>
    by_cases he : emptyCount = msize
    · simp only [reorganizeLoop, he, if_true, Option.some.injEq] at h
      exact h ▸ prefix_refl _
    · rw [reorganizeLoop_succ_of_ne he, reorganizePass_eq] at h
      exact (prefix_append _ _).trans (ih h)

/-- **A property every pass keeps holds of what the loop returns**, with the buckets it
left. -/
theorem reorganizeLoop_invariant (I : Buckets → List NodeStatus → Prop)
    (hstep : ∀ m out, I m out →
      I (m.map fun q => (q.1, q.2.dropLast)) (out ++ m.filterMap fun q => q.2.getLast?))
    {msize fuel emptyCount : ℕ} {m : Buckets} {aliveNodes out : List NodeStatus}
    (h0 : I m aliveNodes) (h : reorganizeLoop msize fuel m emptyCount aliveNodes = some out) :
    ∃ m', I m' out := by
  induction fuel generalizing m emptyCount aliveNodes with
  | zero => simp [reorganizeLoop] at h
  | succ fuel ih =>
    by_cases he : emptyCount = msize
    · simp only [reorganizeLoop, he, if_true, Option.some.injEq] at h
      exact ⟨m, h ▸ h0⟩
    · rw [reorganizeLoop_succ_of_ne he, reorganizePass_eq] at h
      exact ih (hstep m aliveNodes h0) h

/-- What the loop returns, together with what it leaves in the buckets, is what it
started with. -/
theorem perm_of_reorganizeLoop {msize fuel emptyCount : ℕ} {m : Buckets}
    {aliveNodes out : List NodeStatus}
    (h : reorganizeLoop msize fuel m emptyCount aliveNodes = some out) :
    ∃ rest, out ++ rest ~ aliveNodes ++ bucketEntries m := by
  induction fuel generalizing m emptyCount aliveNodes with
  | zero => simp [reorganizeLoop] at h
  | succ fuel ih =>
    by_cases he : emptyCount = msize
    · simp only [reorganizeLoop, he, if_true, Option.some.injEq] at h
      exact ⟨bucketEntries m, h ▸ Perm.refl _⟩
    · rw [reorganizeLoop_succ_of_ne he] at h
      obtain ⟨rest, hr⟩ := ih h
      exact ⟨rest, hr.trans (reorganizePass_perm m emptyCount aliveNodes)⟩

/-! ## What `Distribute` gets -/

/-- **Every entry `Reorganize` returns comes from its input**, at most as often. -/
theorem subperm_of_reorganize {tAliveNodes out : List NodeStatus}
    (h : reorganize tAliveNodes = some out) : out <+~ tAliveNodes := by
  obtain ⟨rest, hr⟩ := perm_of_reorganizeLoop h
  exact (sublist_append_left out rest).subperm.trans
    (hr.trans (entries_buckets tAliveNodes)).subperm

theorem length_buckets_pos {tAliveNodes : List NodeStatus} (ht : tAliveNodes ≠ []) :
    0 < (buckets tAliveNodes).length := by
  have := (entries_buckets tAliveNodes).length_eq
  rcases hb : buckets tAliveNodes with _ | ⟨q, rest⟩
  · simp only [hb, bucketEntries, flatMap_nil, length_nil] at this
    exact absurd (length_eq_zero.mp this.symm) ht
  · simp

/-- The first pass is always run, and takes one entry from every bucket. -/
theorem reorganize_eq_loop {tAliveNodes : List NodeStatus} (ht : tAliveNodes ≠ []) :
    reorganize tAliveNodes =
      reorganizeLoop (buckets tAliveNodes).length (tAliveNodes.length + 1)
        ((buckets tAliveNodes).map fun q => (q.1, q.2.dropLast)) 0
        ((buckets tAliveNodes).filterMap fun q => q.2.getLast?) := by
  have hne := buckets_ne_nil tAliveNodes
  have hlen : (buckets tAliveNodes).length ≠ 0 := (length_buckets_pos ht).ne'
  have hempty : (buckets tAliveNodes).filter (fun q => q.2 = []) = [] :=
    filter_eq_nil_iff.mpr fun q hq => by simpa using hne q hq
  rw [reorganize, reorganizeLoop_succ_of_ne (Ne.symm hlen), reorganizePass_eq, hempty]
  rfl

theorem length_filterMap_getLast? {m : Buckets} (h : ∀ q ∈ m, q.2 ≠ []) :
    (m.filterMap fun q => q.2.getLast?).length = m.length := by
  induction m with
  | nil => rfl
  | cons hd rest ih =>
    rw [forall_mem_cons] at h
    obtain ⟨x, hx⟩ := Option.isSome_iff_exists.mp (getLast?_isSome.mpr h.1)
    simp [hx, ih h.2]

/-- `Reorganize` of a non-empty list returns a non-empty list. -/
theorem reorganize_ne_nil {tAliveNodes out : List NodeStatus} (ht : tAliveNodes ≠ [])
    (h : reorganize tAliveNodes = some out) : out ≠ [] := by
  rw [reorganize_eq_loop ht] at h
  intro hout
  have := (prefix_of_reorganizeLoop h).length_le
  rw [hout, length_filterMap_getLast? (buckets_ne_nil tAliveNodes)] at this
  exact absurd (length_buckets_pos ht) (by simpa using this)

/-- A pass over buckets that are all non-empty takes one entry from each. -/
theorem reorganizeLoop_full_pass {msize fuel emptyCount : ℕ} {m : Buckets}
    {aliveNodes : List NodeStatus} (he : emptyCount ≠ msize) (hne : ∀ q ∈ m, q.2 ≠ []) :
    reorganizeLoop msize (fuel + 1) m emptyCount aliveNodes =
      reorganizeLoop msize fuel (m.map fun q => (q.1, q.2.dropLast)) emptyCount
        (aliveNodes ++ m.filterMap fun q => q.2.getLast?) := by
  have hempty : m.filter (fun q => q.2 = []) = [] :=
    filter_eq_nil_iff.mpr fun q hq => by simpa using hne q hq
  rw [reorganizeLoop_succ_of_ne he, reorganizePass_eq, hempty]
  rfl

theorem filterMap_getLast?_ne_nil {m : Buckets} (h : bucketEntries m ≠ []) :
    (m.filterMap fun q => q.2.getLast?) ≠ [] := by
  induction m with
  | nil => simp [bucketEntries] at h
  | cons hd rest ih =>
    rcases hb : hd.2.getLast? with _ | x
    · have : hd.2 = [] := by simpa using hb
      simpa [hb, bucketEntries, this] using ih (by simpa [bucketEntries, this] using h)
    · simp [hb]

theorem length_entries_dropLast (m : Buckets) :
    (bucketEntries (m.map fun q => (q.1, q.2.dropLast))).length +
      (m.filter fun q => q.2 ≠ []).length = (bucketEntries m).length := by
  induction m with
  | nil => rfl
  | cons hd rest ih =>
    obtain ⟨ip, b⟩ := hd
    rcases b with _ | ⟨x, xs⟩
    · simpa [bucketEntries] using ih
    · simp [bucketEntries] at ih ⊢
      omega

/-- A pass over buckets that still hold an entry adds at least one to the output. -/
theorem succ_le_of_reorganizeLoop {msize fuel emptyCount : ℕ} {m : Buckets}
    {aliveNodes out : List NodeStatus} (he : emptyCount ≠ msize) (hm : bucketEntries m ≠ [])
    (h : reorganizeLoop msize (fuel + 1) m emptyCount aliveNodes = some out) :
    aliveNodes.length + 1 ≤ out.length := by
  rw [reorganizeLoop_succ_of_ne he, reorganizePass_eq] at h
  have := (prefix_of_reorganizeLoop h).length_le
  have := length_pos_of_ne_nil (filterMap_getLast?_ne_nil hm)
  simp only [length_append] at *
  omega

/-- **With at least three alive entries, `Reorganize` returns at least three.** -/
theorem three_le_length_reorganize {tAliveNodes out : List NodeStatus}
    (h3 : 3 ≤ tAliveNodes.length) (h : reorganize tAliveNodes = some out) : 3 ≤ out.length := by
  have hent := (entries_buckets tAliveNodes).length_eq
  have hne := buckets_ne_nil tAliveNodes
  obtain ⟨L, hL⟩ : ∃ L, tAliveNodes.length = L + 3 := ⟨_, (Nat.sub_add_cancel h3).symm⟩
  unfold reorganize at h
  rw [hL] at h hent
  generalize buckets tAliveNodes = m at h hent hne
  rcases m with _ | ⟨q, _ | ⟨q', rest⟩⟩
  · simp [bucketEntries] at hent
  · -- one host: two full passes, and the third still finds an entry
    have hq : q.2.length = L + 3 := by simpa [bucketEntries] using hent
    have h1 : ∀ r ∈ [q].map (fun q => (q.1, q.2.dropLast)), r.2 ≠ [] := by
      simp [← length_pos, hq]
    rw [reorganizeLoop_full_pass (by simp) hne, reorganizeLoop_full_pass (by simp) h1] at h
    have := succ_le_of_reorganizeLoop (by simp) (by simp [bucketEntries, ← length_pos, hq]) h
    simp only [length_append, length_filterMap_getLast? hne, length_filterMap_getLast? h1] at this
    simpa using this
  · rw [reorganizeLoop_full_pass (by simp) hne] at h
    have hk := length_filterMap_getLast? hne
    rcases rest with _ | ⟨q'', rest⟩
    · -- two hosts: the second pass still finds an entry
      have hd := length_entries_dropLast [q, q']
      rw [filter_eq_self.mpr fun q hq => by simpa using hne q hq, hent] at hd
      have := succ_le_of_reorganizeLoop (by simp) (by
        rw [← length_pos]; simp only [length_cons, length_nil] at hd; omega) h
      simp only [nil_append, hk] at this
      simpa using this
    · -- three hosts or more: the first pass is enough
      have := (prefix_of_reorganizeLoop h).length_le
      simp only [nil_append, hk] at this
      simp at this
      omega


/-! ## A loop that stops too early, or never

`empty_count` counts the empty buckets met over all passes, not over the last one. The
loop stops at the right moment only when the buckets empty together or when their
deficits add up to `msize` exactly; otherwise it stops while a bucket still holds
entries, or it runs past `msize` and never stops. -/

/-- **Once every bucket is empty and `empty_count` is positive and not `msize`, the loop
never stops**: each pass adds `msize` to `empty_count`, which never comes back to it. -/
theorem reorganizeLoop_eq_none {msize emptyCount : ℕ} {m : Buckets}
    {aliveNodes : List NodeStatus} (hm : ∀ q ∈ m, q.2 = []) (hlen : m.length = msize)
    (h0 : 0 < emptyCount) (hne : emptyCount ≠ msize) (fuel : ℕ) :
    reorganizeLoop msize fuel m emptyCount aliveNodes = none := by
  induction fuel generalizing m emptyCount aliveNodes with
  | zero => rfl
  | succ fuel ih =>
    have hf : m.filter (fun q => q.2 = []) = m := filter_eq_self.mpr fun q hq => by simp [hm q hq]
    rw [reorganizeLoop_succ_of_ne hne, reorganizePass_eq, hf]
    exact ih (by simp only [mem_map]; rintro _ ⟨q, hq, rfl⟩; simp [hm q hq]) (by simpa using hlen)
      (by simp only; omega) (by simp only; omega)

/-- Two hosts with one and two alive entries: the third pass finds both buckets empty
and takes `empty_count` from `1` to `3`, past `msize = 2`, and the loop never stops. Two
hosts with one and four entries: the third test finds `empty_count = 2` and stops with
an entry of the second host still in its bucket. -/
theorem reorganize_hangs_or_drops :
    (∀ fuel, reorganizeLoop (buckets [⟨⟨"a", 1⟩, kNodeUp⟩, ⟨⟨"b", 1⟩, kNodeUp⟩,
        ⟨⟨"b", 2⟩, kNodeUp⟩]).length fuel
      (buckets [⟨⟨"a", 1⟩, kNodeUp⟩, ⟨⟨"b", 1⟩, kNodeUp⟩, ⟨⟨"b", 2⟩, kNodeUp⟩]) 0 [] = none) ∧
    reorganize [⟨⟨"a", 1⟩, kNodeUp⟩, ⟨⟨"b", 1⟩, kNodeUp⟩, ⟨⟨"b", 2⟩, kNodeUp⟩,
        ⟨⟨"b", 3⟩, kNodeUp⟩, ⟨⟨"b", 4⟩, kNodeUp⟩] =
      some [⟨⟨"a", 1⟩, kNodeUp⟩, ⟨⟨"b", 4⟩, kNodeUp⟩, ⟨⟨"b", 3⟩, kNodeUp⟩,
        ⟨⟨"b", 2⟩, kNodeUp⟩] := by
  refine ⟨fun fuel => ?_, by decide⟩
  rcases fuel with _ | _ | _ | fuel
  · rfl
  · rfl
  · rfl
  · exact reorganizeLoop_eq_none (m := [("a", []), ("b", [])]) (by decide) rfl (by decide)
      (by decide) fuel

end ZeppelinMeta
