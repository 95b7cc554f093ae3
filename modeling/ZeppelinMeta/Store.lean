import Mathlib.Logic.Function.Basic

/-!
# The meta server's records and its consensus store

The meta server keeps the cluster topology in the replicated key-value store of its
consensus engine (`floyd`), under four kinds of key: `ND` for the nodes table, `MT`
for the partitions table, `PN` for the partition count and `PART:<id>` for the
replica set of each partition. Each key holds the decoded protobuf message: every
value the server reads was serialized by the server itself, and the codec
round-trips, so a parse never fails here.

Every call into the engine either succeeds or reports an error. The engine's
answers are an input of the model: `Meta.faults` says, call by call, whether the
engine fails (`true`); once the list is used up every call succeeds. A failed
write leaves the store as it was.
-/

namespace ZeppelinMeta

/-- `ZPMeta::Node`: the endpoint of a data server. -/
structure Node where
  ip : String
  port : ℤ
deriving DecidableEq, Repr

/-- The endpoint `("", 0)` that `OffNode` writes as the master of a partition with no
live slave, and that `OnNode` reads as "this partition has no master". -/
def Node.empty : Node := ⟨"", 0⟩

/-- `kNodeUp` of `enum ZPNodeStatus`. -/
def kNodeUp : ℤ := 0

/-- `kNodeDown` of `enum ZPNodeStatus`. -/
def kNodeDown : ℤ := 1

/-- `ZPMeta::NodeStatus`: an entry of the nodes table. -/
structure NodeStatus where
  node : Node
  status : ℤ
deriving DecidableEq, Repr

/-- `ZPMeta::Partitions`: where one partition is served. -/
structure Partitions where
  id : ℕ
  master : Node
  slaves : List Node
deriving DecidableEq, Repr

/-- `ZPMeta::MetaCmdResponse_Pull`: the partitions table stored at `MT`, with its epoch. -/
structure MetaCmdResponsePull where
  version : ℤ
  info : List Partitions
deriving DecidableEq, Repr

/-- `ZPMeta::Replicaset`: the replica set `Distribute` designed for partition `id`. -/
structure Replicaset where
  id : ℕ
  node : List Node
deriving DecidableEq, Repr

/-- `slash::Status`, with the texts the meta server puts in it. -/
inductive Status where
  | ok
  | notFound (msg : String)
  | corruption (msg : String)
deriving DecidableEq, Repr

/-- `Status::IsNotFound`. -/
def Status.isNotFound : Status → Bool
  | .notFound _ => true
  | _ => false

/-- The keys the meta server owns in the consensus store. -/
structure Floyd where
  /-- `ZP_META_KEY_ND`: the message `ZPMeta::Nodes`. -/
  nd : Option (List NodeStatus)
  /-- `ZP_META_KEY_MT`. -/
  mt : Option MetaCmdResponsePull
  /-- `ZP_META_KEY_PN`, the decimal string of the partition count, parsed. -/
  pn : Option ℤ
  /-- `PartitionId2Key(id)`. -/
  part : ℕ → Option Replicaset

/-- A store in which none of the server's keys was ever written. -/
def Floyd.empty : Floyd := ⟨none, none, none, fun _ => none⟩

/-- What a topology operation of `ZPMetaServer` works on: the consensus store, the
cached epoch `version_`, and the engine's answers to the calls still to come. -/
structure Meta where
  floyd : Floyd
  version : ℤ
  faults : List Bool

namespace Meta

/-- Whether the engine fails the next call. -/
def fails (m : Meta) : Bool := m.faults.headD false

/-- The state once the engine has answered one call. -/
def next (m : Meta) : Meta := { m with faults := m.faults.tail }

@[simp] theorem next_floyd (m : Meta) : m.next.floyd = m.floyd := rfl
@[simp] theorem next_version (m : Meta) : m.next.version = m.version := rfl

/-- A failure comes from the engine's list of answers. -/
theorem faults_ne_nil_of_fails {m : Meta} (h : m.fails = true) : m.faults ≠ [] := by
  intro hn
  simp [fails, hn] at h

theorem faults_ne_nil_of_next {m : Meta} (h : m.next.faults ≠ []) : m.faults ≠ [] := by
  intro hn
  simp [next, hn] at h

/-- Rewriting the store or the epoch leaves the engine's next answer alone. -/
@[simp] theorem fails_mk (f : Floyd) (v : ℤ) (m : Meta) : (Meta.mk f v m.faults).fails = m.fails :=
  rfl

/-- A `floyd::Status` of a read, with the value found. -/
inductive Read (α : Type) where
  | ok (value : α)
  | notFound
  | error
deriving DecidableEq, Repr

/-- `floyd_->DirtyRead(key, value)` (and `Read` of the leader, which here sees the
same store). -/
def dirtyRead {α : Type} (key : Floyd → Option α) (m : Meta) : Read α × Meta :=
  (if m.fails then .error else (key m.floyd).elim .notFound .ok, m.next)

/-- `floyd_->Write(key, value)`: `true` when the write committed. -/
def write (f : Floyd → Floyd) (m : Meta) : Bool × Meta :=
  if m.fails then (false, m.next) else (true, { m.next with floyd := f m.floyd })

@[simp] theorem dirtyRead_snd {α : Type} (key : Floyd → Option α) (m : Meta) :
    (m.dirtyRead key).2 = m.next := rfl

theorem dirtyRead_ok {α : Type} {key : Floyd → Option α} {m : Meta} {v : α}
    (h : (m.dirtyRead key).1 = .ok v) : key m.floyd = some v := by
  unfold dirtyRead at h
  split at h
  · cases h
  · cases hk : key m.floyd <;> simp_all

theorem dirtyRead_notFound {α : Type} {key : Floyd → Option α} {m : Meta}
    (h : (m.dirtyRead key).1 = .notFound) : key m.floyd = none := by
  unfold dirtyRead at h
  split at h
  · cases h
  · cases hk : key m.floyd <;> simp_all

@[simp] theorem write_version (f : Floyd → Floyd) (m : Meta) :
    (m.write f).2.version = m.version := by
  unfold write; split <;> rfl

theorem write_floyd (f : Floyd → Floyd) (m : Meta) :
    (m.write f).2.floyd = if (m.write f).1 then f m.floyd else m.floyd := by
  unfold write; split <;> rfl

/-- A write that commits applies `f`. -/
theorem write_floyd_of_ok {f : Floyd → Floyd} {m : Meta} (h : (m.write f).1 = true) :
    (m.write f).2.floyd = f m.floyd := by
  rw [write_floyd, if_pos h]

/-- A write that fails has no effect. -/
theorem write_floyd_of_fail {f : Floyd → Floyd} {m : Meta} (h : (m.write f).1 = false) :
    (m.write f).2.floyd = m.floyd := by
  rw [write_floyd, if_neg (by simp [h])]

/-- With no failure left to report, a write commits. -/
theorem write_fst_of_faults_nil {f : Floyd → Floyd} {m : Meta} (h : m.faults = []) :
    (m.write f).1 = true := by
  simp [write, fails, h]

end Meta

/-- `ZPMetaServer::Set`: a write reported as a `Status`. -/
def set (f : Floyd → Floyd) (m : Meta) : Status × Meta :=
  let (ok, m) := m.write f
  (if ok then .ok else .corruption "floyd set error!", m)

theorem set_eq (f : Floyd → Floyd) (m : Meta) :
    set f m = (if (m.write f).1 then .ok else .corruption "floyd set error!", (m.write f).2) :=
  rfl

@[simp] theorem set_version (f : Floyd → Floyd) (m : Meta) :
    (set f m).2.version = m.version := by simp [set_eq]

/-- `Set` answers `OK` exactly when the write committed, and then applies `f`. -/
theorem set_floyd (f : Floyd → Floyd) (m : Meta) :
    (set f m).2.floyd = if (set f m).1 = .ok then f m.floyd else m.floyd := by
  rw [set_eq, Meta.write_floyd]
  cases (m.write f).1 <;> simp

/-! ## Partition keys

`Floyd.part` is keyed by partition id, where the engine's store is keyed by strings and
`SetReplicaset` writes partition `id` at `PartitionId2Key(id)`. The two agree because no two
ids share a key: the decimal digits of the id read back as the id. -/

/-- `PartitionId2Key`: `ZP_META_KEY_PREFIX`, a constant of `zp_const.h` (not in `src/`), then
`std::to_string(id)`. The ids are below `Distribute`'s `int` count, so the `uint32_t`
parameter keeps them. -/
def partitionId2Key (keyHead : String) (id : ℕ) : String := keyHead ++ toString id

/-- The number a string of decimal digits denotes. -/
def decimalValue (cs : List Char) : ℕ := cs.foldl (fun acc c => acc * 10 + (c.toNat - 48)) 0

theorem toNat_digitChar : ∀ d < 10, (Nat.digitChar d).toNat - 48 = d := by decide

theorem toDigitsCore_succ (fuel n : ℕ) (ds : List Char) :
    Nat.toDigitsCore 10 (fuel + 1) n ds =
      if n / 10 = 0 then Nat.digitChar (n % 10) :: ds
      else Nat.toDigitsCore 10 fuel (n / 10) (Nat.digitChar (n % 10) :: ds) := rfl

/-- `Nat.toDigitsCore` puts the digits of `n` in front of `ds`, given fuel past `n`. -/
theorem foldl_toDigitsCore {fuel n : ℕ} (ds : List Char) (h : n < fuel) :
    (Nat.toDigitsCore 10 fuel n ds).foldl (fun acc c => acc * 10 + (c.toNat - 48)) 0 =
      ds.foldl (fun acc c => acc * 10 + (c.toNat - 48)) n := by
  induction fuel generalizing n ds with
  | zero => omega
  | succ fuel ih =>
    have hd := toNat_digitChar (n % 10) (Nat.mod_lt _ (by omega))
    rw [toDigitsCore_succ]
    split_ifs with h0
    · simp only [List.foldl_cons, hd]
      congr 1
      omega
    · rw [ih _ (by omega), List.foldl_cons, hd]
      congr 1
      omega

/-- The digits `std::to_string` writes read back as the number. -/
theorem decimalValue_toString (n : ℕ) : decimalValue (toString n).data = n :=
  foldl_toDigitsCore [] (Nat.lt_succ_self n)

/-- **Two partitions never share a store key**, whatever the key head: the key of a
partition ends in the id's digits, which read back as the id. -/
theorem partitionId2Key_injective (keyHead : String) :
    Function.Injective (partitionId2Key keyHead) := by
  intro i j h
  have hd : (toString i).data = (toString j).data := by
    simpa [partitionId2Key] using congrArg String.data h
  rw [← decimalValue_toString i, ← decimalValue_toString j, hd]

end ZeppelinMeta
