import ZeppelinMeta.Store
import Mathlib.Data.List.Forall2
import Mathlib.Data.List.Nodup

/-!
# The nodes table

`ND` holds one `NodeStatus` per data server that ever joined, in joining order. The
functions here are the pure parts of the server's table handling: the searches
`FindNode` and `IsAlive`, the filter `GetAllAliveNode`, and the table that
`SetNodeStatus` writes back. The server compares endpoints field by field
(`ip == ... && port == ...`); a `Node` has only these two fields, so that is equality
of `Node`s.
-/

namespace ZeppelinMeta

/-- `ZPMetaServer::FindNode`: whether some entry is for `(ip, port)`. -/
def findNode (nodes : List NodeStatus) (ip : String) (port : ℤ) : Bool :=
  nodes.any fun ns => ns.node = ⟨ip, port⟩

/-- `IsAlive`: the same search, over the list `GetAllAliveNode` returned. -/
def isAlive (aliveNodes : List NodeStatus) (ip : String) (port : ℤ) : Bool :=
  findNode aliveNodes ip port

/-- `ZPMetaServer::GetAllAliveNode`: the entries whose status is `0`, in table order. -/
def getAllAliveNode (nodes : List NodeStatus) : List NodeStatus :=
  nodes.filter fun ns => ns.status = 0

/-- The table `SetNodeStatus` serializes: the first entry for `(ip, port)` with its
status set to `status`. -/
def setStatus (ip : String) (port : ℤ) (status : ℤ) : List NodeStatus → List NodeStatus
  | [] => []
  | ns :: rest =>
    if ns.node = ⟨ip, port⟩ then { ns with status } :: rest
    else ns :: setStatus ip port status rest

/-- The endpoints of a table, in order. -/
def endpoints (nodes : List NodeStatus) : List Node := nodes.map NodeStatus.node

/-- The status of endpoint `e` as `FindNode` and `SetNodeStatus` see it: that of its
first entry. -/
def statusOf (nodes : List NodeStatus) (e : Node) : Option ℤ :=
  (nodes.find? fun ns => ns.node = e).map NodeStatus.status

/-- `nodes'` is `nodes` in the same order, with at most the status of the entries for
`e` changed. -/
def OnlyStatusOf (e : Node) (nodes nodes' : List NodeStatus) : Prop :=
  List.Forall₂ (fun a b => a.node = b.node ∧ (a.node ≠ e → a = b)) nodes nodes'

@[simp] theorem endpoints_nil : endpoints [] = [] := rfl
@[simp] theorem endpoints_cons (ns : NodeStatus) (nodes : List NodeStatus) :
    endpoints (ns :: nodes) = ns.node :: endpoints nodes := rfl
@[simp] theorem endpoints_append (nodes nodes' : List NodeStatus) :
    endpoints (nodes ++ nodes') = endpoints nodes ++ endpoints nodes' := List.map_append _ _ _

theorem findNode_iff (nodes : List NodeStatus) (ip : String) (port : ℤ) :
    findNode nodes ip port = true ↔ ⟨ip, port⟩ ∈ endpoints nodes := by
  simp [findNode, endpoints]

theorem isAlive_iff (nodes : List NodeStatus) (ip : String) (port : ℤ) :
    isAlive (getAllAliveNode nodes) ip port = true ↔ ⟨⟨ip, port⟩, 0⟩ ∈ nodes := by
  simp only [isAlive, findNode, getAllAliveNode, List.any_filter, List.any_eq_true,
    Bool.and_eq_true, decide_eq_true_eq]
  constructor
  · rintro ⟨⟨n, s⟩, hns, rfl, rfl⟩
    exact hns
  · intro h
    exact ⟨_, h, rfl, rfl⟩

/-! ## The table `SetNodeStatus` writes -/

@[simp] theorem endpoints_setStatus (ip : String) (port status : ℤ) (nodes : List NodeStatus) :
    endpoints (setStatus ip port status nodes) = endpoints nodes := by
  induction nodes with
  | nil => rfl
  | cons ns rest ih => unfold setStatus; split <;> simp [ih, *]

theorem setStatus_onlyStatusOf (ip : String) (port status : ℤ) (nodes : List NodeStatus) :
    OnlyStatusOf ⟨ip, port⟩ nodes (setStatus ip port status nodes) := by
  induction nodes with
  | nil => exact List.Forall₂.nil
  | cons ns rest ih =>
    unfold setStatus
    split
    · exact .cons ⟨rfl, fun h => absurd ‹_› h⟩ (List.forall₂_same.mpr fun _ _ => ⟨rfl, fun _ => rfl⟩)
    · exact .cons ⟨rfl, fun _ => rfl⟩ ih

/-- An entry for another endpoint is untouched. -/
theorem mem_setStatus_of_ne {ip : String} {port status : ℤ} {nodes : List NodeStatus}
    {ns : NodeStatus} (hne : ns.node ≠ ⟨ip, port⟩) :
    ns ∈ setStatus ip port status nodes ↔ ns ∈ nodes := by
  induction nodes with
  | nil => rfl
  | cons a rest ih =>
    unfold setStatus
    split
    · rename_i ha
      simp only [List.mem_cons, ih]
      constructor
      · rintro (rfl | h)
        · exact absurd ha hne
        · exact .inr h
      · rintro (rfl | h)
        · exact absurd ha hne
        · exact .inr h
    · simp [ih]

theorem statusOf_setStatus_of_ne {ip : String} {port status : ℤ} {e : Node}
    (nodes : List NodeStatus) (hne : e ≠ ⟨ip, port⟩) :
    statusOf (setStatus ip port status nodes) e = statusOf nodes e := by
  induction nodes with
  | nil => rfl
  | cons a rest ih =>
    unfold setStatus
    split
    · rename_i ha
      have : a.node ≠ e := fun h => hne (h ▸ ha)
      simp [statusOf, this]
    · simp only [statusOf, List.find?_cons] at ih ⊢
      split <;> simp_all

theorem statusOf_setStatus_self {ip : String} {port status : ℤ} {nodes : List NodeStatus}
    (h : ⟨ip, port⟩ ∈ endpoints nodes) :
    statusOf (setStatus ip port status nodes) ⟨ip, port⟩ = some status := by
  induction nodes with
  | nil => simp at h
  | cons a rest ih =>
    unfold setStatus
    split
    · simp [statusOf, *]
    · rename_i ha
      have hr : (⟨ip, port⟩ : Node) ∈ endpoints rest := by
        simpa [Ne.symm ha] using h
      simpa [statusOf, ha] using ih hr

/-- Of two status writes for one endpoint the second wins. -/
theorem setStatus_setStatus (ip : String) (port s s' : ℤ) (nodes : List NodeStatus) :
    setStatus ip port s' (setStatus ip port s nodes) = setStatus ip port s' nodes := by
  induction nodes with
  | nil => rfl
  | cons ns rest ih =>
    unfold setStatus
    split_ifs with h
    · simp [setStatus, h]
    · simp [setStatus, h, ih]

/-- `statusOf` is some status exactly for the endpoints of the table. -/
theorem statusOf_isSome_iff (nodes : List NodeStatus) (e : Node) :
    (statusOf nodes e).isSome ↔ e ∈ endpoints nodes := by
  simp [statusOf, endpoints, List.find?_isSome]

/-- In a table without repeated endpoints, an entry gives the endpoint's status. -/
theorem statusOf_of_mem {nodes : List NodeStatus} (hnd : (endpoints nodes).Nodup)
    {ns : NodeStatus} (h : ns ∈ nodes) : statusOf nodes ns.node = some ns.status := by
  induction nodes with
  | nil => simp at h
  | cons a rest ih =>
    simp only [endpoints_cons, List.nodup_cons] at hnd
    rcases List.mem_cons.mp h with rfl | h
    · simp [statusOf]
    · have hne : a.node ≠ ns.node := fun he =>
        hnd.1 (he ▸ List.mem_map_of_mem NodeStatus.node h)
      simpa [statusOf, hne] using ih hnd.2 h

/-- An endpoint the alive list holds is `UP` in a table without repeated endpoints. -/
theorem statusOf_of_isAlive {nodes : List NodeStatus} (hnd : (endpoints nodes).Nodup)
    {ip : String} {port : ℤ} (h : isAlive (getAllAliveNode nodes) ip port = true) :
    statusOf nodes ⟨ip, port⟩ = some kNodeUp :=
  statusOf_of_mem hnd ((isAlive_iff nodes ip port).mp h)

/-- Entries appended after an endpoint's entry do not change its status. -/
theorem statusOf_append_of_eq_some {nodes : List NodeStatus} {e : Node} {s : ℤ}
    (h : statusOf nodes e = some s) (nodes' : List NodeStatus) :
    statusOf (nodes ++ nodes') e = some s := by
  simp only [statusOf, List.find?_append] at h ⊢
  obtain ⟨ns, hns, rfl⟩ := Option.map_eq_some'.mp h
  simp [hns]

/-- A new endpoint appended to the table has the status it was appended with. -/
theorem statusOf_append_of_not_mem {nodes : List NodeStatus} {e : Node}
    (h : e ∉ endpoints nodes) (s : ℤ) : statusOf (nodes ++ [⟨e, s⟩]) e = some s := by
  have : nodes.find? (fun ns => ns.node = e) = none := by simpa [endpoints] using h
  simp [statusOf, List.find?_append, this]

theorem onlyStatusOf_refl (e : Node) (nodes : List NodeStatus) : OnlyStatusOf e nodes nodes :=
  List.forall₂_same.mpr fun _ _ => ⟨rfl, fun _ => rfl⟩

theorem OnlyStatusOf.endpoints_eq {e : Node} {nodes nodes' : List NodeStatus}
    (h : OnlyStatusOf e nodes nodes') : endpoints nodes' = endpoints nodes := by
  induction h with
  | nil => rfl
  | cons hab _ ih => simp [ih, hab.1]

end ZeppelinMeta
