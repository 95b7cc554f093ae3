import ZeppelinMeta.Outcomes

/-!
# Runs of the meta server

The topology is changed by three requests: a node joining (`AddNode`, from the update
thread's `ADD` task), a node failing (`OffNode`, from its `REMOVE` task) and the `INIT`
command (`Distribute`). They are served one at a time under `node_mutex_`. A run serves
a list of requests, each with the list of answers the consensus engine gives to its
calls, so a run fixes both the order of requests and every failure of the engine.

Every invariant of the later modules is proved once per request, from the lemmas of
`Outcomes`, and lifted to whole runs by `serve_invariant`.
-/

namespace ZeppelinMeta

/-- A request that changes the topology. -/
inductive Call where
  | addNode (ip : String) (port : ℤ)
  | offNode (ip : String) (port : ℤ)
  | distribute (num : ℤ)
deriving DecidableEq, Repr

/-- Serve `c`, the engine answering its calls as `faults` says; `none` when the call
never returns. -/
def Call.run (c : Call) (faults : List Bool) (m : Meta) : Option (Status × Meta) :=
  match c with
  | .addNode ip port => some (ZeppelinMeta.addNode ip port { m with faults })
  | .offNode ip port => some (ZeppelinMeta.offNode ip port { m with faults })
  | .distribute num => ZeppelinMeta.distribute num { m with faults }

/-- Serve the requests in turn: the statuses they returned and the state after, or
`none` when one never returns. -/
def serve : Meta → List (Call × List Bool) → Option (List Status × Meta)
  | m, [] => some ([], m)
  | m, (c, faults) :: rest =>
    (c.run faults m).bind fun r => (serve r.2 rest).map fun q => (r.1 :: q.1, q.2)

theorem serve_cons {m : Meta} {c : Call} {faults : List Bool} {rest : List (Call × List Bool)}
    {ss : List Status} {m' : Meta} (h : serve m ((c, faults) :: rest) = some (ss, m')) :
    ∃ r, c.run faults m = some r ∧ ∃ ss', ss = r.1 :: ss' ∧ serve r.2 rest = some (ss', m') := by
  simp only [serve, Option.bind_eq_some, Option.map_eq_some'] at h
  obtain ⟨r, hr, ⟨ss', m''⟩, hs, he⟩ := h
  simp only [Prod.mk.injEq] at he
  obtain ⟨rfl, rfl⟩ := he
  exact ⟨r, hr, ss', rfl, hs⟩

/-- **A property every request of a run keeps holds after the whole run.** -/
theorem serve_invariant (P : Meta → Prop) {cs : List (Call × List Bool)}
    (hstep : ∀ c faults, (c, faults) ∈ cs → ∀ m r, P m → c.run faults m = some r → P r.2)
    {m m' : Meta} {ss : List Status} (h0 : P m) (h : serve m cs = some (ss, m')) : P m' := by
  induction cs generalizing m ss with
  | nil =>
    simp only [serve, Option.some.injEq, Prod.mk.injEq] at h
    exact h.2 ▸ h0
  | cons x rest ih =>
    obtain ⟨r, hr, ss', -, hs⟩ := serve_cons h
    exact ih (fun c f hm => hstep c f (.tail _ hm)) (hstep x.1 x.2 (.head _) m r h0 hr) hs

/-- A relation every request of a run establishes between the states before and after it
holds, if it is reflexive and transitive, between the first and the last state. -/
theorem serve_relation (R : Meta → Meta → Prop) (hrefl : ∀ m, R m m)
    (htrans : ∀ m₁ m₂ m₃, R m₁ m₂ → R m₂ m₃ → R m₁ m₃) {cs : List (Call × List Bool)}
    (hstep : ∀ c faults, (c, faults) ∈ cs → ∀ m r, c.run faults m = some r → R m r.2)
    {m m' : Meta} {ss : List Status} (h : serve m cs = some (ss, m')) : R m m' := by
  induction cs generalizing m ss with
  | nil =>
    simp only [serve, Option.some.injEq, Prod.mk.injEq] at h
    exact h.2 ▸ hrefl m
  | cons x rest ih =>
    obtain ⟨r, hr, ss', -, hs⟩ := serve_cons h
    exact htrans _ _ _ (hstep x.1 x.2 (.head _) m r hr)
      (ih (fun c f hm => hstep c f (.tail _ hm)) hs)

end ZeppelinMeta
