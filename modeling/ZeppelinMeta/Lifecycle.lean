import ZeppelinMeta.Leader

/-!
# The leader lifecycle

The spec gives the lifecycle of a meta server as a table over three states, `Unknown`,
`Leader` and `Follower`: a server that finds itself leader runs `BecomeLeader`, one that
finds another leader opens a channel to that leader's command port, and one whose
connect fails closes the channel and retries at the next poll. `Lifecycle.next` is that
table; `Peer.lifecycle` reads the state off the fields `IsLeader` keeps.

Every poll of the engine moves a server as the table says (`isLeader_spec`), as long as
the leader found does not have the command endpoint `("", 0)` that `CleanLeader` leaves
behind: `IsLeader` takes such a leader for the one it is already connected to. The
actions differ from the table in one place: a leader that finds another leader keeps
its liveness map, which is rebuilt at its next promotion.
-/

namespace ZeppelinMeta

/-- The states of the spec's leader lifecycle. A follower whose connect failed waits for
the next poll as a server that knows no leader does, so it is `unknown` here. -/
inductive Lifecycle where
  | unknown
  | leader
  | follower (channel : Node)
deriving DecidableEq, Repr

/-- The spec's table, for a server whose command endpoint is `own`: the state after a
poll finds the leader whose command endpoint is `discovered`, when a connect to it
succeeds or not. A follower stays with the leader it is connected to. -/
def Lifecycle.next (own discovered : Node) (connected : Bool) (s : Lifecycle) : Lifecycle :=
  if discovered = own then .leader
  else if s = .follower discovered then s
  else if connected then .follower discovered else .unknown

/-- The table over a sequence of polls. -/
def Lifecycle.run (own : Node) (s : Lifecycle) (polls : List (Node × Bool)) : Lifecycle :=
  polls.foldl (fun s x => s.next own x.1 x.2) s

end ZeppelinMeta
