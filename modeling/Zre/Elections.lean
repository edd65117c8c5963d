import Zre.Send

/-!
# Group elections

The election methods of `ZreNode`. A node supports one candidate at a time (`caw`), echoes it once
every neighbour has sent it, and counts the LEADER frames of the winner.
-/

namespace Zre

namespace Node

/-- `_election_neighbors` -/
def electionNeighbors (n : Node) (g : Bytes) : List Ref :=
  (n.group g).peers.values.filter fun r => (n.obj r).connected

/-- Write the `election` field of a group. -/
def setElection (n : Node) (g : Bytes) (e : Option Election) : Node :=
  n.setGroup g { n.group g with election := e }

/-- Send one election frame to each of `refs`. -/
def sendElections (env : Env) (cmd : UInt8) (g identity : Bytes) (n : Node) (refs : List Ref) :
    Except PyError Node :=
  refs.foldlM (fun n r => n.sendElection env r cmd g identity) n

/-- The name that a LEADER event gives. -/
def leaderName (n : Node) (leaderId : Str) : Str :=
  if leaderId = n.ownWireId then bdec n.cfg.name.raw
  else match n.peers.get (n.cfg.rt.lower leaderId) with
    | some r => pname (n.obj r)
    | none => "unknown".toList

/-- `_finish_election` -/
def finishElection (n : Node) (g : Bytes) (leaderId : Str) : Node :=
  let leaderHex := n.cfg.rt.lower leaderId
  let n := n.setGroup g { n.group g with leader := some leaderHex, election := none }
  n.emit (.leader leaderHex (n.leaderName leaderId) (bdec (n.group g).name))

/-- A new election dictionary. -/
def newElection (caw : Str) (father : Option Str) (now : Int) : Election :=
  { caw, father, erec := 0, lrec := 0, leader := none, startedAt := now, resentAt := now }

/-- `_start_election`. A running election is thrown away. -/
def startElection (env : Env) (n : Node) (g : Bytes) : Except PyError Node :=
  let n := n.requireGroup g
  if !(n.group g).contest ∨ g ∉ n.ownGroups then .ok n
  else
    let n := n.setGroup g
      { n.group g with
        election := some (newElection n.ownWireId none env.now)
        leader := none }
    let neighbors := n.electionNeighbors g
    if neighbors = [] then .ok (n.finishElection g n.ownWireId)
    else sendElections env Cmd.elect g (encodeStr n.ownWireId) n neighbors

/-- The first half of `_handle_elect`: adopt the challenger when there is no election or its id is
lower, and pass the wave on to everybody but the sender. -/
def adoptChallenger (env : Env) (n : Node) (r : Ref) (g : Bytes) (challengerId : Str) :
    Except PyError Node :=
  let adopt : Except PyError Node :=
    let n := n.setElection g (some (newElection challengerId (some (n.obj r).uuidHex) env.now))
    sendElections env Cmd.elect g (encodeStr challengerId) n
      ((n.electionNeighbors g).filter fun s => (n.obj s).uuidHex ≠ (n.obj r).uuidHex)
  match (n.group g).election with
  | none => adopt
  | some e => if challengerId < e.caw then adopt else .ok n

/-- The second half of `_handle_elect`: count the frame, and answer once it is the last one. -/
def countChallenger (env : Env) (n : Node) (g : Bytes) (challengerId : Str) : Except PyError Node :=
  match (n.group g).election with
  | none => .ok n
  | some e =>
    if challengerId ≠ e.caw then .ok n
    else
      let e := { e with erec := e.erec + 1 }
      let n := n.setElection g (some e)
      if e.erec < (n.electionNeighbors g).length then .ok n
      else if e.caw = n.ownWireId then
        sendElections env Cmd.leader g (encodeStr e.caw) n (n.electionNeighbors g)
      else match e.father with
        | none => .ok n
        | some father =>
          match n.peers.get father with
          | none => .ok n
          | some f => n.sendElection env f Cmd.elect g (encodeStr e.caw)

/-- `_handle_elect` -/
def handleElect (env : Env) (n : Node) (r : Ref) (g challenger : Bytes) : Except PyError Node := do
  let n := n.requireGroup g
  let challengerId := n.wireId (bdec challenger)
  let n ← n.adoptChallenger env r g challengerId
  n.countChallenger env g challengerId

/-- The first half of `_handle_leader`: pass the first LEADER frame on to everybody. -/
def forwardLeader (env : Env) (n : Node) (g : Bytes) (lrec : Nat) (leaderId : Str) :
    Except PyError Node :=
  if leaderId ≠ n.ownWireId ∧ lrec = 0 then
    sendElections env Cmd.leader g (encodeStr leaderId) n (n.electionNeighbors g)
  else .ok n

/-- The second half of `_handle_leader`: count the frame, and finish once it is the last one. -/
def countLeader (n : Node) (g : Bytes) (e : Election) (leaderId : Str) : Node :=
  let n := n.setElection g (some { e with lrec := e.lrec + 1, leader := some leaderId })
  if (n.electionNeighbors g).length ≤ e.lrec + 1 then n.finishElection g leaderId else n

/-- `_handle_leader`. The test `election["caw"] is None` is never true. -/
def handleLeader (env : Env) (n : Node) (g leader : Bytes) : Except PyError Node :=
  let n := n.requireGroup g
  match (n.group g).election with
  | none => .ok n
  | some e => do
    let leaderId := n.wireId (bdec leader)
    let n ← n.forwardLeader env g e.lrec leaderId
    return n.countLeader g e leaderId

/-- The recorded leader is not in the peer table. -/
def leaderGone (n : Node) (leader : Option Str) : Bool :=
  match leader with
  | none => false
  | some id => !n.peers.contains id

/-- `_restart_election_if_needed` -/
def restartElectionIfNeeded (env : Env) (n : Node) (g : Bytes) : Except PyError Node :=
  match n.groups.get g with
  | none => .ok n
  | some group =>
    if !group.contest then .ok n
    else if n.leaderGone group.leader then n.startElection env g
    else if group.election.isSome ∧ n.electionNeighbors g = [] then
      .ok (n.finishElection g n.ownWireId)
    else if group.election.isSome ∧ group.leader.isSome then .ok (n.setElection g none)
    else .ok n

/-- Two seconds, the least time between two resends. -/
def resendInterval : Int := 2000000000

/-- One pass of the `_maintain_elections` loop. -/
def maintainElection (env : Env) (n : Node) (g : Bytes) : Except PyError Node :=
  match (n.group g).election with
  | none => .ok n
  | some e =>
    if !(n.group g).contest ∨ g ∉ n.ownGroups then .ok n
    else
      let neighbors := n.electionNeighbors g
      if neighbors = [] then .ok (n.finishElection g n.ownWireId)
      else if env.now - e.resentAt < resendInterval then .ok n
      else
        let n := n.setElection g (some { e with resentAt := env.now })
        if e.caw = n.ownWireId then
          if neighbors.length ≤ e.erec then
            sendElections env Cmd.leader g (encodeStr e.caw) n neighbors
          else sendElections env Cmd.elect g (encodeStr e.caw) n neighbors
        else sendElections env Cmd.elect g (encodeStr e.caw) n
          (neighbors.filter fun s => some (n.obj s).uuidHex ≠ e.father)

/-- `_maintain_elections` -/
def maintainElections (env : Env) (n : Node) : Except PyError Node :=
  n.groups.keys.foldlM (fun n g => n.maintainElection env g) n

end Node

end Zre
