import Zre.Gossip
import Zre.Lib.Expiring

/-!
# A reference for the gossip hub

The calls that a bound hub takes, and the tuple store that it is meant to be: one in which a tuple is gone as
soon as it has run out. The reference names no order for its tuples, so it may list them in any.
-/

namespace Zre

/-- A call to a hub. -/
inductive HubCall where
  | publish (key value : Bytes) (ttl : Nat)
  | unpublish (key : Bytes)
  | deliveries
  | tuples
  /-- `handle_socket`, with the messages that it drains. -/
  | handleSocket (messages : List (List Bytes))

/-- What a call returns. -/
inductive HubReply where
  | done
  | delivered (tuples : List (Bytes × Bytes))
  | reported (tuples : Dict Str Str)

namespace Hub

/-- One call. -/
def call (env : Env) (h : Hub) : HubCall → Except PyError (HubReply × Hub)
  | .publish key value ttl => do return (.done, ← h.publish env key value ttl)
  | .unpublish key => .ok (.done, h.unpublish key)
  | .deliveries => .ok (.delivered h.deliveries.1, h.deliveries.2)
  | .tuples => .ok (.reported h.decodedTuples, h)
  | .handleSocket messages => do
    let (ds, h) ← h.handleSocket env messages
    return (.delivered ds, h)

/-- A hub after some calls, each of which satisfies `P`. `clock` is the time of the last one; it starts at 0
and never goes back. A call that raises is not followed. -/
inductive RunBy (P : Hub → Env → HubCall → Prop) :
    Int → List (Env × HubCall) → List HubReply → Hub → Prop where
  | init : RunBy P 0 [] [] Hub.init
  | call {clock : Int} {calls : List (Env × HubCall)} {replies : List HubReply} {h h' : Hub} {env : Env}
      {c : HubCall} {reply : HubReply} (hr : RunBy P clock calls replies h) (hclock : clock ≤ env.now)
      (hp : P h env c) (hc : h.call env c = .ok (reply, h')) :
      RunBy P env.now (calls ++ [(env, c)]) (replies ++ [reply]) h'

/-- A hub after any calls. -/
def Run : Int → List (Env × HubCall) → List HubReply → Hub → Prop := RunBy fun _ _ _ => True

end Hub

/-- The reference store. -/
structure Registry where
  tuples : Expiring Bytes Bytes Int
  pending : List (Bytes × Bytes)
  clients : List Bytes
  outbox : List (Bytes × Bytes)

namespace Registry

def init : Registry := ⟨Expiring.empty, [], [], []⟩

/-- Time has come to `now`. -/
def upTo (r : Registry) (now : Int) : Registry := { r with tuples := r.tuples.live now }

/-- Somebody is known from now on. -/
def meets (r : Registry) (id : Bytes) : Registry :=
  { r with clients := if id ∈ r.clients then r.clients else r.clients ++ [id] }

/-- The frames go out. -/
def sent (r : Registry) (frames : List (Bytes × Bytes)) : Registry := { r with outbox := r.outbox ++ frames }

/-- When a tuple runs out that is published now. -/
def deadline (now : Int) (ttl : Nat) : WithTop Int :=
  if 0 < ttl then ((now + msec ttl : Int) : WithTop Int) else ⊤

/-- The frame is the message to its receiver. -/
def Framed (mail : Bytes × Zgs.Message) (frame : Bytes × Bytes) : Prop :=
  frame.1 = mail.1 ∧ Zgs.encode mail.2 = .ok frame.2

/-- `r'` has posted the mails, and is the same otherwise. -/
def Posts (r : Registry) (mails : List (Bytes × Zgs.Message)) (r' : Registry) : Prop :=
  ∃ frames, mails.Forall₂ Framed frames ∧ r' = { r with outbox := r.outbox ++ frames }

/-- A PUBLISH is ignored when the same key and value is live. Otherwise it is stored, delivered, and broadcast
to every client. -/
inductive Accepts (env : Env) (r : Registry) (key value : Bytes) (ttl : Nat) : Registry → Prop where
  | known (h : r.tuples.Holds key value) : Accepts env r key value ttl r
  | news {r' : Registry} (h : ¬ r.tuples.Holds key value)
      (hposts : Posts
        { r with
          tuples := r.tuples.store key value (deadline env.now ttl)
          pending := r.pending ++ [(key, value)] }
        ((env.order r.clients).map fun id => (id, .publish key value ttl)) r') :
      Accepts env r key value ttl r'

/-- One inbound message. A HELLO is answered with one PUBLISH for each live tuple. -/
inductive Handles (env : Env) (r : Registry) : List Bytes → Registry → Prop where
  | noise {frames : List Bytes} (h : frames.length ≠ 2) : Handles env r frames r
  | hello {r' : Registry} {id body : Bytes} {es : List (Bytes × Bytes)} (hm : Zgs.decode body = .ok (some .hello))
      (hes : r.tuples.Lists es) (hposts : (r.meets id).Posts (es.map fun e => (id, .publish e.1 e.2 0)) r') :
      Handles env r [id, body] r'
  | publish {r' : Registry} {id body key value : Bytes} {ttl : Nat}
      (hm : Zgs.decode body = .ok (some (.publish key value ttl)))
      (ha : (r.meets id).Accepts env key value ttl r') : Handles env r [id, body] r'
  | ping {r' : Registry} {id body : Bytes} (hm : Zgs.decode body = .ok (some .ping))
      (hposts : (r.meets id).Posts [(id, .pong)] r') : Handles env r [id, body] r'
  | invalid {r' : Registry} {id body : Bytes} (hm : Zgs.decode body = .ok (some .invalid))
      (hposts : (r.meets id).Posts [(id, .invalid)] r') : Handles env r [id, body] r'
  | quiet {id body : Bytes} (hm : Zgs.decode body = .ok none ∨ Zgs.decode body = .ok (some .pong)) :
      Handles env r [id, body] (r.meets id)

/-- The inbound messages, one after the other. -/
inductive Drains (env : Env) : Registry → List (List Bytes) → Registry → Prop where
  | nil {r : Registry} : Drains env r [] r
  | cons {r r' r'' : Registry} {frames : List Bytes} {messages : List (List Bytes)}
      (h : r.Handles env frames r') (hs : Drains env r' messages r'') : Drains env r (frames :: messages) r''

/-- One call, at the time of `env`. -/
inductive Answers (env : Env) (r : Registry) : HubCall → HubReply → Registry → Prop where
  | publish {key value : Bytes} {ttl : Nat} {r' : Registry} (h : (r.upTo env.now).Accepts env key value ttl r') :
      Answers env r (.publish key value ttl) .done r'
  | unpublish {key : Bytes} :
      Answers env r (.unpublish key) .done
        { r.upTo env.now with tuples := (r.upTo env.now).tuples.remove key }
  | deliveries : Answers env r .deliveries (.delivered r.pending) { r.upTo env.now with pending := [] }
  | tuples {es : List (Bytes × Bytes)} (h : (r.upTo env.now).tuples.Lists es) :
      Answers env r .tuples (.reported (Hub.decodeTuples es)) (r.upTo env.now)
  | handleSocket {messages : List (List Bytes)} {r' : Registry} (h : (r.upTo env.now).Drains env messages r') :
      Answers env r (.handleSocket messages) (.delivered r'.pending) { r' with pending := [] }

/-- The reference store after the calls. -/
inductive Run : List (Env × HubCall) → List HubReply → Registry → Prop where
  | init : Run [] [] init
  | call {calls : List (Env × HubCall)} {replies : List HubReply} {r r' : Registry} {env : Env} {c : HubCall}
      {reply : HubReply} (hr : Run calls replies r) (ha : r.Answers env c reply r') :
      Run (calls ++ [(env, c)]) (replies ++ [reply]) r'

end Registry

end Zre
