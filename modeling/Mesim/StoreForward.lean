import Mesim.ForwardQueue
import Mesim.Retransmission

/-!
Store-and-forward over the transport.
A message goes out at once when there is a session for its peer and into the
queue when there is none; the queue is emptied into the transport when the peer
connects, now and then, or by hand. In flight, the message is the transport's.
-/
namespace Mesim.StoreForward

open Octets Crypto Identity Packet Transport Operations ForwardQueue

variable (C : Suite)

/-- What a call leaves behind, what it causes and how it ends. -/
structure Result (α : Type) where
  transport : MeshTransport
  queue : ForwardQueue
  effects : List Effect
  ended : Except PyError α

/-- True when sent, False when queued. -/
def sendOrQueue (env : Env) (t : MeshTransport) (q : ForwardQueue) (peerId : String)
    (payload : Bytes) : Result Bool :=
  let peerId := normalizePeerId peerId
  if (t.sessions.get? peerId).isSome then
    let out := send C env t peerId payload
    match out.raised with
    | none => ⟨out.state, q, out.effects, .ok true⟩
    | some e => ⟨out.state, q, out.effects, .error e⟩
  else
    match q.enqueue C env.time (env.nonce 0) peerId payload with
    | .ok (q', _) => ⟨t, q', [], .ok false⟩
    | .error e => ⟨t, q, [], .error e⟩

/-- The loop of flush_peer(). It collects the rows that went out, each with its msg_id. -/
def flushEach (envs : ℕ → Env) (peerId : String) :
    MeshTransport → ForwardQueue → List QueuedMessage → ℕ → Result (List (ℕ × ℕ))
  | t, q, [], _ => ⟨t, q, [], .ok []⟩
  | t, q, msg :: rest, i =>
    let out := send C (envs i) t peerId msg.payload
    let marked := match out.raised with
      | none => q.markSent msg.id
      | some e => .error e
    match marked with
    | .ok q' =>
      let more := flushEach envs peerId out.state q' rest (i + 1)
      ⟨more.transport, more.queue, out.effects ++ more.effects,
        more.ended.map ((msg.id, t.msgIdCounter) :: ·)⟩
    | .error _ =>
      match q.incrementAttempt msg.id with
      | .ok q' =>
        let more := flushEach envs peerId out.state q' rest (i + 1)
        ⟨more.transport, more.queue, out.effects ++ more.effects, more.ended⟩
      | .error e => ⟨out.state, q, out.effects, .error e⟩

/-- flush_peer() returns the number of the rows listed here. -/
def flushPeer (now : ℚ) (envs : ℕ → Env) (t : MeshTransport) (q : ForwardQueue) (peerId : String) :
    Result (List (ℕ × ℕ)) :=
  let peerId := normalizePeerId peerId
  match q.getPending C now peerId with
  | .ok pending => flushEach C envs peerId t q pending 0
  | .error e => ⟨t, q, [], .error e⟩

section Loop

variable {C} {envs : ℕ → Env} {peerId : String} {t : MeshTransport} {q : ForwardQueue}
variable {msg : QueuedMessage} {rest : List QueuedMessage} {i : ℕ}

/-- A row that goes out is taken off the queue. -/
theorem flushEach_sent (hopen : q.isOpen = true)
    (hraised : (send C (envs i) t peerId msg.payload).raised = none) :
    flushEach C envs peerId t q (msg :: rest) i =
      let more := flushEach C envs peerId (send C (envs i) t peerId msg.payload).state
        ⟨q.key, q.isOpen, q.table.delete (fun row => row.id = msg.id)⟩ rest (i + 1)
      ⟨more.transport, more.queue, (send C (envs i) t peerId msg.payload).effects ++ more.effects,
        more.ended.map ((msg.id, t.msgIdCounter) :: ·)⟩ := by
  simp only [flushEach, hraised, markSent_open hopen]

/-- A row that does not go out stays, with one attempt more. -/
theorem flushEach_unsent (hopen : q.isOpen = true) (e : PyError)
    (hraised : (send C (envs i) t peerId msg.payload).raised = some e) :
    flushEach C envs peerId t q (msg :: rest) i =
      let more := flushEach C envs peerId (send C (envs i) t peerId msg.payload).state
        ⟨q.key, q.isOpen, q.table.incrementAttempt msg.id⟩ rest (i + 1)
      ⟨more.transport, more.queue, (send C (envs i) t peerId msg.payload).effects ++ more.effects,
        more.ended⟩ := by
  simp only [flushEach, hraised, incrementAttempt_open hopen]

end Loop

/-- The four ways a call of send_or_queue() can go. -/
inductive Ending (env : Env) (t : MeshTransport) (q : ForwardQueue) (peerId : String)
    (payload : Bytes) : Result Bool → Prop
  | sent (hraised : (send C env t peerId payload).raised = none) :
      Ending env t q peerId payload
        ⟨(send C env t peerId payload).state, q, (send C env t peerId payload).effects, .ok true⟩
  | unsent (e : PyError) : Ending env t q peerId payload
      ⟨(send C env t peerId payload).state, q, (send C env t peerId payload).effects, .error e⟩
  | queued (q' : ForwardQueue) (id : ℕ)
      (henqueued : q.enqueue C env.time (env.nonce 0) peerId payload = .ok (q', id)) :
      Ending env t q peerId payload ⟨t, q', [], .ok false⟩
  | refused (e : PyError) : Ending env t q peerId payload ⟨t, q, [], .error e⟩

theorem sendOrQueue_ending (env : Env) (t : MeshTransport) (q : ForwardQueue) (peerId : String)
    (payload : Bytes) :
    Ending C env t q (normalizePeerId peerId) payload (sendOrQueue C env t q peerId payload) := by
  unfold sendOrQueue
  dsimp only
  split
  · split
    · rename_i hraised
      exact .sent hraised
    · exact .unsent _
  · split
    · rename_i q' id henqueued
      exact .queued q' id henqueued
    · exact .refused _

end Mesim.StoreForward
