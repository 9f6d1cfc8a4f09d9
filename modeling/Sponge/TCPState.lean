import Sponge.Connection

/-!
# The state of a connection in words

`TCPState` of `tcp_state.cc`: what the sender, the receiver and the two flags of a
connection amount to, and the official states in these terms.

The summaries are strings there; here they are constructors with those texts, which are all
different (`TCPSenderStateSummary.text_inj`, `TCPReceiverStateSummary.text_inj`).
-/

namespace Sponge

inductive TCPReceiverStateSummary
  | error
  | listen
  | synRecv
  | finRecv
  deriving DecidableEq, Repr

namespace TCPReceiverStateSummary

def text : TCPReceiverStateSummary → String
  | error => "error (connection was reset)"
  | listen => "waiting for SYN: ackno is empty"
  | synRecv => "SYN received (ackno exists), and input to stream hasn't ended"
  | finRecv => "input to stream has ended"

theorem text_inj {a b : TCPReceiverStateSummary} (h : a.text = b.text) : a = b := by
  revert h
  cases a <;> cases b <;> decide

end TCPReceiverStateSummary

inductive TCPSenderStateSummary
  | error
  | closed
  | synSent
  | synAcked
  | finSent
  | finAcked
  deriving DecidableEq, Repr

namespace TCPSenderStateSummary

def text : TCPSenderStateSummary → String
  | error => "error (connection was reset)"
  | closed => "waiting for stream to begin (no SYN sent)"
  | synSent => "stream started but nothing acknowledged"
  | synAcked => "stream ongoing"
  | finSent => "stream finished (FIN sent) but not fully acknowledged"
  | finAcked => "stream finished and fully acknowledged"

theorem text_inj {a b : TCPSenderStateSummary} (h : a.text = b.text) : a = b := by
  revert h
  cases a <;> cases b <;> decide

end TCPSenderStateSummary

/-- `TCPState::state_summary` of a receiver. -/
def TCPReceiver.stateSummary (receiver : TCPReceiver) : TCPReceiverStateSummary :=
  if receiver.streamOut.error then .error
  else if !receiver.ackno.isSome then .listen
  else if receiver.streamOut.inputEnded then .finRecv
  else .synRecv

/-- `TCPState::state_summary` of a sender. -/
def TCPSender.stateSummary (sender : TCPSender) : TCPSenderStateSummary :=
  if sender.stream.error then .error
  else if sender.nextSeqnoAbsolute = 0 then .closed
  else if sender.nextSeqnoAbsolute = sender.bytesInFlight then .synSent
  else if !sender.stream.eof then .synAcked
  else if sender.nextSeqnoAbsolute < sender.stream.bytesWritten + 2 then .synAcked
  else if sender.bytesInFlight ≠ 0 then .finSent
  else .finAcked

structure TCPState where
  sender : TCPSenderStateSummary
  receiver : TCPReceiverStateSummary
  active : Bool := true
  lingerAfterStreamsFinish : Bool := true
  deriving DecidableEq, Repr

namespace TCPState

/-- `TCPState::State`, the official names. -/
inductive State
  | listen
  | synRcvd
  | synSent
  | established
  | closeWait
  | lastAck
  | finWait1
  | finWait2
  | closing
  | timeWait
  | closed
  | reset
  deriving DecidableEq, Repr

def ofState : State → TCPState
  | .listen => { receiver := .listen, sender := .closed }
  | .synRcvd => { receiver := .synRecv, sender := .synSent }
  | .synSent => { receiver := .listen, sender := .synSent }
  | .established => { receiver := .synRecv, sender := .synAcked }
  | .closeWait => { receiver := .finRecv, sender := .synAcked, lingerAfterStreamsFinish := false }
  | .lastAck => { receiver := .finRecv, sender := .finSent, lingerAfterStreamsFinish := false }
  | .closing => { receiver := .finRecv, sender := .finSent }
  | .finWait1 => { receiver := .synRecv, sender := .finSent }
  | .finWait2 => { receiver := .synRecv, sender := .finAcked }
  | .timeWait => { receiver := .finRecv, sender := .finAcked }
  | .reset =>
    { receiver := .error, sender := .error, lingerAfterStreamsFinish := false, active := false }
  | .closed =>
    { receiver := .finRecv
      sender := .finAcked
      lingerAfterStreamsFinish := false
      active := false }

def name (s : TCPState) : String :=
  let toString : Bool → String := fun b => if b then "1" else "0"
  "sender=`" ++ s.sender.text ++ "`, receiver=`" ++ s.receiver.text ++ "`, active=" ++
    toString s.active ++ ", linger_after_streams_finish=" ++ toString s.lingerAfterStreamsFinish

end TCPState

/-- An inactive connection is never said to linger. -/
def TCPConnection.state (c : TCPConnection) : TCPState where
  sender := c.sender.stateSummary
  receiver := c.receiver.stateSummary
  active := c.active
  lingerAfterStreamsFinish := if c.active then c.lingerAfterStreamsFinish else false

end Sponge
