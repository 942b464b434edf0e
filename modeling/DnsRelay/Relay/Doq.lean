import DnsRelay.Relay.Transport
import DnsRelay.Shared.Cache

/-!
# DNS over QUIC

`send_query` writes one query on a fresh stream, closes its side and reads the
other side to the end.  A peer of RFC 9250 sends every message behind its
length, in two bytes.  The length is part of the stream in both directions.

`send_query` writes none and takes none off.  A peer reads the zero identifier
of the query as the length of an empty message, and what comes back is two
bytes longer than the reply.
-/

namespace DnsRelay

open Lib

/-! ## Messages behind their length -/

def frame (message : Bytes) : Bytes := toBe16 message.length ++ message

def readFrame (stream : Bytes) : Option Bytes :=
  if stream.length < 2 then none
  else if stream.length < 2 + u16At stream 0 then none
  else some (slice stream 2 (2 + u16At stream 0))

theorem readFrame_frame {m : Bytes} (h : m.length < 65536) : readFrame (frame m) = some m := by
  have hlen : (frame m).length = 2 + m.length := by
    rw [frame, List.length_append, toBe16_length]
  have hfield : u16At (frame m) 0 = m.length :=
    (u16At_toBe16_append m.length m).trans (Nat.mod_eq_of_lt h)
  have hslice : slice (frame m) 2 (2 + m.length) = m := by
    refine (slice_append_add (toBe16 m.length) m 0 m.length).trans ?_
    rw [slice_zero, List.take_length]
  rw [readFrame, if_neg (by omega), hfield, if_neg (by omega), hslice]

/-- A peer that reads one message behind its length and writes its reply in the
same form. -/
structure FramedPeer where
  reply : Option Bytes → Bytes
  fits : ∀ m, (reply m).length < 65536

def FramedPeer.stream (peer : FramedPeer) (written : Bytes) : Bytes :=
  frame (peer.reply (readFrame written))

/-! ## The client -/

/-- `DOQ_READ_LIMIT`. -/
def doqReadLimit : Nat := 65535

/-- What `send_query` writes: the payload with its identifier zeroed. -/
def doqQuery (payload : Bytes) : Bytes :=
  if 2 ≤ payload.length then overwrite payload 0 [0, 0] else payload

/-- `RecvStream::read_to_end`. -/
def readToEnd (sizeLimit : Nat) (stream : Bytes) : Option Bytes :=
  if stream.length ≤ sizeLimit then some stream else none

/-- `send_query`, on a stream that a peer answers as a whole. -/
def sendQuery (peer : Bytes → Bytes) (payload : Bytes) : Option Bytes :=
  readToEnd doqReadLimit (peer (doqQuery payload))

theorem doqQuery_length (payload : Bytes) : (doqQuery payload).length = payload.length := by
  rw [doqQuery]
  split
  · next h => exact overwrite_length h
  · rfl

/-- The peer reads an empty message, or none at all. -/
theorem readFrame_doqQuery (payload : Bytes) :
    readFrame (doqQuery payload) = if 2 ≤ payload.length then some [] else none := by
  rw [readFrame, doqQuery_length]
  split
  · next h => rw [if_neg (by omega)]
  · next h =>
      have h2 : 2 ≤ payload.length := by omega
      have hid : u16At (doqQuery payload) 0 = 0 := by
        rw [doqQuery, if_pos h2]
        show be16 0 0 = 0
        decide
      rw [hid, if_neg (by omega), if_pos h2]
      exact congrArg some (List.drop_eq_nil_of_le (List.length_take_le 2 _))

/-- What is returned is the reply with its length still in front. -/
theorem sendQuery_framed {peer : FramedPeer} {payload returned : Bytes}
    (h : sendQuery peer.stream payload = some returned) :
    returned = frame (peer.reply (readFrame (doqQuery payload))) ∧
      readFrame returned = some (peer.reply (readFrame (doqQuery payload))) := by
  rw [sendQuery, readToEnd] at h
  split at h
  · cases h
    exact ⟨rfl, readFrame_frame (peer.fits _)⟩
  · cases h

/-- A reply with the identifier zero is not taken for a response. -/
theorem frame_unusable {m : Bytes} (h12 : 12 ≤ m.length) (hid : u16At m 0 = 0)
    (rejectUnspecified : Bool) : isUsableResponse (frame m) rejectUnspecified = false := by
  have hlen : (frame m).length = 2 + m.length := by
    rw [frame, List.length_append, toBe16_length]
  have hflags : u16At (frame m) 2 = 0 := (u16At_append_add (toBe16 m.length) m 0).trans hid
  rw [isUsableResponse, if_neg (by omega)]
  simp only [hflags, Nat.zero_and]
  rfl

/-- For no payload and no peer does the peer read the query, and for none does
the client get the reply. -/
theorem doq_framing_never_agrees (peer : FramedPeer) (payload : Bytes) :
    readFrame (doqQuery payload) ≠ some (doqQuery payload) ∧
      sendQuery peer.stream payload ≠ some (peer.reply (readFrame (doqQuery payload))) := by
  constructor
  · intro h
    rw [readFrame_doqQuery] at h
    split at h
    · next h2 =>
        have hlen := congrArg List.length (Option.some.inj h)
        rw [doqQuery_length, List.length_nil] at hlen
        omega
    · cases h
  · intro h
    have hlen := congrArg List.length (sendQuery_framed h).1
    rw [frame, List.length_append, toBe16_length] at hlen
    omega

def addressPeer : FramedPeer where
  reply _ := withTxid (addressResponse [192, 0, 2, 1]) (0, 0)
  fits _ := by decide

/-- The peer reads an empty message from the query for the name `a`.  Its reply
is a response, and what the client returns for it is none. -/
theorem doq_query_reads_empty :
    let payload := addressQuery [1, 0x61, 0]
    let reply := withTxid (addressResponse [192, 0, 2, 1]) (0, 0)
    readFrame (doqQuery payload) = some [] ∧
      sendQuery addressPeer.stream payload = some (frame reply) ∧ frame reply ≠ reply ∧
      isUsableResponse reply true = true ∧ isUsableResponse (frame reply) true = false := by
  intro payload reply
  exact ⟨by decide, by decide, by decide, by decide +kernel,
    frame_unusable (by decide) (by decide) true⟩

end DnsRelay
