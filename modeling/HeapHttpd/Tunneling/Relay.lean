import HeapHttpd.Http2.Comm
import HeapHttpd.Library.MirroredRing
import HeapHttpd.Library.Replay

/-!
# The relay of a CONNECT tunnel

`http_tunneling::relay_processing` in the synchronous build: one ring buffer for
each direction, laid out twice, and a loop over `select`.
-/

namespace HeapHttpd

namespace Tunneling

open Http2 (toInt)
open MirroredRing (store load)

/-- `BUFFER_DESCR_BUF_LEN`. -/
def bufferDescrBufLen : Nat := 4096 * 3

/-- `Buffer_Descr`, with the octets at every offset from `buf`. -/
structure BufferDescr where
  buf : Int → UInt8
  bufLen : Int
  rPos : Int
  wPos : Int

/-- What `recv` has: octets of which it returns as many as fit (none at the end of
the stream), or an error, which may be `EAGAIN`. -/
inductive Received
  | octets (data : List UInt8)
  | failed (again : Bool)
  deriving DecidableEq

/-- What `send` does: it takes so many octets if there are as many, or fails. -/
inductive Sent
  | count (len : Nat)
  | failed (again : Bool)
  deriving DecidableEq

/-- What one direction does with its buffer and its sockets. -/
inductive Event
  | touched (offset count : Int)
  | received (data : List UInt8)
  | passed (data : List UInt8)
  | taken (len : Nat)
  deriving DecidableEq

/-- One direction: its buffer, and whether the socket it sends to is in `mask_w`. -/
structure Pipe where
  descr : BufferDescr
  writable : Bool
  events : List Event

/-- A buffer as it is set up in memory that may hold anything. -/
def Pipe.new (buf : Int → UInt8) : Pipe :=
  { descr := { buf, bufLen := bufferDescrBufLen, rPos := 0, wPos := 0 }
    writable := false
    events := [] }

namespace Pipe

def note (event : Event) (pipe : Pipe) : Pipe :=
  { pipe with events := pipe.events ++ [event] }

/-- `memcpy` within the buffer. -/
def memcpy (target source count : Int) (pipe : Pipe) : Pipe :=
  { pipe with
    descr.buf := store pipe.descr.buf target (load pipe.descr.buf source count.toNat)
    events := pipe.events ++ [.touched source count, .touched target count] }

/-- `recv` into the buffer, and the copy of what it puts into the second half. -/
def fill (data : List UInt8) (pipe : Pipe) : Pipe :=
  let descr := pipe.descr
  let offset := descr.wPos.tmod descr.bufLen
  let len : Int := data.length
  let pipe := { pipe with descr.buf := store descr.buf offset data }
  if descr.bufLen - offset < len then
    pipe.memcpy 0 descr.bufLen (len - (descr.bufLen - offset))
  else pipe

/-- The arm for a socket that can be read; the flag says whether the loop goes on. -/
def receive (answer : Received) (pipe : Pipe) : Pipe × Bool :=
  let descr := pipe.descr
  let wannaRecvLen := toInt (descr.bufLen - toInt (descr.wPos - descr.rPos))
  if 0 < wannaRecvLen ∧ wannaRecvLen ≤ descr.bufLen then
    let pipe := pipe.note (.touched (descr.wPos.tmod descr.bufLen) wannaRecvLen)
    match answer with
    | .octets data =>
        let data := data.take wannaRecvLen.toNat
        let pipe := pipe.fill data
        if data.length = 0 then (pipe, false)
        else
          let pipe := pipe.note (.received data)
          ({ pipe with
              descr.wPos := toInt (descr.wPos + data.length)
              writable := true }, true)
    | .failed again => (pipe, again)
  else (pipe, true)

/-- The arm for a socket that can be written. -/
def send (answer : Sent) (pipe : Pipe) : Pipe × Bool :=
  if pipe.writable then
    let descr := pipe.descr
    let wannaSendLen := toInt (descr.wPos - descr.rPos)
    if 0 < wannaSendLen ∧ wannaSendLen ≤ descr.bufLen then
      let offset := descr.rPos.tmod descr.bufLen
      let pipe := pipe.note (.touched offset wannaSendLen)
      let pipe := pipe.note (.passed (load descr.buf offset wannaSendLen.toNat))
      match answer with
      | .count len =>
          let len := min len wannaSendLen.toNat
          if len = 0 then (pipe, false)
          else
            let rPos := toInt (descr.rPos + len)
            let pipe := pipe.note (.taken len)
            ({ pipe with descr.rPos := rPos, writable := rPos ≠ descr.wPos }, true)
      | .failed again => (pipe, again)
    else if wannaSendLen = 0 then ({ pipe with writable := false }, true)
    else (pipe, true)
  else (pipe, true)

end Pipe

/-- The two sockets. -/
inductive End
  | client
  | backend
  deriving DecidableEq

/-- What the system does in one turn of the loop: the result of `select`, the
sockets it leaves in each mask, and what `recv` and `send` do if they are called. -/
structure Turn where
  retVal : Int
  readable : End → Bool
  writable : End → Bool
  exceptional : End → Bool
  recv : End → Received
  send : End → Sent

/-- `buf_descr_frm_client` and `buf_descr_frm_backend`. -/
structure Relay where
  frmClient : Pipe
  frmBackend : Pipe

/-- The two arms for one direction; `select` has taken sockets out of `mask_w`. -/
def Pipe.turn (readable writable : Bool) (recv : Received) (send : Sent) (pipe : Pipe) :
    Pipe × Bool :=
  let pipe := { pipe with writable := pipe.writable && writable }
  let (pipe, continues) := if readable then pipe.receive recv else (pipe, true)
  if continues then pipe.send send else (pipe, false)

/-- One turn of the loop; the flag says whether it goes on. -/
def Relay.turn (turn : Turn) (relay : Relay) : Relay × Bool :=
  if 0 < turn.retVal then
    let (frmClient, continues) :=
      relay.frmClient.turn (turn.readable .client) (turn.writable .backend) (turn.recv .client)
        (turn.send .backend)
    if continues then
      let (frmBackend, continues) :=
        relay.frmBackend.turn (turn.readable .backend) (turn.writable .client)
          (turn.recv .backend) (turn.send .client)
      ({ frmClient, frmBackend },
        continues && !turn.exceptional .client && !turn.exceptional .backend)
    else ({ relay with frmClient }, false)
  else (relay, false)

/-- `relay_processing` for as long as the turns last. -/
def relayProcessing : List Turn → Relay → Relay
  | [], relay => relay
  | turn :: turns, relay =>
      let (relay, continues) := relay.turn turn
      if continues then relayProcessing turns relay else relay

end Tunneling

end HeapHttpd
