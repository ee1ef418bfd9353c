import HeapHttpd.Hpack.Parse

/-!
# Frames on the wire

The structures of `http2comm.h` as the compiler lays them out: multi-octet
fields in network order, and bit-fields from the low bit of their first octet
on.  A field of 31 bits behind a bit of its own therefore lacks the low bit of
its first octet.
-/

namespace HeapHttpd

namespace Http2

/-- `ntohl` and its kin: the number some octets stand for in network order. -/
def ntoh (octets : List UInt8) : Nat :=
  octets.foldl (fun value octet => value * 256 + octet.toNat) 0

/-- The three octets of a number in network order. -/
def hton24 (value : Nat) : List UInt8 :=
  [UInt8.ofNat (value / 2 ^ 16), UInt8.ofNat (value / 2 ^ 8), UInt8.ofNat value]

/-- `htonl`. -/
def htonl (value : Nat) : List UInt8 :=
  UInt8.ofNat (value / 2 ^ 24) :: hton24 value

/-- `ntohl(field << 1)` for a bit-field of 31 bits behind one of a single bit. -/
def ntoh31 : List UInt8 → Nat
  | [] => 0
  | first :: rest => ntoh ((first &&& 0xfe) :: rest)

/-- `htonl(value) >> 1` in a bit-field of 31 bits behind one of a single bit. -/
def hton31 (value : Nat) : List UInt8 :=
  match htonl value with
  | [] => []
  | first :: rest => (first &&& 0xfe) :: rest

/-- A C `int` after a conversion from a number out of its range. -/
def toInt (value : Int) : Int :=
  (value + 2 ^ 31) % 2 ^ 32 - 2 ^ 31

theorem toInt_of_bounds {value : Int} (low : -2 ^ 31 ≤ value) (high : value < 2 ^ 31) :
    toInt value = value := by
  rw [toInt]
  omega

/-- A `uint_32` after a conversion from a number out of its range. -/
def toUint (value : Int) : Nat :=
  (value % 2 ^ 32).toNat

namespace FrameType

def data : UInt8 := 0x00
def headers : UInt8 := 0x01
def priority : UInt8 := 0x02
def rstStream : UInt8 := 0x03
def settings : UInt8 := 0x04
def pushPromise : UInt8 := 0x05
def ping : UInt8 := 0x06
def goaway : UInt8 := 0x07
def windowUpdate : UInt8 := 0x08
def continuation : UInt8 := 0x09

end FrameType

namespace ErrorCode

def noError : Nat := 0x00
def protocolError : Nat := 0x01
def flowControlError : Nat := 0x03
def streamClosed : Nat := 0x05
def frameSizeError : Nat := 0x06
def compressionError : Nat := 0x09

end ErrorCode

namespace Flag

def unset : UInt8 := 0x00
def endStream : UInt8 := 0x01
def settingAck : UInt8 := 0x01
def pingAck : UInt8 := 0x01
def endHeaders : UInt8 := 0x04
def padded : UInt8 := 0x08
def priority : UInt8 := 0x20

end Flag

/-- Whether a flag is set. -/
def hasFlag (flags flag : UInt8) : Bool :=
  flags &&& flag == flag

namespace SettingId

def headerTableSize : Nat := 0x01
def enablePush : Nat := 0x02
def maxConcurrentStreams : Nat := 0x03
def initialWindowSize : Nat := 0x04
def maxFrameSize : Nat := 0x05
def maxHeaderListSize : Nat := 0x06

end SettingId

/-- `HTTP2_Frame` as received: the length field, and the identifier field as
`ntohl(identifier << 1)` gives it. -/
structure HTTP2Frame where
  length : Nat
  type : UInt8
  flags : UInt8
  identifier : Nat
  deriving DecidableEq, Repr

/-- `sizeof(HTTP2_Frame)`. -/
def sizeofFrame : Nat := 9

/-- A frame header from its nine octets. -/
def HTTP2Frame.ofOctets (octets : List UInt8) : HTTP2Frame :=
  { length := ntoh (octets.take 3)
    type := octets.getD 3 0
    flags := octets.getD 4 0
    identifier := ntoh31 ((octets.drop 5).take 4) }

/-- The stream of a frame. -/
def HTTP2Frame.streamInd (frame : HTTP2Frame) : Nat :=
  frame.identifier % 2 ^ 31

/-- A frame as it is sent: `length` is the number the length field is computed
from. -/
structure SentFrame where
  length : Nat
  type : UInt8
  flags : UInt8
  identifier : Nat
  payload : List UInt8
  deriving DecidableEq, Repr

/-- The octets of a frame that is sent. -/
def SentFrame.octets (frame : SentFrame) : List UInt8 :=
  hton24 frame.length ++ (frame.type :: frame.flags :: hton31 frame.identifier) ++ frame.payload

/-- `HTTP2_PREFACE_LEN`. -/
def prefaceLen : Nat := 24

/-- `client_preface_str`. -/
def clientPreface : List UInt8 :=
  [0x50, 0x52, 0x49, 0x20, 0x2a, 0x20, 0x48, 0x54, 0x54, 0x50, 0x2f, 0x32, 0x2e, 0x30, 0x0d, 0x0a,
    0x0d, 0x0a, 0x53, 0x4d, 0x0d, 0x0a, 0x0d, 0x0a]

/-- `HTTP2_MAX_WINDOW_SIZE`. -/
def maxWindowSize : Nat := 2147483647

/-- `HTTP2_DEFAULT_WINDOW_SIZE`. -/
def defaultWindowSize : Nat := 65535

/-- `HTTP2_DATA_PADDING_LEN`. -/
def dataPaddingLen : Nat := 8

end Http2

end HeapHttpd
