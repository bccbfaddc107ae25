import RexOs.Net.Tcp

/-! Network devices and Ethernet frames (`kernel/net/eth.c`, `kernel/net/net.c`).

A device is known by the address of its `net_device_t`; `Devices` gives the fields
at each address. A function that sends returns the frames it hands to `send_frame`,
in order.
-/

set_option autoImplicit false

namespace RexOs.Net

structure MacAddr where
  b0 : UInt8
  b1 : UInt8
  b2 : UInt8
  b3 : UInt8
  b4 : UInt8
  b5 : UInt8
  deriving DecidableEq, Repr

def MacAddr.bytes (a : MacAddr) : List UInt8 := [a.b0, a.b1, a.b2, a.b3, a.b4, a.b5]

def MacAddr.broadcast : MacAddr := ⟨0xFF, 0xFF, 0xFF, 0xFF, 0xFF, 0xFF⟩

def Ip4Addr.zero : Ip4Addr := ⟨0, 0, 0, 0⟩

def Ip4Addr.broadcast : Ip4Addr := ⟨255, 255, 255, 255⟩

def ethertypeIpv4 : UInt16 := 0x0800
def ethertypeArp : UInt16 := 0x0806

/-- The fields of `net_device_t` that the protocols use. -/
structure NetDevice where
  mac : MacAddr
  ip : Ip4Addr
  gateway : Ip4Addr
  netmask : Ip4Addr
  dnsServer : Ip4Addr
  deriving DecidableEq, Repr

def Devices : Type := Nat → NetDevice

/-- A frame handed to the `send_frame` of the device at `dev`. -/
structure EthFrame where
  dev : Nat
  dest : MacAddr
  src : MacAddr
  ethertype : UInt16
  payload : List UInt8
  deriving DecidableEq, Repr

/-- `sizeof(eth_header_t)`. -/
def ethHeaderSize : Nat := 14

def ethSend (devices : Devices) (dev : Nat) (dest : MacAddr) (ethertype : UInt16) (payload : List UInt8) :
    List EthFrame :=
  if ethHeaderSize + payload.length > 2048 then []
  else [⟨dev, dest, (devices dev).mac, ethertype, payload⟩]

/-- As in `tcpChecksum`, two rounds leave no carry. -/
def netChecksum (data : List UInt8) : UInt16 := ~~~ (foldCarry (foldCarry (wordSum data))).toUInt16

end RexOs.Net
