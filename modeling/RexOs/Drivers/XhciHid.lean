import RexOs.Drivers.Xhci
import RexOs.Library.Memory

/-! The HID devices behind the xHCI controller (`kernel/drivers/usb/xhci.c`).

All loops of the driver read one event ring, and the controller may post events between any two
of their looks. So a loop is a mode of the driver, and a step is one look. The contexts that are
handed to the controller and the processing of the reports are left out.
-/

set_option autoImplicit false

namespace RexOs.Drivers

open RexOs.Library

def trbNormal : Nat := 1
def trbSetupStage : Nat := 2
def trbDataStage : Nat := 3
def trbStatusStage : Nat := 4
def trbEnableSlot : Nat := 9
def trbAddressDevice : Nat := 11
def trbConfigureEndpoint : Nat := 12
def trbEventTransfer : Nat := 32
def trbEventCmdCompletion : Nat := 33

def usbDescDevice : Nat := 1
def usbDescConfig : Nat := 2
def usbDescInterface : Nat := 4
def usbDescEndpoint : Nat := 5
def usbReqGetDescriptor : Nat := 6
def usbReqSetConfig : Nat := 9

def maxUsbDevices : Nat := 8
def waitLooks : Nat := 2000000
def pollLooks : Nat := 32

def Trb.slot (t : Trb) : Nat := t.control >>> 24 &&& 0xFF
def Trb.endpoint (t : Trb) : Nat := t.control >>> 16 &&& 0x1F
def Trb.code (t : Trb) : Nat := t.status >>> 24 &&& 0xFF

/-- What the controller has posted; `report` tells whether it completes an interrupt-IN transfer. -/
structure Event where
  trb : Trb
  report : Bool

abbrev Key := Nat × Nat

def Event.key (e : Event) : Key := (e.trb.slot, e.trb.endpoint)

structure HidDevice extends UsbDevice where
  present : Bool
  slotId : Nat
  ifaceProto : Nat
  epAddr : Nat
  inCtxPhys : Nat
  devCtxPhys : Nat
  reportPhys : Nat

def HidDevice.zero : HidDevice :=
  { epRing := ⟨0, fun _ => ⟨0, 0, 0, 0⟩, 0, 0⟩, present := false, slotId := 0, ifaceProto := 0, epAddr := 0
    inCtxPhys := 0, devCtxPhys := 0, reportPhys := 0 }

def HidDevice.dci (d : HidDevice) : Nat := (d.epAddr &&& 0x0F) * 2 + 1

def HidDevice.key (d : HidDevice) : Key := (d.slotId, d.dci)

def HidDevice.ringSubmit (d : HidDevice) (p0 p1 st ctlTypeFlags : Nat) : HidDevice :=
  { d with toUsbDevice := Drivers.ringSubmit d.toUsbDevice p0 p1 st ctlTypeFlags }

def HidDevice.controlIn (d : HidDevice) (reqType req value index len bufPhys : Nat) : HidDevice :=
  ((d.ringSubmit (reqType ||| req <<< 8 ||| value <<< 16) (index ||| len <<< 16) 8
      (trbSetupStage <<< 10 ||| 1 <<< 6 ||| 3 <<< 16)).ringSubmit
    (bufPhys &&& 0xFFFFFFFF) (bufPhys >>> 32) len (trbDataStage <<< 10 ||| 1 <<< 16)).ringSubmit
    0 0 0 (trbStatusStage <<< 10 ||| 1 <<< 5)

def HidDevice.setConfiguration (d : HidDevice) (configVal : Nat) : HidDevice :=
  (d.ringSubmit (usbReqSetConfig <<< 8 ||| configVal <<< 16) 0 8 (trbSetupStage <<< 10 ||| 1 <<< 6)).ringSubmit
    0 0 0 (trbStatusStage <<< 10 ||| 1 <<< 16 ||| 1 <<< 5)

def HidDevice.queueTransfer (d : HidDevice) : HidDevice :=
  d.ringSubmit (d.reportPhys &&& 0xFFFFFFFF) (d.reportPhys >>> 32) 8 (trbNormal <<< 10 ||| 1 <<< 5)

def parseConfigLoop (buf : Mem) (totalLen : Nat) : Nat → Nat → Bool → Nat → Option (Nat × Nat)
  | 0, _, _, _ => none
  | fuel + 1, pos, hidIface, proto =>
      if pos + 2 ≤ totalLen then
        let dlen := (buf pos).toNat
        let dtype := (buf (pos + 1)).toNat
        if dlen = 0 then none
        else if dtype = usbDescInterface ∧ dlen ≥ 9 then
          if (buf (pos + 5)).toNat = 3 then parseConfigLoop buf totalLen fuel (pos + dlen) true (buf (pos + 7)).toNat
          else parseConfigLoop buf totalLen fuel (pos + dlen) false proto
        else if dtype = usbDescEndpoint ∧ dlen ≥ 7 ∧ hidIface then
          if (buf (pos + 3)).toNat &&& 0x3 = 0x3 ∧ (buf (pos + 2)).toNat &&& 0x80 ≠ 0 then
            some (proto, (buf (pos + 2)).toNat)
          else parseConfigLoop buf totalLen fuel (pos + dlen) hidIface proto
        else parseConfigLoop buf totalLen fuel (pos + dlen) hidIface proto
      else none

def parseConfigDesc (buf : Mem) (totalLen : Nat) : Option (Nat × Nat) :=
  parseConfigLoop buf totalLen totalLen 0 false 0

/-- What `enumerate_device` is waiting for, with the data that it needs afterwards. -/
inductive Wait where
  | enableSlot
  | addressDevice
  | deviceDescriptor (bufPhys : Nat)
  | configHeader (bufPhys : Nat)
  | configDescriptor (totalLen configVal : Nat)
  | setConfiguration
  | configureEndpoint (ringPhys : Nat)
  deriving DecidableEq

def Wait.addressed : Wait → Bool
  | .enableSlot | .addressDevice => false
  | _ => true

/-- `cmd_wait_completion`, or `wait_transfer_event` otherwise. -/
def Wait.forCommand : Wait → Bool
  | .enableSlot | .addressDevice | .configureEndpoint _ => true
  | _ => false

def Wait.Ends (w : Wait) (slotId : Nat) (ev : Trb) : Prop :=
  if w.forCommand then ev.type = trbEventCmdCompletion else ev.type = trbEventTransfer ∧ ev.slot = slotId

instance (w : Wait) (slotId : Nat) (ev : Trb) : Decidable (w.Ends slotId ev) :=
  inferInstanceAs (Decidable (if w.forCommand = true then ev.type = trbEventCmdCompletion
    else ev.type = trbEventTransfer ∧ ev.slot = slotId))

/-- Between the calls, in a loop that waits, or in the loop of `xhci_poll`; `looks` are those still to come. -/
inductive Mode where
  | idle
  | wait (w : Wait) (looks : Nat)
  | poll (looks : Nat)
  deriving DecidableEq

/-- The controller's part is `outstanding`, the interrupt-IN transfers that it has not completed, and `posted`. -/
structure HidState where
  hc : Xhci
  evtRing : Nat → Trb
  evtDequeue : Nat
  evtCycle : Nat
  devs : Nat → HidDevice
  ndevs : Nat
  mode : Mode
  outstanding : Key → Nat
  posted : List Event
  taken : Nat

def hidStart (cmdRingPhys : Nat) : HidState :=
  { hc := ⟨ringSetup cmdRingPhys, []⟩, evtRing := fun _ => ⟨0, 0, 0, 0⟩, evtDequeue := 0, evtCycle := 1
    devs := fun _ => HidDevice.zero, ndevs := 0, mode := .idle, outstanding := fun _ => 0, posted := [], taken := 0 }

namespace HidState

def head (s : HidState) : Option Trb :=
  if (s.evtRing s.evtDequeue).cycleBit ≠ s.evtCycle then none else some (s.evtRing s.evtDequeue)

def dequeue (s : HidState) : HidState :=
  { s with
    evtDequeue := if s.evtDequeue + 1 ≥ ringTrbCount then 0 else s.evtDequeue + 1
    evtCycle := if s.evtDequeue + 1 ≥ ringTrbCount then s.evtCycle ^^^ 1 else s.evtCycle
    taken := s.taken + 1 }

def setDev (s : HidState) (i : Nat) (f : HidDevice → HidDevice) : HidState :=
  { s with devs := Function.update s.devs i (f (s.devs i)) }

def ringDoorbell (s : HidState) (slotId dci : Nat) : HidState :=
  { s with hc := { s.hc with dbells := s.hc.dbells ++ [(slotId, dci)] } }

def submitCommand (s : HidState) (p0 p1 st ctlTypeFlags : Nat) : HidState :=
  { s with hc := cmdSubmit s.hc p0 p1 st ctlTypeFlags }

def submitContext (s : HidState) (type : Nat) : HidState :=
  let d := s.devs s.ndevs
  s.submitCommand (d.inCtxPhys &&& 0xFFFFFFFF) (d.inCtxPhys >>> 32) 0 (type <<< 10 ||| d.slotId <<< 24)

def waitFor (s : HidState) (w : Wait) : HidState := { s with mode := .wait w waitLooks }

def controlIn (s : HidState) (req value len bufPhys : Nat) : HidState :=
  (s.setDev s.ndevs (·.controlIn 0x80 req value 0 len bufPhys)).ringDoorbell (s.devs s.ndevs).slotId 1

def hidQueueTransfer (s : HidState) (i : Nat) : HidState :=
  let d := s.devs i
  { (s.setDev i (·.queueTransfer)).ringDoorbell d.slotId d.dci with
    outstanding := Function.update s.outstanding d.key (s.outstanding d.key + 1) }

def enumerateFailed (s : HidState) (w : Wait) : HidState :=
  if w.addressed then { s.setDev s.ndevs ({ · with present := false }) with mode := .idle } else { s with mode := .idle }

/-- The rest of `enumerate_device` after the wait, up to the next one. `dma` is what the device has written, `frames`
are the results of `pmm_alloc_frame`. -/
def proceed (s : HidState) (w : Wait) (ev : Trb) (dma : Mem) (frames : Nat → Nat) : HidState :=
  match w with
  | .enableSlot =>
      if ev.code ≠ 1 then s.enumerateFailed w
      else
        let s := s.setDev s.ndevs
          ({ · with slotId := ev.slot, inCtxPhys := frames 0, devCtxPhys := frames 1 })
        if frames 0 = 0 ∨ frames 1 = 0 then s.enumerateFailed w
        else
          let s := s.setDev s.ndevs ({ · with epRing := ringSetup (frames 2) })
          (s.submitContext trbAddressDevice).waitFor .addressDevice
  | .addressDevice =>
      if ev.code ≠ 1 then s.enumerateFailed w
      else
        let s := s.setDev s.ndevs ({ · with present := true })
        (s.controlIn usbReqGetDescriptor (usbDescDevice <<< 8) 18 (frames 0)).waitFor (.deviceDescriptor (frames 0))
  | .deviceDescriptor bufPhys =>
      if ev.code ≠ 1 ∧ ev.code ≠ 13 then s.enumerateFailed w
      else (s.controlIn usbReqGetDescriptor (usbDescConfig <<< 8) 9 bufPhys).waitFor (.configHeader bufPhys)
  | .configHeader bufPhys =>
      if ev.code ≠ 1 ∧ ev.code ≠ 13 then s.enumerateFailed w
      else
        let totalLen := min ((dma 2).toNat ||| (dma 3).toNat <<< 8) 4096
        (s.controlIn usbReqGetDescriptor (usbDescConfig <<< 8) totalLen bufPhys).waitFor
          (.configDescriptor totalLen (dma 5).toNat)
  | .configDescriptor totalLen configVal =>
      if ev.code ≠ 1 ∧ ev.code ≠ 13 then s.enumerateFailed w
      else
        match parseConfigDesc dma totalLen with
        | none => s.enumerateFailed w
        | some (proto, addr) =>
            let s := s.setDev s.ndevs
              fun d => { d.setConfiguration configVal with ifaceProto := proto, epAddr := addr }
            (s.ringDoorbell (s.devs s.ndevs).slotId 1).waitFor .setConfiguration
  | .setConfiguration =>
      if ev.code ≠ 1 then s.enumerateFailed w
      else if frames 0 = 0 then s.enumerateFailed w
      else (s.submitContext trbConfigureEndpoint).waitFor (.configureEndpoint (frames 0))
  | .configureEndpoint ringPhys =>
      if ev.code ≠ 1 then s.enumerateFailed w
      else
        let s := s.setDev s.ndevs ({ · with epRing := ringSetup ringPhys, reportPhys := frames 0 })
        { s.hidQueueTransfer s.ndevs with mode := .idle, ndevs := s.ndevs + 1 }

def lookWait (s : HidState) (w : Wait) (looks : Nat) (dma : Mem) (frames : Nat → Nat) : HidState :=
  match looks with
  | 0 => s.enumerateFailed w
  | looks + 1 =>
      match s.head with
      | none => { s with mode := .wait w looks }
      | some ev =>
          if w.Ends (s.devs s.ndevs).slotId ev then s.dequeue.proceed w ev dma frames
          else { s.dequeue with mode := .wait w looks }

def Matches (s : HidState) (ev : Trb) (i : Nat) : Prop :=
  (s.devs i).present = true ∧ (s.devs i).key = (ev.slot, ev.endpoint)

instance (s : HidState) (ev : Trb) (i : Nat) : Decidable (s.Matches ev i) := inferInstanceAs (Decidable (_ ∧ _))

def owner (s : HidState) (ev : Trb) : Option Nat :=
  if ev.type = trbEventTransfer then (List.range maxUsbDevices).find? fun i => s.Matches ev i else none

def lookPoll (s : HidState) (looks : Nat) : HidState :=
  match looks with
  | 0 => { s with mode := .idle }
  | looks + 1 =>
      match s.head with
      | none => { s with mode := .idle }
      | some ev =>
          match s.owner ev with
          | none => { s.dequeue with mode := .poll looks }
          | some i => { (s.hidQueueTransfer i).dequeue with mode := .poll looks }

def post (s : HidState) (e : Event) : HidState :=
  { s with evtRing := Function.update s.evtRing (s.posted.length % ringTrbCount) e.trb, posted := s.posted ++ [e] }

def MayPost (s : HidState) (t : Trb) : Prop :=
  s.posted.length + 1 < s.taken + ringTrbCount ∧ t.cycleBit = phaseOf ringTrbCount s.posted.length

instance (s : HidState) (t : Trb) : Decidable (s.MayPost t) := inferInstanceAs (Decidable (_ ∧ _))

end HidState

inductive HidLabel where
  | post (t : Trb)
  | report (t : Trb)
  | enumerate (enabled : Bool)
  | poll
  | look (dma : Mem) (frames : Nat → Nat)

def hidNext (s : HidState) : HidLabel → HidState
  | .post t => if s.MayPost t then s.post ⟨t, false⟩ else s
  | .report t =>
      let key := (t.slot, t.endpoint)
      if s.MayPost t ∧ t.type = trbEventTransfer ∧ 0 < s.outstanding key then
        { s.post ⟨t, true⟩ with outstanding := Function.update s.outstanding key (s.outstanding key - 1) }
      else s
  | .enumerate enabled =>
      if s.mode = .idle ∧ s.ndevs < maxUsbDevices then
        let s := s.setDev s.ndevs fun _ => HidDevice.zero
        if enabled then (s.submitCommand 0 0 0 (trbEnableSlot <<< 10)).waitFor .enableSlot else s
      else s
  | .poll => if s.mode = .idle then { s with mode := .poll pollLooks } else s
  | .look dma frames =>
      match s.mode with
      | .idle => s
      | .wait w looks => s.lookWait w looks dma frames
      | .poll looks => s.lookPoll looks

end RexOs.Drivers
