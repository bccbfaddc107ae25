import Mathlib.Data.List.Nodup
import Mathlib.Data.List.Perm.Subperm
import RexOs.Net.TcpSocket

/-! Local ports.

`tcp_alloc_port` goes round the ephemeral range from `s_next_port` on until it meets a
port that no socket has. Its 65536 passes go round four times, so with fewer than 16384
sockets it meets one.
-/

set_option autoImplicit false

namespace RexOs.Net

open RexOs.Library

def ephemeralCount : Nat := 16384

def ephemeral (k : Nat) : UInt16 := UInt16.ofNat (49152 + k % ephemeralCount)

/-- Where in the range the search starts when `s_next_port` is `next`. -/
def ephemeralIndex (next : UInt16) : Nat := if next < 49152 then 0 else next.toNat % ephemeralCount

section
variable {sockets : List Socket} {k : Nat} {next : UInt16}

theorem ephemeral_toNat (k : Nat) : (ephemeral k).toNat = 49152 + k % ephemeralCount := by
  have small := Nat.mod_lt k (show 0 < ephemeralCount by decide)
  rw [ephemeral, UInt16.toNat_ofNat']
  apply Nat.mod_eq_of_lt
  simp only [ephemeralCount] at *
  omega

theorem ephemeral_inj {j : Nat} (same : ephemeral j = ephemeral k) : j % ephemeralCount = k % ephemeralCount := by
  have values := congrArg UInt16.toNat same
  rw [ephemeral_toNat, ephemeral_toNat] at values
  omega

theorem ephemeral_congr {j : Nat} (same : j % ephemeralCount = k % ephemeralCount) : ephemeral j = ephemeral k := by
  rw [ephemeral, ephemeral, same]

theorem lt_ephemeral : next < 49152 ↔ next.toNat < 49152 := by
  rw [UInt16.lt_iff_toNat_lt]
  rfl

theorem port_tried (next : UInt16) :
    (if next < 49152 then 49152 else next) = ephemeral (ephemeralIndex next) := by
  have bound := next.toNat_lt
  unfold ephemeralIndex
  split
  · rfl
  · rename_i high
    apply UInt16.toNat_inj.mp
    simp only [lt_ephemeral] at high
    simp only [ephemeral_toNat, ephemeralCount]
    omega

theorem ephemeralIndex_succ (k : Nat) : ephemeralIndex (ephemeral k + 1) % ephemeralCount = (k + 1) % ephemeralCount := by
  have small := Nat.mod_lt k (show 0 < ephemeralCount by decide)
  simp only [ephemeralIndex, lt_ephemeral, UInt16.toNat_add, ephemeral_toNat, ephemeralCount, UInt16.reduceToNat] at *
  split <;> omega

theorem tcpAllocPort_cases (sockets : List Socket) (guard : Nat) (next : UInt16) :
    (∃ k, (tcpAllocPort sockets guard next).1 = ephemeral k ∧ tcpPortInUse sockets (ephemeral k) = false) ∨
      ∀ i, i < guard → tcpPortInUse sockets (ephemeral (ephemeralIndex next + i)) = true := by
  induction guard generalizing next with
  | zero => exact Or.inr nofun
  | succ guard ih =>
    rw [tcpAllocPort]
    simp only [port_tried]
    cases used : tcpPortInUse sockets (ephemeral (ephemeralIndex next)) with
    | false => exact Or.inl ⟨_, rfl, used⟩
    | true =>
      rw [if_pos rfl]
      rcases ih (ephemeral (ephemeralIndex next) + 1) with found | taken
      · exact Or.inl found
      · refine Or.inr ?_
        intro i inside
        cases i with
        | zero => exact used
        | succ i =>
          have step := ephemeralIndex_succ (ephemeralIndex next)
          have same : ephemeral (ephemeralIndex next + (i + 1)) =
              ephemeral (ephemeralIndex (ephemeral (ephemeralIndex next) + 1) + i) := by
            apply ephemeral_congr
            simp only [ephemeralCount] at *
            omega
          rw [same]
          exact taken i (by omega)

theorem sockets_of_ports (taken : ∀ k, tcpPortInUse sockets (ephemeral k) = true) : ephemeralCount ≤ sockets.length := by
  have distinct : ((List.range ephemeralCount).map ephemeral).Nodup := by
    apply List.Nodup.map_on _ List.nodup_range
    intro j small k small' same
    rw [List.mem_range] at small small'
    have modulo := ephemeral_inj same
    rw [Nat.mod_eq_of_lt small, Nat.mod_eq_of_lt small'] at modulo
    exact modulo
  have inside : (List.range ephemeralCount).map ephemeral ⊆ sockets.map Socket.localPort := by
    intro p member
    obtain ⟨k, _, rfl⟩ := List.mem_map.mp member
    obtain ⟨s, listed, port⟩ := List.any_eq_true.mp (taken k)
    exact List.mem_map.mpr ⟨s, listed, eq_of_beq port⟩
  have few := (List.subperm_of_subset distinct inside).length_le
  rw [List.length_map, List.length_map, List.length_range] at few
  exact few

theorem tcpAllocPort_free (room : sockets.length < ephemeralCount) (next : UInt16) :
    ∃ k, (tcpAllocPort sockets 65536 next).1 = ephemeral k ∧ tcpPortInUse sockets (ephemeral k) = false := by
  rcases tcpAllocPort_cases sockets 65536 next with found | taken
  · exact found
  · have all : ∀ k, tcpPortInUse sockets (ephemeral k) = true := by
      intro k
      -- the pass that comes to this port
      let i := (k + ephemeralIndex next * 16383) % 16384
      have same : ephemeral k = ephemeral (ephemeralIndex next + i) := by
        apply ephemeral_congr
        simp only [ephemeralCount, i]
        omega
      rw [same]
      exact taken i (Nat.lt_trans (Nat.mod_lt _ (by decide)) (by decide))
    exact absurd (sockets_of_ports all) (Nat.not_le.mpr room)

end

structure PortsOk (t : Tcp) : Prop where
  ids : (t.sockets.map Socket.id).Nodup
  ports : (t.sockets.map Socket.localPort).Nodup
  range : ∀ s ∈ t.sockets, 49152 ≤ s.localPort.toNat ∧ s.localPort.toNat ≤ 65535

section
variable {t : Tcp}

theorem PortsOk.congr {t' : Tcp} (ok : PortsOk t) (same : t'.sockets.map Socket.home = t.sockets.map Socket.home) : PortsOk t' := by
  have ids := congrArg (List.map Prod.fst) same
  have ports := congrArg (List.map Prod.snd) same
  simp only [List.map_map] at ids ports
  constructor
  case ids => exact ids ▸ ok.ids
  case ports => exact ports ▸ ok.ports
  case range =>
    intro s member
    have listed : s.home ∈ t.sockets.map Socket.home := same ▸ List.mem_map_of_mem member
    obtain ⟨s', member', home⟩ := List.mem_map.mp listed
    have port : s'.localPort = s.localPort := congrArg Prod.snd home
    rw [← port]
    exact ok.range s' member'

theorem homes_put {old new : Socket} (ids : (t.sockets.map Socket.id).Nodup) (listed : old ∈ t.sockets)
    (kept : new.home = old.home) : (t.put new).sockets.map Socket.home = t.sockets.map Socket.home := by
  rw [Tcp.put, List.map_map]
  apply List.map_congr_left
  intro s member
  rw [Function.comp_apply]
  split
  · rename_i here
    have same : s = old := List.inj_on_of_nodup_map ids member listed (here.trans (congrArg Prod.fst kept))
    rw [kept, same]
  · rfl

theorem homes_on {id : Nat} (call : SocketOp) (ids : (t.sockets.map Socket.id).Nodup) :
    (t.on id call.apply).1.sockets.map Socket.home = t.sockets.map Socket.home := by
  unfold Tcp.on
  split
  · rfl
  · rename_i s found
    exact homes_put ids (socketAt_some found).1 (call.apply_home s)

theorem homes_receive (srcIp destIp : Ip4Addr) (tcp : TcpHeader) (now : Nat) (ids : (t.sockets.map Socket.id).Nodup) :
    (tcpReceive t srcIp destIp tcp now).1.sockets.map Socket.home = t.sockets.map Socket.home := by
  unfold tcpReceive
  simp only
  split
  · rfl
  split
  · rfl
  split
  · split <;> rfl
  · rename_i s found
    exact homes_put ids (List.mem_of_find?_eq_some found) (receiveSocket_home s tcp now)

theorem tcpRelease_sockets (ids : (t.sockets.map Socket.id).Nodup) (id : Nat) :
    (tcpRelease t id).1.sockets = t.sockets.filter fun s => s.id ≠ id := by
  have erased : t.sockets.eraseP (fun s => s.id == id) = t.sockets.filter fun s => s.id ≠ id := by
    revert ids
    induction t.sockets with
    | nil => exact fun _ => rfl
    | cons s rest ih =>
      intro ids
      rw [List.map_cons, List.nodup_cons] at ids
      by_cases here : s.id = id
      · rw [List.eraseP_cons_of_pos (by simpa using here), List.filter_cons_of_neg (by simpa using here)]
        symm
        apply List.filter_eq_self.mpr
        intro other member
        have apart : other.id ≠ id := fun same => ids.1 (List.mem_map.mpr ⟨other, member, same.trans here.symm⟩)
        simpa using apart
      · rw [List.eraseP_cons_of_neg (by simpa using here), List.filter_cons_of_pos (by simpa using here), ih ids.2]
  unfold tcpRelease
  split
  · rename_i none
    symm
    apply List.filter_eq_self.mpr
    intro s member
    simpa using List.find?_eq_none.mp none s member
  · exact erased

theorem PortsOk.connect (ok : PortsOk t) {id : Nat} (fresh : ∀ s ∈ t.sockets, s.id ≠ id)
    (room : t.sockets.length < ephemeralCount) (devIp destIp : Ip4Addr) (destPort : UInt16) (tsc : UInt64) (now : Nat) :
    PortsOk (tcpConnect t id devIp destIp destPort tsc now).1 := by
  obtain ⟨k, port, free⟩ := tcpAllocPort_free room t.nextPort
  have unused : ∀ s ∈ t.sockets, s.localPort ≠ ephemeral k := by
    intro s member same
    have used : tcpPortInUse t.sockets (ephemeral k) = true := List.any_eq_true.mpr ⟨s, member, beq_iff_eq.mpr same⟩
    rw [used] at free
    cases free
  constructor
  case ids =>
    simp only [tcpConnect, List.map_cons, List.nodup_cons]
    refine ⟨?_, ok.ids⟩
    intro member
    obtain ⟨s, listed, same⟩ := List.mem_map.mp member
    exact fresh s listed same
  case ports =>
    simp only [tcpConnect, List.map_cons, List.nodup_cons, port]
    refine ⟨?_, ok.ports⟩
    intro member
    obtain ⟨s, listed, same⟩ := List.mem_map.mp member
    exact unused s listed same
  case range =>
    simp only [tcpConnect, List.forall_mem_cons, port]
    refine ⟨?_, ok.range⟩
    have := Nat.mod_lt k (show 0 < ephemeralCount by decide)
    rw [ephemeral_toNat]
    simp only [ephemeralCount] at *
    omega

theorem PortsOk.release (ok : PortsOk t) (id : Nat) : PortsOk (tcpRelease t id).1 := by
  have kept : ((tcpRelease t id).1.sockets).Sublist t.sockets := by
    rw [tcpRelease_sockets ok.ids]
    exact List.filter_sublist
  exact ⟨ok.ids.sublist (kept.map _), ok.ports.sublist (kept.map _), fun s member => ok.range s (kept.subset member)⟩

theorem PortsOk.matches_le (ok : PortsOk t) (remoteIp : Ip4Addr) (remotePort localPort : UInt16) :
    (t.sockets.filter fun s => s.matches remoteIp remotePort localPort).length ≤ 1 := by
  have kept : (t.sockets.filter fun s => s.matches remoteIp remotePort localPort).Sublist t.sockets := List.filter_sublist
  have distinct := ok.ports.sublist (kept.map Socket.localPort)
  have same : ∀ p ∈ (t.sockets.filter fun s => s.matches remoteIp remotePort localPort).map Socket.localPort, p = localPort := by
    intro p member
    obtain ⟨s, listed, rfl⟩ := List.mem_map.mp member
    have matched := (List.mem_filter.mp listed).2
    simp only [Socket.matches, Bool.and_eq_true, beq_iff_eq] at matched
    exact matched.1.2
  have repeated := List.eq_replicate_of_mem same
  rw [repeated, List.nodup_replicate, List.length_map] at distinct
  exact distinct

end

def RoomStep (l : TcpLine) (op : TcpOp) (next : TcpLine) : Prop :=
  (∀ id devIp destIp destPort tsc now, op = .connect id devIp destIp destPort tsc now →
    l.tcp.sockets.length < ephemeralCount) ∧ TcpStep l op next

theorem ports_step {l next : TcpLine} {op : TcpOp} (ok : PortsOk l.tcp) (step : RoomStep l op next) : PortsOk next.tcp := by
  obtain ⟨room, allowed, rfl⟩ := step
  cases op with
  | connect id devIp destIp destPort tsc now =>
    exact ok.connect allowed (room id devIp destIp destPort tsc now rfl) devIp destIp destPort tsc now
  | send id data now => exact ok.congr (homes_on (.send data now) ok.ids)
  | receive srcIp destIp tcp now => exact ok.congr (homes_receive srcIp destIp tcp now ok.ids)
  | poll now =>
    apply ok.congr
    simp only [TcpOp.apply, tcpPoll, List.map_map]
    apply List.map_congr_left
    intro s _
    exact pollSocket_home now s
  | recv id maxLen => exact ok.congr (homes_on (.recv maxLen) ok.ids)
  | close id => exact ok.congr (homes_on .close ok.ids)
  | release id => exact ok.release id

theorem tcp_ports_distinct (ops : List TcpOp) (l : TcpLine) (run : Run RoomStep bootLine ops l) :
    (l.tcp.sockets.map Socket.localPort).Nodup ∧
    (∀ s ∈ l.tcp.sockets, 49152 ≤ s.localPort.toNat ∧ s.localPort.toNat ≤ 65535) ∧
    (∀ remoteIp remotePort localPort,
      (l.tcp.sockets.filter fun s => s.matches remoteIp remotePort localPort).length ≤ 1) ∧
    ∀ id, (tcpRelease l.tcp id).1.sockets = l.tcp.sockets.filter fun s => s.id ≠ id := by
  have start : PortsOk bootLine.tcp := ⟨List.nodup_nil, List.nodup_nil, nofun⟩
  have ok : PortsOk l.tcp := run.invariant (fun l => PortsOk l.tcp) start fun _ _ _ before step => ports_step before step
  exact ⟨ok.ports, ok.range, ok.matches_le, tcpRelease_sockets ok.ids⟩

/-- Two sockets to the same server. -/
theorem tcp_ports_distinct_two : ∃ l, Run RoomStep bootLine [openOp, .connect 2 hostIp peerIp 80 0 100] l ∧
    l.tcp.sockets.map Socket.localPort = [49153, 49152] ∧ (l.tcp.sockets.map Socket.localPort).Nodup := by
  have room : ∀ (l : TcpLine) (op : TcpOp), l.tcp.sockets.length < ephemeralCount →
      ∀ id devIp destIp destPort tsc now, op = .connect id devIp destIp destPort tsc now →
        l.tcp.sockets.length < ephemeralCount := fun _ _ few _ _ _ _ _ _ _ => few
  have first : Run RoomStep bootLine [openOp] (bootLine.next openOp) := Run.nil.snoc ⟨room _ _ (by decide), nofun, rfl⟩
  have fresh : ∀ s ∈ (bootLine.next openOp).tcp.sockets, s.id ≠ 2 := by decide
  have second := first.snoc ⟨room _ (.connect 2 hostIp peerIp 80 0 100) (by decide), fresh, rfl⟩
  exact ⟨_, second, by decide, (tcp_ports_distinct _ _ second).1⟩

end RexOs.Net
