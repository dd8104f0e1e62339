import Microps.Lib.Machine
import Microps.Udp.Basic

/-!
# The UDP module as a machine

Every critical section of `udp.rs` is an `Event`, and `step` runs one.  Callers and the
receive path may interleave their events in any order.  `step_move` says once what an event
can do to the table; no event panics.
-/

namespace Microps.Udp

/-- What a call depends on besides the table. -/
structure Env where
  /-- The byte order of the host. -/
  endian : Endian
  /-- The routing table. -/
  routes : List IpRoute
deriving DecidableEq, Repr

/-- The critical sections of `udp.rs`. -/
inductive Event where
  | open
  | close (desc : UdpDesc)
  | bind (desc : UdpDesc) (localEndp : IpEndp)
  /-- `sendto`; what follows its critical section does not touch the table. -/
  | sendto (desc : UdpDesc) (data : List U8) (remote : IpEndp)
  /-- `ip::input` hands a datagram to `input`. -/
  | arrive (hdr : Ip.IpHdr) (iface : IpIface) (data : List U8)
  /-- One round of the loop of `recvfrom`. -/
  | recvfrom (desc : UdpDesc) (len : Nat)

/-- Run one critical section. -/
def step (env : Env) (udp : Udp) : Event → Checked Outcome
  | .open => return openCall udp
  | .close desc => return closeCall udp desc
  | .bind desc localEndp => return bindCall udp desc localEndp
  | .sendto desc data remote => sendto env.endian env.routes udp desc data remote
  | .arrive hdr iface data => input env.endian udp hdr iface data
  | .recvfrom desc len => return Udp.recvfrom udp desc len

/-! ## What one step can do -/

/-- The datagram that `udp::input` accepts, if it does. -/
def accepts (env : Env) : Event → Option Datagram
  | .arrive hdr _ data => match parse env.endian hdr.src hdr.dst data with
    | .ok (.ok datagram) => some datagram
    | _ => none
  | _ => none

/-- Who gets a local port: the block of a `bind` that returns `Ok`, and the block to which
`sendto` assigns a dynamic port. -/
def binding (udp : Udp) (ev : Event) (reply : Reply) : Option TaskId :=
  match ev with
  | .bind desc _ => if reply = .ok then (udp.get desc).map (·.task) else none
  | .sendto desc _ _ => do
      let pcb ← udp.get desc
      if pcb.localEndp.port = 0 ∧ (assignDynamicPort udp desc pcb).isSome then some pcb.task
      else none
  | _ => none

/-- The event gives the block `p` in slot `d` the local endpoint `l`: by `bind`, or by a
`sendto` that finds no port set. -/
def Assigns (d : UdpDesc) (p : UdpPcb) (l : IpEndp) : Event → Prop
  | .bind d' l' => d' = d ∧ l' = l
  | .sendto d' _ _ => d' = d ∧ p.localEndp.port = 0 ∧ l.addr = p.localEndp.addr ∧ l.port ≠ 0
  | _ => False

/-- What an event does to the table. -/
inductive Move (env : Env) (udp : Udp) : Event → Outcome → Prop
  /-- The table is left alone: no datagram is accepted for a block, and none is popped. -/
  | idle {ev : Event} {reply : Reply} {es : List Effect}
      (haccepts : ∀ g, accepts env ev = some g → pcbSelect udp.pcbs g.dst = none)
      (hreply : ∀ remote data, reply ≠ .datagram remote data)
      (hrecv : ∀ d len p, ev = .recvfrom d len → udp.get d = some p → p.queue = []) :
      Move env udp ev { udp := udp, reply := reply, effects := es }
  | opened {d : UdpDesc} {udp' : Udp} (halloc : udp.pcbAlloc = some (d, udp')) :
      Move env udp .open { udp := udp', reply := .desc d }
  | closed {d : UdpDesc} {p : UdpPcb} (hp : udp.get d = some p) :
      Move env udp (.close d)
        { udp := { udp with pcbs := udp.pcbs.free d }, reply := .ok, effects := [.notify p.task] }
  /-- A block gets a local endpoint that no block matches. -/
  | assigned {ev : Event} {reply : Reply} {d : UdpDesc} {p : UdpPcb} {l : IpEndp}
      (hp : udp.get d = some p) (hev : Assigns d p l ev) (hfree : pcbSelect udp.pcbs l = none)
      (hbinding : binding udp ev reply = some p.task) :
      Move env udp ev { udp := udp.set d { p with localEndp := l }, reply := reply }
  /-- A datagram is queued on the block that `pcb_select` finds. -/
  | queued {ev : Event} {g : Datagram} {d : UdpDesc} {p : UdpPcb}
      (haccepts : accepts env ev = some g) (hselect : pcbSelect udp.pcbs g.dst = some d)
      (hp : udp.get d = some p) :
      Move env udp ev { udp := udp.set d { p with queue := p.queue ++ [⟨g.src, g.payload⟩] },
                        effects := [.notify p.task] }
  /-- A datagram is popped. -/
  | popped {d : UdpDesc} {len : Nat} {p : UdpPcb} {entry : UdpQueueEntry}
      {queue : List UdpQueueEntry} (hp : udp.get d = some p) (hqueue : p.queue = entry :: queue) :
      Move env udp (.recvfrom d len)
        { udp := udp.set d { p with queue := queue },
          reply := .datagram entry.remote (entry.data.take (min len entry.data.length)) }

/-! ## Reading the table after a step -/

section

variable {env : Env} {udp udp' : Udp} {d : UdpDesc} {p : UdpPcb} {key : IpEndp}

/-- Writing a block back, at every slot. -/
theorem get_set (hp : udp.get d = some p) (q : UdpPcb) (j : UdpDesc) :
    (udp.set d q).get j = if j = d then some q else udp.get j :=
  Slots.peek_put hp q j

theorem get_free (udp : Udp) (d j : UdpDesc) :
    ({ udp with pcbs := udp.pcbs.free d } : Udp).get j = if j = d then none else udp.get j :=
  Slots.peek_free _ _ _

/-- A new block is put into an empty slot. -/
theorem pcbAlloc_spec (h : udp.pcbAlloc = some (d, udp')) :
    udp.get d = none ∧ udp'.nextTask = udp.nextTask + 1 ∧
      ∀ j, udp'.get j = if j = d then some (.empty udp.nextTask) else udp.get j := by
  unfold pcbAlloc at h
  obtain ⟨⟨i, t⟩, halloc, heq⟩ := Option.map_eq_some_iff.mp h
  cases heq
  obtain ⟨hnone, hget⟩ := Slots.alloc_spec halloc
  exact ⟨hnone, rfl, hget⟩

/-- `pcb_select` finds the first block that matches. -/
theorem pcbSelect_some {t : Slots UdpPcb} (h : pcbSelect t key = some d) :
    ∃ p, t.peek d = some p ∧ selects p key = true ∧
      ∀ j q, j < d → t.peek j = some q → selects q key = false := by
  obtain ⟨hlt, hmatch, hfirst⟩ := List.findIdx?_eq_some_iff_getElem.mp h
  obtain ⟨p, hp, hsel⟩ := (Option.any_eq_true _ _).mp hmatch
  refine ⟨p, by rw [Slots.peek, List.getElem?_eq_getElem hlt, hp, Option.join_some], hsel, ?_⟩
  intro j q hj hq
  have hno := hfirst j hj
  rw [Slots.peek, List.getElem?_eq_getElem (Nat.lt_trans hj hlt), Option.join_some] at hq
  rw [hq] at hno
  simpa using hno

/-- If `pcb_select` finds none, no block matches. -/
theorem pcbSelect_none {t : Slots UdpPcb} (h : pcbSelect t key = none) {j : UdpDesc} {q : UdpPcb}
    (hq : t.peek j = some q) : selects q key = false := by
  have hall := List.findIdx?_eq_none_iff.mp h _ (Slots.mem_of_peek hq)
  simpa using hall

end

/-! ## Inversion -/

/-- The checksum of a datagram that fits into a packet does not panic. -/
theorem datagramCksum_ok (e : Endian) (src dst : IpAddr) {data : List U8}
    (h : data.length ≤ 65535) : ∃ sum, datagramCksum e src dst data = .ok sum := by
  have hpseudo : (buildPseudoHeader src dst (BitVec.ofNat 16 data.length)).length ≤ 65535 := by
    simp [buildPseudoHeader, IpAddr.octets, beBytes16]
  exact seeded_cksum16_ok e hpseudo (Nat.le_trans h (by decide))

theorem UdpHdr.data_of_new {data : List U8} {hdr : UdpHdr} (h : UdpHdr.new data = some hdr) :
    hdr.data = data := by
  unfold UdpHdr.new at h
  split at h
  · obtain rfl := Option.some.inj h
    rfl
  · exact absurd h (by simp)

/-- The checks of `udp::input` never panic: the length that the header gives is compared before
anything is summed. -/
theorem parse_ok (e : Endian) (src dst : IpAddr) (data : List U8) :
    ∃ r, parse e src dst data = .ok r := by
  unfold parse
  split
  · exact ⟨_, rfl⟩
  next hdr hnew =>
  obtain rfl := UdpHdr.data_of_new hnew
  split
  · exact ⟨_, rfl⟩
  next hlen =>
  have hdata : hdr.data.length ≤ 65535 := by
    have := hdr.len.isLt
    omega
  obtain ⟨sum, hsum⟩ : ∃ sum, checkedSum e src dst hdr = .ok sum := by
    unfold checkedSum
    split
    · exact datagramCksum_ok e src dst hdata
    · exact ⟨0, rfl⟩
  simp only [hsum, slice_ok hdr.long (Nat.le_refl _), bind, Except.bind]
  split
  · exact ⟨_, rfl⟩
  · exact ⟨_, rfl⟩

/-- `output` never panics. -/
theorem output_ok (e : Endian) (src dst : IpEndp) (data : List U8) :
    ∃ r, output e src dst data = .ok r := by
  unfold output
  simp only
  split
  · exact ⟨_, rfl⟩
  next hle =>
  simp only [udpHdrSize] at hle
  have hlen : (beBytes16 src.port ++ beBytes16 dst.port ++
      beBytes16 (BitVec.ofNat 16 (udpHdrSize + data.length)) ++ [0, 0] ++ data).length ≤ 65535 := by
    simp [beBytes16]
    omega
  obtain ⟨sum, hsum⟩ := datagramCksum_ok e src.addr dst.addr hlen
  simp only [hsum, bind, Except.bind]
  exact ⟨_, rfl⟩

theorem openCall_move (env : Env) (udp : Udp) : Move env udp .open (openCall udp) := by
  unfold openCall
  split
  · exact .idle (by simp [accepts]) (by simp) (by simp)
  · next halloc => exact .opened halloc

theorem closeCall_move (env : Env) (udp : Udp) (d : UdpDesc) :
    Move env udp (.close d) (closeCall udp d) := by
  unfold closeCall
  split
  · exact .idle (by simp [accepts]) (by simp) (by simp)
  · next hp => exact .closed hp

theorem bindCall_move (env : Env) (udp : Udp) (d : UdpDesc) (l : IpEndp) :
    Move env udp (.bind d l) (bindCall udp d l) := by
  unfold bindCall
  split
  · exact .idle (by simp [accepts]) (by simp) (by simp)
  next hp =>
  split
  · exact .idle (by simp [accepts]) (by simp) (by simp)
  · next hfree =>
    exact .assigned hp ⟨rfl, rfl⟩ (by simpa using hfree) (by simp [binding, hp])

theorem recvfrom_move (env : Env) (udp : Udp) (d : UdpDesc) (len : Nat) :
    Move env udp (.recvfrom d len) (Udp.recvfrom udp d len) := by
  unfold Udp.recvfrom
  split
  · next hnone =>
    refine .idle (by simp [accepts]) (by simp) ?_
    rintro _ _ p ⟨⟩ hp
    exact absurd (hnone.symm.trans hp) (by simp)
  next p hp =>
  split
  · next hqueue =>
    refine .idle (by simp [accepts]) (by simp) ?_
    rintro _ _ q ⟨⟩ hq
    obtain rfl : p = q := by simpa using hp.symm.trans hq
    exact hqueue
  · next hqueue => exact .popped hp hqueue

/-- A dynamic port is not zero. -/
theorem assignDynamicPort_spec {udp udp' : Udp} {d : UdpDesc} {p : UdpPcb} {port : U16}
    (h : assignDynamicPort udp d p = some (port, udp')) :
    port ≠ 0 ∧ pcbSelect udp.pcbs ⟨p.localEndp.addr, port⟩ = none ∧
      udp' = udp.set d { p with localEndp := ⟨p.localEndp.addr, port⟩ } := by
  unfold assignDynamicPort at h
  obtain ⟨q, hfind, heq⟩ := Option.map_eq_some_iff.mp h
  cases heq
  obtain ⟨n, hn, rfl⟩ := List.mem_map.mp (List.mem_of_find?_eq_some hfind)
  have hfree := List.find?_some hfind
  refine ⟨?_, by simpa using hfree, rfl⟩
  rw [List.mem_range'_1] at hn
  simp only [dynamicPortMin, dynamicPortMax] at hn
  intro hzero
  have hzero : n % 2 ^ 16 = 0 := by simpa using congrArg BitVec.toNat hzero
  omega

theorem sendto_move (env : Env) (udp : Udp) (d : UdpDesc) (data : List U8) (remote : IpEndp) :
    ∃ out, sendto env.endian env.routes udp d data remote = .ok out ∧
      Move env udp (.sendto d data remote) out := by
  unfold sendto
  split
  · exact ⟨_, rfl, .idle (by simp [accepts]) (by simp) (by simp)⟩
  next p hp =>
  split
  · exact ⟨_, rfl, .idle (by simp [accepts]) (by simp) (by simp)⟩
  next port udp' hport =>
  -- Whatever follows the section, the table is the one it left.
  have hmove : ∀ reply : Reply, (∀ remote data, reply ≠ .datagram remote data) →
      Move env udp (.sendto d data remote) { udp := udp', reply := reply } := by
    intro reply hreply
    unfold sendtoPort at hport
    split at hport
    · next hzero =>
      obtain ⟨hne, hfree, rfl⟩ := assignDynamicPort_spec hport
      exact .assigned hp ⟨rfl, hzero, rfl, hne⟩ hfree (by simp [binding, hp, hzero, hport])
    · cases hport
      exact .idle (by simp [accepts]) hreply (by simp)
  split
  · exact ⟨_, rfl, hmove _ (by simp)⟩
  next addr _ =>
  obtain ⟨r, hr⟩ := output_ok env.endian ⟨addr, port⟩ remote data
  simp only [hr, bind, Except.bind]
  split
  · exact ⟨_, rfl, hmove _ (by simp)⟩
  · exact ⟨_, rfl, hmove _ (by simp)⟩

theorem accepts_arrive {env : Env} {hdr : Ip.IpHdr} {iface : IpIface} {data : List U8}
    {g : Datagram} : accepts env (.arrive hdr iface data) = some g ↔
      parse env.endian hdr.src hdr.dst data = .ok (.ok g) := by
  obtain ⟨r, hparse⟩ := parse_ok env.endian hdr.src hdr.dst data
  simp only [accepts, hparse]
  cases r with
  | error reason => simp
  | ok g' => simp

/-- Nobody is there: the answer to a datagram for this host is an ICMP error with the header of
the packet and the first eight octets of the datagram. -/
theorem input_unreachable (env : Env) {udp : Udp} {hdr : Ip.IpHdr} {iface : IpIface}
    {data : List U8} {g : Datagram} (haccepts : accepts env (.arrive hdr iface data) = some g)
    (hnone : pcbSelect udp.pcbs g.dst = none) :
    (hdr.dst = iface.unicast → ∃ message,
      icmpOutput env.endian icmpTypeDestUnreach icmpCodePortUnreach 0
        (hdr.asBytes ++ data.take 8) iface.unicast hdr.src = .ok message ∧
      input env.endian udp hdr iface data = .ok { udp := udp, effects := [.icmp message] }) ∧
    (hdr.dst ≠ iface.unicast → input env.endian udp hdr iface data = .ok { udp := udp }) := by
  have hparse := accepts_arrive.mp haccepts
  have hslice : slice data 0 (min data.length 8) = .ok (data.take 8) := by
    rw [slice_ok (Nat.zero_le _) (Nat.min_le_left _ _), List.drop_zero, Nat.min_comm,
      ← List.take_eq_take_min]
  have hquoted : icmpHdrSize + (hdr.asBytes ++ data.take 8).length ≤ 65535 := by
    have := hdr.hlen_le
    simp only [Ip.IpHdr.asBytes, icmpHdrSize, List.length_append, List.length_take]
    omega
  obtain ⟨message, hmessage⟩ := icmpOutput_ok env.endian icmpTypeDestUnreach
    icmpCodePortUnreach 0 _ iface.unicast hdr.src hquoted
  refine ⟨fun hdst ↦ ⟨message, hmessage, ?_⟩, fun hdst ↦ ?_⟩
  · simp only [input, hparse, hnone, bind, Except.bind]
    simp only [hdst, if_true, hslice, hmessage]
    rfl
  · simp only [input, hparse, hnone, hdst, if_false, bind, Except.bind]
    rfl

/-- A datagram that is not accepted changes nothing. -/
theorem input_refused (env : Env) {udp : Udp} {hdr : Ip.IpHdr} {iface : IpIface}
    {data : List U8} (haccepts : accepts env (.arrive hdr iface data) = none) :
    input env.endian udp hdr iface data = .ok { udp := udp } := by
  obtain ⟨r, hparse⟩ := parse_ok env.endian hdr.src hdr.dst data
  cases r with
  | error reason =>
      simp only [input, hparse, bind, Except.bind]
      rfl
  | ok g => exact absurd (haccepts.symm.trans (accepts_arrive.mpr hparse)) (by simp)

/-- One that is accepted is queued on the block that `pcb_select` finds. -/
theorem input_queued (env : Env) {udp : Udp} {hdr : Ip.IpHdr} {iface : IpIface} {data : List U8}
    {g : Datagram} (haccepts : accepts env (.arrive hdr iface data) = some g) {d : UdpDesc}
    {p : UdpPcb} (hselect : pcbSelect udp.pcbs g.dst = some d) (hp : udp.get d = some p) :
    input env.endian udp hdr iface data =
      .ok { udp := udp.set d { p with queue := p.queue ++ [⟨g.src, g.payload⟩] },
            effects := [.notify p.task] } := by
  have hparse := accepts_arrive.mp haccepts
  simp only [input, hparse, hselect, hp, bind, Except.bind]
  rfl

theorem input_move (env : Env) (udp : Udp) (hdr : Ip.IpHdr) (iface : IpIface) (data : List U8) :
    ∃ out, input env.endian udp hdr iface data = .ok out ∧
      Move env udp (.arrive hdr iface data) out := by
  have hidle : ∀ es : List Effect, (∀ g, accepts env (.arrive hdr iface data) = some g →
      pcbSelect udp.pcbs g.dst = none) →
      Move env udp (.arrive hdr iface data) { udp := udp, effects := es } :=
    fun es h ↦ .idle h (by simp) (by simp)
  cases haccepts : accepts env (.arrive hdr iface data) with
  | none =>
      exact ⟨_, input_refused env haccepts, hidle _ (by simp [haccepts])⟩
  | some g =>
      cases hselect : pcbSelect udp.pcbs g.dst with
      | none =>
          obtain ⟨hunicast, hother⟩ := input_unreachable env haccepts hselect
          have hnone : ∀ g', accepts env (.arrive hdr iface data) = some g' →
              pcbSelect udp.pcbs g'.dst = none := by
            intro g' hg'
            obtain rfl : g = g' := by simpa using haccepts.symm.trans hg'
            exact hselect
          by_cases hdst : hdr.dst = iface.unicast
          · obtain ⟨message, -, heq⟩ := hunicast hdst
            exact ⟨_, heq, hidle _ hnone⟩
          · exact ⟨_, hother hdst, hidle _ hnone⟩
      | some d =>
          obtain ⟨p, hp, -, -⟩ := pcbSelect_some hselect
          exact ⟨_, input_queued env haccepts hselect hp, .queued haccepts hselect hp⟩

/-- **Every event returns**, and does to the table one of the things that `Move` lists. -/
theorem step_total (env : Env) (udp : Udp) (ev : Event) :
    ∃ out, step env udp ev = .ok out ∧ Move env udp ev out := by
  cases ev with
  | «open» => exact ⟨_, rfl, openCall_move env udp⟩
  | close d => exact ⟨_, rfl, closeCall_move env udp d⟩
  | bind d l => exact ⟨_, rfl, bindCall_move env udp d l⟩
  | sendto d data remote => exact sendto_move env udp d data remote
  | arrive hdr iface data => exact input_move env udp hdr iface data
  | recvfrom d len => exact ⟨_, rfl, recvfrom_move env udp d len⟩

theorem step_move {env : Env} {udp : Udp} {ev : Event} {out : Outcome}
    (h : step env udp ev = .ok out) : Move env udp ev out := by
  obtain ⟨out', hout, hmove⟩ := step_total env udp ev
  obtain rfl : out' = out := by simpa using hout.symm.trans h
  exact hmove

end Microps.Udp
