import Microps.Ether

/-!
# Devices and the input queue

`Device::output` with its two drivers, and what becomes of a packet at the other end: the
driver there hands it to `net::input_handler`, which queues it, and `net::softirq_handler`
calls the protocol handlers for the queue.
-/

namespace Microps

/-! ## Drivers -/

namespace EtherTap

/-- `transmit`: the frame that is written to the TAP device.  The buffer holds 1514 octets,
which are zero after the payload; a short payload is sent as 46 octets of it. -/
def transmit (dev : Device) (ty : U16) (data dst : List U8) : Except Unit (List U8) :=
  if dst.length < etherAddrLen then .error ()
  else if etherPayloadSizeMax < data.length then .error ()
  else
    let frame := dst.take etherAddrLen ++ dev.addr.octets ++ beBytes16 ty ++ data ++
      List.replicate (etherPayloadSizeMax - data.length) 0
    let payloadLen := max data.length etherPayloadSizeMin
    .ok (frame.take (etherHdrSize + payloadLen))

/-- `input`: the type and the payload of a frame for the device. -/
def input (dev : Device) (frame : List U8) : Option (U16 × List U8) :=
  if h : frame.length < etherHdrSize then none
  else
    let dst := frame.take etherAddrLen
    if dst ≠ dev.addr.octets ∧ dst ≠ EtherAddr.broadcast.octets then none
    else
      have hlen : etherHdrSize ≤ frame.length := Nat.le_of_not_lt h
      let ethertype := beU16 (frame.get ⟨12, Nat.lt_of_lt_of_le (by decide) hlen⟩)
        (frame.get ⟨13, Nat.lt_of_lt_of_le (by decide) hlen⟩)
      some (ethertype, frame.drop etherHdrSize)

/-- **A frame is read back**, with its padding. -/
theorem input_transmit (tx : Device) {rx : Device} (ty : U16) {data dst : List U8}
    (hdst : dst.take etherAddrLen = rx.addr.octets) (hlen : data.length ≤ etherPayloadSizeMax) :
    ∃ frame pad, transmit tx ty data dst = .ok frame ∧
      input rx frame = some (ty, data ++ pad) := by
  have hsix : (dst.take etherAddrLen).length = etherAddrLen := by
    rw [hdst]
    rfl
  have hdstlen : ¬ dst.length < etherAddrLen := by
    rw [List.length_take] at hsix
    omega
  unfold transmit
  simp only [if_neg hdstlen, if_neg (Nat.not_lt.mpr hlen), hdst]
  generalize hhead : rx.addr.octets ++ tx.addr.octets ++ beBytes16 ty = head
  have hfourteen : head.length = etherHdrSize := by
    subst hhead
    rfl
  -- The frame ends with the payload, or with as much of the zeros as a short one needs.
  have hframe : (head ++ data ++ List.replicate (etherPayloadSizeMax - data.length) 0).take
      (etherHdrSize + max data.length etherPayloadSizeMin) =
        head ++ (data ++ List.replicate (etherPayloadSizeMin - data.length) 0) := by
    rw [List.append_assoc, List.take_append, hfourteen, Nat.add_sub_cancel_left,
      List.take_of_length_le (by omega), List.take_append, List.take_of_length_le (by omega),
      List.take_replicate]
    congr 3
    simp only [etherPayloadSizeMax, etherPayloadSizeMin] at hlen ⊢
    omega
  refine ⟨_, List.replicate (etherPayloadSizeMin - data.length) 0, congrArg Except.ok hframe, ?_⟩
  have hlong : ¬ (head ++ (data ++ List.replicate (etherPayloadSizeMin - data.length) 0)).length <
      etherHdrSize := by
    simp only [List.length_append, hfourteen]
    omega
  unfold input
  rw [dif_neg hlong]
  subst hhead
  simp only [etherAddrLen, EtherAddr.octets, beBytes16, etherHdrSize, List.cons_append,
    List.nil_append, List.take_succ_cons, List.take_zero, List.drop_succ_cons, List.drop_zero,
    ne_eq, not_true_eq_false, false_and, if_false]
  exact congrArg (fun v ↦ some (v, _)) (beU16_extract ty)

/-- The frame that is written, when it is. -/
theorem transmit_eq {tx : Device} {ty : U16} {data dst frame : List U8}
    (h : transmit tx ty data dst = .ok frame) :
    ∃ pad, etherAddrLen ≤ dst.length ∧ data.length ≤ etherPayloadSizeMax ∧
      frame = dst.take etherAddrLen ++ tx.addr.octets ++ beBytes16 ty ++ (data ++ pad) := by
  unfold transmit at h
  split at h
  · exact absurd h (by simp)
  next hdst =>
  split at h
  · exact absurd h (by simp)
  next hlen =>
  obtain rfl := Except.ok.inj h
  refine ⟨List.replicate (etherPayloadSizeMin - data.length) 0, Nat.le_of_not_lt hdst,
    Nat.le_of_not_lt hlen, ?_⟩
  have hfourteen : (dst.take etherAddrLen ++ tx.addr.octets ++ beBytes16 ty).length =
      etherHdrSize := by
    simp only [List.length_append, List.length_take, beBytes16, EtherAddr.octets, etherHdrSize,
      List.length_cons, List.length_nil]
    simp only [etherAddrLen] at hdst ⊢
    omega
  generalize dst.take etherAddrLen ++ tx.addr.octets ++ beBytes16 ty = head at hfourteen ⊢
  simp only [etherPayloadSizeMax, etherPayloadSizeMin, etherHdrSize] at hlen hfourteen ⊢
  rw [List.append_assoc _ data, List.take_append, hfourteen, Nat.add_sub_cancel_left,
    List.take_of_length_le (by omega), List.take_append, List.take_of_length_le (by omega),
    List.take_replicate]
  congr 3
  omega

/-- **Who takes a frame, and what is in it**: the device whose address the frame bears, or every
device if that is the broadcast address. -/
theorem input_of_transmit {tx rx : Device} {ty : U16} {data dst frame : List U8}
    (h : transmit tx ty data dst = .ok frame) :
    ∃ pad, input rx frame = if dst.take etherAddrLen = rx.addr.octets ∨
      dst.take etherAddrLen = EtherAddr.broadcast.octets then some (ty, data ++ pad) else none := by
  obtain ⟨pad, hdst, -, rfl⟩ := transmit_eq h
  refine ⟨pad, ?_⟩
  generalize hd : dst.take etherAddrLen = d
  have hsix : d.length = 6 := by
    rw [← hd, List.length_take, Nat.min_eq_left hdst]
    rfl
  match d, hsix with
  | [d₀, d₁, d₂, d₃, d₄, d₅], _ =>
    generalize hframe : [d₀, d₁, d₂, d₃, d₄, d₅] ++ tx.addr.octets ++ beBytes16 ty ++
      (data ++ pad) = frame
    have hlong : ¬ frame.length < etherHdrSize := by
      rw [← hframe, List.length_append]
      exact Nat.not_lt.mpr (Nat.le_add_right 14 _)
    have htake : frame.take etherAddrLen = [d₀, d₁, d₂, d₃, d₄, d₅] := hframe ▸ rfl
    have hdrop : frame.drop etherHdrSize = data ++ pad := hframe ▸ rfl
    have hty : ∀ h₁ h₂, beU16 (frame.get ⟨12, h₁⟩) (frame.get ⟨13, h₂⟩) = ty := by
      subst hframe
      exact fun _ _ ↦ beU16_extract ty
    unfold input
    rw [dif_neg hlong, htake, hdrop]
    dsimp only
    rw [hty]
    by_cases hmine : [d₀, d₁, d₂, d₃, d₄, d₅] = rx.addr.octets
    · rw [if_neg (fun hnot ↦ hnot.1 hmine), if_pos (.inl hmine)]
    · by_cases hall : [d₀, d₁, d₂, d₃, d₄, d₅] = EtherAddr.broadcast.octets
      · rw [if_neg (fun hnot ↦ hnot.2 hall), if_pos (.inr hall)]
      · rw [if_pos ⟨hmine, hall⟩, if_neg (fun hor ↦ hor.elim hmine hall)]

end EtherTap

/-- What becomes of a packet that a driver has taken. -/
inductive Transmitted where
  /-- It is written to the TAP device as a frame. -/
  | frame (octets : List U8)
  /-- The loopback driver calls `net::input_handler`. -/
  | input (ty : U16) (data : List U8)
deriving DecidableEq, Repr

/-- `Device::output`.  The length is compared after it was cut to 16 bits. -/
def Device.output (dev : Device) (ty : U16) (data dst : List U8) : Except Unit Transmitted :=
  if ¬ dev.up then .error ()
  else if dev.mtu < BitVec.ofNat 16 data.length then .error ()
  else match dev.ops with
    | .etherTap => (EtherTap.transmit dev ty data dst).map .frame
    | .loopback => .ok (.input ty data)

/-! ## The input queue -/

namespace Net

/-- The handlers that `net::init` registers. -/
inductive Handler where
  | arp
  | ip
deriving DecidableEq, Repr

/-- `PROTOCOLS`. -/
def protocols : List (U16 × Handler) := [(etherTypeArp, .arp), (etherTypeIp, .ip)]

/-- `InputEntry`. -/
structure InputEntry where
  ty : U16
  data : List U8
  dev : Device
deriving DecidableEq, Repr

/-- `input_handler`, for a device that is registered. -/
def inputHandler (queue : List InputEntry) (ty : U16) (data : List U8) (dev : Device) :
    List InputEntry :=
  if protocols.any fun p ↦ p.1 = ty then queue ++ [⟨ty, data, dev⟩] else queue

/-- `softirq_handler`: the handlers that it calls, in order. -/
def softirqHandler : List InputEntry → List (Handler × InputEntry)
  | [] => []
  | entry :: queue => match protocols.find? fun p ↦ p.1 = entry.ty with
    | some p => (p.2, entry) :: softirqHandler queue
    | none => softirqHandler queue

/-- The packet arrives at `dev`. -/
def arrive (queue : List InputEntry) (dev : Device) : Transmitted → List InputEntry
  | .frame octets => match EtherTap.input dev octets with
    | some (ty, data) => inputHandler queue ty data dev
    | none => queue
  | .input ty data => inputHandler queue ty data dev

theorem softirqHandler_append (queue queue' : List InputEntry) :
    softirqHandler (queue ++ queue') = softirqHandler queue ++ softirqHandler queue' := by
  induction queue with
  | nil => rfl
  | cons entry queue ih =>
      simp only [List.cons_append, softirqHandler]
      split
      · rw [ih]
        rfl
      · exact ih

/-- A packet with the type of IP is handled by IP, after those before it. -/
theorem softirqHandler_inputHandler_ip (queue : List InputEntry) (data : List U8) (dev : Device) :
    softirqHandler (inputHandler queue etherTypeIp data dev) =
      softirqHandler queue ++ [(.ip, ⟨etherTypeIp, data, dev⟩)] := by
  have hqueue : inputHandler queue etherTypeIp data dev =
      queue ++ [⟨etherTypeIp, data, dev⟩] := rfl
  rw [hqueue, softirqHandler_append]
  rfl

end Net

end Microps
