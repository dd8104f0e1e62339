import Microps.Lan.Basic

/-!
# What is true on the network

No host lies about its addresses, and hosts believe whatever they hear.  So whatever a host
believes is true, however its calls overlap and whatever the network does to the frames:
`cache_truthful`.  It follows where a packet can go: `ip_frame_delivered`.
-/

namespace Microps.Lan

/-- The hosts start with empty caches and no calls. -/
def Started {ι : Type} (party : ι → Host) : Prop := ∀ i, party i = {}

section

variable {ι : Type} (e : Endian) (cfg : ι → Config)

/-- Some host has a device with this hardware address on an interface with this IP address. -/
def Owns (pa : IpAddr) (ha : EtherAddr) : Prop :=
  ∃ i, ∃ dev ∈ (cfg i).devices, dev.ops = .etherTap ∧ dev.addr = ha ∧
    ∃ iface, dev.iface = some iface ∧ iface.unicast = pa

/-- An ARP packet that tells the addresses of the device that it leaves. -/
structure Sending.Telling (s : Sending) : Prop where
  ty : s.packet.ty = etherTypeArp
  data : ∃ op tha tpa iface, s.dev.iface = some iface ∧
    s.packet.data = Arp.encode op s.dev.addr iface.unicast tha tpa

/-- An IP packet on its way to its next hop, or to all hosts. -/
structure Sending.Forwarded (i : ι) (s : Sending) : Prop where
  ty : s.packet.ty = etherTypeIp
  data : ∃ protocol payload dst id p route,
    Ip.Routed e (cfg i).routes protocol payload dst id p route ∧ s.packet.data = p.packet ∧
      (((p.target = p.iface.broadcast ∨ p.target = .broadcast) ∧ s.packet.dst = .broadcast) ∨
        Owns cfg p.target s.packet.dst)

/-- What a host may send. -/
structure Sending.Sound (i : ι) (s : Sending) : Prop where
  dev_mem : s.dev ∈ (cfg i).devices
  truth : s.dev.ops = .etherTap → s.Telling ∨ s.Forwarded e cfg i

/-- A frame that a host may write. -/
def SoundFrame (frame : List U8) : Prop :=
  ∃ i s, Sending.Sound e cfg i s ∧ frame ∈ s.frames

/-- An entry, or one that is about to be inserted, is not static, and true when it is
complete. -/
structure Believes (state : Arp.CacheState) (pa : IpAddr) (ha : EtherAddr) : Prop where
  dynamic : state ≠ .static
  truth : state = .resolved → Owns cfg pa ha

/-- A call of a host that does nothing wrong. -/
def Doing.Sound (i : ι) : Doing → Prop
  | .inserting ins next => Believes cfg ins.state ins.pa ins.ha ∧ ∀ s ∈ next, s.Sound e cfg i
  | .sending s => s.Sound e cfg i

/-- A host that believes only what is true, and is about to say nothing else. -/
structure Honest (i : ι) (h : Host) : Prop where
  cache : ∀ entry ∈ h.cache, Believes cfg entry.state entry.pa entry.ha
  calls : ∀ doing ∈ h.calls, doing.Sound e cfg i

end

section

variable {ι : Type} {e : Endian} {cfg : ι → Config} {i : ι} {host : Host} {now : Nat}

/-! ## Frames -/

theorem Sending.mem_frames {s : Sending} {frame : List U8} (h : frame ∈ s.frames) :
    s.dev.ops = .etherTap ∧
      EtherTap.transmit s.dev s.packet.ty s.packet.data s.packet.dst.octets = .ok frame := by
  unfold frames Device.output at h
  split at h
  · next octets hout =>
    obtain rfl := List.mem_singleton.mp h
    split at hout
    · exact absurd hout (by simp)
    split at hout
    · exact absurd hout (by simp)
    split at hout
    · next hops =>
      refine ⟨hops, ?_⟩
      cases htransmit : EtherTap.transmit s.dev s.packet.ty s.packet.data s.packet.dst.octets with
      | error => simp [htransmit, Except.map] at hout
      | ok octets' => simpa [htransmit, Except.map] using hout
    · exact absurd hout (by simp)
  · exact absurd h (by simp)

/-- What a device takes from a frame is what was sent, to it or to all. -/
theorem Sending.input_of_mem_frames {s : Sending} {frame data : List U8} {rx : Device} {ty : U16}
    (h : frame ∈ s.frames) (hinput : EtherTap.input rx frame = some (ty, data)) :
    ty = s.packet.ty ∧ (∃ pad, data = s.packet.data ++ pad) ∧
      (s.packet.dst = rx.addr ∨ s.packet.dst = .broadcast) := by
  obtain ⟨-, htransmit⟩ := mem_frames h
  obtain ⟨pad, hinput'⟩ := @EtherTap.input_of_transmit _ rx _ _ _ _ htransmit
  rw [hinput] at hinput'
  split at hinput'
  · next hdst =>
    cases hinput'
    exact ⟨rfl, ⟨pad, rfl⟩, hdst.imp EtherAddr.octets_inj.mp EtherAddr.octets_inj.mp⟩
  · exact absurd hinput' (by simp)

/-- Whoever hears an ARP packet hears the truth. -/
theorem SoundFrame.arp {frame data : List U8} {rx : Device} {hdr : Arp.ArpHdr}
    {arp : Arp.ArpEtherIP} (h : SoundFrame e cfg frame)
    (hinput : EtherTap.input rx frame = some (etherTypeArp, data))
    (hparse : Arp.parse data = some (hdr, arp)) : Owns cfg arp.spa arp.sha := by
  obtain ⟨i, s, hsound, hframe⟩ := h
  obtain ⟨hops, -⟩ := Sending.mem_frames hframe
  obtain ⟨hty, ⟨pad, rfl⟩, -⟩ := Sending.input_of_mem_frames hframe hinput
  rcases hsound.truth hops with htelling | hforwarded
  · obtain ⟨op, tha, tpa, iface, hiface, hdata⟩ := htelling.data
    rw [hdata] at hparse
    obtain ⟨hdr', arp', hparse', -, hsha, hspa, -⟩ :=
      Arp.parse_encode op s.dev.addr iface.unicast tha tpa pad
    cases hparse'.symm.trans hparse
    exact ⟨i, s.dev, hsound.dev_mem, hops, hsha.symm, iface, hiface, hspa.symm⟩
  · exact absurd (hty.trans hforwarded.ty) (by decide)

/-! ## Critical sections -/

theorem Believes.incomplete (pa : IpAddr) (ha : EtherAddr) : Believes cfg .incomplete pa ha :=
  ⟨by simp, by simp⟩

theorem Believes.owned {pa : IpAddr} {ha : EtherAddr} (h : Owns cfg pa ha) :
    Believes cfg .resolved pa ha :=
  ⟨by simp, fun _ ↦ h⟩

/-- What `output_device` is left to do is sound. -/
theorem lookUp_sound {cache : Arp.Cache} {protocol : U8} {payload : List U8} {dst : IpAddr}
    {id : U16} {p : Ip.Prepared} {route : IpRoute}
    (hcache : ∀ entry ∈ cache, Believes cfg entry.state entry.pa entry.ha)
    (hrouted : Ip.Routed e (cfg i).routes protocol payload dst id p route) :
    ∀ doing ∈ lookUp ((cfg i).devOf p.iface) cache p, doing.Sound e cfg i := by
  have hroute := Ip.mem_of_routeLookup hrouted.lookup
  have hiface := hrouted.iface
  have hmem : (cfg i).devOf p.iface ∈ (cfg i).devices := hiface ▸ (cfg i).devOf_mem route hroute
  have hdev : ((cfg i).devOf p.iface).iface = some p.iface :=
    hiface ▸ (cfg i).iface_eq route hroute
  -- To all, or to an address that the cache has.
  have hsend : ∀ ha, ((p.target = p.iface.broadcast ∨ p.target = .broadcast) ∧ ha = .broadcast) ∨
      Owns cfg p.target ha →
        Sending.Sound e cfg i ⟨(cfg i).devOf p.iface, ⟨etherTypeIp, p.packet, ha⟩⟩ :=
    fun ha hdst ↦
      ⟨hmem, fun _ ↦ .inr ⟨rfl, protocol, payload, dst, id, p, route, hrouted, rfl, hdst⟩⟩
  intro doing hdoing
  unfold lookUp at hdoing
  split at hdoing
  · next harp =>
    have hops : ((cfg i).devOf p.iface).ops = .etherTap := by simpa [Device.needArp] using harp
    split at hdoing
    · next hall =>
      obtain rfl := Option.mem_some.mp hdoing
      exact hsend _ (.inl ⟨hall, (cfg i).broadcast_eq _ hmem hops⟩)
    · have hfound : ∀ {state ha}, Arp.cacheSelect cache p.target = some (state, ha) →
          Believes cfg state p.target ha := by
        intro state ha hselect
        obtain ⟨entry, hentry, hpa, rfl, rfl⟩ := Arp.cacheSelect_some hselect
        exact hpa ▸ hcache entry hentry
      split at hdoing
      · next ha hselect =>
        obtain rfl := Option.mem_some.mp hdoing
        exact hsend ha (.inr ((hfound hselect).truth rfl))
      · next ha hselect => exact absurd rfl (hfound hselect).dynamic
      · exact absurd hdoing (by simp)
      · obtain rfl := Option.mem_some.mp hdoing
        refine ⟨.incomplete _ _, fun s hs ↦ ?_⟩
        obtain rfl := Option.mem_some.mp hs
        exact ⟨hmem, fun _ ↦ .inl ⟨rfl, Arp.opRequest, .any, p.target, p.iface, hdev, rfl⟩⟩
  · next harp =>
    obtain rfl := Option.mem_some.mp hdoing
    exact ⟨hmem, fun hops ↦ absurd hops (by simpa [Device.needArp] using harp)⟩

/-- What `arp::input` is left to do after it has heard the truth is sound. -/
theorem answer_sound {dev : Device} (hdev : dev ∈ (cfg i).devices) {hdr : Arp.ArpHdr}
    {arp : Arp.ArpEtherIP} (htruth : Owns cfg arp.spa arp.sha) (merge : Bool) :
    ∀ doing ∈ answer dev hdr arp merge, doing.Sound e cfg i := by
  unfold answer
  cases hiface : dev.iface with
  | none => simp
  | some iface =>
      dsimp only
      split
      · generalize hnext : (if hdr.op = Arp.opRequest then
          some (⟨dev, Arp.reply dev arp.sha arp.spa iface.unicast⟩ : Sending) else none) = next
        have hsound : ∀ s ∈ next, s.Sound e cfg i := by
          intro s hs
          subst hnext
          split at hs
          · obtain rfl := Option.mem_some.mp hs
            exact ⟨hdev, fun _ ↦ .inl ⟨rfl, Arp.opReply, arp.sha, arp.spa, iface, hiface, rfl⟩⟩
          · exact absurd hs (by simp)
        intro doing hdoing
        split at hdoing
        · obtain ⟨s, hs, rfl⟩ := Option.map_eq_some_iff.mp hdoing
          exact hsound s hs
        · obtain rfl := Option.mem_some.mp hdoing
          exact ⟨.owned htruth, hsound⟩
      · simp

/-- A call begins. -/
theorem Honest.enter (h : Honest e cfg i host) {doing : Option Doing}
    (hdoing : ∀ d ∈ doing, d.Sound e cfg i) :
    Honest e cfg i { host with calls := host.calls ++ doing.toList } where
  cache := h.cache
  calls d hd := (List.mem_append.mp hd).elim (h.calls d) fun hd ↦ hdoing d (by simpa using hd)

theorem Honest.hearArp (h : Honest e cfg i host) {dev : Device} (hdev : dev ∈ (cfg i).devices)
    {data : List U8} (htruth : ∀ hdr arp, Arp.parse data = some (hdr, arp) →
      Owns cfg arp.spa arp.sha) : Honest e cfg i (host.hearArp now dev data) := by
  unfold Host.hearArp
  split
  · exact h
  · next hdr arp hparse =>
    have htrue := htruth hdr arp hparse
    have hupdated : Honest e cfg i
        { host with cache := (Arp.cacheUpdate now arp.spa arp.sha host.cache).2 } := by
      refine ⟨fun entry hentry ↦ ?_, h.calls⟩
      rcases Arp.mem_cacheUpdate hentry with rfl | ⟨hold, -⟩
      · exact .owned htrue
      · exact h.cache entry hold
    exact hupdated.enter (answer_sound hdev htrue _)

theorem Honest.insert (h : Honest e cfg i host) (n : Nat) :
    Honest e cfg i (host.insert now n) := by
  unfold Host.insert
  split
  · next ins next hcall =>
    obtain ⟨hbelieves, hnext⟩ := h.calls _ (List.mem_of_getElem? hcall)
    refine ⟨fun entry hentry ↦ ?_, fun doing hdoing ↦ ?_⟩
    · rcases Arp.mem_cacheInsert hentry with rfl | hold
      · exact hbelieves
      · exact h.cache entry hold
    · cases next with
      | none => exact h.calls doing (List.mem_of_mem_eraseIdx hdoing)
      | some s =>
          rcases List.mem_or_eq_of_mem_set hdoing with hold | rfl
          · exact h.calls doing hold
          · exact hnext s rfl
  · exact h

theorem Honest.send (h : Honest e cfg i host) (n : Nat) :
    Honest e cfg i (host.send n).1 ∧ ∀ frame ∈ (host.send n).2, SoundFrame e cfg frame := by
  unfold Host.send
  split
  · next s hcall =>
    exact ⟨⟨h.cache, fun doing hdoing ↦ h.calls doing (List.mem_of_mem_eraseIdx hdoing)⟩,
      fun frame hframe ↦ ⟨i, s, h.calls _ (List.mem_of_getElem? hcall), hframe⟩⟩
  · exact ⟨h, by simp⟩

/-- **One critical section** of an honest host that hears nothing but sound frames. -/
theorem Honest.act (h : Honest e cfg i host) {label : Label} {out : Host × List (List U8)}
    (hhears : ∀ frame, (lan e cfg).hears label = some frame → SoundFrame e cfg frame)
    (hact : Lan.act e (cfg i) host label = .ok out) :
    Honest e cfg i out.1 ∧ ∀ frame ∈ out.2, SoundFrame e cfg frame := by
  cases label with
  | output protocol data src dst id =>
      obtain ⟨r, hprepare, hrouted⟩ := Ip.prepare_spec e (cfg i).routes protocol data src dst id
      rw [Lan.act, hprepare] at hact
      cases r with
      | error =>
          obtain rfl := Except.ok.inj hact
          exact ⟨h, by simp⟩
      | ok p =>
          obtain rfl := Except.ok.inj hact
          obtain ⟨route, hrouted⟩ := hrouted p rfl
          exact ⟨h.enter (lookUp_sound h.cache hrouted), by simp⟩
  | hear now dev frame =>
      rw [Lan.act] at hact
      split at hact
      · next hdev =>
        split at hact
        · next ty data hinput =>
          split at hact
          · next hty =>
            obtain rfl := Except.ok.inj hact
            subst hty
            exact ⟨h.hearArp hdev.1 fun hdr arp hparse ↦ (hhears frame rfl).arp hinput hparse,
              by simp⟩
          · obtain rfl := Except.ok.inj hact
            exact ⟨h, by simp⟩
        · obtain rfl := Except.ok.inj hact
          exact ⟨h, by simp⟩
      · obtain rfl := Except.ok.inj hact
        exact ⟨h, by simp⟩
  | insert now n =>
      obtain rfl := Except.ok.inj hact
      exact ⟨h.insert n, by simp⟩
  | send n =>
      obtain rfl := Except.ok.inj hact
      exact h.send n
  | timer now =>
      obtain rfl := Except.ok.inj hact
      refine ⟨⟨fun entry hentry ↦ h.cache entry ?_, h.calls⟩, by simp⟩
      rw [Arp.onTimer_eq] at hentry
      exact List.mem_of_mem_filter hentry

/-! ## In every world -/

variable [DecidableEq ι] {w : Network.World ι Host (List U8)}

/-- **Every host is honest, and every frame is sound.** -/
theorem Reaches.honest (h : Network.Reaches (lan e cfg) Started w) :
    (∀ i, Honest e cfg i (w.party i)) ∧ ∀ frame ∈ w.net, SoundFrame e cfg frame := by
  refine Network.Reaches.honest (fun party hparty i ↦ ?_) ?_ h
  · rw [hparty i]
    exact ⟨by simp, by simp⟩
  · intro i host label out hhost hhears hact
    exact hhost.act hhears hact

/-- An entry of a cache that is not incomplete is for a device that has both addresses. -/
theorem cache_truth (h : Network.Reaches (lan e cfg) Started w) (i : ι) {entry : Arp.CacheEntry}
    (hentry : entry ∈ (w.party i).cache) (hstate : entry.state ≠ .incomplete) :
    Owns cfg entry.pa entry.ha := by
  obtain ⟨hdynamic, htruth⟩ := ((Reaches.honest h).1 i).cache entry hentry
  refine htruth ?_
  cases hs : entry.state with
  | incomplete => exact absurd hs hstate
  | resolved => rfl
  | static => exact absurd hs hdynamic

/-- **What a host believes is true**: whatever critical sections have run, on whatever hosts and
in whatever order, and whichever frames the network has lost, repeated or delayed, an entry of a
cache that is not incomplete is for a device that has both addresses. -/
theorem cache_truthful (h : Network.Reaches (lan e cfg) Started w) (i : ι) {entry : Arp.CacheEntry}
    (hentry : entry ∈ (w.party i).cache) (hstate : entry.state ≠ .incomplete) :
    Owns cfg entry.pa entry.ha :=
  cache_truth h i hentry hstate

end

/-- Two hosts. -/
def two (i : Bool) : Config := .sample (if i then 2 else 1)

/-- The first asks for the second. -/
def asked : List U8 :=
  EtherAddr.broadcast.octets ++ (sampleDev 1).addr.octets ++ beBytes16 etherTypeArp ++
    (Arp.request (sampleDev 1) (sampleIface 1) ⟨192, 0, 2, 2⟩).data ++ List.replicate 18 0

/-- The second sends three octets to the first. -/
def told : List U8 :=
  (sampleDev 1).addr.octets ++ (sampleDev 2).addr.octets ++ beBytes16 etherTypeIp ++
    [69, 0, 0, 23, 0, 0, 0, 0, 255, 17, 55, 210, 192, 0, 2, 2, 192, 0, 2, 1, 1, 2, 3] ++
    List.replicate 23 0

/-- The second host may hear the first one and send it a packet. -/
theorem reaches_two : ∃ w : Network.World Bool Host (List U8),
    Network.Reaches (lan .little two) Started w ∧ w.net = [asked, told] ∧
      (w.party false).cache = [⟨.incomplete, ⟨192, 0, 2, 2⟩, .any, 0⟩] ∧
      (w.party true).cache = [⟨.resolved, ⟨192, 0, 2, 1⟩, ⟨2, 0, 0, 0, 0, 1⟩, 0⟩] ∧
      (w.party true).calls.length = 1 := by
  have hstart : Network.Reaches (lan .little two) Started ⟨fun _ ↦ {}, []⟩ :=
    .start ⟨fun _ ↦ rfl, rfl⟩
  have hask : Network.exec (act .little (two false)) {} [.output 17 [] .any ⟨192, 0, 2, 2⟩ 0,
      .insert 0 0, .send 0] =
        .ok (⟨[⟨.incomplete, ⟨192, 0, 2, 2⟩, .any, 0⟩], []⟩, [asked]) := by
    decide +kernel
  have htell : Network.exec (act .little (two true)) {} [.hear 0 (sampleDev 2) asked, .insert 0 0,
      .output 17 [1, 2, 3] .any ⟨192, 0, 2, 1⟩ 0, .send 1] =
        .ok (⟨[⟨.resolved, ⟨192, 0, 2, 1⟩, ⟨2, 0, 0, 0, 0, 1⟩, 0⟩], [.sending ⟨sampleDev 2,
          Arp.reply (sampleDev 2) ⟨2, 0, 0, 0, 0, 1⟩ ⟨192, 0, 2, 1⟩ ⟨192, 0, 2, 2⟩⟩]⟩, [told]) := by
    decide +kernel
  obtain ⟨w, hw, hnet, hparty, hcache⟩ : ∃ w : Network.World Bool Host (List U8),
      Network.Reaches (lan .little two) Started w ∧ w.net = [asked] ∧ w.party true = {} ∧
        (w.party false).cache = [⟨.incomplete, ⟨192, 0, 2, 2⟩, .any, 0⟩] :=
    ⟨_, hstart.leads (Network.Leads.exec (i := false) (by simp [Network.World.Hears, lan]) hask),
      rfl, rfl, rfl⟩
  have hleads := Network.Leads.exec (P := lan .little two) (w := w) (i := true)
    (by simp [Network.World.Hears, lan, hnet]) (hparty.symm ▸ htell)
  refine ⟨_, hw.leads hleads, by simp [hnet], ?_, by simp, by simp⟩
  rw [Network.World.party_after_ne w (by decide), hcache]

theorem cache_truthful_two : ∃ w : Network.World Bool Host (List U8),
    ∃ entry ∈ (w.party true).cache, entry.pa = ⟨192, 0, 2, 1⟩ ∧ Owns two entry.pa entry.ha := by
  obtain ⟨w, hw, -, -, hcache, -⟩ := reaches_two
  have hmem : ⟨.resolved, ⟨192, 0, 2, 1⟩, ⟨2, 0, 0, 0, 0, 1⟩, 0⟩ ∈ (w.party true).cache := by
    simp [hcache]
  exact ⟨w, _, hmem, rfl, cache_truthful hw true hmem (by decide)⟩

/-! ## Where an IP packet comes from -/

/-- A call of the host is about to send this packet, perhaps after it has inserted an entry. -/
def Host.Sends (h : Host) (s : Sending) : Prop :=
  .sending s ∈ h.calls ∨ ∃ ins, .inserting ins (some s) ∈ h.calls

section

variable {e : Endian} {cfg : Config} {host : Host} {s : Sending}

/-- What is left of `output_device` when it has found a hardware address. -/
theorem lookUp_sending {dev : Device} {cache : Arp.Cache} {p : Ip.Prepared}
    (h : lookUp dev cache p = some (.sending s)) :
    s.dev = dev ∧ s.packet.data = p.packet ∧ (dev.ops = .etherTap →
      ((p.target = p.iface.broadcast ∨ p.target = .broadcast) ∧ s.packet.dst = dev.broadcast) ∨
      ∃ entry ∈ cache, entry.state ≠ .incomplete ∧ entry.pa = p.target ∧
        entry.ha = s.packet.dst) := by
  unfold lookUp at h
  split at h
  · next harp =>
    split at h
    · next hall =>
      obtain rfl := Doing.sending.inj (Option.some.inj h)
      exact ⟨rfl, rfl, fun _ ↦ .inl ⟨hall, rfl⟩⟩
    · split at h
      · next ha hselect =>
        obtain rfl := Doing.sending.inj (Option.some.inj h)
        obtain ⟨entry, hentry, hpa, hstate, hha⟩ := Arp.cacheSelect_some hselect
        exact ⟨rfl, rfl, fun _ ↦ .inr ⟨entry, hentry, by simp [hstate], hpa, hha⟩⟩
      · next ha hselect =>
        obtain rfl := Doing.sending.inj (Option.some.inj h)
        obtain ⟨entry, hentry, hpa, hstate, hha⟩ := Arp.cacheSelect_some hselect
        exact ⟨rfl, rfl, fun _ ↦ .inr ⟨entry, hentry, by simp [hstate], hpa, hha⟩⟩
      · exact absurd h (by simp)
      · exact absurd h (by simp)
  · next harp =>
    obtain rfl := Doing.sending.inj (Option.some.inj h)
    exact ⟨rfl, rfl, fun hops ↦ absurd hops (by simpa [Device.needArp] using harp)⟩

/-- When it has found none, it asks. -/
theorem lookUp_inserting {dev : Device} {cache : Arp.Cache} {p : Ip.Prepared} {ins : Arp.Insertion}
    {next : Option Sending} (h : lookUp dev cache p = some (.inserting ins next)) :
    ∀ s ∈ next, s.packet.ty = etherTypeArp := by
  unfold lookUp at h
  split at h
  · split at h
    · exact absurd h (by simp)
    · split at h
      · exact absurd h (by simp)
      · exact absurd h (by simp)
      · exact absurd h (by simp)
      · obtain ⟨-, rfl⟩ := Doing.inserting.inj (Option.some.inj h)
        intro s hs
        obtain rfl := Option.mem_some.mp hs
        rfl
  · exact absurd h (by simp)

/-- What `arp::input` sends is ARP. -/
theorem answer_arp {dev : Device} {hdr : Arp.ArpHdr} {arp : Arp.ArpEtherIP} {merge : Bool}
    {doing : Doing} (h : answer dev hdr arp merge = some doing)
    (hdoing : doing = .sending s ∨ ∃ ins, doing = .inserting ins (some s)) :
    s.packet.ty = etherTypeArp := by
  unfold answer at h
  split at h
  · exact absurd h (by simp)
  next iface hiface =>
  split at h
  · dsimp only at h
    generalize hnext : (if hdr.op = Arp.opRequest then
      some (⟨dev, Arp.reply dev arp.sha arp.spa iface.unicast⟩ : Sending) else none) = next at h
    have harp : ∀ s' ∈ next, s'.packet.ty = etherTypeArp := by
      intro s' hs'
      subst hnext
      split at hs'
      · obtain rfl := Option.mem_some.mp hs'
        rfl
      · exact absurd hs' (by simp)
    split at h
    · obtain ⟨s', hs', rfl⟩ := Option.map_eq_some_iff.mp h
      rcases hdoing with hdoing | ⟨ins, hdoing⟩
      · obtain rfl := Doing.sending.inj hdoing
        exact harp s' hs'
      · exact absurd hdoing (by simp)
    · rw [← Option.some.inj h] at hdoing
      rcases hdoing with hdoing | ⟨ins, hdoing⟩
      · exact absurd hdoing (by simp)
      · exact harp s (Doing.inserting.inj hdoing).2
  · exact absurd h (by simp)

/-- A call that begins sends what it is left to do. -/
theorem Host.Sends.of_enter {cache : Arp.Cache} {doing : Option Doing}
    (h : Host.Sends ⟨cache, host.calls ++ doing.toList⟩ s) :
    host.Sends s ∨ ∃ d, doing = some d ∧ (d = .sending s ∨ ∃ ins, d = .inserting ins (some s)) := by
  rcases h with h | ⟨ins, h⟩
  · rcases List.mem_append.mp h with h | h
    · exact .inl (.inl h)
    · exact .inr ⟨_, by simpa using h, .inl rfl⟩
  · rcases List.mem_append.mp h with h | h
    · exact .inl (.inr ⟨ins, h⟩)
    · exact .inr ⟨_, by simpa using h, .inr ⟨ins, rfl⟩⟩

theorem Host.Sends.of_erase {cache : Arp.Cache} {n : Nat}
    (h : Host.Sends ⟨cache, host.calls.eraseIdx n⟩ s) : host.Sends s :=
  h.imp List.mem_of_mem_eraseIdx fun ⟨ins, h⟩ ↦ ⟨ins, List.mem_of_mem_eraseIdx h⟩

/-- A call goes on to send what it was about to send. -/
theorem Host.Sends.of_insert {now n : Nat} (h : (host.insert now n).Sends s) : host.Sends s := by
  unfold Host.insert at h
  split at h
  · next ins next hcall =>
    cases next with
    | none => exact Host.Sends.of_erase h
    | some s' =>
        rcases h with h | ⟨ins', h⟩
        · rcases List.mem_or_eq_of_mem_set h with h | h
          · exact .inl h
          · obtain rfl := Doing.sending.inj h
            exact .inr ⟨ins, List.mem_of_getElem? hcall⟩
        · rcases List.mem_or_eq_of_mem_set h with h | h
          · exact .inr ⟨ins', h⟩
          · exact absurd h (by simp)
  · exact h

/-- **IP packets come from `ip::output`**: no other critical section has one to send. -/
theorem Host.Sends.of_act {label : Label} {out : Host × List (List U8)}
    (hact : act e cfg host label = .ok out) (h : out.1.Sends s) (hbefore : ¬ host.Sends s)
    (hty : s.packet.ty = etherTypeIp) :
    ∃ protocol data src dst id p, label = .output protocol data src dst id ∧
      Ip.prepare e cfg.routes protocol data src dst id = .ok (.ok p) ∧
      lookUp (cfg.devOf p.iface) host.cache p = some (.sending s) := by
  have harp : s.packet.ty ≠ etherTypeArp := by
    rw [hty]
    decide
  cases label with
  | output protocol data src dst id =>
      obtain ⟨r, hprepare, hrest⟩ := Machine.exists_of_bind_ok hact
      cases r with
      | error reason =>
          obtain rfl := Except.ok.inj hrest
          exact absurd h hbefore
      | ok p =>
          obtain rfl := Except.ok.inj hrest
          obtain ⟨doing, hlook, hdoing⟩ := (Host.Sends.of_enter h).resolve_left hbefore
          rcases hdoing with rfl | ⟨ins, rfl⟩
          · exact ⟨protocol, data, src, dst, id, p, rfl, hprepare, hlook⟩
          · exact absurd (lookUp_inserting hlook s rfl) harp
  | hear now dev frame =>
      rw [Lan.act] at hact
      split at hact
      · split at hact
        · split at hact
          · obtain rfl := Except.ok.inj hact
            unfold Host.hearArp at h
            split at h
            · exact absurd h hbefore
            · obtain ⟨doing, hanswer, hdoing⟩ := (Host.Sends.of_enter h).resolve_left hbefore
              exact absurd (answer_arp hanswer hdoing) harp
          · obtain rfl := Except.ok.inj hact
            exact absurd h hbefore
        · obtain rfl := Except.ok.inj hact
          exact absurd h hbefore
      · obtain rfl := Except.ok.inj hact
        exact absurd h hbefore
  | insert now n =>
      obtain rfl := Except.ok.inj hact
      exact absurd (Host.Sends.of_insert h) hbefore
  | send n =>
      obtain rfl := Except.ok.inj hact
      unfold Host.send at h
      split at h
      · exact absurd (Host.Sends.of_erase h) hbefore
      · exact absurd h hbefore
  | timer now =>
      obtain rfl := Except.ok.inj hact
      exact absurd h hbefore

/-- A frame is written by a call that was about to send it. -/
theorem sends_of_mem_frames {label : Label} {out : Host × List (List U8)} {frame : List U8}
    (hact : act e cfg host label = .ok out) (hframe : frame ∈ out.2) :
    ∃ s, host.Sends s ∧ frame ∈ s.frames := by
  have hnone : out.2 = [] → ∃ s, host.Sends s ∧ frame ∈ s.frames := by
    intro hempty
    rw [hempty] at hframe
    exact absurd hframe (by simp)
  cases label with
  | send n =>
      obtain rfl := Except.ok.inj hact
      unfold Host.send at hframe
      split at hframe
      · next s hcall => exact ⟨s, .inl (List.mem_of_getElem? hcall), hframe⟩
      · exact absurd hframe (by simp)
  | output protocol data src dst id =>
      obtain ⟨r, -, hrest⟩ := Machine.exists_of_bind_ok hact
      cases r <;> exact hnone (by rw [← Except.ok.inj hrest])
  | hear now dev frame =>
      rw [Lan.act] at hact
      split at hact
      · split at hact
        · split at hact <;> exact hnone (by rw [← Except.ok.inj hact])
        · exact hnone (by rw [← Except.ok.inj hact])
      · exact hnone (by rw [← Except.ok.inj hact])
  | insert now n => exact hnone (by rw [← Except.ok.inj hact])
  | timer now => exact hnone (by rw [← Except.ok.inj hact])

end

section

variable {ι : Type} {e : Endian} {cfg : ι → Config} [DecidableEq ι]
  {w : Network.World ι Host (List U8)}

/-- Registered devices have different hardware addresses, and none has the broadcast address. -/
structure Distinct (cfg : ι → Config) : Prop where
  inj : ∀ i j, ∀ dev ∈ (cfg i).devices, ∀ dev' ∈ (cfg j).devices, dev.ops = .etherTap →
    dev'.ops = .etherTap → dev.addr = dev'.addr → dev = dev'
  unicast : ∀ i, ∀ dev ∈ (cfg i).devices, dev.ops = .etherTap → dev.addr ≠ .broadcast

/-- **Where packets go**: what a device takes from the network as an IP packet is what a call of
`ip::output` has built earlier in the run, unaltered, with padding behind it.  The device belongs
to the next hop of the packet unless that is a broadcast address, and if it has the destination
address, then `ip::input` hands the payload to the protocol. -/
theorem ip_frame_delivered (h : Network.Reaches (lan e cfg) Started w) (hdistinct : Distinct cfg)
    {frame data : List U8} (hframe : frame ∈ w.net) {j : ι} {rx : Device}
    (hrx : rx ∈ (cfg j).devices ∧ rx.ops = .etherTap)
    (hinput : EtherTap.input rx frame = some (etherTypeIp, data)) :
    ∃ w₀ i protocol payload src dst id out p route pad,
      Network.Reaches (lan e cfg) Started w₀ ∧
      act e (cfg i) (w₀.party i) (.output protocol payload src dst id) = .ok out ∧
      Network.Leads (lan e cfg) (w₀.after i out) w ∧
      Ip.prepare e (cfg i).routes protocol payload src dst id = .ok (.ok p) ∧
      Ip.Routed e (cfg i).routes protocol payload dst id p route ∧
      data = p.packet ++ pad ∧
      (p.target = p.iface.broadcast ∨ p.target = .broadcast ∨
        ∃ iface, rx.iface = some iface ∧ iface.unicast = p.target) ∧
      ∀ protocols iface, protocol ∈ protocols → rx.iface = some iface → iface.unicast = dst →
        Ip.input e protocols rx.iface data = .ok (.deliver protocol payload) := by
  -- The frame was written by a call, and the call began with `ip::output`.
  obtain ⟨w₁, i, label, out₁, hreach₁, hhears₁, hact₁, hleads₁, hmem₁⟩ := h.origin hframe
  obtain ⟨s, hsends, hmem⟩ := sends_of_mem_frames hact₁ hmem₁
  obtain ⟨hops, -⟩ := Sending.mem_frames hmem
  obtain ⟨hty, ⟨pad, hdata⟩, hdst⟩ := Sending.input_of_mem_frames hmem hinput
  obtain ⟨w₀, label₀, out, hreach, -, hact, hbefore, hafter, hleads⟩ :=
    hreach₁.arises (Q := fun host ↦ host.Sends s)
      (fun party hparty ↦ by simp [hparty i, Host.Sends]) hsends
  obtain ⟨protocol, payload, src, dst, id, p, rfl, hprepare, hlook⟩ :=
    Host.Sends.of_act hact hafter hbefore hty.symm
  obtain ⟨hdev, hpacket, htarget⟩ := lookUp_sending hlook
  obtain ⟨r, hprepare', hrouted⟩ :=
    Ip.prepare_spec e (cfg i).routes protocol payload src dst id
  obtain ⟨route, hrouted⟩ := hrouted p (Except.ok.inj (hprepare'.symm.trans hprepare))
  refine ⟨w₀, i, protocol, payload, src, dst, id, out, p, route, pad, hreach, hact,
    (hleads.trans (Network.Leads.act hhears₁ hact₁)).trans hleads₁, hprepare, hrouted,
    hpacket ▸ hdata, ?_, ?_⟩
  · rcases htarget (hdev ▸ hops) with ⟨hall, -⟩ | ⟨entry, hentry, hstate, hpa, hha⟩
    · exact hall.imp_right .inl
    · -- The frame bears the address of a registered device, which is no other.
      obtain ⟨k, dev, hmine, hdevops, haddr, iface, hiface, hunicast⟩ :=
        cache_truth hreach i hentry hstate
      have hto : dev.addr = rx.addr := by
        refine (haddr.trans hha).trans (hdst.resolve_right fun hall ↦ ?_)
        exact hdistinct.unicast k dev hmine hdevops ((haddr.trans hha).trans hall)
      obtain rfl := hdistinct.inj k j dev hmine rx hrx.1 hdevops hrx.2 hto
      exact .inr (.inr ⟨iface, hiface, hunicast.trans hpa⟩)
  · intro protocols iface hprotocol hiface hunicast
    have hlen : Ip.hdrSizeMin + payload.length ≤ 65535 := by
      have hmtu := route.iface.mtu.isLt
      have hfits := hrouted.fits
      omega
    obtain ⟨packet, hbuild, -, hunpack⟩ :=
      Ip.input_buildPacket e hprotocol hunicast.symm route.iface.unicast id hlen
    obtain rfl := Option.some.inj (Except.ok.inj (hbuild.symm.trans hrouted.built))
    obtain ⟨hdr, -, -, -, hdeliver⟩ := hunpack pad
    rw [hdata, hpacket, hiface]
    exact hdeliver

end

theorem ip_frame_delivered_two : ∃ w : Network.World Bool Host (List U8), told ∈ w.net ∧
    ∃ w₀ : Network.World Bool Host (List U8), ∃ i protocol payload src dst id out p pad,
      act .little (two i) (w₀.party i) (.output protocol payload src dst id) = .ok out ∧
      Network.Leads (lan .little two) (w₀.after i out) w ∧
      Ip.prepare .little (two i).routes protocol payload src dst id = .ok (.ok p) ∧
      told.drop 14 = p.packet ++ pad ∧
      ∀ protocols iface, protocol ∈ protocols → (sampleDev 1).iface = some iface →
        iface.unicast = dst → Ip.input .little protocols (sampleDev 1).iface (told.drop 14) =
          .ok (.deliver protocol payload) := by
  obtain ⟨w, hw, hnet, -⟩ := reaches_two
  have hdistinct : Distinct two := by
    constructor
    · rintro i j dev hdev dev' hdev' - - haddr
      obtain rfl := List.mem_singleton.mp hdev
      obtain rfl := List.mem_singleton.mp hdev'
      revert haddr
      cases i <;> cases j <;> decide
    · rintro i dev hdev -
      obtain rfl := List.mem_singleton.mp hdev
      cases i <;> decide
  have hframe : told ∈ w.net := by simp [hnet]
  have hinput : EtherTap.input (sampleDev 1) told = some (etherTypeIp, told.drop 14) := by
    decide +kernel
  obtain ⟨w₀, i, protocol, payload, src, dst, id, out, p, route, pad, -, hact, hleads, hprepare, -,
      hdata, -, hdeliver⟩ :=
    ip_frame_delivered hw hdistinct hframe (j := false) ⟨List.mem_cons_self, rfl⟩ hinput
  exact ⟨w, hframe, w₀, i, protocol, payload, src, dst, id, out, p, pad, hact, hleads, hprepare,
    hdata, hdeliver⟩

end Microps.Lan
