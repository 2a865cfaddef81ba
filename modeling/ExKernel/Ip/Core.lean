import ExKernel.Net.Keyword

/-!
# What the IP layer accepts

`ip_rcv_core` looks at every packet that comes in: it drops what is not addressed to the host or
contains the bytes of `HTTP`, checks the header, cuts off what the medium may have appended, and
prepares the packet for the rest of the IP layer.

A packet lies partly in the linear area that `skb->data` points to, and partly in pages. Only what
is in the linear area can be read through `skb->data`, and before a header is read,
`pskb_may_pull` sees to it that it is there. The loop that looks for `HTTP` was added without such
a call: it takes `skb->len` bytes from `skb->data` on, and so compares what lies behind the linear
area in place of what is in the pages.

What the functions do that are not in `ip_input.c` is told by an environment. The effects of the
IP layer are a log, in which every reference to a packet that it gives up is an entry.

## Main definitions

* `Ip.Skb`, `Ip.IpSkb`, `Ip.Routed`: packets, those with a header in the linear area, and those that
  have a route.
* `Ip.Env`, `Ip.Effect`: the rest of the kernel, and what is done to it.
* `Ip.mayPull`, `Ip.ipRcvCore`.

## Main results

* `Ip.filter_blind_iff`: when the loop that looks for `HTTP` depends on what is no part of the
  packet.
* `Ip.accepted_well_formed`: what is accepted.

## References

* `linux/net/ipv4/ip_input.c`, lines 435–543.
-/

namespace ExKernel.Ip

/-! ### Packets -/

/-- `skb->pkt_type`: for this host, to all, to a group, or to someone else. -/
inductive PktType
  | host
  | broadcast
  | multicast
  | otherhost
  deriving DecidableEq

/-- A network device: its namespace and its index therein. -/
structure NetDevice where
  net : ℕ
  ifindex : ℕ
  deriving DecidableEq

/-- `rt_type` of a route, as far as the receive path tells routes apart. -/
inductive RtType
  | unicast
  | toLocal
  | broadcast
  | multicast
  deriving DecidableEq

/-- A destination entry; one with the flag `DST_METADATA` carries the metadata of a tunnel and is no
route. -/
structure Dst where
  id : ℕ
  rtType : RtType
  metadata : Bool
  deriving DecidableEq

/-- What the receive path reads and writes of a packet. `id` stands for the reference to it, or for
that of the clone that is taken in exchange; `linear` are the bytes from `skb->data` on that are in
the linear area, and `paged` those that follow in pages; `transportHeader` is counted from the
network header; `optlen`, `srr` and `iif` are in the control block. -/
structure Skb where
  id : ℕ
  pktType : PktType
  dev : NetDevice
  skbIif : ℕ
  gsoSegs : ℕ
  linear : List UInt8
  paged : List UInt8
  dst : Option Dst
  sk : Option ℕ
  transportHeader : ℕ
  optlen : ℕ
  srr : Bool
  iif : ℕ
  deriving DecidableEq

/-- The bytes of the packet, wherever they are. -/
def Skb.bytes (skb : Skb) : List UInt8 := skb.linear ++ skb.paged

/-- `skb->len`. -/
def Skb.len (skb : Skb) : ℕ := skb.linear.length + skb.paged.length

@[simp]
theorem Skb.length_bytes (skb : Skb) : skb.bytes.length = skb.len :=
  List.length_append

/-- `sizeof(struct iphdr)`. -/
def sizeofIphdr : ℕ := 20

/-- A packet of which a header without options is in the linear area. -/
structure IpSkb extends Skb where
  hdr_le : sizeofIphdr ≤ linear.length
  deriving DecidableEq

/-- A packet that has a route. -/
structure Routed extends IpSkb where
  rt : Dst
  dst_eq : dst = some rt
  deriving DecidableEq

/-! ### The header -/

/-- The fields of the IP header that the receive path reads. -/
structure Iphdr where
  ihl : ℕ
  version : ℕ
  tos : UInt8
  totLen : ℕ
  fragOff : ℕ
  protocol : UInt8
  saddr : ℕ
  daddr : ℕ
  deriving DecidableEq

/-- The number with the digits `bytes`, in network byte order. -/
def ofDigits (bytes : List UInt8) : ℕ := bytes.foldl (fun n b => 256 * n + b.toNat) 0

/-- The header at the beginning of `bytes`. -/
def Iphdr.ofBytes (bytes : List UInt8) (h : sizeofIphdr ≤ bytes.length) : Iphdr :=
  let byte (i : Fin sizeofIphdr) : UInt8 := bytes.get (i.castLE h)
  { ihl := (byte ⟨0, by decide⟩).toNat % 16
    version := (byte ⟨0, by decide⟩).toNat / 16
    tos := byte ⟨1, by decide⟩
    totLen := ofDigits [byte ⟨2, by decide⟩, byte ⟨3, by decide⟩]
    fragOff := ofDigits [byte ⟨6, by decide⟩, byte ⟨7, by decide⟩]
    protocol := byte ⟨9, by decide⟩
    saddr := ofDigits [byte ⟨12, by decide⟩, byte ⟨13, by decide⟩, byte ⟨14, by decide⟩,
      byte ⟨15, by decide⟩]
    daddr := ofDigits [byte ⟨16, by decide⟩, byte ⟨17, by decide⟩, byte ⟨18, by decide⟩,
      byte ⟨19, by decide⟩] }

/-- `ip_is_fragment(iph)`: one of `IP_MF | IP_OFFSET` is set. -/
def Iphdr.isFragment (iph : Iphdr) : Bool := iph.fragOff % 2 ^ 14 ≠ 0

theorem Iphdr.ofBytes_of_prefix {l l' : List UInt8} (h : sizeofIphdr ≤ l.length) (hp : l <+: l')
    (h' : sizeofIphdr ≤ l'.length) : Iphdr.ofBytes l h = Iphdr.ofBytes l' h' := by
  obtain ⟨r, rfl⟩ := hp
  have hbyte : ∀ i : Fin sizeofIphdr, (l ++ r).get (i.castLE h') = l.get (i.castLE h) := by
    intro i
    exact List.getElem_append_left (i.isLt.trans_le h)
  simp only [Iphdr.ofBytes, hbyte]

/-- `ip_hdr(skb)`. -/
def IpSkb.ipHdr (skb : IpSkb) : Iphdr := Iphdr.ofBytes skb.linear skb.hdr_le

/-! ### The rest of the kernel -/

/-- What a counter of the IP layer counts. `ecn` are the four of them that count packets by the two
bits of explicit congestion notification. -/
inductive Mib
  | inPkts
  | inDiscards
  | inHdrErrors
  | csumErrors
  | inTruncatedPkts
  | ecn (bits : UInt8)
  | inMcast
  | inBcast
  | ipRpFilter
  deriving DecidableEq

/-- What the IP layer does to the rest of the kernel: it adds to a counter of packets, and with some
of them to one of octets; prints that it found `HTTP` or a source route; gives up a packet in one of
several ways; and looks into the packet `hint` for the sake of the packet `id`. -/
inductive Effect
  | stats (net : ℕ) (mib : Mib) (packets octets : ℕ)
  | httpDetected
  | martian (saddr daddr : ℕ)
  | shareCheck (id : ℕ)
  | kfreeSkb (id : ℕ)
  | nfHook (id : ℕ)
  | l3mdev (id : ℕ)
  | readHint (id hint : ℕ)
  | dstInput (skb : Routed)
  deriving DecidableEq

/-- The packet that an effect gives up. -/
def Effect.ended : Effect → Option ℕ
  | .shareCheck id => some id
  | .kfreeSkb id => some id
  | .nfHook id => some id
  | .l3mdev id => some id
  | .dstInput skb => some skb.id
  | _ => none

/-- The packets that a log gives up, in order. -/
def ended (log : List Effect) : List ℕ := log.filterMap Effect.ended

/-- The log has no effect of the search for a route, nor is a packet handed on in it. -/
def Early (log : List Effect) : Prop :=
  ∀ e ∈ log, (∀ id hint, e ≠ .readHint id hint) ∧ ∀ skb, e ≠ .dstInput skb

/-- The settings of a device that has an address: `IN_DEV_SOURCE_ROUTE`, `IN_DEV_LOG_MARTIANS` and
`IN_DEV_ORCONF(in_dev, DROP_UNICAST_IN_L2_MULTICAST)`. -/
structure InDevice where
  sourceRoute : Bool
  logMartians : Bool
  dropUnicastInL2Multicast : Bool

/-- What the rest of the kernel does when it is called: the memory behind the linear area of a
packet; which allocations fail; the checksum of a header; what the hooks and the handler of a master
device make of a packet, if they give it back; what is known about routes, and the options of a
packet. A packet that is given back is the one that was handed over. -/
structure Env where
  behind : ℕ → ℕ → UInt8
  shareFails : ℕ → Bool
  pullFails : ℕ → ℕ → Bool
  trimFails : ℕ → Bool
  cowFails : ℕ → Bool
  ipFastCsum : List UInt8 → ℕ
  nfHook : ℕ → NetDevice → IpSkb → Option IpSkb
  l3mdevIpRcv : IpSkb → Option IpSkb
  ipRouteUseHint : NetDevice → IpSkb → Dst → Except ℤ Dst
  sysctlIpEarlyDemux : ℕ → Bool
  earlyDemux : UInt8 → Option (IpSkb → Except ℤ IpSkb)
  ipRouteInputNoref : NetDevice → IpSkb → Except ℤ Dst
  ipOptionsCompile : ℕ → IpSkb → Option Bool
  inDev : NetDevice → Option InDevice
  ipOptionsRcvSrr : NetDevice → Routed → Option Routed
  hasCustomRules : ℕ → Bool
  id_nfHook : ∀ net dev skb skb', nfHook net dev skb = some skb' → skb'.id = skb.id
  id_l3mdev : ∀ skb skb', l3mdevIpRcv skb = some skb' → skb'.id = skb.id
  id_earlyDemux : ∀ protocol edemux skb skb', earlyDemux protocol = some edemux →
    edemux skb = .ok skb' → skb'.id = skb.id
  id_rcvSrr : ∀ dev r r', ipOptionsRcvSrr dev r = some r' → r'.id = r.id

/-- `pskb_may_pull(skb, len)`: afterwards the first `len` bytes are in the linear area. -/
def mayPull (env : Env) (skb : Skb) (len : ℕ) :
    Option { s : Skb // len ≤ s.linear.length } :=
  if h : len ≤ skb.linear.length then some ⟨skb, h⟩
  else if hlen : skb.len < len then none
  else if env.pullFails skb.id len then none
  else some ⟨{ skb with
      linear := skb.linear ++ skb.paged.take (len - skb.linear.length)
      paged := skb.paged.drop (len - skb.linear.length) }, by
    simp only [Skb.len] at hlen
    simp only [List.length_append, List.length_take]
    omega⟩

/-- `pskb_trim_rcsum(skb, len)`: afterwards the packet has at most `len` bytes, and no more of the
linear area than necessary is cut off. -/
def pskbTrimRcsum (env : Env) (skb : Skb) (len : ℕ) :
    Option { s : Skb // min len skb.linear.length ≤ s.linear.length } :=
  if skb.len ≤ len then some ⟨skb, min_le_right _ _⟩
  else if env.trimFails skb.id then none
  else some ⟨{ skb with
      linear := skb.linear.take len
      paged := skb.paged.take (len - skb.linear.length) }, (List.length_take).ge⟩

/-! ### The entry of the IP layer -/

/-- The bytes that are read from `skb->data` on, as many as the packet has. -/
def scanned (env : Env) (skb : Skb) : List UInt8 :=
  skb.linear ++ (List.range skb.paged.length).map (env.behind skb.id)

/-- The loop that looks for `HTTP` drops the packet.

Source: `linux/net/ipv4/ip_input.c`, lines 459–476. -/
def Filtered (env : Env) (skb : Skb) : Prop :=
  Net.dropHttp (fun _ => 0) 0 (scanned env skb) = true

instance (env : Env) (skb : Skb) : Decidable (Filtered env skb) :=
  inferInstanceAs (Decidable (_ = true))

/-- The label `drop`. -/
def drop (skb : Skb) (log : List Effect) : List Effect × Option IpSkb :=
  (log ++ [.kfreeSkb skb.id], none)

/-- The label `inhdr_error`. -/
def inhdrError (net : ℕ) (skb : Skb) (log : List Effect) : List Effect × Option IpSkb :=
  drop skb (log ++ [.stats net .inHdrErrors 1 0])

/-- The label `csum_error`. -/
def csumError (net : ℕ) (skb : Skb) (log : List Effect) : List Effect × Option IpSkb :=
  inhdrError net skb (log ++ [.stats net .csumErrors 1 0])

/-- `ip_rcv_core`. A pull moves bytes and changes none, so the header is read only once here.

Source: `linux/net/ipv4/ip_input.c`, lines 435–543. -/
def ipRcvCore (env : Env) (net : ℕ) (skb : Skb) : List Effect × Option IpSkb :=
  if skb.pktType = .otherhost then drop skb []
  else
    let log := [.stats net .inPkts 1 skb.len]
    if env.shareFails skb.id then
      (log ++ [.shareCheck skb.id, .stats net .inDiscards 1 0], none)
    else match mayPull env skb sizeofIphdr with
      | none => inhdrError net skb log
      | some ⟨skb, hhdr⟩ =>
        let iph := Iphdr.ofBytes skb.linear hhdr
        if Filtered env skb then drop skb (log ++ [.httpDetected])
        else if hihl : iph.ihl < 5 ∨ iph.version ≠ 4 then inhdrError net skb log
        else
          let log := log ++ [.stats net (.ecn (iph.tos &&& 3)) (max 1 skb.gsoSegs) 0]
          match mayPull env skb (iph.ihl * 4) with
          | none => inhdrError net skb log
          | some ⟨skb, hoptions⟩ =>
            if env.ipFastCsum (skb.linear.take (iph.ihl * 4)) ≠ 0 then csumError net skb log
            else if skb.len < iph.totLen then
              drop skb (log ++ [.stats net .inTruncatedPkts 1 0])
            else if htot : iph.totLen < iph.ihl * 4 then inhdrError net skb log
            else match pskbTrimRcsum env skb iph.totLen with
              | none => drop skb (log ++ [.stats net .inDiscards 1 0])
              | some ⟨skb, htrim⟩ => (log, some { skb with
                  transportHeader := iph.ihl * 4
                  optlen := 0
                  srr := false
                  iif := skb.skbIif
                  sk := none
                  hdr_le := by
                    simp only [sizeofIphdr]
                    omega })

/-! ### Pulling and trimming -/

section Pull

variable {env : Env} {skb s : Skb} {len : ℕ}

/-- A pull moves bytes from the pages to the linear area, and does nothing else. -/
theorem mayPull_eq_some {hs : len ≤ s.linear.length} (h : mayPull env skb len = some ⟨s, hs⟩) :
    s.bytes = skb.bytes ∧ skb.linear <+: s.linear ∧
      s = { skb with linear := s.linear, paged := s.paged } := by
  unfold mayPull at h
  split_ifs at h with hle hlen hfails
  · cases h
    exact ⟨rfl, List.prefix_refl _, rfl⟩
  · cases h
    refine ⟨?_, List.prefix_append _ _, rfl⟩
    rw [Skb.bytes, List.append_assoc, List.take_append_drop]
    rfl

theorem mayPull_eq_none_iff (hpull : ∀ n, env.pullFails skb.id n = false) :
    mayPull env skb len = none ↔ skb.len < len := by
  unfold mayPull
  have hle : skb.linear.length ≤ skb.len := Nat.le_add_right _ _
  split_ifs with hlinear hlen hfails
  · simp only [false_iff, not_lt]
    exact hlinear.trans hle
  · simp [hlen]
  · rw [hpull] at hfails
    cases hfails
  · simp [hlen]

theorem pskbTrimRcsum_eq_some {hs : min len skb.linear.length ≤ s.linear.length}
    (h : pskbTrimRcsum env skb len = some ⟨s, hs⟩) :
    s.bytes = skb.bytes.take len ∧ s.linear <+: skb.linear ∧
      s = { skb with linear := s.linear, paged := s.paged } := by
  unfold pskbTrimRcsum at h
  split_ifs at h with hle hfails
  · cases h
    rw [List.take_of_length_le (by rw [Skb.length_bytes]; exact hle)]
    exact ⟨rfl, List.prefix_refl _, rfl⟩
  · cases h
    exact ⟨List.take_append.symm, List.take_prefix _ _, rfl⟩

end Pull

/-! ### What is accepted -/

/-- The bytes begin with a datagram: a header of version 4 with the right checksum, the length of
which is no more than that of the datagram, which in turn is no more than there is. -/
structure Datagram (env : Env) (bytes : List UInt8) : Prop where
  hdr_le : sizeofIphdr ≤ bytes.length
  version_eq : (Iphdr.ofBytes bytes hdr_le).version = 4
  five_le : 5 ≤ (Iphdr.ofBytes bytes hdr_le).ihl
  ihl_le : (Iphdr.ofBytes bytes hdr_le).ihl * 4 ≤ (Iphdr.ofBytes bytes hdr_le).totLen
  totLen_le : (Iphdr.ofBytes bytes hdr_le).totLen ≤ bytes.length
  csum_eq : env.ipFastCsum (bytes.take ((Iphdr.ofBytes bytes hdr_le).ihl * 4)) = 0

/-- The packet `skb'` is what the IP layer makes of `skb` when it accepts it. -/
structure Accepted (env : Env) (skb : Skb) (skb' : IpSkb) : Prop where
  ne_otherhost : skb.pktType ≠ .otherhost
  datagram : Datagram env skb.bytes
  bytes_eq : skb'.bytes = skb.bytes.take skb'.ipHdr.totLen
  ihl_le : skb'.ipHdr.ihl * 4 ≤ skb'.linear.length
  hdr_eq : skb'.ipHdr = Iphdr.ofBytes skb.bytes datagram.hdr_le
  rest_eq : skb'.toSkb = { skb with
    linear := skb'.linear
    paged := skb'.paged
    transportHeader := skb'.ipHdr.ihl * 4
    optlen := 0
    srr := false
    iif := skb.skbIif
    sk := none }

theorem drop_cases {skb s : Skb} {log : List Effect} (hid : s.id = skb.id) (hended : ended log = [])
    (hearly : Early log) : ∃ log', drop s log = (log', none) ∧ ended log' = [skb.id] ∧
      Early log' := by
  refine ⟨_, rfl, ?_, ?_⟩
  · rw [ended, List.filterMap_append, ← ended, hended, hid]
    rfl
  · intro e he
    rcases List.mem_append.mp he with he | he
    · exact hearly e he
    · rw [List.mem_singleton.mp he]
      exact ⟨nofun, nofun⟩

/-- **What becomes of a packet** at the entry: it is given up once, or accepted. -/
theorem ipRcvCore_cases (env : Env) (net : ℕ) (skb : Skb) :
    (∃ log, ipRcvCore env net skb = (log, none) ∧ ended log = [skb.id] ∧ Early log) ∨
      ∃ log skb', ipRcvCore env net skb = (log, some skb') ∧ ended log = [] ∧ Early log ∧
        Accepted env skb skb' := by
  unfold ipRcvCore
  split_ifs with hother hshare
  · exact .inl (drop_cases rfl rfl (by simp [Early]))
  · exact .inl ⟨_, rfl, rfl, by simp [Early]⟩
  rcases hpull : mayPull env skb sizeofIphdr with _ | ⟨s, hs⟩
  · exact .inl (drop_cases rfl rfl (by simp [Early]))
  obtain ⟨hbytes, -, hrest⟩ := mayPull_eq_some hpull
  have hid : s.id = skb.id := by rw [hrest]
  dsimp only
  by_cases hfiltered : Filtered env s
  · rw [if_pos hfiltered]
    exact .inl (drop_cases hid rfl (by simp [Early]))
  rw [if_neg hfiltered]
  by_cases hihl : (Iphdr.ofBytes s.linear hs).ihl < 5 ∨ (Iphdr.ofBytes s.linear hs).version ≠ 4
  · rw [dif_pos hihl]
    exact .inl (drop_cases hid rfl (by simp [Early]))
  rw [dif_neg hihl]
  rcases hpull' : mayPull env s ((Iphdr.ofBytes s.linear hs).ihl * 4) with _ | ⟨t, ht⟩
  · exact .inl (drop_cases hid rfl (by simp [Early]))
  obtain ⟨hbytes', hlinear', hrest'⟩ := mayPull_eq_some hpull'
  have hid' : t.id = skb.id := by rw [hrest', ← hid]
  dsimp only
  split_ifs with hcsum hlen htot
  · exact .inl (drop_cases hid' rfl (by simp [Early]))
  · exact .inl (drop_cases hid' rfl (by simp [Early]))
  · exact .inl (drop_cases hid' rfl (by simp [Early]))
  rcases htrim : pskbTrimRcsum env t (Iphdr.ofBytes s.linear hs).totLen with _ | ⟨u, hu⟩
  · exact .inl (drop_cases hid' rfl (by simp [Early]))
  obtain ⟨hbytes'', hprefix, hrest''⟩ := pskbTrimRcsum_eq_some htrim
  refine .inr ⟨_, _, rfl, rfl, by simp [Early], ?_⟩
  obtain ⟨hfive, hversion⟩ := not_or.mp hihl
  have hsle : sizeofIphdr ≤ skb.bytes.length :=
    hbytes ▸ hs.trans (List.prefix_append _ _).length_le
  have hiph : Iphdr.ofBytes s.linear hs = Iphdr.ofBytes skb.bytes hsle :=
    Iphdr.ofBytes_of_prefix hs (hbytes ▸ List.prefix_append _ _) hsle
  have hule : sizeofIphdr ≤ u.linear.length := by
    simp only [sizeofIphdr]
    omega
  have hiph' : Iphdr.ofBytes u.linear hule = Iphdr.ofBytes s.linear hs :=
    (Iphdr.ofBytes_of_prefix hule hprefix (hs.trans hlinear'.length_le)).trans
      (Iphdr.ofBytes_of_prefix hs hlinear' _).symm
  have hcsum' : t.linear.take ((Iphdr.ofBytes s.linear hs).ihl * 4) =
      skb.bytes.take ((Iphdr.ofBytes s.linear hs).ihl * 4) := by
    rw [← hbytes, ← hbytes', Skb.bytes, List.take_append_of_le_length ht]
  have hlen' : t.len = skb.bytes.length := by
    rw [← Skb.length_bytes, hbytes', hbytes]
  rw [hcsum'] at hcsum
  refine
    { ne_otherhost := hother
      datagram :=
        { hdr_le := hsle
          version_eq := hiph ▸ not_not.mp hversion
          five_le := hiph ▸ not_lt.mp hfive
          ihl_le := hiph ▸ not_lt.mp htot
          totLen_le := by
            rw [← hiph]
            omega
          csum_eq := hiph ▸ not_not.mp hcsum }
      bytes_eq := ?_
      ihl_le := ?_
      hdr_eq := hiph'.trans hiph
      rest_eq := ?_ }
  · rw [IpSkb.ipHdr, hiph', ← hbytes, ← hbytes', ← hbytes'']
    rfl
  · rw [IpSkb.ipHdr, hiph']
    dsimp only
    omega
  · have hrest : u = { skb with linear := u.linear, paged := u.paged } :=
      hrest''.trans (by rw [hrest', hrest])
    rw [IpSkb.ipHdr, hiph']
    exact congrArg (fun v : Skb => { v with
      transportHeader := (Iphdr.ofBytes s.linear hs).ihl * 4
      optlen := 0
      srr := false
      iif := v.skbIif
      sk := none }) hrest

theorem ipRcvCore_eq_some {env : Env} {net : ℕ} {skb : Skb} {skb' : IpSkb}
    (h : (ipRcvCore env net skb).2 = some skb') : Accepted env skb skb' := by
  rcases ipRcvCore_cases env net skb with ⟨log, hcore, -⟩ | ⟨log, t, hcore, -, -, haccepted⟩
  · rw [hcore] at h
    cases h
  · rw [hcore] at h
    exact Option.some.inj h ▸ haccepted

/-- A datagram is accepted if no allocation fails and the filter lets it pass. -/
theorem isSome_ipRcvCore {env : Env} {net : ℕ} {skb : Skb} (hshare : env.shareFails skb.id = false)
    (hpull : ∀ n, env.pullFails skb.id n = false) (htrim : env.trimFails skb.id = false)
    (hother : skb.pktType ≠ .otherhost) (hdatagram : Datagram env skb.bytes)
    (hpass : ∀ s, mayPull env skb sizeofIphdr = some s → ¬ Filtered env s.1) :
    (ipRcvCore env net skb).2.isSome := by
  obtain ⟨hle, hversion, hfive, hihl, htot, hcsum⟩ := hdatagram
  rw [Skb.length_bytes] at htot
  have hsle := hle
  rw [Skb.length_bytes] at hsle
  unfold ipRcvCore
  rw [if_neg hother, if_neg (by simp [hshare])]
  rcases hs : mayPull env skb sizeofIphdr with _ | ⟨s, hsl⟩
  · have hshort := (mayPull_eq_none_iff hpull).mp hs
    omega
  obtain ⟨hbytes, -, hrest⟩ := mayPull_eq_some hs
  have hid : s.id = skb.id := by rw [hrest]
  have hlen : s.len = skb.len := by rw [← Skb.length_bytes, hbytes, Skb.length_bytes]
  have hiph : Iphdr.ofBytes s.linear hsl = Iphdr.ofBytes skb.bytes hle :=
    Iphdr.ofBytes_of_prefix hsl (hbytes ▸ List.prefix_append _ _) hle
  have hgood : ¬ ((Iphdr.ofBytes s.linear hsl).ihl < 5 ∨
      (Iphdr.ofBytes s.linear hsl).version ≠ 4) := by
    rw [hiph]
    omega
  dsimp only
  rw [if_neg (hpass _ hs), dif_neg hgood]
  rcases ht : mayPull env s ((Iphdr.ofBytes s.linear hsl).ihl * 4) with _ | ⟨t, htl⟩
  · rw [mayPull_eq_none_iff (hid ▸ hpull), hiph] at ht
    omega
  obtain ⟨hbytes', -, hrest'⟩ := mayPull_eq_some ht
  have hlen' : t.len = skb.len := by rw [← Skb.length_bytes, hbytes', hbytes, Skb.length_bytes]
  have hcsum' :
      ¬ env.ipFastCsum (t.linear.take ((Iphdr.ofBytes s.linear hsl).ihl * 4)) ≠ 0 := by
    have htake : t.bytes.take ((Iphdr.ofBytes s.linear hsl).ihl * 4) =
        t.linear.take ((Iphdr.ofBytes s.linear hsl).ihl * 4) :=
      List.take_append_of_le_length htl
    rw [← htake, hbytes', hbytes, hiph]
    exact not_not.mpr hcsum
  have hlong : ¬ t.len < (Iphdr.ofBytes s.linear hsl).totLen := by
    rw [hiph]
    omega
  have htot' : ¬ (Iphdr.ofBytes s.linear hsl).totLen < (Iphdr.ofBytes s.linear hsl).ihl * 4 := by
    rw [hiph]
    omega
  dsimp only
  rw [if_neg hcsum', if_neg hlong, dif_neg htot']
  have htrim' : env.trimFails t.id = false := by rw [hrest', hid, htrim]
  unfold pskbTrimRcsum
  split_ifs with hall hfails
  · rfl
  · rw [htrim'] at hfails
    cases hfails
  · rfl

/-- **What is accepted.** If no allocation fails, a packet that comes in is accepted if and only if
it is not for someone else, its bytes begin with a datagram, wherever they are, and the loop that
looks for `HTTP` does not find it. In every case, what is accepted has no other bytes than those of
the datagram, its header with the options is in the linear area, and nothing is left in it of the
socket and of the control block of the layers below.

Source: `linux/net/ipv4/ip_input.c`, lines 435–543. -/
theorem accepted_well_formed (env : Env) (net : ℕ) (skb : Skb)
    (hshare : env.shareFails skb.id = false) (hpull : ∀ n, env.pullFails skb.id n = false)
    (htrim : env.trimFails skb.id = false) :
    ((ipRcvCore env net skb).2.isSome ↔ skb.pktType ≠ .otherhost ∧ Datagram env skb.bytes ∧
        ∀ s, mayPull env skb sizeofIphdr = some s → ¬ Filtered env s.1) ∧
      ∀ skb', (ipRcvCore env net skb).2 = some skb' → Accepted env skb skb' := by
  refine ⟨⟨fun h => ?_, fun h => isSome_ipRcvCore hshare hpull htrim h.1 h.2.1 h.2.2⟩,
    fun skb' h => ipRcvCore_eq_some h⟩
  obtain ⟨skb', hsome⟩ := Option.isSome_iff_exists.mp h
  have haccepted := ipRcvCore_eq_some hsome
  refine ⟨haccepted.ne_otherhost, haccepted.datagram, fun s hs hfiltered => ?_⟩
  rw [ipRcvCore, if_neg haccepted.ne_otherhost, if_neg (by simp [hshare]), hs] at hsome
  dsimp only at hsome
  rw [if_pos hfiltered] at hsome
  cases hsome

/-- The sum of the words of two bytes. -/
def sumOfWords : List UInt8 → ℕ
  | a :: b :: bytes => ofDigits [a, b] + sumOfWords bytes
  | _ => 0

/-- The complement of the sum, with end-around carry, of the words of two bytes. -/
def onesComplementChecksum (bytes : List UInt8) : ℕ :=
  if sumOfWords bytes = 0 then 65535 else 65535 - ((sumOfWords bytes - 1) % 65535 + 1)

/-- A kernel in which nothing fails, no packet is taken away, and the route is always `rt`. -/
def Env.still (rt : Dst) : Env where
  behind _ _ := 0
  shareFails _ := false
  pullFails _ _ := false
  trimFails _ := false
  cowFails _ := false
  ipFastCsum := onesComplementChecksum
  nfHook _ _ skb := some skb
  l3mdevIpRcv skb := some skb
  ipRouteUseHint _ _ hint := .ok hint
  sysctlIpEarlyDemux _ := false
  earlyDemux _ := none
  ipRouteInputNoref _ _ := .ok rt
  ipOptionsCompile _ _ := some false
  inDev _ := some ⟨false, false, false⟩
  ipOptionsRcvSrr _ r := some r
  hasCustomRules _ := false
  id_nfHook _ _ _ _ h := by rw [Option.some.inj h]
  id_l3mdev _ _ h := by rw [Option.some.inj h]
  id_earlyDemux _ _ _ _ h := by simp at h
  id_rcvSrr _ _ _ h := by rw [Option.some.inj h]

/-- A packet from the host to itself, with a header and nothing else, half of it in a page. -/
def loopback (id : ℕ) : Skb where
  id := id
  pktType := .host
  dev := ⟨0, 1⟩
  skbIif := 1
  gsoSegs := 0
  linear := [0x45, 0, 0, 20, 0, 0, 0, 0, 64, 17]
  paged := [0x7c, 0xd7, 127, 0, 0, 1, 127, 0, 0, 1]
  dst := none
  sk := none
  transportHeader := 0
  optlen := 0
  srr := false
  iif := 0

/-- A packet of a header alone is accepted. -/
theorem loopback_accepted :
    (ipRcvCore (Env.still ⟨0, .toLocal, false⟩) 0 (loopback 0)).2.isSome := by
  have hdatagram : Datagram (Env.still ⟨0, .toLocal, false⟩) (loopback 0).bytes :=
    { hdr_le := by decide
      version_eq := by decide
      five_le := by decide
      ihl_le := by decide
      totLen_le := by decide
      csum_eq := by decide }
  refine (accepted_well_formed _ 0 (loopback 0) rfl (fun _ => rfl) rfl).1.mpr
    ⟨by decide, hdatagram, ?_⟩
  intro s hs
  cases hs
  decide

/-! ### What the filter looks at -/

section Filter

open Matcher Net

/-- The letters that the filter compares with. -/
def letters : ℕ → UInt8 := keyword fun _ => 0

theorem dropHttp_cons (k : ℕ) (ch : UInt8) (data : List UInt8) :
    dropHttp (fun _ => 0) k (ch :: data) = if advance letters k ch = 4 then true
      else dropHttp (fun _ => 0) (advance letters k ch) data :=
  rfl

theorem dropHttp_append_of_true {k : ℕ} {p : List UInt8} (q : List UInt8)
    (h : dropHttp (fun _ => 0) k p = true) : dropHttp (fun _ => 0) k (p ++ q) = true := by
  induction p generalizing k with
  | nil => cases h
  | cons ch p ih =>
    rw [dropHttp_cons] at h
    rw [List.cons_append, dropHttp_cons]
    split_ifs at h ⊢ with hfour
    · rfl
    · exact ih h

/-- After bytes in which nothing is found, the filter goes on with the counter that they leave. -/
theorem dropHttp_append_of_false {k : ℕ} {p : List UInt8} (q : List UInt8)
    (h : dropHttp (fun _ => 0) k p = false) :
    dropHttp (fun _ => 0) k (p ++ q) = dropHttp (fun _ => 0) (walkFrom letters k p) q := by
  induction p generalizing k with
  | nil => rfl
  | cons ch p ih =>
    rw [dropHttp_cons] at h
    split_ifs at h with hfour
    rw [List.cons_append, dropHttp_cons, if_neg hfour, ih h]
    rfl

theorem walkFrom_lt {k : ℕ} (hk : k < 4) {p : List UInt8}
    (h : dropHttp (fun _ => 0) k p = false) : walkFrom letters k p < 4 := by
  induction p generalizing k with
  | nil => exact hk
  | cons ch p ih =>
    rw [dropHttp_cons] at h
    split_ifs at h with hfour
    refine ih ?_ h
    unfold advance at hfour ⊢
    split_ifs at hfour ⊢ <;> omega

theorem dropHttp_short {k : ℕ} {data : List UInt8} (h : k + data.length < 4) :
    dropHttp (fun _ => 0) k data = false := by
  induction data generalizing k with
  | nil => rfl
  | cons ch data ih =>
    have hlt : advance letters k ch + data.length < 4 := by
      rw [List.length_cons] at h
      unfold advance
      split_ifs <;> omega
    rw [dropHttp_cons, if_neg (by omega), ih hlt]

theorem dropHttp_letters {k n : ℕ} (hk : k < 4) (hn : 4 ≤ k + n) :
    dropHttp (fun _ => 0) k ((List.range n).map fun i => letters (k + i)) = true := by
  induction n generalizing k with
  | zero => omega
  | succ n ih =>
    have hnext : advance letters k (letters (k + 0)) = k + 1 := if_pos rfl
    rw [List.range_succ_eq_map, List.map_cons, dropHttp_cons, hnext, List.map_map]
    split_ifs with hfour
    · rfl
    · have htail : (fun i => letters (k + i)) ∘ Nat.succ = fun i => letters (k + 1 + i) := by
        funext i
        exact congrArg letters (by simp; omega)
      rw [htail]
      exact ih (by omega) (by omega)

theorem dropHttp_zeros {k : ℕ} (hk : k < 4) (n : ℕ) :
    dropHttp (fun _ => 0) k ((List.range n).map fun _ => 0) = false := by
  induction n generalizing k with
  | zero => rfl
  | succ n ih =>
    have hne : ∀ i < 4, (0 : UInt8) ≠ letters i := by decide
    have hnext : advance letters k 0 = 0 := if_neg (hne k hk)
    rw [List.range_succ_eq_map, List.map_cons, dropHttp_cons, hnext, List.map_map]
    exact ih (by decide)

theorem httpDetected_mem_iff (env : Env) (net : ℕ) (skb : Skb) :
    .httpDetected ∈ (ipRcvCore env net skb).1 ↔ skb.pktType ≠ .otherhost ∧
      env.shareFails skb.id = false ∧
        ∃ s, mayPull env skb sizeofIphdr = some s ∧ Filtered env s.1 := by
  have hdrop : ∀ (t : Skb) (log : List Effect),
      .httpDetected ∈ (drop t log).1 ↔ .httpDetected ∈ log := by
    intro t log
    simp [drop]
  unfold ipRcvCore
  split_ifs with hother hshare
  · simp [hdrop, hother]
  · simp [hshare]
  rcases hpull : mayPull env skb sizeofIphdr with _ | ⟨s, hs⟩
  · simp [inhdrError, hdrop]
  dsimp only
  by_cases hfiltered : Filtered env s
  · simp [hfiltered, hdrop, hother, hshare]
  · have hnone : ¬ ∃ t : { skb : Skb // sizeofIphdr ≤ skb.linear.length },
        some ⟨s, hs⟩ = some t ∧ Filtered env t.1 := by
      rintro ⟨t, heq, ht⟩
      cases heq
      exact hfiltered ht
    rw [if_neg hfiltered]
    simp only [hnone, and_false, iff_false]
    by_cases hihl : (Iphdr.ofBytes s.linear hs).ihl < 5 ∨ (Iphdr.ofBytes s.linear hs).version ≠ 4
    · simp [hihl, inhdrError, hdrop]
    rw [dif_neg hihl]
    rcases mayPull env s ((Iphdr.ofBytes s.linear hs).ihl * 4) with _ | ⟨t, ht⟩
    · simp [inhdrError, hdrop]
    dsimp only
    split_ifs
    · simp [csumError, inhdrError, hdrop]
    · simp [hdrop]
    · simp [inhdrError, hdrop]
    rcases pskbTrimRcsum env t (Iphdr.ofBytes s.linear hs).totLen with _ | ⟨u, hu⟩
    · simp [hdrop]
    · simp

/-- The memory behind the linear areas is used by the filter only. -/
theorem ipRcvCore_congr {env : Env} {behind behind' : ℕ → ℕ → UInt8} {net : ℕ} {skb : Skb}
    (h : ∀ s, mayPull env skb sizeofIphdr = some s →
      (Filtered { env with behind := behind } s.1 ↔ Filtered { env with behind := behind' } s.1)) :
    ipRcvCore { env with behind := behind } net skb =
      ipRcvCore { env with behind := behind' } net skb := by
  have hpull : ∀ b, mayPull { env with behind := b } skb sizeofIphdr =
      mayPull env skb sizeofIphdr := fun b => rfl
  unfold ipRcvCore
  split_ifs with hother hshare
  · rfl
  · rfl
  simp only [hpull]
  rcases hs : mayPull env skb sizeofIphdr with _ | ⟨s, hsl⟩
  · rfl
  have hiff := h _ hs
  by_cases hfiltered : Filtered { env with behind := behind } s
  · dsimp only
    rw [if_pos hfiltered, if_pos (hiff.mp hfiltered)]
  · dsimp only
    rw [if_neg hfiltered, if_neg fun h => hfiltered (hiff.mpr h)]
    rfl

/-- What is behind the linear area of a packet decides whether the filter drops it, unless the
keyword is in the linear area already, or more letters of it are missing than there are bytes in
the pages. -/
theorem filtered_const_iff (env : Env) (s : Skb) :
    (∀ behind behind', Filtered { env with behind := behind } s ↔
        Filtered { env with behind := behind' } s) ↔
      dropHttp (fun _ => 0) 0 s.linear = true ∨
        walkFrom letters 0 s.linear + s.paged.length < 4 := by
  constructor
  · intro h
    by_contra hnot
    obtain ⟨hpass, hlong⟩ := not_or.mp hnot
    rw [Bool.not_eq_true] at hpass
    have hlt := walkFrom_lt (by decide) hpass
    -- Behind the linear area there may be the missing letters, or only zero bytes.
    have hfound := (h (fun _ i => letters (walkFrom letters 0 s.linear + i)) fun _ _ => 0).mp (by
      rw [Filtered, scanned, dropHttp_append_of_false _ hpass]
      exact dropHttp_letters hlt (by omega))
    rw [Filtered, scanned, dropHttp_append_of_false _ hpass] at hfound
    rw [dropHttp_zeros hlt] at hfound
    cases hfound
  · rintro (hdrop | hshort) behind behind'
    · exact iff_of_true (dropHttp_append_of_true _ hdrop) (dropHttp_append_of_true _ hdrop)
    · by_cases hfound : dropHttp (fun _ => 0) 0 s.linear = true
      · exact iff_of_true (dropHttp_append_of_true _ hfound) (dropHttp_append_of_true _ hfound)
      have hnot : ∀ b, ¬ Filtered { env with behind := b } s := by
        intro b
        rw [Filtered, scanned, dropHttp_append_of_false _ (Bool.not_eq_true _ ▸ hfound)]
        rw [dropHttp_short (by simpa using hshort)]
        exact Bool.false_ne_true
      exact iff_of_false (hnot behind) (hnot behind')

/-- **When the filter is blind.** What the IP layer does with a packet does not depend on the memory
behind its linear area if and only if the packet does not come to the loop that looks for `HTTP`, or
the keyword is found in its linear area, or fewer bytes are in its pages than letters of the keyword
are missing there.

Source: `linux/net/ipv4/ip_input.c`, lines 459–476. -/
theorem filter_blind_iff (env : Env) (net : ℕ) (skb : Skb) :
    (∀ behind behind', ipRcvCore { env with behind := behind } net skb =
        ipRcvCore { env with behind := behind' } net skb) ↔
      skb.pktType = .otherhost ∨ env.shareFails skb.id = true ∨
        ∀ s, mayPull env skb sizeofIphdr = some s →
          dropHttp (fun _ => 0) 0 s.1.linear = true ∨
            walkFrom letters 0 s.1.linear + s.1.paged.length < 4 := by
  constructor
  · intro h
    by_cases hother : skb.pktType = .otherhost
    · exact .inl hother
    cases hshare : env.shareFails skb.id with
    | true => exact .inr (.inl rfl)
    | false =>
      refine .inr (.inr fun s hs => (filtered_const_iff env s.1).mp fun behind behind' => ?_)
      have hmem := iff_of_eq (congrArg (fun r => Effect.httpDetected ∈ r.1) (h behind behind'))
      simp only [httpDetected_mem_iff] at hmem
      have hiff : ∀ b, (∃ t, mayPull { env with behind := b } skb sizeofIphdr = some t ∧
          Filtered { env with behind := b } t.1) ↔ Filtered { env with behind := b } s.1 := by
        intro b
        constructor
        · rintro ⟨t, ht, hfiltered⟩
          exact Option.some.inj (hs.symm.trans ht) ▸ hfiltered
        · exact fun hfiltered => ⟨s, hs, hfiltered⟩
      rw [hiff, hiff] at hmem
      exact ⟨fun hf => (hmem.mp ⟨hother, hshare, hf⟩).2.2,
        fun hf => (hmem.mpr ⟨hother, hshare, hf⟩).2.2⟩
  · intro h behind behind'
    rcases h with hother | hshare | h
    · unfold ipRcvCore
      rw [if_pos hother, if_pos hother]
    · unfold ipRcvCore
      simp only [hshare, if_true]
    · exact ipRcvCore_congr fun s hs => (filtered_const_iff env s.1).mpr (h s hs) behind behind'

end Filter

end ExKernel.Ip
